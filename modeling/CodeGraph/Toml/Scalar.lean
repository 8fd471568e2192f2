import CodeGraph.Text.Digit
import CodeGraph.Toml.Value

/-!
# Numbers, truth values and moments in time

A value that is neither quoted nor bracketed is a run of letters, digits and a few signs. Each such
run is read as a whole: it is a moment in time, a float, an integer or a truth value, or nothing.

## Main Definitions

* `Toml.scalar?`: the value of such a run.

## Design Notes

Digits may have single underscores between them. Integers fit 64 bits with a sign; a float that is
too large for a double is refused.
-/

namespace CodeGraph.Toml

/-! ### Digits -/

/-- The value of a digit of a base. -/
def digit? (base : Nat) (c : Char) : Option Nat :=
  (Text.hexadecimal? c).filter (· < base)

/-- The digits after the first, each alone or behind one underscore. -/
def moreDigits? (base : Nat) : List Char → Option (List Nat)
  | [] => some []
  | '_' :: c :: cs => do return (← digit? base c) :: (← moreDigits? base cs)
  | c :: cs => do return (← digit? base c) :: (← moreDigits? base cs)

/-- At least one digit, with single underscores between digits allowed. -/
def digits? (base : Nat) : List Char → Option (List Nat)
  | [] => none
  | c :: cs => do return (← digit? base c) :: (← moreDigits? base cs)

/-- A sign in front and what follows it; a missing sign is plus. -/
def signed : List Char → Bool × List Char
  | '-' :: cs => (true, cs)
  | '+' :: cs => (false, cs)
  | cs => (false, cs)

/-- Decimal digits without a leading zero, zero itself apart. -/
def plainDigits? (cs : List Char) : Option (List Nat) :=
  match cs with
  | '0' :: _ :: _ => none
  | _ => digits? 10 cs

/-! ### Integers -/

/-- The largest integer a settings text can hold. -/
def maxInteger : Nat := Nat.pow 2 63 - 1

/-- An integer in base 16, 8 or 2, marked as such in front. -/
def markedInteger? (base : Nat) (cs : List Char) : Option Int := do
  let n := Text.numberOf base (← digits? base cs)
  if n ≤ maxInteger then some n else none

/-- An integer. -/
def integer? : List Char → Option Int
  | '0' :: 'x' :: cs => markedInteger? 16 cs
  | '0' :: 'o' :: cs => markedInteger? 8 cs
  | '0' :: 'b' :: cs => markedInteger? 2 cs
  | cs => do
    let (negative, rest) := signed cs
    let n := Text.numberOf 10 (← plainDigits? rest)
    if negative then if n ≤ maxInteger + 1 then some (-(n : Int)) else none
    else if n ≤ maxInteger then some n else none

/-! ### Floats -/

/-- The part of a list before the first member that satisfies `p`, and from there on. -/
def breakAt (p : Char → Bool) (cs : List Char) : List Char × List Char :=
  (cs.takeWhile fun c => !p c, cs.dropWhile fun c => !p c)

/-- The least number that is rounded to infinity when read as a double. -/
def overflowBound : Nat := Nat.pow 2 1024 - Nat.pow 2 970

/-- Whether `mantissa · 10 ^ exponent` is below the bound of doubles. Exponents far outside the
range of doubles are decided by the number of digits alone. -/
def isFinite (digits : Nat) (mantissa : Nat) (exponent : Int) : Bool :=
  if mantissa = 0 then true
  else if exponent ≥ 400 then false
  else if exponent ≥ 0 then mantissa * Nat.pow 10 exponent.toNat < overflowBound
  else if digits + exponent < 300 then true
  else mantissa < overflowBound * Nat.pow 10 (-exponent).toNat

/-- A float with a point, an exponent or both. -/
def decimalFloat? (cs : List Char) : Option Unit := do
  let (negative, rest) := signed cs
  let (beforeExponent, exponentPart) := breakAt (fun c => c = 'e' || c = 'E') rest
  let (wholePart, fractionPart) := breakAt (· = '.') beforeExponent
  let whole ← plainDigits? wholePart
  let fraction ← match fractionPart with
    | [] => some []
    | _ :: digits => digits? 10 digits
  let exponent ← match exponentPart with
    | [] => if fractionPart.isEmpty then none else some (0 : Int)
    | _ :: written => do
      let (down, digits) := signed written
      let n := Text.numberOf 10 (← digits? 10 digits)
      some (if down then -(n : Int) else n)
  let digits := whole ++ fraction
  if negative || isFinite digits.length (Text.numberOf 10 digits) (exponent - fraction.length) then
    some ()
  else none

/-- Whether a run is a float. -/
def isFloat (cs : List Char) : Bool :=
  (signed cs).2 = ['i', 'n', 'f'] || (signed cs).2 = ['n', 'a', 'n'] || (decimalFloat? cs).isSome

/-! ### Moments in time -/

/-- A number of exactly `width` decimal digits between two bounds, and what follows it. -/
def field? (width low high : Nat) (cs : List Char) : Option (Nat × List Char) := do
  let n := Text.numberOf 10 (← (cs.take width).mapM Text.decimal?)
  if (cs.take width).length = width ∧ low ≤ n ∧ n ≤ high then some (n, cs.drop width) else none

/-- What follows an expected character. -/
def after? (expected : Char) : List Char → Option (List Char)
  | c :: cs => if c = expected then some cs else none
  | [] => none

/-- The number of days in a month. -/
def daysIn (year month : Nat) : Nat :=
  if month = 2 then
    if year % 4 = 0 ∧ (year % 100 ≠ 0 ∨ year % 400 = 0) then 29 else 28
  else if month = 4 ∨ month = 6 ∨ month = 9 ∨ month = 11 then 30
  else 31

/-- A date, and what follows it. -/
def date? (cs : List Char) : Option (List Char) := do
  let (year, cs) ← field? 4 0 9999 cs
  let (month, cs) ← field? 2 1 12 (← after? '-' cs)
  let (_, cs) ← field? 2 1 (daysIn year month) (← after? '-' cs)
  return cs

/-- A time of day, and what follows it. -/
def time? (cs : List Char) : Option (List Char) := do
  let (_, cs) ← field? 2 0 23 cs
  let (_, cs) ← field? 2 0 59 (← after? ':' cs)
  let (_, cs) ← field? 2 0 60 (← after? ':' cs)
  match cs with
  | '.' :: rest =>
    if (rest.takeWhile fun c => (Text.decimal? c).isSome).isEmpty then none
    else some (rest.dropWhile fun c => (Text.decimal? c).isSome)
  | _ => some cs

/-- Whether a run is empty or the distance of a time zone. -/
def isOffset : List Char → Bool
  | [] | ['Z'] | ['z'] => true
  | sign :: cs =>
    (sign = '+' || sign = '-') &&
      (do
        let (_, cs) ← field? 2 0 23 cs
        let (_, cs) ← field? 2 0 59 (← after? ':' cs)
        return cs.isEmpty).getD false

/-- Whether a run is a date, a time of day, or a date and a time with or without a time zone. -/
def isMoment (cs : List Char) : Bool :=
  match date? cs with
  | some [] => true
  | some (delimiter :: rest) =>
    (delimiter = 'T' || delimiter = 't' || delimiter = ' ') && ((time? rest).any isOffset)
  | none => (time? cs).any List.isEmpty

/-! ### Any of them -/

/-- The value of a run of characters that is neither quoted nor bracketed. -/
def scalar? (cs : List Char) : Option Value :=
  if cs = ['t', 'r', 'u', 'e'] then some (.boolean true)
  else if cs = ['f', 'a', 'l', 's', 'e'] then some (.boolean false)
  else if isMoment cs then some (.moment (String.ofList cs))
  else if isFloat cs then some (.float (String.ofList cs))
  else (integer? cs).map .integer

/-- Whether a character can stand in such a run. -/
def isScalarChar (c : Char) : Bool :=
  c.isAlphanum || c = '+' || c = '-' || c = '.' || c = '_' || c = ':'

/-- A run and what follows it. A blank belongs to the run when it stands between a date and a
time of day. -/
def scalarRun (cs : List Char) : List Char × List Char :=
  let run := cs.takeWhile isScalarChar
  let rest := cs.dropWhile isScalarChar
  match date? run, rest with
  | some [], ' ' :: more =>
    match field? 2 0 23 more with
    | some (_, ':' :: _) => (run ++ ' ' :: more.takeWhile isScalarChar, more.dropWhile isScalarChar)
    | _ => (run, rest)
  | _, _ => (run, rest)

end CodeGraph.Toml
