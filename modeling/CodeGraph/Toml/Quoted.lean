import CodeGraph.Toml.Scalar

/-!
# Quoted texts

Texts stand in one of four kinds of quotes: basic quotes with escapes, literal quotes without, and
both in a form of three quotes that may hold line ends. Reading accepts all four; writing picks the
first kind that shows the text as it is, and escapes only when none does.

## Main Definitions

* `Toml.readQuoted?`: a quoted text and what follows it.
* `Toml.quoted`: a text in the quotes that suit it.
-/

namespace CodeGraph.Toml

/-! ### Reading -/

/-- Whether a character may stand for itself in a text: a tab, or anything that is no control
character. -/
def isPlain (c : Char) : Bool :=
  c = '\t' || (0x20 ≤ c.toNat && c.toNat ≠ 0x7F)

/-- The character with a code point, when there is one. -/
def charOf? (n : Nat) : Option Char :=
  if n.isValidChar then some (Char.ofNat n) else none

/-- The character of an escape, given what follows the backslash, and what follows the escape. -/
def escape? : List Char → Option (Char × List Char)
  | 'b' :: cs => some (Char.ofNat 8, cs)
  | 't' :: cs => some ('\t', cs)
  | 'n' :: cs => some ('\n', cs)
  | 'f' :: cs => some (Char.ofNat 12, cs)
  | 'r' :: cs => some ('\r', cs)
  | '"' :: cs => some ('"', cs)
  | '\\' :: cs => some ('\\', cs)
  | 'u' :: cs => coded 4 cs
  | 'U' :: cs => coded 8 cs
  | _ => none
where
  /-- The character with a code point of `width` hexadecimal digits. -/
  coded (width : Nat) (cs : List Char) : Option (Char × List Char) := do
    let digits ← (cs.take width).mapM Text.hexadecimal?
    if digits.length = width then
      return (← charOf? (Text.numberOf 16 digits), cs.drop width)
    else none

/-- The rest of a text in basic quotes, and what follows the closing quote. The first argument
bounds the number of steps. -/
def basic? : Nat → List Char → Option (List Char × List Char)
  | 0, _ => none
  | _ + 1, [] => none
  | _ + 1, '"' :: cs => some ([], cs)
  | steps + 1, '\\' :: cs => do
    let (c, cs) ← escape? cs
    let (text, rest) ← basic? steps cs
    return (c :: text, rest)
  | steps + 1, c :: cs =>
    if isPlain c then do
      let (text, rest) ← basic? steps cs
      return (c :: text, rest)
    else none

/-- The rest of a text in literal quotes, and what follows the closing quote. -/
def literal? : List Char → Option (List Char × List Char)
  | [] => none
  | '\'' :: cs => some ([], cs)
  | c :: cs =>
    if isPlain c then do
      let (text, rest) ← literal? cs
      return (c :: text, rest)
    else none

/-- What follows a line end. -/
def lineEnd? : List Char → Option (List Char)
  | '\n' :: cs => some cs
  | '\r' :: '\n' :: cs => some cs
  | _ => none

/-- What is left after blanks and tabs. -/
def skipBlanks (cs : List Char) : List Char :=
  cs.dropWhile fun c => c = ' ' || c = '\t'

/-- What is left after blanks, tabs and line ends. -/
def skipLines : List Char → List Char
  | ' ' :: cs | '\t' :: cs | '\n' :: cs | '\r' :: '\n' :: cs => skipLines cs
  | cs => cs

/-- The quotes that close a text of three quotes, when they do: of three to five quotes in a row the
last three close it. Gives the quotes that still belong to the text, and what follows. -/
def closing? (quote : Char) (cs : List Char) : Option (List Char × List Char) :=
  let count := min 5 (cs.takeWhile (· = quote)).length
  if 3 ≤ count then some (List.replicate (count - 3) quote, cs.drop count) else none

/-- The rest of a text in three basic quotes. A backslash at the end of a line joins it to the next
text. The first argument bounds the number of steps. -/
def longBasic? : Nat → List Char → Option (List Char × List Char)
  | 0, _ => none
  | _ + 1, [] => none
  | steps + 1, '\\' :: cs =>
    match lineEnd? (skipBlanks cs) with
    | some below => longBasic? steps (skipLines below)
    | none => do
      let (c, cs) ← escape? cs
      let (text, rest) ← longBasic? steps cs
      return (c :: text, rest)
  | steps + 1, c :: cs =>
    match closing? '"' (c :: cs), lineEnd? (c :: cs) with
    | some closed, _ => some closed
    | none, some below => do
      let (text, rest) ← longBasic? steps below
      return ('\n' :: text, rest)
    | none, none =>
      if isPlain c then do
        let (text, rest) ← longBasic? steps cs
        return (c :: text, rest)
      else none

/-- The rest of a text in three literal quotes. The first argument bounds the number of steps. -/
def longLiteral? : Nat → List Char → Option (List Char × List Char)
  | 0, _ => none
  | _ + 1, [] => none
  | steps + 1, c :: cs =>
    match closing? '\'' (c :: cs), lineEnd? (c :: cs) with
    | some closed, _ => some closed
    | none, some below => do
      let (text, rest) ← longLiteral? steps below
      return ('\n' :: text, rest)
    | none, none =>
      if isPlain c then do
        let (text, rest) ← longLiteral? steps cs
        return (c :: text, rest)
      else none

/-- A quoted text on one line, and what follows it. -/
def readShort? : List Char → Option (String × List Char)
  | '"' :: cs => (basic? (cs.length + 1) cs).map fun (text, rest) => (String.ofList text, rest)
  | '\'' :: cs => (literal? cs).map fun (text, rest) => (String.ofList text, rest)
  | _ => none

/-- A quoted text of any kind, and what follows it. A line end right after three opening quotes does
not belong to the text. -/
def readQuoted? (cs : List Char) : Option (String × List Char) :=
  match cs with
  | '"' :: '"' :: '"' :: cs =>
    (longBasic? (cs.length + 1) ((lineEnd? cs).getD cs)).map
      fun (text, rest) => (String.ofList text, rest)
  | '\'' :: '\'' :: '\'' :: cs =>
    (longLiteral? (cs.length + 1) ((lineEnd? cs).getD cs)).map
      fun (text, rest) => (String.ofList text, rest)
  | _ => readShort? cs

/-! ### Writing -/

/-- The length of the longest run of a character. -/
def longestRun (wanted : Char) (cs : List Char) : Nat :=
  (cs.foldl (fun (run, longest) c =>
    let run := if c = wanted then run + 1 else 0
    (run, max longest run)) (0, 0)).2

/-- Whether a character can only be written as an escape. -/
def needsEscape (c : Char) : Bool :=
  (c.toNat < 0x20 && c ≠ '\t' && c ≠ '\n') || c.toNat = 0x7F

/-- How a character stands in basic quotes; quotes are looked at by the caller. -/
def escapeBasic (long : Bool) (c : Char) : List Char :=
  if c.toNat = 8 then ['\\', 'b']
  else if c = '\t' then ['\\', 't']
  else if c = '\n' then if long then ['\n'] else ['\\', 'n']
  else if c.toNat = 12 then ['\\', 'f']
  else if c = '\r' then ['\\', 'r']
  else if c = '\\' then ['\\', '\\']
  else if needsEscape c then ['\\', 'u'] ++ (Text.hexDigits 4 c.toNat).map Char.toUpper
  else [c]

/-- The text between basic quotes. On one line every quote is escaped, between three quotes only the
third of a run; `run` counts the quotes that stand in front unescaped. -/
def basicBody (long : Bool) : Nat → List Char → List Char
  | _, [] => []
  | run, c :: cs =>
    if c = '"' then
      if long && run < 2 then '"' :: basicBody long (run + 1) cs
      else '\\' :: '"' :: basicBody long 0 cs
    else escapeBasic long c ++ basicBody long 0 cs

/-- A text in quotes: basic ones when it needs no escape, then literal ones, then three basic or
three literal quotes, and basic ones with escapes when nothing else will do. A text with a line end
starts on a line of its own. -/
def quoted (text : String) : String :=
  let cs := text.toList
  let escapes := cs.any needsEscape
  let backslash := cs.contains '\\'
  let lines := cs.contains '\n'
  let opening := if lines then "\n" else ""
  if !escapes && !backslash && longestRun '"' cs = 0 && !lines then
    "\"" ++ String.ofList (basicBody false 0 cs) ++ "\""
  else if !escapes && longestRun '\'' cs = 0 && !lines then "'" ++ text ++ "'"
  else if !escapes && !backslash && longestRun '"' cs ≤ 2 then
    "\"\"\"" ++ opening ++ String.ofList (basicBody true 0 cs) ++ "\"\"\""
  else if !escapes && longestRun '\'' cs ≤ 2 then "'''" ++ opening ++ text ++ "'''"
  else if lines then "\"\"\"" ++ opening ++ String.ofList (basicBody true 0 cs) ++ "\"\"\""
  else "\"" ++ String.ofList (basicBody false 0 cs) ++ "\""

end CodeGraph.Toml
