import CodeGraph.Toml.Quoted

/-!
# Settings texts

A settings text is a sequence of lines: pairs of a key and a value, headers of tables, headers of
arrays of tables, comments and empty lines. The lines are put together into one table.

## Main Definitions

* `Toml.value?`: reads a value.
* `Toml.line?`: reads a line.
* `Toml.Entries.addPair?`, `Toml.Entries.openTable?`, `Toml.Entries.openRow?`: what a line adds to
  the table.
* `Toml.parse?`: reads a whole text.

## Design Notes

Brackets may be nested 79 deep and a dotted key may have 79 parts; the nesting bound is what the
recursion of `value?` runs on.
-/

namespace CodeGraph.Toml

/-- A key, in the parts between its dots. -/
abbrev Key := List String

/-- How deep brackets may be nested, and how many parts a key may have. -/
def depthLimit : Nat := 79

/-! ### Keys -/

/-- Whether a character can stand in a key without quotes. -/
def isBareKeyChar (c : Char) : Bool :=
  c.isAlphanum || c = '_' || c = '-'

/-- One part of a key, bare or quoted, and what follows it. -/
def keyPart? (cs : List Char) : Option (String × List Char) :=
  match cs.takeWhile isBareKeyChar with
  | [] => readShort? cs
  | bare => some (String.ofList bare, cs.dropWhile isBareKeyChar)

/-- A key of at most `parts` parts with blanks around each, and what follows it. -/
def keyOf? : (parts : Nat) → List Char → Option (Key × List Char)
  | 0, _ => none
  | parts + 1, cs => do
    let (part, rest) ← keyPart? (skipBlanks cs)
    match skipBlanks rest with
    | '.' :: more => do
      let (key, rest) ← keyOf? parts more
      return (part :: key, rest)
    | rest => return ([part], rest)

/-- A key and what follows it. -/
def key? (cs : List Char) : Option (Key × List Char) := keyOf? depthLimit cs

/-- Cuts the last part off a key. -/
def Key.split? (key : Key) : Option (Key × String) :=
  key.getLast?.map fun last => (key.dropLast, last)

/-! ### Adding to a table -/

namespace Entries

/-- Changes the table that a key leads to, making the tables on the way where there are none. A
header may pass through any table and through the last row of an array of tables; a dotted key may
not pass through a table with a header of its own. -/
def alter? (dotted : Bool) (change : Making → Entries → Option Entries) :
    Key → Making → Entries → Option Entries
  | [], made, entries => change made entries
  | part :: key, _, entries =>
    match Entries.get? entries part with
    | none => do
      let made : Making := if dotted then .dotted else .implied
      return entries.put part (.table made (← alter? dotted change key made []))
    | some (.table made inner) =>
      if made = .braces ∨ (dotted ∧ made = .header) then none
      else do return entries.put part (.table made (← alter? dotted change key made inner))
    | some (.tables rows) => do
      let last ← rows.getLast?
      let changed ← alter? dotted change key .header last
      return entries.put part (.tables (rows.dropLast ++ [changed]))
    | some _ => none

/-- Adds a pair. A key that is there already is refused, and so is a dotted key into a table that no
dotted key made. -/
def addPair? (made : Making) (entries : Entries) (path : Key) (key : String) (value : Value) :
    Option Entries :=
  alter? true (fun made inner =>
    if decide (made = .dotted) = path.isEmpty ∨ (inner.get? key).isSome then none
    else some (inner.put key value)) path made entries

/-- Opens a table by its header. A table that was only made on the way to another may be opened
once. -/
def openTable? (entries : Entries) (path : Key) (key : String) : Option Entries :=
  alter? false (fun _ inner =>
    match inner.get? key with
    | none => some (inner.put key (.table .header []))
    | some (.table .implied found) => some (inner.put key (.table .header found))
    | some _ => none) path .header entries

/-- Opens a new row of an array of tables. -/
def openRow? (entries : Entries) (path : Key) (key : String) : Option Entries :=
  alter? false (fun _ inner =>
    match inner.get? key with
    | none => some (inner.put key (.tables [[]]))
    | some (.tables rows) => some (inner.put key (.tables (rows ++ [[]])))
    | some _ => none) path .header entries

end Entries

/-! ### Comments and blanks -/

/-- What follows a comment up to its line end, when there is a comment; nothing when the comment
holds a control character. -/
def skipComment? : List Char → Option (List Char)
  | '#' :: cs =>
    match cs.dropWhile isPlain with
    | [] => some []
    | rest => (lineEnd? rest).map fun _ => rest
  | cs => some cs

/-- What is left after blanks, comments and line ends. The first argument bounds the number of
lines. -/
def skipAll? : Nat → List Char → Option (List Char)
  | 0, _ => none
  | steps + 1, cs => do
    let rest ← skipComment? (skipLines cs)
    match lineEnd? rest with
    | some below => skipAll? steps below
    | none => some rest

/-- What is left after blanks, comments and line ends. -/
def skip? (cs : List Char) : Option (List Char) := skipAll? (cs.length + 1) cs

/-! ### Values -/

/-- A way to read something: what was read and what follows it. -/
abbrev Reader (α : Type) := List Char → Option (α × List Char)

/-- The items of an array up to the closing bracket. The second argument bounds the number of
items. -/
def items? (item? : Reader Value) : Nat → Reader (List Value)
  | 0, _ => none
  | steps + 1, cs => do
    match ← skip? cs with
    | ']' :: rest => return ([], rest)
    | cs => do
      let (item, rest) ← item? cs
      match ← skip? rest with
      | ',' :: rest => do
        let (items, rest) ← items? item? steps rest
        return (item :: items, rest)
      | ']' :: rest => return ([item], rest)
      | _ => none

/-- A key, the sign between key and value, and a value. -/
def pair? (item? : Reader Value) : Reader (Key × Value) := fun cs => do
  let (key, rest) ← key? cs
  let (value, rest) ← item? (skipBlanks (← after? '=' rest))
  return ((key, value), rest)

/-- The pairs of a table in braces up to the closing brace, at least one. The third argument bounds
their number. -/
def pairs? (item? : Reader Value) (entries : Entries) : Nat → Reader Entries
  | 0, _ => none
  | steps + 1, cs => do
    let ((key, value), rest) ← pair? item? cs
    let (path, last) ← Key.split? key
    let entries ← Entries.addPair? .braces entries path last value
    match skipBlanks rest with
    | ',' :: rest => pairs? item? entries steps rest
    | '\x7d' :: rest => return (entries, rest)
    | _ => none

/-- A value and what follows it; brackets may be nested `depth` deep. -/
def value? : (depth : Nat) → Reader Value
  | _, '"' :: cs => (readQuoted? ('"' :: cs)).map fun (text, rest) => (.text text, rest)
  | _, '\'' :: cs => (readQuoted? ('\'' :: cs)).map fun (text, rest) => (.text text, rest)
  | 0, '[' :: _ => none
  | depth + 1, '[' :: cs =>
    (items? (value? depth) (cs.length + 1) cs).map fun (items, rest) => (.array items, rest)
  | 0, '\x7b' :: _ => none
  | depth + 1, '\x7b' :: cs =>
    match skipBlanks cs with
    | '\x7d' :: rest => some (.table .braces [], rest)
    | _ =>
      (pairs? (value? depth) [] (cs.length + 1) cs).map
        fun (entries, rest) => (.table .braces entries, rest)
  | _, cs =>
    let (run, rest) := scalarRun cs
    (scalar? run).map fun value => (value, rest)

/-! ### Lines -/

/-- What a line says. -/
inductive Line where
  | pair (key : Key) (value : Value)
  | header (key : Key)
  | rowHeader (key : Key)

/-- What follows the end of a line, when nothing but blanks and a comment come before it. -/
def endOfLine? (cs : List Char) : Option (List Char) := do
  match ← skipComment? (skipBlanks cs) with
  | [] => some []
  | rest => lineEnd? rest

/-- Reads a line that is neither empty nor a comment. -/
def line? : Reader Line
  | '[' :: '[' :: cs => do
    let (key, rest) ← key? cs
    let rest ← endOfLine? (← after? ']' (← after? ']' rest))
    return (.rowHeader key, rest)
  | '[' :: cs => do
    let (key, rest) ← key? cs
    let rest ← endOfLine? (← after? ']' rest)
    return (.header key, rest)
  | cs => do
    let ((key, value), rest) ← pair? (value? depthLimit) cs
    return (.pair key value, ← endOfLine? rest)

/-- Reads lines up to the end. The first argument bounds their number. -/
def lines? : Nat → List Char → Option (List Line)
  | 0, _ => none
  | steps + 1, cs => do
    match ← skip? cs with
    | [] => some []
    | cs => do
      let (line, rest) ← line? cs
      return line :: (← lines? steps rest)

/-- The table made so far, and the key of the table that pairs go to. -/
structure Progress where
  /-- The whole table. -/
  entries : Entries := []
  /-- The table whose header came last. -/
  current : Key := []

/-- What one more line adds. -/
def Progress.step? (progress : Progress) : Line → Option Progress
  | .header key => do
    let (path, last) ← Key.split? key
    return ⟨← progress.entries.openTable? path last, key⟩
  | .rowHeader key => do
    let (path, last) ← Key.split? key
    return ⟨← progress.entries.openRow? path last, key⟩
  | .pair key value => do
    let (path, last) ← Key.split? key
    let entries ← Entries.alter? false
      (fun made inner => inner.addPair? made path last value) progress.current .header
      progress.entries
    return { progress with entries }

/-- The byte order mark, which may stand at the start of a text. -/
def byteOrderMark : Char := Char.ofNat 0xFEFF

/-- Reads a settings text into one table. -/
def parse? (text : String) : Option Value := do
  let cs := match text.toList with
    | c :: cs => if c = byteOrderMark then cs else c :: cs
    | [] => []
  let lines ← lines? (cs.length + 1) cs
  let progress ← lines.foldlM Progress.step? {}
  return .table .header progress.entries

end CodeGraph.Toml
