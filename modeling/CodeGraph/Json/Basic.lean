import CodeGraph.Text.Digit

/-!
# JSON values and their text

Graphs are exchanged as JSON. This module has the values and the two written forms: the compact one
without blanks, and the indented one with two spaces for each level.

## Main Definitions

* `Json`: a JSON value, with the fields of an object in written order.
* `Json.field?`: the value under a name of an object.
* `Json.compact`, `Json.pretty`: the two written forms.

## Design Notes

Only what JSON demands is escaped: quotes, backslashes and control characters. All other
characters, among them `/` and everything outside ASCII, stand for themselves.
-/

namespace CodeGraph

/-- A JSON value. A number is kept as its written text. -/
inductive Json where
  | null
  | bool (value : Bool)
  | number (text : String)
  | str (text : String)
  | arr (items : List Json)
  | obj (fields : List (String × Json))
  deriving Inhabited

namespace Json

/-- The value under a name of an object; nothing for other values and missing names. -/
def field? (name : String) : Json → Option Json
  | obj fields => (fields.find? fun field => field.1 = name).map Prod.snd
  | _ => none

/-! ### Text of strings -/

/-- How a character stands inside a quoted string. -/
def escape (c : Char) : List Char :=
  if c = '"' then ['\\', '"']
  else if c = '\\' then ['\\', '\\']
  else if c.toNat = 0x08 then ['\\', 'b']
  else if c.toNat = 0x0C then ['\\', 'f']
  else if c = '\n' then ['\\', 'n']
  else if c = '\r' then ['\\', 'r']
  else if c = '\t' then ['\\', 't']
  else if c.toNat < 0x20 then ['\\', 'u'] ++ Text.hexDigits 4 c.toNat
  else [c]

/-- A text in quotes. -/
def quote (text : String) : String :=
  "\"" ++ String.ofList (text.toList.flatMap escape) ++ "\""

/-! ### Text of values -/

mutual

/-- The written form without blanks. -/
def compact : Json → String
  | null => "null"
  | bool value => if value then "true" else "false"
  | number text => text
  | str text => quote text
  | arr items => "[" ++ String.intercalate "," (compactItems items) ++ "]"
  | obj fields => "\x7b" ++ String.intercalate "," (compactFields fields) ++ "\x7d"

/-- The written forms of the items of an array. -/
def compactItems : List Json → List String
  | [] => []
  | item :: items => item.compact :: compactItems items

/-- The written forms of the fields of an object. -/
def compactFields : List (String × Json) → List String
  | [] => []
  | (name, value) :: fields => (quote name ++ ":" ++ value.compact) :: compactFields fields

end

/-- A new line with the blanks of a level. -/
def newline (level : Nat) : String :=
  "\n" ++ String.ofList (List.replicate (2 * level) ' ')

/-- Pieces one under the other between two brackets; brackets alone when there is no piece. -/
def block (level : Nat) (opening closing : String) (pieces : List String) : String :=
  match pieces with
  | [] => opening ++ closing
  | _ =>
    opening ++ newline (level + 1) ++ String.intercalate ("," ++ newline (level + 1)) pieces
      ++ newline level ++ closing

mutual

/-- The indented form of a value that stands at a level. -/
def prettyAt (level : Nat) : Json → String
  | arr items => block level "[" "]" (prettyItems (level + 1) items)
  | obj fields => block level "\x7b" "\x7d" (prettyFields (level + 1) fields)
  | null => "null"
  | bool value => if value then "true" else "false"
  | number text => text
  | str text => quote text

/-- The indented forms of the items of an array. -/
def prettyItems (level : Nat) : List Json → List String
  | [] => []
  | item :: items => prettyAt level item :: prettyItems level items

/-- The indented forms of the fields of an object. -/
def prettyFields (level : Nat) : List (String × Json) → List String
  | [] => []
  | (name, value) :: fields =>
    (quote name ++ ": " ++ prettyAt level value) :: prettyFields level fields

end

/-- The indented form, two spaces for each level. -/
def pretty (value : Json) : String := prettyAt 0 value

end Json

end CodeGraph
