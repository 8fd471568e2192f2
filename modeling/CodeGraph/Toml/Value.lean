/-!
# TOML values

A settings text is read into one table of values. Tables remember how they were made, because a
table may be extended or not depending on whether a header, a dotted key or braces made it.

## Main Definitions

* `Toml.Value`: a value.
* `Toml.Value.parts?`: the parts of a value that stands for a record.
-/

namespace CodeGraph.Toml

/-- How a table came to be. -/
inductive Making where
  /-- By a header of its own, or as the whole text. -/
  | header
  /-- On the way to a table with a header. -/
  | implied
  /-- By a dotted key. -/
  | dotted
  /-- Between braces. -/
  | braces
  deriving DecidableEq, Repr

/-- A value of a settings text. Floats and moments in time are kept as written. -/
inductive Value where
  | text (value : String)
  | integer (value : Int)
  | float (written : String)
  | boolean (value : Bool)
  | moment (written : String)
  | array (items : List Value)
  | table (made : Making) (entries : List (String × Value))
  /-- The tables of an array that is written with one header for each. -/
  | tables (rows : List (List (String × Value)))

/-- The entries of a table, in the order in which they were made. -/
abbrev Entries := List (String × Value)

/-- The value under a key. -/
def Entries.get? (entries : Entries) (key : String) : Option Value :=
  (entries.find? fun entry => entry.1 = key).map Prod.snd

/-- Puts a value under a key, in place of the one that was there. -/
def Entries.put : Entries → String → Value → Entries
  | [], key, value => [(key, value)]
  | entry :: rest, key, value =>
    if entry.1 = key then (key, value) :: rest else entry :: Entries.put rest key value

namespace Value

/-- The parts of a value that stands for a record, each asked for by its name and its place. A table
gives its parts by name, an array by place. A moment in time stands for a record without known
parts. Other values stand for no record. -/
def parts? : Value → Option (String → Nat → Option Value)
  | table _ entries => some fun name _ => Entries.get? entries name
  | array items => some fun _ place => items[place]?
  | tables rows => some fun _ place => rows[place]?.map (table .header)
  | moment _ => some fun _ _ => none
  | _ => none

/-- The value of a text. -/
def text? : Value → Option String
  | text value => some value
  | _ => none

/-- The value of a truth value. -/
def bool? : Value → Option Bool
  | boolean value => some value
  | _ => none

/-- The value of an integer that is not negative. -/
def nat? : Value → Option Nat
  | integer (.ofNat value) => some value
  | _ => none

/-- The values of an array of texts. -/
def texts? : Value → Option (List String)
  | array items => items.mapM text?
  | _ => none

end Value

end CodeGraph.Toml
