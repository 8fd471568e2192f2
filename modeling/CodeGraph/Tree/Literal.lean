import CodeGraph.Text.Blank
import CodeGraph.Tree.Node

/-!
# Literals and member names

Members of classes and objects are named by identifiers, texts or numbers, and imports and exports
by identifiers or texts.

## Main Definitions

* `unquote`: a text without the quotes around it.
* `Node.literal?`: the value of a literal that can be a property key.
* `Node.memberName?`: the name that a name node says.
* `Node.unwrap`: an expression without the wrappers around it.
-/

namespace CodeGraph

/-- Whether a text of at least two characters starts and ends with a quote. -/
def isQuotedBy (quote : Char) (cs : List Char) : Bool :=
  2 ≤ cs.length && cs.head? = some quote && cs.getLast? = some quote

/-- A text without its blank ends and without one pair of quotes or backticks around it. -/
def unquote (raw : String) : String :=
  let cs := Text.trimChars raw.toList
  if ['"', '\'', '\x60'].any fun quote => isQuotedBy quote cs then
    String.ofList (cs.drop 1).dropLast
  else String.ofList cs

namespace Node

/-- The value of a literal that can be a property key: a text, a template without substitutions, or
a number as it is written. -/
def literal? (node : Node) : Option String :=
  match node.kind with
  | .string => some (unquote node.text)
  | .templateString =>
    if node.hasChild .templateSubstitution then none else some (unquote node.text)
  | .number => some node.text
  | _ => none

/-- The name that a node for a class member, an object key or an imported or exported name says. -/
def memberName? (node : Node) : Option String :=
  match node.kind with
  | .propertyIdentifier | .privatePropertyIdentifier | .identifier | .typeIdentifier
  | .shorthandPropertyIdentifier => some node.text
  | .string | .number | .templateString => node.literal?
  | .computedPropertyName => node.firstNamed?.bind literal?
  | _ => none

/-- An expression without the wrappers around it that do not change what it denotes. A wrapper with
nothing inside stays. -/
def unwrap (node : Node) : Node :=
  if node.kind.isWrapper then
    match h : node.firstNamed? with
    | some inner =>
      have := size_lt_of_firstNamed? h
      unwrap inner
    | none => node
  else node
termination_by node.size

end Node

end CodeGraph
