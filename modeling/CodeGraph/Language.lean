import CodeGraph.Fault
import CodeGraph.Path.Extension
import CodeGraph.Tree.Fault

/-!
# Languages

The extension of a file tells the language it is written in.

## Main Definitions

* `Language`, `Language.ofPath?`: the languages, and the language of a file.
* `Parsed`, `Parsed.ofTree`: a file with its syntax tree and its syntax errors.
-/

namespace CodeGraph

/-- A language that sources can be written in. -/
inductive Language where
  | typeScript
  | tsx
  | javaScript
  deriving DecidableEq, Repr

namespace Language

/-- All languages, in the order in which they are tried. -/
def all : List Language := [typeScript, tsx, javaScript]

/-- The name to show. -/
def name : Language → String
  | typeScript => "TypeScript"
  | tsx => "TSX"
  | javaScript => "JavaScript"

/-- The name to store. -/
def tag : Language → String
  | typeScript => "TypeScript"
  | tsx => "Tsx"
  | javaScript => "JavaScript"

/-- The extensions of files in a language. -/
def extensions : Language → List String
  | typeScript => ["ts", "mts", "cts"]
  | tsx => ["tsx"]
  | javaScript => ["js", "jsx", "mjs", "cjs"]

/-- The language of files with an extension. -/
def ofExtension? (extension : String) : Option Language :=
  all.find? fun language => language.extensions.contains extension

/-- The language of a file. -/
def ofPath? (path : String) : Option Language :=
  (Path.extension? path).bind ofExtension?

end Language

/-- A file with its syntax tree. -/
structure Parsed where
  /-- The language of the file. -/
  language : Language
  /-- The syntax tree. -/
  tree : Tree
  /-- The parts of the text with syntax errors, sorted by where they start. -/
  faultRanges : List Range

namespace Parsed

/-- Whether the file has syntax errors. -/
def hasFaults (parsed : Parsed) : Bool := !parsed.faultRanges.isEmpty

/-- The number of syntax errors. -/
def faultCount (parsed : Parsed) : Nat := parsed.faultRanges.length

/-- A file with the tree that the grammar of its language made of it. -/
def ofTree (source : SourceFile) (tree : Option Tree) : Except SourceFault Parsed :=
  match Language.ofPath? source.path with
  | none =>
    .error (.unsupportedLanguage source.path ((Path.extension? source.path).getD ""))
  | some language =>
    match tree with
    | none => .error (.noTree source.path)
    | some tree => .ok ⟨language, tree, (Node.root source tree).faultRanges⟩

end Parsed

end CodeGraph
