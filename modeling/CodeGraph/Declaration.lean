import CodeGraph.Tree.Literal
import CodeGraph.Tree.Node

/-!
# Declarations and imports

## Main Definitions

* `Decl`: a declaration that names can refer to.
* `Decl.functionNode?`: the function that a declaration declares.
* `ImportLink`: a name taken from another module.
-/

namespace CodeGraph

/-- The number of a declaration in a program. -/
structure DeclId where
  /-- The number. -/
  val : Nat
  deriving DecidableEq, Repr

/-- The number of an import in a program. -/
structure ImportId where
  /-- The number. -/
  val : Nat
  deriving DecidableEq, Repr

/-- What a declaration declares. -/
inductive DeclKind where
  | function
  | classType
  | interface
  | enum
  | variable
  | method
  /-- A getter or setter, which is typed by what it returns and never called. -/
  | accessor
  /-- A field, or a constructor parameter that declares one. -/
  | property
  deriving DecidableEq, Repr

/-- The name to show. -/
def DeclKind.name : DeclKind → String
  | function => "Function"
  | classType => "Class"
  | interface => "Interface"
  | enum => "Enum"
  | .variable => "Variable"
  | method => "Method"
  | accessor => "Accessor"
  | property => "Property"

/-- A declaration. -/
structure Decl where
  /-- The number of the declaration. -/
  id : DeclId
  /-- What it declares. -/
  kind : DeclKind
  /-- The declared name. -/
  name : String
  /-- The node that declares it. -/
  node : Node
  /-- The class of a member. -/
  container : Option DeclId
  /-- Whether a member is static. -/
  isStatic : Bool

namespace Decl

/-- The file of a declaration. -/
def file (decl : Decl) : SourceFile := decl.node.source

/-- Whether a class is declared. -/
def isClass (decl : Decl) : Bool := decl.kind = .classType

/-- The initial value of a variable, field or parameter. -/
def value? (decl : Decl) : Option Node := decl.node.child? .value

/-- The type annotation. -/
def ascription? (decl : Decl) : Option Node := decl.node.child? .type

/-- The function that carries the body of a declaration: the node itself, or the value of a variable
or field when it is a function. -/
def functionNode? (decl : Decl) : Option Node :=
  match decl.kind with
  | .function | .method | .accessor => some decl.node
  | .variable | .property =>
    (decl.value?.map Node.unwrap).filter fun value => value.kind.isFunctionValue
  | .classType | .interface | .enum => none

end Decl

/-- What is taken from another module. -/
inductive Imported where
  | named (name : String)
  | default
  /-- The module as a whole. -/
  | whole
  deriving DecidableEq, Repr

/-- What is taken under a name: the name `default` stands for the default export. -/
def Imported.ofName (name : String) : Imported :=
  if name = "default" then .default else .named name

/-- A name taken from another module, for use or to be exported again. -/
structure ImportLink where
  /-- The number of the import. -/
  id : ImportId
  /-- The importing file. -/
  file : SourceFile
  /-- The specifier of the other module. -/
  specifier : String
  /-- What is taken. -/
  imported : Imported

end CodeGraph
