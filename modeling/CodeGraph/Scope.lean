import CodeGraph.Index

/-!
# Names in scope

A name is looked up from the place where it is used: the functions and blocks around the place come
first, from the inside out, then the top-level names of the file.

## Main Definitions

* `Symbol`: what a name or an expression denotes.
* `Node.binderIn?`: the node by which a function or block binds a name.
* `Program.lookup?`: what a name denotes at a place.
-/

namespace CodeGraph

/-- What a name or an expression denotes. -/
inductive Symbol where
  /-- A declaration. -/
  | decl (decl : Decl)
  /-- A name taken from another module. -/
  | imported (link : ImportLink)
  /-- A file as a whole. -/
  | module (file : SourceFile)
  /-- A parameter or a name bound inside a function, by the node that binds it. -/
  | binder (node : Node)

/-- The symbol of a top-level binding. -/
def Binding.symbol : Binding → Symbol
  | .decl found => .decl found
  | .imported link => .imported link

namespace Node

/-! ### Blocks -/

/-- The node by which a declarator binds a name: the declarator when its whole pattern is the name,
else the identifier inside the pattern. -/
def declaratorBinder? (name : String) (declarator : Node) : Option Node := do
  let pattern ← declarator.child? .name
  let identifier ← pattern.binder? name
  return if identifier.same pattern then declarator else identifier

/-- The node by which a statement in a block binds a name. -/
def statementBinder? (name : String) (statement : Node) : Option Node :=
  match statement.kind with
  | .functionDeclaration | .generatorFunctionDeclaration | .classDeclaration =>
    match statement.child? .name with
    | some own => if own.text = name then some statement else none
    | none => none
  | .lexicalDeclaration | .variableDeclaration =>
    statement.namedChildren.findSome? (declaratorBinder? name)
  | _ => none

/-- The node by which a block, a loop head or a catch clause binds a name. -/
def blockBinder? (name : String) (scope : Node) : Option Node :=
  match scope.kind with
  | .statementBlock | .switchCase | .switchDefault | .classStaticBlock =>
    scope.namedChildren.findSome? (statementBinder? name)
  | .forStatement => (scope.child? .initializer).bind (statementBinder? name)
  | .forInStatement => (scope.child? .left).bind (binder? name)
  | .catchClause => (scope.child? .parameter).bind (binder? name)
  | _ => none

/-! ### Functions -/

/-- The node by which a parameter binds a name: the parameter when its whole pattern is the name,
which keeps its annotation at hand, else the identifier inside the pattern. -/
def parameterBinder? (name : String) (parameter : Node) : Option Node := do
  let pattern ← parameter.parameterPattern?
  let identifier ← pattern.binder? name
  return if identifier.same pattern then parameter else identifier

/-- A function expression binds its own name inside. -/
def ownNameBinder? (name : String) (function : Node) : Option Node :=
  if function.kind.isFunctionExpression ∧ (function.child? .name).map text = some name then
    some function
  else none

/-- The node by which a function binds a name. -/
def functionBinder? (name : String) (function : Node) : Option Node :=
  if function.kind.isFunctionLike then
    function.parameters.findSome? (parameterBinder? name) <|> function.ownNameBinder? name
  else none

/-- The node by which a function or block binds a name. -/
def binderIn? (name : String) (scope : Node) : Option Node :=
  scope.functionBinder? name <|> scope.blockBinder? name

/-- The nodes around a place that may bind names, from the inside out. -/
def enclosing (node : Node) : List Node :=
  node.ancestors.takeWhile fun scope => scope.kind ≠ .program

end Node

namespace Program

/-- What a name denotes at a place: bound by the innermost function or block around it that binds
the name, else by the file. -/
def lookup? (program : Program) (place : Node) (name : String) : Option Symbol :=
  match place.enclosing.findSome? (Node.binderIn? name) with
  | some node => some (.binder node)
  | none => (Keyed.get? (program.scopeOf place.source).bindings name).map Binding.symbol

/-- What an identifier denotes. -/
def resolveIdentifier? (program : Program) (identifier : Node) : Option Symbol :=
  program.lookup? identifier identifier.text

/-! ### Classes around a place -/

/-- The class whose body comes first among the nodes around a place, seen through arrow functions
and methods of classes but not through other functions. -/
def classAmong? (program : Program) : List Node → Option Decl
  | [] => none
  | node :: above =>
    match node.kind with
    | .classBody => (above.head?.bind program.declAt?).filter Decl.isClass
    | .functionDeclaration | .functionExpression | .functionWord
    | .generatorFunctionDeclaration | .generatorFunction => none
    | .methodDefinition =>
      if above.head?.map Node.kind = some .object then none else program.classAmong? above
    | _ => program.classAmong? above

/-- The class whose body encloses a place. -/
def enclosingClass? (program : Program) (place : Node) : Option Decl :=
  program.classAmong? place.ancestors

end Program

end CodeGraph
