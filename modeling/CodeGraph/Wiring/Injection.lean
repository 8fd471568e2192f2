import CodeGraph.Wiring.Metadata

/-!
# Constructor injection

## Main Definitions

* `Node.firstConstructor?`: the constructor of a class.
* `Program.dependencies`: the classes that are injected into a class.
-/

namespace CodeGraph

/-- The first constructor in the body of a class. Signatures without a body are not methods of the
class body and so passed over. -/
def Node.firstConstructor? (node : Node) : Option Node := do
  let body ← node.child? .body
  body.namedChildren.find? fun member =>
    member.kind = .methodDefinition &&
      (member.child? .name).any fun name => name.text = "constructor"

namespace Program

/-- The decorator of a parameter that carries an injection token. -/
def tokenDecorator? (conventions : Conventions) (parameter : Node) : Option Node :=
  parameter.decorators.find? fun decorator =>
    decorator.decoratorName?.any conventions.injectNames.contains

/-- The class that a parameter asks for: by its token when it has one, else by its type. -/
def parameterClass? (program : Program) (conventions : Conventions) (parameter : Node) :
    Option Decl :=
  match tokenDecorator? conventions parameter with
  | some decorator => decorator.decoratorArguments.head?.bind program.classReference?
  | none =>
    match (parameter.child? .type).map program.ascribedType with
    | some (.instanceOf decl) => some decl
    | _ => none

/-- The classes that are injected into a class through its constructor, in the order of the
parameters. -/
def dependencies (program : Program) (conventions : Conventions) (decl : Decl) : List Decl :=
  match decl.node.firstConstructor? with
  | some constructor => constructor.parameters.filterMap (program.parameterClass? conventions)
  | none => []

end Program

end CodeGraph
