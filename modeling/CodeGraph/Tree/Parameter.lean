import CodeGraph.Text.Blank
import CodeGraph.Tree.Node

/-!
# Functions and their parameters

## Main Definitions

* `Node.isAsync`, `Node.isStatic`: modifiers of a declaration.
* `Node.parameters`: the parameters of a function.
* `Node.parameterPattern?`, `Node.parameterType`: the parts of a parameter.
* `Node.ascribedType?`: the type inside an annotation.
-/

namespace CodeGraph.Node

/-- Whether a function is marked asynchronous. -/
def isAsync (node : Node) : Bool := node.hasChild .asyncWord

/-- Whether a class member is marked static. -/
def isStatic (node : Node) : Bool := node.hasChild .staticWord

/-- The parameters of a function, in order. An arrow function may have a single parameter without
brackets. -/
def parameters (function : Node) : List Node :=
  match function.child? .parameters with
  | some list => list.namedChildren
  | none => (function.child? .parameter).toList

/-- The pattern that a parameter binds. -/
def parameterPattern? (parameter : Node) : Option Node :=
  match parameter.kind with
  | .requiredParameter | .optionalParameter => parameter.child? .pattern
  | .assignmentPattern => parameter.child? .left
  | _ => some parameter

/-- The type text of a parameter without blank ends; empty when it has no annotation. -/
def parameterType (parameter : Node) : String :=
  match (parameter.child? .type).bind firstNamed? with
  | some type => Text.trim type.text
  | none => ""

/-- The type inside an annotation; any other node stands for itself. -/
def ascribedType? (node : Node) : Option Node :=
  if node.kind = .typeAscription then node.firstNamed? else some node

/-- Whether a declarator belongs to a declaration of constants. -/
def isConstDeclarator (declarator : Node) : Bool :=
  match declarator.parent? with
  | some declaration =>
    declaration.kind = .lexicalDeclaration && declaration.hasChild .constWord
  | none => false

end CodeGraph.Node
