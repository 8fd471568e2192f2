import CodeGraph.Tree.Node

/-!
# Decorators

## Main Definitions

* `Node.decorators`: the decorators of a declaration.
* `Node.decoratorName?`, `Node.decoratorArguments`: what a decorator calls, and with what.
-/

namespace CodeGraph.Node

/-- The decorators right below a node. -/
def ownDecorators (node : Node) : List Node :=
  node.children.filter fun child => child.kind = .decorator

/-- The decorators of a declaration, in source order. Decorators before the word `export` stand
below the export statement around the declaration, and belong to it too. -/
def decorators (node : Node) : List Node :=
  (match node.parent? with
    | some parent => if parent.kind = .exportStatement then parent.ownDecorators else []
    | none => []) ++ node.ownDecorators

/-- The name that the expression of a decorator calls: a plain name, the last part of a dotted one,
or the name called in a call. -/
def calledName? (expression : Node) : Option String :=
  match expression.kind with
  | .identifier => some expression.text
  | .memberExpression => (expression.child? .property).map text
  | .callExpression =>
    match h : expression.child? .function with
    | some function =>
      have := size_lt_of_child? h
      calledName? function
    | none => none
  | .parenthesizedExpression =>
    match h : expression.firstNamed? with
    | some inner =>
      have := size_lt_of_firstNamed? h
      calledName? inner
    | none => none
  | _ => none
termination_by expression.size

/-- The name of a decorator, with or without a call. -/
def decoratorName? (decorator : Node) : Option String :=
  decorator.firstNamed?.bind calledName?

/-- The arguments of a decorator; none when it is written without a call. -/
def decoratorArguments (decorator : Node) : List Node :=
  match decorator.firstNamed? with
  | some call =>
    if call.kind = .callExpression then
      ((call.child? .arguments).map namedChildren).getD []
    else []
  | none => []

/-- The names of the decorators of a declaration, in source order. -/
def decoratorNames (node : Node) : List String :=
  node.decorators.filterMap decoratorName?

end CodeGraph.Node
