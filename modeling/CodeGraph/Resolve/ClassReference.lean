import CodeGraph.Resolve.Member

/-!
# References to classes

Classes are referred to by the expression after `extends`, and by the expressions that stand in
decorator metadata and injection tokens: a name, `forwardRef(() => X)`, `X.forRoot()`, or an object
that says which class to use.

## Main Definitions

* `Program.baseStep?`: the class that a class extends.
* `Program.classStep?`: the class that an expression refers to.
-/

namespace CodeGraph

/-- What an arrow function evaluates to: its expression, or what the first `return` of its body
returns. -/
def Node.arrowResult? (arrow : Node) : Option Node := do
  let body ← arrow.child? .body
  if body.kind = .statementBlock then
    let statement ← body.namedChildren.find? fun statement => statement.kind = .returnStatement
    statement.firstNamed?
  else some body

namespace Program

/-- The expression that a class extends, when there is one. -/
def baseExpression? (decl : Decl) : Option Node := do
  let heritage ← decl.node.namedChildren.find? fun child => child.kind = .classHeritage
  heritage.namedChildren.findSome? fun clause =>
    match clause.kind with
    | .extendsClause => clause.child? .value
    | .implementsClause => none
    | _ => some clause

/-- The class that a class extends, when it is another class of the program. -/
def baseStep? (below : Level) (decl : Decl) : Option Decl := do
  match ← below.symbol? (← baseExpression? decl) with
  | .decl base => if base.isClass ∧ base.id ≠ decl.id then some base else none
  | _ => none

/-- The name that a call calls. -/
def calleeName? (callee : Node) : Option String :=
  match callee.kind with
  | .identifier => some callee.text
  | .memberExpression => (callee.child? .property).map Node.text
  | _ => none

/-- The class that a call in metadata refers to: the result of the function handed to `forwardRef`,
or the object of a method call. -/
def calledClass? (below : Level) (call : Node) : Option Decl := do
  let callee := (← call.child? .function).unwrap
  if calleeName? callee = some "forwardRef" then
    let argument ← (call.child? .arguments).bind Node.firstNamed?
    let target ← if argument.kind = .arrowFunction then argument.arrowResult? else some argument
    below.reference? target
  else if callee.kind = .memberExpression then
    below.reference? (← callee.child? .object)
  else none

/-- The values of the pairs of an object under one of several keys, in order. -/
def valuesUnder (keys : List String) (object : Node) : List Node :=
  object.namedChildren.filterMap fun entry =>
    if entry.kind = .pair ∧ (pairKey? entry).any keys.contains then entry.child? .value else none

/-- The class that a provider object refers to: the class it uses, else the class it provides. -/
def providedClass? (below : Level) (object : Node) : Option Decl :=
  (valuesUnder ["useClass", "useExisting"] object).findSome? below.reference?
    <|> (valuesUnder ["provide"] object).getLast?.bind below.reference?

/-- The class that an expression in metadata or an injection token refers to. -/
def classStep? (below : Level) (expression : Node) : Option Decl :=
  let expression := expression.unwrap
  match expression.kind with
  | .callExpression => calledClass? below expression
  | .object => providedClass? below expression
  | _ =>
    match below.symbol? expression with
    | some (.decl decl) => if decl.isClass then some decl else none
    | _ => none

end Program

end CodeGraph
