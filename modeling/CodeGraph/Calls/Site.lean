import CodeGraph.Callable

/-!
# Call sites

## Main Definitions

* `Node.callSites`: the calls in the body of a function.
* `CallStrategy`: how a call names what it calls.
* `CallSite`, `Collected.sites`: calls with their callers.
* `Program.callee?`: the collected callable that a call calls.

## Design Notes

Functions inside a function are no callables themselves, so their calls belong to the function
around them.
-/

namespace CodeGraph

namespace Node

/-- The named nodes right below, comments among them. -/
def namedBelow (node : Node) : List Node :=
  node.children.filter fun child => child.label.named

theorem totalSize_namedBelow_lt (node : Node) : totalSize node.namedBelow < node.size := by
  have h1 := totalSize_filter_le (fun child => child.label.named) node.children
  have h2 := totalSize_children node
  simp only [namedBelow]
  omega

/-- The descent to all named nodes, the first first. -/
def namedDescent : Descent where
  below := namedBelow
  smaller := totalSize_namedBelow_lt

/-- The calls in the body of a function, in source order. -/
def callSites (function : Node) : List Node :=
  match function.child? .body with
  | some body => (namedDescent.walk [body]).filter fun node => node.kind = .callExpression
  | none => []

end Node

/-- How a call names what it calls. -/
inductive CallStrategy where
  /-- By a name: `helper()`. -/
  | identifier
  /-- By a property: `this.repo.find()`. -/
  | property
  /-- By an element: `table["run"]()`. -/
  | element
  /-- In any other way. -/
  | other
  deriving DecidableEq, Repr

namespace CallStrategy

/-- All strategies. -/
def all : List CallStrategy := [identifier, property, element, other]

/-- The name of a strategy. -/
def name : CallStrategy → String
  | identifier => "identifier"
  | property => "property"
  | element => "element"
  | other => "other"

/-- The strategy with a name. -/
def ofName? (text : String) : Option CallStrategy :=
  all.find? fun strategy => strategy.name = text

/-- The strategy of a callee. -/
def ofCallee (callee : Node) : CallStrategy :=
  match callee.unwrap.kind with
  | .identifier => identifier
  | .memberExpression => property
  | .subscriptExpression => element
  | _ => other

/-- The strategy of a call. -/
def ofCall (call : Node) : CallStrategy :=
  ((call.child? .function).map ofCallee).getD other

end CallStrategy

/-- A call in the body of a callable. -/
structure CallSite where
  /-- The callable. -/
  caller : Callable
  /-- The call. -/
  call : Node

/-- The call sites of collected callables, in order. -/
def Collected.sites (collected : Collected) : List CallSite :=
  collected.callables.flatMap fun caller => caller.function.callSites.map (CallSite.mk caller)

/-- The callable that a call calls, when it is among the collected ones. -/
def Program.callee? (program : Program) (collected : Collected) (call : Node) :
    Option Callable :=
  match program.calleeSymbol? call with
  | some (.decl decl) => collected.get? decl.id
  | _ => none

end CodeGraph
