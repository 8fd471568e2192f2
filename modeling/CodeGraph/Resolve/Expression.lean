import CodeGraph.Resolve.Ascription
import CodeGraph.Resolve.Member

/-!
# What expressions denote

## Main Definitions

* `Program.read`: the symbol and the type of an expression.

## Design Notes

Symbol and type are read together: the symbol of a member access needs the type of the object, and
the type of a name needs its symbol.
-/

namespace CodeGraph.Program

/-- The reading of an expression that denotes a symbol, after all links. -/
def readingOf (program : Program) (below : Level) (symbol : Option Symbol) : Reading :=
  let symbol := symbol.bind program.resolveAlias?
  ⟨symbol, fun preference =>
    match symbol with
    | some symbol => symbolType below preference symbol
    | none => .unknown⟩

/-- What an element access denotes. When the annotation of the receiver does not lead to a member,
its value may. -/
def elementSymbol? (program : Program) (below : Level) (key : String) (receiver : Reading) :
    Option Symbol :=
  let declared := receiver.type .declared
  match program.member? below key declared with
  | some symbol => some symbol
  | none =>
    let valued := receiver.type .value
    if valued.same declared then none else program.member? below key valued

/-- What is read off an expression. -/
def read (program : Program) (below : Level) (node : Node) : Reading :=
  match node.kind with
  | .identifier => program.readingOf below (program.resolveIdentifier? node)
  | .memberExpression =>
    match h : node.child? .object, node.child? .property with
    | some object, some property =>
      have := Node.size_lt_of_child? h
      program.readingOf below
        (program.member? below property.text ((read program below object).type .declared))
    | _, _ => .unknown
  | .subscriptExpression =>
    match h : node.child? .object, (node.child? .index).bind program.literalKey? with
    | some object, some key =>
      have := Node.size_lt_of_child? h
      program.readingOf below (program.elementSymbol? below key (read program below object))
    | _, _ => .unknown
  | .parenthesizedExpression | .nonNullExpression | .satisfiesExpression =>
    match h : node.firstNamed? with
    | some inner =>
      have := Node.size_lt_of_firstNamed? h
      read program below inner
    | none => .unknown
  | .awaitExpression =>
    match h : node.firstNamed? with
    | some inner =>
      have := Node.size_lt_of_firstNamed? h
      .ofType fun preference => (read program below inner).type preference
    | none => .unknown
  | .callExpression =>
    match h : node.child? .function with
    | some function =>
      have := Node.size_lt_of_child? h
      .ofType fun _ =>
        match (read program below function).symbol? with
        | some (.decl decl) => below.returned decl
        | _ => .unknown
    | none => .unknown
  | .newExpression =>
    match h : node.child? .constructor with
    | some constructor =>
      have := Node.size_lt_of_child? h
      .ofType fun preference =>
        match (read program below constructor).type preference with
        | .classItself decl => .instanceOf decl
        | _ => .unknown
    | none => .unknown
  | .asExpression =>
    match h : node.namedChildren with
    | [] => .unknown
    | inner :: rest =>
      have := @Node.size_lt_of_mem_namedChildren node inner (by simp [h])
      .ofType fun preference =>
        match preference with
        | .declared =>
          ((rest.head?.map (program.ascriptionStep below)).getD .unknown).orElse
            ((read program below inner).type .declared)
        | .value => (read program below inner).type .value
  | .thisExpression =>
    .ofType fun _ => ((program.enclosingClass? node).map .instanceOf).getD .unknown
  | .superExpression =>
    .ofType fun _ =>
      (((program.enclosingClass? node).bind below.base?).map .instanceOf).getD .unknown
  | .object => .ofType fun _ => .object node
  | _ => .unknown
termination_by node.size

end CodeGraph.Program
