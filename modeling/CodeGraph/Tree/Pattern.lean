import CodeGraph.Tree.Parameter

/-!
# Binding patterns

A parameter or a declaration binds names through a pattern: a plain name, or names nested in object
and array patterns, behind defaults and rests.

## Main Definitions

* `Node.binder?`: the identifier by which a pattern binds a name.
-/

namespace CodeGraph.Node

/-- The first identifier by which a pattern binds a name. Object and array patterns bind what their
parts bind, a pair what its value binds, a pattern with a default what stands on its left, and a
rest what stands behind the dots. -/
def binder? (name : String) (pattern : Node) : Option Node :=
  match pattern.kind with
  | .identifier | .shorthandPropertyIdentifierPattern =>
    if pattern.text = name then some pattern else none
  | .objectPattern | .arrayPattern =>
    pattern.namedChildren.attach.findSome? fun part =>
      have := size_lt_of_mem_namedChildren part.property
      binder? name part.val
  | .pairPattern =>
    match h : pattern.child? .value with
    | some value =>
      have := size_lt_of_child? h
      binder? name value
    | none => none
  | .assignmentPattern | .objectAssignmentPattern =>
    match h : pattern.child? .left with
    | some left =>
      have := size_lt_of_child? h
      binder? name left
    | none => none
  | .restPattern =>
    match h : pattern.firstNamed? with
    | some rest =>
      have := size_lt_of_firstNamed? h
      binder? name rest
    | none => none
  | _ => none
termination_by pattern.size

/-- The search for a name, without the bookkeeping that shows that it ends. -/
theorem binder?_eq (name : String) (pattern : Node) : pattern.binder? name =
    match pattern.kind with
    | .identifier | .shorthandPropertyIdentifierPattern =>
      if pattern.text = name then some pattern else none
    | .objectPattern | .arrayPattern => pattern.namedChildren.findSome? (binder? name)
    | .pairPattern => (pattern.child? .value).bind (binder? name)
    | .assignmentPattern | .objectAssignmentPattern => (pattern.child? .left).bind (binder? name)
    | .restPattern => pattern.firstNamed?.bind (binder? name)
    | _ => none := by
  fun_cases binder? name pattern <;> simp_all

end CodeGraph.Node
