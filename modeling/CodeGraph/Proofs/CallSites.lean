import CodeGraph.Proofs.Callers
import CodeGraph.Proofs.SourceOrder

/-!
# The calls in the body of a function

The search for calls keeps a stack of nodes to visit: it takes the first one, puts the named nodes
below it in its place and goes on. What it visits is what a recursive descent visits, since a
waiting node stands for the whole tree below it. So the calls of a function are all the calls that
can be reached in its body, those of functions inside it among them, each of them once and in the
order of the source.

## Main Definitions

* `Node.NamedWithin`: a node is reached by going down from named node to named node.
* `Node.ListsCalls`: all calls in the body of a function are listed in order.

## Main Statements

* `Node.walk_namedDescent`: the walk visits what recursive descents from the waiting nodes visit.
* `Node.mem_preorder_iff`, `Node.lists_preorder`: a descent visits all nodes it can reach, in order.
* `Node.callSites_listed`: all calls of every function are listed.
-/

namespace CodeGraph.Node

/-! ### Descending -/

/-- A node is reached from another one by going down from named node to named node. -/
inductive NamedWithin : Node → Node → Prop
  | refl (node : Node) : NamedWithin node node
  | lower {inner child outer : Node} (named : child ∈ outer.namedBelow)
      (within : NamedWithin inner child) : NamedWithin inner outer

/-- A descent visits a node and then what descents from the named nodes below it visit. -/
theorem preorder_eq (node : Node) : node.preorder = node :: node.namedBelow.flatMap preorder := by
  rw [preorder, List.flatMap_def, namedBelow]
  simp

/-- A walk visits what descents from the waiting nodes visit, one after the other. -/
theorem walk_namedDescent (waiting : List Node) :
    namedDescent.walk waiting = waiting.flatMap preorder := by
  fun_induction namedDescent.walk waiting with
  | case1 => rfl
  | case2 node waiting smaller inductionHypothesis =>
    -- The node is visited, and the nodes below it wait in its place.
    rw [inductionHypothesis, List.flatMap_append, List.flatMap_cons, preorder_eq node,
      List.cons_append]
    rfl

/-- A descent visits the nodes that can be reached, and no others. -/
theorem mem_preorder_iff {node inner : Node} : inner ∈ node.preorder ↔ inner.NamedWithin node := by
  constructor
  · intro visited
    induction node using preorder.induct with
    | case1 node inductionHypothesis =>
      rw [preorder_eq, List.mem_cons, List.mem_flatMap] at visited
      rcases visited with rfl | ⟨child, named, later⟩
      · exact .refl inner
      · exact .lower named (inductionHypothesis ⟨child, named⟩ later)
  · intro within
    induction within with
    | refl =>
      rw [preorder_eq]
      exact List.mem_cons_self
    | lower named _ inductionHypothesis =>
      rw [preorder_eq]
      exact List.mem_cons_of_mem _ (List.mem_flatMap.mpr ⟨_, named, inductionHypothesis⟩)

/-- A descent visits nodes in the order of the source. -/
theorem lists_preorder (node : Node) : node.Lists node.preorder := by
  induction node using preorder.induct with
  | case1 node inductionHypothesis =>
    rw [preorder_eq]
    exact Lists.cons_flatMap_children List.filter_sublist fun child named =>
      inductionHypothesis ⟨child, named⟩

/-! ### Calls -/

/-- The calls of a function are those that a descent through its body visits. -/
theorem callSites_eq_filter_preorder (function : Node) :
    function.callSites = (function.child? .body).toList.flatMap fun body =>
      body.preorder.filter fun node => node.kind = .callExpression := by
  rw [callSites]
  split
  · next body isBody =>
    rw [isBody, Option.toList_some, List.flatMap_singleton, walk_namedDescent,
      List.flatMap_singleton]
  · next noBody =>
    rw [noBody]
    rfl

/-- All calls in the body of a function are listed in order. -/
structure ListsCalls (function : Node) : Prop where
  /-- The search on a stack finds what is left of a recursive descent through the body when only the
  calls are kept. -/
  descent : function.callSites = (function.child? .body).toList.flatMap fun body =>
    body.preorder.filter fun node => node.kind = .callExpression
  /-- The calls are those that can be reached from the body, the body itself and functions inside it
  included. -/
  exactly : ∀ call : Node, call ∈ function.callSites ↔
    call.kind = .callExpression ∧ ∃ body, function.child? .body = some body ∧ call.NamedWithin body
  /-- No call occurs twice. -/
  once : (function.callSites.map place).Nodup
  /-- The calls come in the order of the source. -/
  ascend : function.callSites.Pairwise Precedes

/-- **All calls of every function are listed.** -/
theorem callSites_listed (function : Node) : function.ListsCalls := by
  refine ⟨callSites_eq_filter_preorder function, fun call => ?_,
    nodup_place_callSites function, ?_⟩
  · simp only [callSites_eq_filter_preorder, List.mem_flatMap, Option.mem_toList, List.mem_filter,
      mem_preorder_iff, decide_eq_true_eq]
    constructor
    · rintro ⟨body, isBody, reached, isCall⟩
      exact ⟨isCall, body, isBody, reached⟩
    · rintro ⟨isCall, body, isBody, reached⟩
      exact ⟨body, isBody, reached, isCall⟩
  · rw [callSites_eq_filter_preorder]
    cases function.child? .body with
    | none => exact List.Pairwise.nil
    | some body =>
      rw [Option.toList_some, List.flatMap_singleton]
      exact (lists_preorder body).ascend.sublist List.filter_sublist

end CodeGraph.Node
