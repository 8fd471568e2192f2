import CodeGraph.Proofs.Place
import Mathlib.Data.List.Lex

/-!
# The order of the source

Nodes of a tree are told apart by the ways down to them, and these ways tell which node comes first:
the order of the source is the lexicographic order of addresses. A node comes before all nodes below
it, and what lies in an earlier child before what lies in a later one. So what is put together child
by child is in order when its parts are.

## Main Definitions

* `Node.Precedes`: a node comes before another one in the source.
* `Node.Lists`: several nodes lie within a node, in the order of the source.

## Main Statements

* `Node.precedes_of_within`, `Node.precedes_of_within_child`: which nodes come first.
* `Node.Lists.flatMap_children`, `Node.Lists.cons_flatMap_children`: nodes listed child by child.
* `find?_eq_some_iff_of_pairwise`: a search through things in order finds the first.
-/

namespace CodeGraph

/-- A search through things that are in order finds the one that comes before all others that fit.
-/
theorem find?_eq_some_iff_of_pairwise {α : Type} {before : α → α → Prop} {items : List α}
    {fits : α → Bool} {item : α} (asymm : ∀ a b, before a b → ¬before b a)
    (inOrder : items.Pairwise before) :
    items.find? fits = some item ↔ item ∈ items ∧ fits item ∧
      ∀ other ∈ items, fits other → other = item ∨ before item other := by
  have first_of_found : ∀ {found}, items.find? fits = some found →
      ∀ other ∈ items, fits other → other = found ∨ before found other := by
    intro found look other present otherFits
    obtain ⟨-, earlier, later, cut, others⟩ := List.find?_eq_some_iff_append.mp look
    rw [cut] at inOrder present
    rcases List.mem_append.mp present with inFront | rest
    · have fails := others other inFront
      rw [otherFits] at fails
      cases fails
    · rcases List.mem_cons.mp rest with same | behind
      · exact Or.inl same
      · exact Or.inr (List.rel_of_pairwise_cons (List.pairwise_append.mp inOrder).2.1 behind)
  constructor
  · intro look
    exact ⟨List.mem_of_find?_eq_some look, List.find?_some look, first_of_found look⟩
  · rintro ⟨present, itFits, first⟩
    obtain ⟨found, look⟩ := Option.isSome_iff_exists.mp
      (List.find?_isSome.mpr ⟨item, present, itFits⟩)
    -- Of two things that both come first, neither comes before the other.
    rcases first found (List.mem_of_find?_eq_some look) (List.find?_some look) with same | ahead
    · rw [look, same]
    · rcases first_of_found look item present itFits with same | after
      · rw [look, same]
      · exact absurd after (asymm _ _ ahead)

namespace Node

/-! ### What comes first -/

/-- A node comes before another one of its tree: where the ways down to them part, its way goes
through the earlier child. A node also comes before all nodes below it. -/
def Precedes (a b : Node) : Prop := a.address.reverse < b.address.reverse

theorem Precedes.asymm {a b : Node} (before : a.Precedes b) : ¬b.Precedes a := lt_asymm before

/-- Children of a node stand at growing positions. -/
theorem pairwise_address_children (node : Node) :
    node.children.Pairwise fun a b => ∃ i j, i < j ∧ a.address = i :: node.address ∧
      b.address = j :: node.address := by
  have positions : node.children.map address =
      (List.range' 0 node.focus.children.length).map (· :: node.address) := by
    rw [children, List.map_map, ← List.zipIdx_map_snd 0 node.focus.children, List.map_map]
    rfl
  have growing : (node.children.map address).Pairwise fun a b =>
      ∃ i j, i < j ∧ a = i :: node.address ∧ b = j :: node.address := by
    rw [positions, List.pairwise_map]
    exact (List.pairwise_lt_range' _).imp fun {i j} less => ⟨i, j, less, rfl, rfl⟩
  exact List.pairwise_map.mp growing

/-- What lies within an earlier child comes before what lies within a later one. -/
theorem precedes_of_within {way : List Nat} {i j : Nat} {first second a b : Node} (less : i < j)
    (isFirst : first.address = i :: way) (isSecond : second.address = j :: way)
    (inFirst : a.Within first) (inSecond : b.Within second) : a.Precedes b := by
  obtain ⟨restA, wayA⟩ := inFirst.address
  obtain ⟨restB, wayB⟩ := inSecond.address
  rw [Precedes, ← wayA, ← wayB, isFirst, isSecond]
  simp only [List.reverse_append, List.reverse_cons, List.append_assoc, List.singleton_append]
  exact List.append_left_lt (List.cons_lt_cons_iff.mpr (Or.inl less))

/-- A node comes before what lies within its children. -/
theorem precedes_of_within_child {node child inner : Node} (below : child ∈ node.children)
    (within : inner.Within child) : node.Precedes inner := by
  obtain ⟨index, longer⟩ := address_of_mem_children below
  obtain ⟨rest, way⟩ := within.address
  rw [Precedes, ← way, longer, List.reverse_append, List.reverse_cons, List.append_assoc]
  conv_lhs => rw [← List.append_nil node.address.reverse]
  exact List.append_left_lt (List.nil_lt_cons index _)

/-! ### Nodes in order -/

/-- Several nodes lie within a node, in the order of the source. -/
structure Lists (outer : Node) (nodes : List Node) : Prop where
  /-- All lie at or below the node. -/
  within : ∀ node ∈ nodes, node.Within outer
  /-- One comes before the other. -/
  ascend : nodes.Pairwise Precedes

namespace Lists

variable {outer inner : Node} {nodes : List Node}

theorem nil (outer : Node) : outer.Lists [] := ⟨by simp, List.Pairwise.nil⟩

theorem self (outer : Node) : outer.Lists [outer] :=
  ⟨fun node only => List.mem_singleton.mp only ▸ Within.refl node, List.pairwise_singleton _ _⟩

theorem mono (below : inner.Within outer) (lists : inner.Lists nodes) : outer.Lists nodes :=
  ⟨fun node present => (lists.within node present).trans below, lists.ascend⟩

theorem sublist {fewer : List Node} (lists : outer.Lists nodes) (sub : fewer.Sublist nodes) :
    outer.Lists fewer :=
  ⟨fun node present => lists.within node (sub.subset present), lists.ascend.sublist sub⟩

/-- What some children of a node list, one child after the other, the node lists. -/
theorem flatMap_children {some : List Node} {f : Node → List Node}
    (sub : some.Sublist outer.children) (each : ∀ child ∈ some, child.Lists (f child)) :
    outer.Lists (some.flatMap f) := by
  refine ⟨fun node present => ?_, List.pairwise_flatMap.mpr ⟨fun child below => ?_, ?_⟩⟩
  · obtain ⟨child, below, inside⟩ := List.mem_flatMap.mp present
    exact ((each child below).within node inside).trans
      (within_of_mem_children (sub.subset below))
  · exact (each child below).ascend
  · refine ((pairwise_address_children outer).sublist sub).imp_of_mem ?_
    rintro a b memA memB ⟨i, j, less, isFirst, isSecond⟩ inA fromA inB fromB
    exact precedes_of_within less isFirst isSecond ((each a memA).within inA fromA)
      ((each b memB).within inB fromB)

theorem namedChildren (outer : Node) : outer.Lists outer.namedChildren := by
  rw [← List.flatMap_singleton' outer.namedChildren]
  exact flatMap_children List.filter_sublist fun child _ => self child

/-- A node comes in front of what its children list. -/
theorem cons_flatMap_children {some : List Node} {f : Node → List Node}
    (sub : some.Sublist outer.children) (each : ∀ child ∈ some, child.Lists (f child)) :
    outer.Lists (outer :: some.flatMap f) := by
  have below := flatMap_children sub each
  refine ⟨List.forall_mem_cons.mpr ⟨.refl outer, below.within⟩,
    List.pairwise_cons.mpr ⟨fun node present => ?_, below.ascend⟩⟩
  obtain ⟨child, isChild, inside⟩ := List.mem_flatMap.mp present
  exact precedes_of_within_child (sub.subset isChild) ((each child isChild).within node inside)

end Lists

end Node

end CodeGraph
