import CodeGraph.Tree.Literal
import CodeGraph.Tree.Parameter
import Mathlib.Data.List.Nodup

/-!
# Places in a tree

Where nodes lie to each other. A node lies within another one when it is reached by going down from
it; the way to it then leads through the other one. Nodes within two different children of one node
are at different places, which is what keeps apart the nodes that different statements and class
members declare.

## Main Definitions

* `Node.Within`: a node lies at or below another one.
* `Node.Covers`: several nodes lie within a node, no two of them at one place.
* `Node.Apart`: two nodes lie apart, no place lies within both.
* `Node.Scatters`: several nodes lie within a node, any two of them apart.

## Main Statements

* `Node.Within.eq_of_address_eq`: nodes of one tree are told apart by their addresses.
* `Node.Covers.flatMap_children`: what the children of a node cover, the node covers.
* `Node.Covers.cons_below`: a node comes on top of what one of its children covers.
* `Node.Scatters.flatMap_children`: what the children of a node scatter, the node scatters.
-/

namespace CodeGraph.Node

/-- A node lies at or below another one: it is reached from there by going down. -/
inductive Within : Node → Node → Prop
  | refl (node : Node) : Within node node
  | down {inner middle outer : Node} (child : inner ∈ middle.children)
      (above : Within middle outer) : Within inner outer

/-! ### Children -/

/-- The address of a child starts with its index. All facts about places come from this. -/
theorem address_of_mem_children {node child : Node} (below : child ∈ node.children) :
    ∃ index, child.address = index :: node.address := by
  simp only [children, List.mem_map] at below
  obtain ⟨⟨tree, index⟩, -, rfl⟩ := below
  exact ⟨index, rfl⟩

theorem source_of_mem_children {node child : Node} (below : child ∈ node.children) :
    child.source = node.source := by
  simp only [children, List.mem_map] at below
  obtain ⟨entry, -, rfl⟩ := below
  rfl

namespace Within

variable {a b c : Node}

/-- What stands in a node that stands in another one stands in that one. -/
theorem trans (lower : a.Within b) (upper : b.Within c) : a.Within c := by
  induction lower with
  | refl node => exact upper
  | down child above inductionHypothesis => exact .down child (inductionHypothesis upper)

/-- Both are in one file. -/
theorem source (within : a.Within b) : a.source = b.source := by
  induction within with
  | refl node => rfl
  | down child above inductionHypothesis =>
    exact (source_of_mem_children child).trans inductionHypothesis

/-- The way to the inner node goes through the outer one. -/
theorem address (within : a.Within b) : b.address <:+ a.address := by
  induction within with
  | refl node => exact List.suffix_rfl
  | down child above inductionHypothesis =>
    obtain ⟨index, longer⟩ := address_of_mem_children child
    exact longer ▸ inductionHypothesis.trans (List.suffix_cons index _)

end Within

/-- A child stands in its parent. -/
theorem within_of_mem_children {node child : Node} (below : child ∈ node.children) :
    child.Within node :=
  .down below (.refl node)

theorem within_of_mem_namedChildren {node child : Node} (below : child ∈ node.namedChildren) :
    child.Within node :=
  within_of_mem_children (List.mem_filter.mp below).1

/-- The child in a field is a child. -/
theorem mem_children_of_child? {node child : Node} {field : Field}
    (found : node.child? field = some child) : child ∈ node.children :=
  List.mem_of_find?_eq_some found

/-- So does the child in a field. -/
theorem within_of_child? {node child : Node} {field : Field}
    (found : node.child? field = some child) : child.Within node :=
  within_of_mem_children (mem_children_of_child? found)

theorem within_of_firstNamed? {node child : Node} (found : node.firstNamed? = some child) :
    child.Within node :=
  within_of_mem_namedChildren (List.mem_of_head? found)

/-- Taking wrappers off leads further down. -/
theorem unwrap_within (node : Node) : node.unwrap.Within node := by
  fun_induction unwrap node with
  | case1 node wraps inner found smaller inductionHypothesis =>
    exact inductionHypothesis.trans (within_of_firstNamed? found)
  | case2 node wraps missing => exact Within.refl node
  | case3 node plain => exact Within.refl node

/-- The children of a node are at different places. -/
theorem nodup_address_children (node : Node) : (node.children.map address).Nodup := by
  have positions : node.children.map address =
      (List.range' 0 node.focus.children.length).map (· :: node.address) := by
    rw [children, List.map_map, ← List.zipIdx_map_snd 0 node.focus.children, List.map_map]
    rfl
  rw [positions]
  exact List.Nodup.map (fun _ _ equal => (List.cons.inj equal).1) List.nodup_range'

/-- A way that goes through two children of one node goes through one and the same place. -/
theorem address_eq_of_suffix_children {node a b : Node} {way : List Nat}
    (memA : a ∈ node.children) (memB : b ∈ node.children) (inA : a.address <:+ way)
    (inB : b.address <:+ way) : a.address = b.address := by
  obtain ⟨i, addressA⟩ := address_of_mem_children memA
  obtain ⟨j, addressB⟩ := address_of_mem_children memB
  have sameLength : a.address.length = b.address.length := by simp [addressA, addressB]
  exact (List.suffix_of_suffix_length_le inA inB
    (Nat.le_of_eq sameLength)).eq_of_length sameLength

/-- Only one child of a node leads down to a node. -/
theorem eq_of_within_children {node a b inner : Node} (memA : a ∈ node.children)
    (memB : b ∈ node.children) (inA : inner.Within a) (inB : inner.Within b) : a = b :=
  List.inj_on_of_nodup_map (nodup_address_children node) memA memB
    (address_eq_of_suffix_children memA memB inA.address inB.address)

/-- The way down to a node starts with a child, if there is a way to go. -/
theorem Within.eq_or_exists_child {inner outer : Node} (within : inner.Within outer) :
    inner = outer ∨ ∃ child ∈ outer.children, inner.Within child := by
  induction within with
  | refl node => exact Or.inl rfl
  | @down inner middle outer child above inductionHypothesis =>
    rcases inductionHypothesis with rfl | ⟨first, isChild, further⟩
    · exact Or.inr ⟨inner, child, .refl inner⟩
    · exact Or.inr ⟨first, isChild, .down child further⟩

/-- Nodes below a root are told apart by any way to them that every child of a node continues, if
no two of the children that count continue it alike. -/
theorem Within.eq_of_way (way : Node → List Nat) (counts : Node → Bool)
    (continues : ∀ node, ∀ child ∈ node.children, ∃ index, way child = index :: way node)
    (apart : ∀ node : Node, ((node.children.filter counts).map way).Nodup)
    (inner : ∀ node : Node, ∀ child ∈ node.children, counts node) {top a b : Node}
    (start : way top = []) (inA : a.Within top) (inB : b.Within top) (countsA : counts a)
    (countsB : counts b) (same : way a = way b) : a = b := by
  induction inA generalizing b with
  | refl top =>
    cases inB with
    | refl => rfl
    | down childB aboveB =>
      obtain ⟨index, longer⟩ := continues _ _ childB
      cases start.symm.trans (same.trans longer)
  | down childA aboveA inductionHypothesis =>
    obtain ⟨indexA, longerA⟩ := continues _ _ childA
    cases inB with
    | refl => cases start.symm.trans (same.symm.trans longerA)
    | down childB aboveB =>
      obtain ⟨indexB, longerB⟩ := continues _ _ childB
      have above := (List.cons.inj (longerA.symm.trans (same.trans longerB))).2
      obtain rfl := inductionHypothesis start aboveB (inner _ _ childA) (inner _ _ childB) above
      exact List.inj_on_of_nodup_map (apart _) (List.mem_filter.mpr ⟨childA, countsA⟩)
        (List.mem_filter.mpr ⟨childB, countsB⟩) same

/-- Nodes of one tree are told apart by their addresses. -/
theorem Within.eq_of_address_eq {source : SourceFile} {tree : Tree} {a b : Node}
    (inA : a.Within (root source tree)) (inB : b.Within (root source tree))
    (same : a.address = b.address) : a = b := by
  refine eq_of_way Node.address (fun _ => true) (fun _ _ below => address_of_mem_children below)
    (fun node => ?_) (fun _ _ _ => rfl) rfl inA inB rfl rfl same
  rw [List.filter_true]
  exact nodup_address_children node

/-! ### Nodes that a node covers -/

/-- Several nodes lie within a node, no two of them at one place. -/
structure Covers (outer : Node) (nodes : List Node) : Prop where
  /-- All lie at or below the node. -/
  within : ∀ node ∈ nodes, node.Within outer
  /-- No two are at one place. -/
  distinct : (nodes.map address).Nodup

namespace Covers

variable {outer inner : Node} {nodes : List Node}

theorem nil (outer : Node) : outer.Covers [] := ⟨by simp, by simp⟩

theorem self (outer : Node) : outer.Covers [outer] :=
  ⟨fun node only => List.mem_singleton.mp only ▸ Within.refl node, by simp⟩

/-- What a node covers, every node above it covers. -/
theorem mono (below : inner.Within outer) (covers : inner.Covers nodes) : outer.Covers nodes :=
  ⟨fun node present => (covers.within node present).trans below, covers.distinct⟩

theorem sublist {fewer : List Node} (covers : outer.Covers nodes) (sub : fewer.Sublist nodes) :
    outer.Covers fewer :=
  ⟨fun node present => covers.within node (sub.subset present),
    covers.distinct.sublist (sub.map address)⟩

theorem children (outer : Node) : outer.Covers outer.children :=
  ⟨fun _ below => within_of_mem_children below, nodup_address_children outer⟩

theorem namedChildren (outer : Node) : outer.Covers outer.namedChildren :=
  (children outer).sublist List.filter_sublist

/-- What some children of a node cover, the node covers. -/
theorem flatMap_children {some : List Node} {f : Node → List Node}
    (sub : some.Sublist outer.children) (each : ∀ child ∈ some, child.Covers (f child)) :
    outer.Covers (some.flatMap f) := by
  refine ⟨fun node present => ?_, ?_⟩
  · obtain ⟨child, below, inside⟩ := List.mem_flatMap.mp present
    exact ((each child below).within node inside).trans
      (within_of_mem_children (sub.subset below))
  · rw [List.map_flatMap, List.nodup_flatMap]
    refine ⟨fun child below => (each child below).distinct, ?_⟩
    have apart : some.Pairwise fun a b => a.address ≠ b.address :=
      List.pairwise_map.mp ((children outer).sublist sub).distinct
    refine apart.imp_of_mem fun {a b} memA memB different => ?_
    -- A common address would lie within both children.
    rintro address inA inB
    obtain ⟨nodeA, fromA, rfl⟩ := List.mem_map.mp inA
    obtain ⟨nodeB, fromB, equal⟩ := List.mem_map.mp inB
    have throughA := ((each a memA).within nodeA fromA).address
    have throughB := ((each b memB).within nodeB fromB).address
    exact different (address_eq_of_suffix_children (sub.subset memA) (sub.subset memB)
      throughA (equal ▸ throughB))

/-- A node comes on top of what one of its children covers. -/
theorem cons_below (below : inner ∈ outer.children) (covers : inner.Covers nodes) :
    outer.Covers (outer :: nodes) := by
  refine ⟨fun node present => ?_, ?_⟩
  · rcases List.mem_cons.mp present with rfl | lower
    · exact Within.refl node
    · exact (covers.within node lower).trans (within_of_mem_children below)
  · rw [List.map_cons, List.nodup_cons]
    refine ⟨fun present => ?_, covers.distinct⟩
    obtain ⟨node, lower, equal⟩ := List.mem_map.mp present
    obtain ⟨index, longer⟩ := address_of_mem_children below
    have := (covers.within node lower).address.length_le
    rw [equal, longer, List.length_cons] at this
    omega

end Covers

/-! ### Nodes that lie apart -/

/-- Two nodes lie apart: no place lies within both, so neither is the other one or lies within it.
-/
def Apart (a b : Node) : Prop :=
  ∀ inA inB : Node, inA.Within a → inB.Within b → inA.place ≠ inB.place

namespace Apart

variable {a b c d node : Node}

/-- What lies within nodes that lie apart lies apart. -/
theorem mono (apart : a.Apart b) (lowerA : c.Within a) (lowerB : d.Within b) : c.Apart d :=
  fun inC inD belowC belowD => apart inC inD (belowC.trans lowerA) (belowD.trans lowerB)

/-- Being apart goes both ways. -/
theorem symm (apart : a.Apart b) : b.Apart a :=
  fun inB inA belowB belowA same => apart inA inB belowA belowB same.symm

/-- Nodes of different files lie apart. -/
theorem of_source_ne (different : a.source.id ≠ b.source.id) : a.Apart b := by
  intro inA inB belowA belowB same
  have files : inA.source.id = inB.source.id := congrArg Prod.fst same
  rw [belowA.source, belowB.source] at files
  exact different files

/-- Children of one node at different places lie apart. -/
theorem of_mem_children (memA : a ∈ node.children) (memB : b ∈ node.children)
    (different : a.address ≠ b.address) : a.Apart b := by
  intro inA inB belowA belowB same
  have ways : inA.address = inB.address := congrArg Prod.snd same
  exact different (address_eq_of_suffix_children memA memB belowA.address
    (ways ▸ belowB.address))

end Apart

/-- No place within a child of a node is the place of the node. -/
theorem place_ne_of_within_child {node child inner : Node} (below : child ∈ node.children)
    (within : inner.Within child) : inner.place ≠ node.place := by
  intro same
  obtain ⟨index, longer⟩ := address_of_mem_children below
  have length := within.address.length_le
  rw [longer, show inner.address = node.address from congrArg Prod.snd same,
    List.length_cons] at length
  omega

/-- Several nodes lie within a node, any two of them apart. -/
structure Scatters (outer : Node) (nodes : List Node) : Prop where
  /-- All lie at or below the node. -/
  within : ∀ node ∈ nodes, node.Within outer
  /-- Any two lie apart. -/
  apart : nodes.Pairwise Apart

namespace Scatters

variable {outer inner : Node} {nodes : List Node}

theorem nil (outer : Node) : outer.Scatters [] := ⟨by simp, List.Pairwise.nil⟩

theorem self (outer : Node) : outer.Scatters [outer] :=
  ⟨fun node only => List.mem_singleton.mp only ▸ Within.refl node, List.pairwise_singleton _ _⟩

/-- What a node scatters, every node above it scatters. -/
theorem mono (below : inner.Within outer) (scatters : inner.Scatters nodes) :
    outer.Scatters nodes :=
  ⟨fun node present => (scatters.within node present).trans below, scatters.apart⟩

theorem sublist {fewer : List Node} (scatters : outer.Scatters nodes)
    (sub : fewer.Sublist nodes) : outer.Scatters fewer :=
  ⟨fun node present => scatters.within node (sub.subset present), scatters.apart.sublist sub⟩

theorem children (outer : Node) : outer.Scatters outer.children := by
  refine ⟨fun _ below => within_of_mem_children below, ?_⟩
  have different : outer.children.Pairwise fun a b => a.address ≠ b.address :=
    List.pairwise_map.mp (nodup_address_children outer)
  exact different.imp_of_mem fun memA memB => Apart.of_mem_children memA memB

theorem namedChildren (outer : Node) : outer.Scatters outer.namedChildren :=
  (children outer).sublist List.filter_sublist

/-- Nodes that lie apart are at different places. -/
theorem covers (scatters : outer.Scatters nodes) : outer.Covers nodes := by
  refine ⟨scatters.within, List.pairwise_map.mpr ?_⟩
  refine scatters.apart.imp_of_mem fun {a b} memA memB apart same => ?_
  have files : a.source = b.source :=
    (scatters.within a memA).source.trans (scatters.within b memB).source.symm
  exact apart a b (.refl a) (.refl b) (by rw [place, place, files, same])

/-- Nodes inside the scattered nodes of several items, at most one for each item, are scattered. -/
theorem filterMap {α : Type} {items : List α} {place : α → Node} {f : α → Option Node}
    (scatters : outer.Scatters (items.map place))
    (inside : ∀ item found, f item = some found → found.Within (place item)) :
    outer.Scatters (items.filterMap f) := by
  refine ⟨fun found present => ?_, List.pairwise_filterMap.mpr ?_⟩
  · obtain ⟨item, memItem, isFound⟩ := List.mem_filterMap.mp present
    exact (inside item found isFound).trans (scatters.within _ (List.mem_map_of_mem memItem))
  · refine (List.pairwise_map.mp scatters.apart).imp fun {a b} apart foundA isA foundB isB => ?_
    exact apart.mono (inside a foundA isA) (inside b foundB isB)

/-- What some children of a node scatter, the node scatters. -/
theorem flatMap_children {some : List Node} {f : Node → List Node}
    (sub : some.Sublist outer.children) (each : ∀ child ∈ some, child.Scatters (f child)) :
    outer.Scatters (some.flatMap f) := by
  refine ⟨fun node present => ?_, List.pairwise_flatMap.mpr ⟨fun child below => ?_, ?_⟩⟩
  · obtain ⟨child, below, inside⟩ := List.mem_flatMap.mp present
    exact ((each child below).within node inside).trans
      (within_of_mem_children (sub.subset below))
  · exact (each child below).apart
  · refine ((children outer).sublist sub).apart.imp_of_mem fun {a b} memA memB apart => ?_
    intro inA fromA inB fromB
    exact apart.mono ((each a memA).within inA fromA) ((each b memB).within inB fromB)

end Scatters

/-- The parameters of a function lie apart inside it. -/
theorem scatters_parameters (function : Node) : function.Scatters function.parameters := by
  rw [parameters]
  split
  · next list found => exact (Scatters.namedChildren list).mono (within_of_child? found)
  · cases single : function.child? .parameter with
    | none => exact Scatters.nil function
    | some parameter => exact (Scatters.self parameter).mono (within_of_child? single)

end CodeGraph.Node
