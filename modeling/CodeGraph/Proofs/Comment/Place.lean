import CodeGraph.Proofs.Comment.Names

/-!
# Places in files without comments

A declaration is found again by the place of its node, and taking comments away moves nodes. It
moves no two nodes that are left to one place, so what was found at a node with children is found at
the same node when the comments are gone. This makes the class around a place the same class.

## Main Definitions

* `Program.Prunable`: a rooted program of numbered files that stays rooted without comments.

## Main Statements

* `Node.Within.eq_of_address_pruned_eq`: nodes that are left stay at different places.
* `Program.prunable_ofModel`: the program of numbered files is prunable.
* `Program.Prunable.enclosingClass?_pruned`: the class around a place.
* `Program.Prunable.same_pruned`: types are the same as before.
-/

namespace CodeGraph

namespace Node

theorem isBareComment_of_mem_children {node child : Node} (below : child ∈ node.children) :
    node.isBareComment = false := by
  rw [Bool.eq_false_iff]
  intro bare
  rw [children_of_isBareComment bare] at below
  cases below

theorem mem_children_pruned {node child : Node} (below : child ∈ node.children)
    (left : child.isBareComment = false) : child.pruned ∈ node.pruned.children := by
  rw [children_pruned]
  exact List.mem_map_of_mem (List.mem_filter.mpr ⟨below, by simp [left]⟩)

/-- A node that is left lies within what is left of the nodes around it. -/
theorem Within.pruned {a b : Node} (within : a.Within b) (left : a.isBareComment = false) :
    a.pruned.Within b.pruned := by
  induction within with
  | refl node => exact .refl _
  | down child above inductionHypothesis =>
    exact .down (mem_children_pruned child left)
      (inductionHypothesis (isBareComment_of_mem_children child))

theorem address_pruned_of_mem_children {node child : Node} (below : child ∈ node.children) :
    ∃ index, child.pruned.address = index :: node.pruned.address := by
  simp only [children, List.mem_map] at below
  obtain ⟨entry, -, rfl⟩ := below
  exact ⟨_, rfl⟩

/-- Nodes of one tree that are left stay at different places. -/
theorem Within.eq_of_address_pruned_eq {source : SourceFile} {tree : Tree} {a b : Node}
    (inA : a.Within (root source tree)) (inB : b.Within (root source tree))
    (leftA : a.isBareComment = false) (leftB : b.isBareComment = false)
    (same : a.pruned.address = b.pruned.address) : a = b := by
  refine eq_of_way (fun node => node.pruned.address) (!isBareComment ·)
    (fun _ _ below => address_pruned_of_mem_children below) (fun node => ?_)
    (fun _ _ below => by simp [isBareComment_of_mem_children below]) rfl inA inB
    (by simp [leftA]) (by simp [leftB]) same
  have apart := nodup_address_children node.pruned
  rwa [children_pruned, List.map_map] at apart

end Node

theorem Model.Numbered.pruned {model : Model} (numbered : model.Numbered) :
    model.pruned.Numbered := by
  intro position file found
  rw [Model.pruned, List.getElem?_map] at found
  obtain ⟨original, here, rfl⟩ := Option.map_eq_some_iff.mp found
  exact numbered position original here

namespace Program

variable {program : Program}

/-! ### Nodes of a program -/

theorem HasNode.pruned {node : Node} (has : program.HasNode node)
    (left : node.isBareComment = false) : program.pruned.HasNode node.pruned := by
  obtain ⟨file, present, within⟩ := has
  exact ⟨file.pruned, List.mem_map_of_mem present, within.pruned left⟩

/-- Nodes of a program that are left stay at different places. -/
theorem eq_of_place_pruned_eq (numbered : program.model.Numbered) {a b : Node}
    (hasA : program.HasNode a) (hasB : program.HasNode b) (leftA : a.isBareComment = false)
    (leftB : b.isBareComment = false) (same : a.pruned.place = b.pruned.place) : a = b := by
  obtain ⟨source, tree, inA, inB⟩ := exists_root_of_id_eq numbered hasA hasB (Prod.ext_iff.mp same).1
  exact inA.eq_of_address_pruned_eq inB leftA leftB (Prod.ext_iff.mp same).2

/-- A rooted program of numbered files that stays rooted without comments. -/
structure Prunable (program : Program) : Prop extends program.Rooted where
  /-- The files are numbered by position. -/
  numberedFiles : program.model.Numbered
  /-- Declarations stand at nodes of the trees that are left. -/
  rootedPruned : program.pruned.Rooted

/-- The program of numbered files is prunable. -/
theorem prunable_ofModel {model : Model} (numbered : model.Numbered) : (ofModel model).Prunable where
  toRooted := rooted_ofModel numbered
  numberedFiles := numbered
  rootedPruned := ofModel_pruned model ▸ rooted_ofModel numbered.pruned

namespace Prunable

/-! ### Declarations at places -/

/-- What a node declares that keeps a child. -/
theorem declAt?_pruned (prunable : program.Prunable) {node child : Node}
    (has : program.HasNode node) (below : child ∈ node.children)
    (left : child.isBareComment = false) :
    program.pruned.declAt? node.pruned = (program.declAt? node).map Decl.pruned := by
  have leftNode := Node.isBareComment_of_mem_children below
  cases found : program.declAt? node with
  | some decl =>
    obtain ⟨present, same⟩ := prunable.declaredAt node decl found
    obtain rfl := eq_of_place_eq prunable.numberedFiles (prunable.declNode decl present) has same
    exact prunable.rootedPruned.declAt decl.pruned (List.mem_map_of_mem present)
  | none =>
    rw [Option.map_none, Option.eq_none_iff_forall_ne_some]
    intro moved foundMoved
    obtain ⟨present, same⟩ := prunable.rootedPruned.declaredAt _ _ foundMoved
    obtain ⟨decl, memDecl, rfl⟩ := List.mem_map.mp present
    -- What is left of the declaring node is what is left of the node, so it keeps the child, too.
    have alike : decl.node.pruned = node.pruned := eq_of_place_eq prunable.numberedFiles.pruned
      (prunable.rootedPruned.declNode _ present) (has.pruned leftNode) same
    have kept : child.pruned ∈ decl.node.pruned.children :=
      alike ▸ Node.mem_children_pruned below left
    rw [Node.children_pruned] at kept
    obtain ⟨inner, memInner, -⟩ := List.mem_map.mp kept
    have leftDecl := Node.isBareComment_of_mem_children (List.mem_filter.mp memInner).1
    obtain rfl := eq_of_place_pruned_eq prunable.numberedFiles (prunable.declNode decl memDecl) has
      leftDecl leftNode (congrArg Node.place alike)
    cases found.symm.trans (prunable.declAt decl memDecl)

/-! ### Classes around a place -/

/-- The class that the node above declares, when a node with a child stands below it. -/
theorem classAbove?_pruned (prunable : program.Prunable) {node child : Node}
    (has : program.HasNode node) (below : child ∈ node.children) :
    ((node.ancestors.map Node.pruned).head?.bind program.pruned.declAt?).filter Decl.isClass =
      ((node.ancestors.head?.bind program.declAt?).filter Decl.isClass).map Decl.pruned := by
  have left := Node.isBareComment_of_mem_children below
  obtain ⟨file, present, within⟩ := has
  cases within with
  | refl => rfl
  | @down _ parent _ childOfParent above =>
    rw [Node.ancestors_of_mem_children childOfParent, List.map_cons, List.head?_cons,
      List.head?_cons, Option.bind_some, Option.bind_some,
      prunable.declAt?_pruned ⟨file, present, above⟩ childOfParent left]
    cases program.declAt? parent with
    | none => rfl
    | some decl => by_cases isClass : decl.isClass <;> simp [Option.filter, isClass]

/-- The class around a place of the program. -/
theorem enclosingClass?_pruned (prunable : program.Prunable) {place : Node}
    (has : program.HasNode place) :
    program.pruned.enclosingClass? place.pruned =
      (program.enclosingClass? place).map Decl.pruned := by
  obtain ⟨file, present, within⟩ := has
  rw [enclosingClass?, Node.ancestors_pruned, enclosingClass?]
  generalize isRoot : file.root = top at within
  induction within with
  | refl => subst isRoot; rfl
  | @down place around top below above inductionHypothesis =>
    have has : program.HasNode around := ⟨file, present, isRoot ▸ above⟩
    have higher := inductionHypothesis isRoot
    have object : (around.ancestors.map Node.pruned).head?.map Node.kind =
        around.ancestors.head?.map Node.kind := by
      cases around.ancestors <;> simp
    rw [Node.ancestors_of_mem_children below, List.map_cons, classAmong?, classAmong?,
      Node.kind_pruned, object]
    split
    · exact prunable.classAbove?_pruned has below
    · rfl
    · rfl
    · rfl
    · rfl
    · rfl
    · split
      · rfl
      · exact higher
    · exact higher

/-! ### Types -/

theorem node_same_pruned (prunable : program.Prunable) {a b : Node} (hasA : program.HasNode a)
    (hasB : program.HasNode b) (leftA : a.isBareComment = false)
    (leftB : b.isBareComment = false) : a.pruned.same b.pruned = a.same b := by
  have place_iff : ∀ first second : Node, first.same second = true ↔ first.place = second.place := by
    intro first second
    simp [Node.same, Node.place]
  rw [Bool.eq_iff_iff, place_iff, place_iff]
  constructor
  · intro same
    rw [eq_of_place_pruned_eq prunable.numberedFiles hasA hasB leftA leftB same]
  · intro same
    rw [eq_of_place_eq prunable.numberedFiles hasA hasB same]

/-- Types are the same as before. -/
theorem same_pruned (prunable : program.Prunable) {a b : Ty} (placedA : a.Placed program)
    (placedB : b.Placed program) (kindedA : a.WellKinded program)
    (kindedB : b.WellKinded program) : a.pruned.same b.pruned = a.same b := by
  have left : ∀ {node : Node}, node.kind = .object → node.isBareComment = false := by
    intro node kind
    rw [Bool.eq_false_iff]
    intro bare
    cases kind.symm.trans (Node.kind_of_isBareComment bare)
  cases a with
  | object nodeA =>
    cases b with
    | object nodeB =>
      exact prunable.node_same_pruned placedA placedB (left kindedA) (left kindedB)
    | _ => rfl
  | _ => cases b <;> rfl

end Prunable

end Program

end CodeGraph
