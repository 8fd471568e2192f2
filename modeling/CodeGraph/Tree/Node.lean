import CodeGraph.Source
import CodeGraph.Tree.Basic

/-!
# Nodes of a source file

A node is a place in the syntax tree of a file: the tree below it and the way back up to the root.
Two nodes are the same when they are reached by the same way in the same file.

## Main Definitions

* `Node`: a place in the tree of a file.
* `Node.parent?`, `Node.ancestors`, `Node.children`, `Node.child?`: the nodes around it.
* `Node.address`, `Node.place`, `Node.same`: what tells nodes apart.
* `Node.preorder`: a node and all named nodes below it.

## Design Notes

Comments are named nodes but say nothing; `namedChildren` leaves them out, and everything that reads
meaning off a tree goes through it.
-/

namespace CodeGraph

/-- One step up from a node: the parent's tree, and the number of the node among its children. -/
structure Step where
  /-- The tree of the parent. -/
  parent : Tree
  /-- The number of the node among the children of the parent. -/
  index : Nat

/-- A place in the syntax tree of a file. -/
structure Node where
  /-- The file. -/
  source : SourceFile
  /-- The tree below the place. -/
  focus : Tree
  /-- The steps up to the root, nearest first. -/
  trail : List Step

namespace Node

/-- The root of the tree of a file. -/
def root (source : SourceFile) (tree : Tree) : Node := ⟨source, tree, []⟩

/-! ### What is known of a node -/

/-- The label of a node. -/
def label (node : Node) : Label := node.focus.label

/-- The kind of a node. -/
def kind (node : Node) : Kind := node.label.kind

/-- The text a node covers. -/
def text (node : Node) : String := node.source.slice node.label.start node.label.stop

/-- The numbers of the children on the way down from the root, last step first. -/
def address (node : Node) : List Nat := node.trail.map Step.index

/-- What tells a node apart from all other nodes of a program: its file and the way to it. -/
def place (node : Node) : FileId × List Nat := (node.source.id, node.address)

/-- Whether two nodes are one place of one file. -/
def same (a b : Node) : Bool := a.source.id = b.source.id && a.address = b.address

/-! ### Around a node -/

/-- The node above. -/
def parent? (node : Node) : Option Node :=
  match node.trail with
  | [] => none
  | step :: rest => some ⟨node.source, step.parent, rest⟩

/-- The nodes along a trail. -/
def alongTrail (source : SourceFile) : List Step → List Node
  | [] => []
  | step :: rest => ⟨source, step.parent, rest⟩ :: alongTrail source rest

/-- The nodes above, nearest first. -/
def ancestors (node : Node) : List Node := alongTrail node.source node.trail

/-- The node at a child. -/
def enter (node : Node) (tree : Tree) (index : Nat) : Node :=
  ⟨node.source, tree, ⟨node.focus, index⟩ :: node.trail⟩

/-- The nodes right below, in source order. -/
def children (node : Node) : List Node :=
  node.focus.children.zipIdx.map fun entry => node.enter entry.1 entry.2

/-- The named nodes right below, comments left out. -/
def namedChildren (node : Node) : List Node :=
  node.children.filter fun child => child.label.named && child.kind ≠ .comment

/-- The first named node right below that is no comment. -/
def firstNamed? (node : Node) : Option Node := node.namedChildren.head?

/-- The first node right below that stands under a field. -/
def child? (node : Node) (field : Field) : Option Node :=
  node.children.find? fun child => child.label.field = some field

/-- Whether a node of a kind stands right below, be it a name, a word or a sign. -/
def hasChild (node : Node) (kind : Kind) : Bool :=
  node.children.any fun child => child.kind = kind

/-! ### Descending gets smaller -/

/-- The number of nodes from a node down. -/
def size (node : Node) : Nat := node.focus.size

theorem size_lt_of_mem_children {node child : Node} (h : child ∈ node.children) :
    child.size < node.size := by
  simp only [children, List.mem_map] at h
  obtain ⟨⟨tree, index⟩, hmem, rfl⟩ := h
  exact Tree.size_lt_of_mem_children (List.fst_mem_of_mem_zipIdx hmem)

theorem size_lt_of_mem_namedChildren {node child : Node} (h : child ∈ node.namedChildren) :
    child.size < node.size :=
  size_lt_of_mem_children (List.mem_filter.1 h).1

theorem size_lt_of_firstNamed? {node child : Node} (h : node.firstNamed? = some child) :
    child.size < node.size :=
  size_lt_of_mem_namedChildren (List.mem_of_head? h)

theorem size_lt_of_child? {node child : Node} {field : Field}
    (h : node.child? field = some child) : child.size < node.size :=
  size_lt_of_mem_children (List.mem_of_find?_eq_some h)

/-! ### All nodes -/

/-- A node and all named nodes below it, comments among them, parents before children. -/
def preorder (node : Node) : List Node :=
  node :: ((node.children.filter fun child => child.label.named).attach.map fun child =>
    have := size_lt_of_mem_children (List.mem_filter.1 child.property).1
    preorder child.val).flatten
termination_by node.size

end Node

end CodeGraph
