import CodeGraph.Tree.Kind

/-!
# Syntax trees

The trees that a grammar makes of a source text. A node has a kind, the part of the text it covers
and, when its parent names it, a field. Nodes of kind `error` and nodes that the grammar made up to
go on (`missing`) mark places where the text does not follow the grammar.

## Main Definitions

* `Tree`: a syntax tree.
* `Tree.hasFault`: whether a tree has an error or missing node.
* `Tree.size`: the number of nodes, by which recursion on trees ends.
-/

namespace CodeGraph

/-- What is known of a syntax node besides its children. -/
structure Label where
  /-- The kind of the node. -/
  kind : Kind
  /-- The field under which the parent finds the node. -/
  field : Option Field
  /-- Whether the grammar gives the node a name of its own, as opposed to a word or a sign. -/
  named : Bool
  /-- Whether the node was made up by the grammar to go on. -/
  missing : Bool
  /-- The byte offset at which the node starts. -/
  start : Nat
  /-- The byte offset at which the node ends. -/
  stop : Nat
  deriving DecidableEq, Repr

/-- A syntax tree. -/
inductive Tree where
  | node (label : Label) (children : List Tree)

/-- Whether a node marks a place where the text does not follow the grammar. -/
def Label.isFault (label : Label) : Bool :=
  label.kind = .error || label.missing

namespace Tree

/-- The label of the root. -/
def label : Tree → Label
  | node label _ => label

/-- The trees below the root, in source order. -/
def children : Tree → List Tree
  | node _ children => children

mutual

/-- Whether the root or a node below it is an error or missing. -/
def hasFault : Tree → Bool
  | node label children => label.isFault || anyFault children

/-- Whether one of several trees has a fault. -/
def anyFault : List Tree → Bool
  | [] => false
  | tree :: trees => tree.hasFault || anyFault trees

end

mutual

/-- The number of nodes of a tree. -/
def size : Tree → Nat
  | node _ children => totalSize children + 1

/-- The number of nodes of several trees. -/
def totalSize : List Tree → Nat
  | [] => 0
  | tree :: trees => tree.size + totalSize trees

end

theorem size_le_totalSize {tree : Tree} {trees : List Tree} (h : tree ∈ trees) :
    tree.size ≤ totalSize trees := by
  induction trees with
  | nil => cases h
  | cons first rest ih =>
    rw [totalSize]
    rcases List.mem_cons.1 h with rfl | h
    · omega
    · have := ih h
      omega

theorem size_eq (tree : Tree) : tree.size = totalSize tree.children + 1 := by
  cases tree
  rw [size, children]

theorem size_lt_of_mem_children {tree child : Tree} (h : child ∈ tree.children) :
    child.size < tree.size := by
  have := size_le_totalSize h
  rw [size_eq tree]
  omega

end Tree

end CodeGraph
