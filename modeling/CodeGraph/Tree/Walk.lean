import CodeGraph.Tree.Node

/-!
# Walks through a tree

A walk visits nodes one after the other: after a node come the nodes that lie below it, then those
that were waiting. Which nodes lie below a node, and in which order, is up to the walk.

## Main Definitions

* `Descent`: what lies below a node in a walk.
* `Descent.walk`: the nodes visited, in order.

## Design Notes

The nodes below a node are together smaller than the node, so the nodes that are waiting get smaller
with every visit. The proof is part of the descent.
-/

namespace CodeGraph

namespace Node

/-- The sizes of several nodes together. -/
def totalSize : List Node → Nat
  | [] => 0
  | node :: nodes => node.size + totalSize nodes

theorem totalSize_cons (node : Node) (nodes : List Node) :
    totalSize (node :: nodes) = node.size + totalSize nodes := rfl

theorem totalSize_append (a b : List Node) :
    totalSize (a ++ b) = totalSize a + totalSize b := by
  induction a with
  | nil => simp [totalSize]
  | cons node nodes ih => rw [List.cons_append, totalSize_cons, totalSize_cons, ih, Nat.add_assoc]

theorem totalSize_reverse (nodes : List Node) : totalSize nodes.reverse = totalSize nodes := by
  induction nodes with
  | nil => rfl
  | cons node nodes ih =>
    rw [List.reverse_cons, totalSize_append, ih, totalSize_cons, totalSize_cons, totalSize]
    omega

theorem totalSize_filter_le (p : Node → Bool) (nodes : List Node) :
    totalSize (nodes.filter p) ≤ totalSize nodes := by
  induction nodes with
  | nil => exact Nat.le_refl _
  | cons node nodes ih =>
    rw [List.filter_cons]
    split <;> simp only [totalSize_cons] <;> omega

theorem totalSize_enter (parent : Node) (trees : List Tree) (k : Nat) :
    totalSize ((trees.zipIdx k).map fun entry => parent.enter entry.1 entry.2) =
      Tree.totalSize trees := by
  induction trees generalizing k with
  | nil => rfl
  | cons tree trees ih =>
    rw [List.zipIdx_cons, List.map_cons, totalSize_cons, ih (k + 1), Tree.totalSize]
    rfl

theorem totalSize_children (node : Node) : totalSize node.children + 1 = node.size := by
  rw [children, totalSize_enter, size, Tree.size_eq]

end Node

/-- What lies below a node in a walk. -/
structure Descent where
  /-- The nodes to visit after a node, in order. -/
  below : Node → List Node
  /-- Together they are smaller than the node. -/
  smaller : ∀ node, Node.totalSize (below node) < node.size

namespace Descent

/-- The nodes visited when some nodes are waiting. -/
def walk (descent : Descent) : List Node → List Node
  | [] => []
  | node :: waiting =>
    have : Node.totalSize (descent.below node ++ waiting) < Node.totalSize (node :: waiting) := by
      have := descent.smaller node
      rw [Node.totalSize_append, Node.totalSize_cons]
      omega
    node :: walk descent (descent.below node ++ waiting)
termination_by waiting => Node.totalSize waiting

end Descent

end CodeGraph
