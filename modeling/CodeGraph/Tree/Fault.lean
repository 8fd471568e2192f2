import CodeGraph.Tree.Walk

/-!
# Syntax errors in a tree

## Main Definitions

* `Range`: a part of a text by positions.
* `Node.faults`: the error and missing nodes of a tree.
* `Node.faultRanges`: the parts of the text they cover, sorted by where they start.

## Design Notes

The walk passes over trees without a fault and visits the last child of a node first; sorting
afterwards keeps the order of ranges that start at one place.
-/

namespace CodeGraph

/-- A part of a text. -/
structure Range where
  /-- Where it starts. -/
  start : Position
  /-- Where it ends. -/
  stop : Position
  deriving DecidableEq, Repr

/-- Whether one position stands before another or is it. -/
def Position.le (a b : Position) : Bool :=
  a.line < b.line || (a.line = b.line && a.column ≤ b.column)

namespace Node

/-- The part of the text a node covers. -/
def range (node : Node) : Range :=
  ⟨node.source.positionAt node.label.start, node.source.positionAt node.label.stop⟩

/-- The nodes to visit next to find the faults below a node, the last first. -/
def faultyChildren (node : Node) : List Node :=
  if node.focus.hasFault then node.children.reverse else []

theorem totalSize_faultyChildren_lt (node : Node) :
    totalSize node.faultyChildren < node.size := by
  have := totalSize_children node
  rw [faultyChildren]
  split
  · rw [totalSize_reverse]
    omega
  · rw [totalSize]
    omega

/-- The descent that passes over trees without a fault. -/
def faultDescent : Descent where
  below := faultyChildren
  smaller := totalSize_faultyChildren_lt

/-- The error and missing nodes of a tree. -/
def faults (root : Node) : List Node :=
  if root.focus.hasFault then (faultDescent.walk [root]).filter fun node => node.label.isFault
  else []

/-- The parts of the text that faults cover, sorted by where they start. -/
def faultRanges (root : Node) : List Range :=
  (root.faults.map range).mergeSort fun a b => a.start.le b.start

end Node

end CodeGraph
