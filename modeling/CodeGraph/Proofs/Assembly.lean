import CodeGraph.Graph.Basic
import CodeGraph.Proofs.Keyed

/-!
# Assembled graphs

A graph is assembled by adding nodes and edges one after the other. Of the nodes with one identifier
it has the last one, at the place of the first, and the same of the edges with the same ends, edges
from a node to itself left out. So what was assembled first may be assembled again, alone or with
more after it. When ends determine edges, nothing but loops and repetitions is lost.

## Main Definitions

* `Graph.Addition`, `Graph.Builder.add`: one node or edge is added.
* `Graph.Builder.Holds`: what a graph under assembly has after some additions, and at which
  positions.

## Main Statements

* `Graph.Builder.Holds.add`, `Graph.Builder.holds_foldl_add`: one addition, and any run of them.
* `Graph.assemble_eq_latest`: the last node of each identifier and the last edge of each pair of
  ends.
* `Graph.additions_latestInPlace`: both, for every list of nodes, of edges and of additions.
* `Graph.assembly_continued`: assembling again what was assembled, with more after it.
* `Graph.nodes_assemble`, `Graph.edges_assemble`: the two runs of puts.
* `Graph.nodes_assemble_of_nodup`: nodes with distinct identifiers are kept as they come.
* `Graph.mem_nodes_assemble_iff`, `Graph.length_nodes_assemble_eq_iff`: which nodes are kept.
* `Graph.mem_of_mem_nodes_assemble`, `Graph.mem_of_mem_edges_assemble`: nothing is added.
* `Graph.mem_edges_assemble_iff`: which edges an assembled graph has.
-/

namespace CodeGraph

/-- Whether an edge leads from a node to itself. -/
def GraphEdge.isLoop (edge : GraphEdge) : Bool := edge.source = edge.target

namespace Graph

/-! ### Runs of additions -/

/-- What is added to a graph under assembly. -/
inductive Addition where
  | node (node : GraphNode)
  | edge (edge : GraphEdge)

namespace Addition

/-- The node that is added. -/
def node? : Addition → Option GraphNode
  | node added => some added
  | edge _ => none

/-- The edge that is added. -/
def edge? : Addition → Option GraphEdge
  | node _ => none
  | edge added => some added

end Addition

namespace Builder

/-- Adds a node or an edge. -/
def add (builder : Builder) : Addition → Builder
  | .node node => builder.addNode node
  | .edge edge => builder.addEdge edge

/-- A graph under assembly after some additions: of nodes with one identifier it has the last one,
at the place of the first, and the same of edges by their ends, loops left out. -/
structure Holds (builder : Builder) (additions : List Addition) : Prop where
  nodes : builder.nodes.Holds GraphNode.id (additions.filterMap Addition.node?)
  edges : builder.edges.Holds GraphEdge.ends
    ((additions.filterMap Addition.edge?).filter (!GraphEdge.isLoop ·))

theorem holds_empty : ({} : Builder).Holds [] where
  nodes := Keyed.Shelf.holds_empty
  edges := Keyed.Shelf.holds_empty

/-- One addition. A node does not touch the edges, nor an edge the nodes. -/
theorem Holds.add {builder : Builder} {additions : List Addition} (holds : builder.Holds additions)
    (addition : Addition) : (builder.add addition).Holds (additions ++ [addition]) := by
  cases addition with
  | node node =>
    have nodes : (additions ++ [Addition.node node]).filterMap Addition.node? =
        additions.filterMap Addition.node? ++ [node] := by simp [Addition.node?]
    have edges : (additions ++ [Addition.node node]).filterMap Addition.edge? =
        additions.filterMap Addition.edge? := by simp [Addition.edge?]
    exact ⟨nodes ▸ holds.nodes.put node, edges ▸ holds.edges⟩
  | edge edge =>
    have nodes : (additions ++ [Addition.edge edge]).filterMap Addition.node? =
        additions.filterMap Addition.node? := by simp [Addition.node?]
    rw [Builder.add, addEdge]
    by_cases loop : edge.source = edge.target
    · have edges : ((additions ++ [Addition.edge edge]).filterMap Addition.edge?).filter
          (!GraphEdge.isLoop ·) =
            (additions.filterMap Addition.edge?).filter (!GraphEdge.isLoop ·) := by
        simp [Addition.edge?, GraphEdge.isLoop, loop]
      rw [if_pos loop]
      exact ⟨nodes ▸ holds.nodes, edges ▸ holds.edges⟩
    · have edges : ((additions ++ [Addition.edge edge]).filterMap Addition.edge?).filter
          (!GraphEdge.isLoop ·) =
            (additions.filterMap Addition.edge?).filter (!GraphEdge.isLoop ·) ++ [edge] := by
        simp [Addition.edge?, GraphEdge.isLoop, loop]
      rw [if_neg loop]
      exact ⟨nodes ▸ holds.nodes, edges ▸ holds.edges.put edge⟩

/-- Any run of additions. -/
theorem holds_foldl_add (additions : List Addition) :
    (additions.foldl Builder.add {}).Holds additions := by
  induction additions using List.reverseRecOn with
  | nil => exact holds_empty
  | append_singleton earlier last inductionHypothesis =>
    rw [List.foldl_append, List.foldl_cons, List.foldl_nil]
    exact inductionHypothesis.add last

end Builder

/-! ### Assembly -/

/-- A graph is assembled by adding all nodes and then all edges. -/
theorem assemble_eq_foldl_add (nodes : List GraphNode) (edges : List GraphEdge) :
    assemble nodes edges =
      ((nodes.map Addition.node ++ edges.map Addition.edge).foldl Builder.add {}).graph := by
  rw [assemble, List.foldl_append, List.foldl_map, List.foldl_map]
  rfl

/-- An assembled graph has the last node of each identifier and the last edge of each pair of ends,
loops left out, at the place of the first. -/
theorem assemble_eq_latest (nodes : List GraphNode) (edges : List GraphEdge) :
    assemble nodes edges = ⟨Keyed.latest GraphNode.id nodes,
      Keyed.latest GraphEdge.ends (edges.filter (!GraphEdge.isLoop ·))⟩ := by
  have holds := Builder.holds_foldl_add (nodes.map Addition.node ++ edges.map Addition.edge)
  have givenNodes : (nodes.map Addition.node ++ edges.map Addition.edge).filterMap
      Addition.node? = nodes := by
    simp [List.filterMap_append, List.filterMap_map, Function.comp_def, Addition.node?]
  have givenEdges : (nodes.map Addition.node ++ edges.map Addition.edge).filterMap
      Addition.edge? = edges := by
    simp [List.filterMap_append, List.filterMap_map, Function.comp_def, Addition.edge?]
  rw [assemble_eq_foldl_add, Builder.graph, holds.nodes.records, holds.edges.records, givenNodes,
    givenEdges]

theorem nodes_assemble (nodes : List GraphNode) (edges : List GraphEdge) :
    (assemble nodes edges).nodes = nodes.foldl (Keyed.upsert GraphNode.id) [] := by
  rw [assemble_eq_latest, Keyed.foldl_upsert_eq_latest]

theorem edges_assemble (nodes : List GraphNode) (edges : List GraphEdge) :
    (assemble nodes edges).edges =
      (edges.filter (!GraphEdge.isLoop ·)).foldl (Keyed.upsert GraphEdge.ends) [] := by
  rw [assemble_eq_latest, Keyed.foldl_upsert_eq_latest]

/-! ### What an assembled graph has -/

/-- Nodes with distinct identifiers are kept as they come. -/
theorem nodes_assemble_of_nodup {nodes : List GraphNode}
    (distinct : (nodes.map GraphNode.id).Nodup) (edges : List GraphEdge) :
    (assemble nodes edges).nodes = nodes := by
  rw [assemble_eq_latest, Keyed.latest_of_nodup distinct]

/-- An assembled graph has no node but the given ones. -/
theorem mem_of_mem_nodes_assemble {nodes : List GraphNode} {edges : List GraphEdge}
    {node : GraphNode} (present : node ∈ (assemble nodes edges).nodes) : node ∈ nodes := by
  rw [nodes_assemble] at present
  exact (Keyed.mem_of_mem_foldl_upsert present).resolve_left List.not_mem_nil

/-- The identifier of every given node is that of a node of the graph. -/
theorem id_mem_nodes_assemble {nodes : List GraphNode} {node : GraphNode} (given : node ∈ nodes)
    (edges : List GraphEdge) : node.id ∈ (assemble nodes edges).nodes.map GraphNode.id := by
  rw [nodes_assemble]
  exact Keyed.key_mem_foldl_upsert (Or.inr (List.mem_map_of_mem given))

/-- Of nodes with one identifier the last one is kept. -/
theorem mem_nodes_assemble_iff {nodes : List GraphNode} {edges : List GraphEdge}
    {node : GraphNode} :
    node ∈ (assemble nodes edges).nodes ↔
      (nodes.filter fun other => other.id = node.id).getLast? = some node := by
  rw [nodes_assemble, Keyed.mem_foldl_upsert_iff]

/-- No node is lost exactly when all identifiers are distinct. -/
theorem length_nodes_assemble_eq_iff {nodes : List GraphNode} {edges : List GraphEdge} :
    (assemble nodes edges).nodes.length = nodes.length ↔ (nodes.map GraphNode.id).Nodup := by
  rw [nodes_assemble, Keyed.length_foldl_upsert_eq_iff]

/-- An assembled graph has no edge but the given ones. -/
theorem mem_of_mem_edges_assemble {nodes : List GraphNode} {edges : List GraphEdge}
    {edge : GraphEdge} (present : edge ∈ (assemble nodes edges).edges) : edge ∈ edges := by
  rw [edges_assemble] at present
  have kept := (Keyed.mem_of_mem_foldl_upsert present).resolve_left List.not_mem_nil
  exact (List.mem_filter.mp kept).1

/-- No two nodes have the same identifier. -/
theorem nodup_ids_assemble (nodes : List GraphNode) (edges : List GraphEdge) :
    ((assemble nodes edges).nodes.map GraphNode.id).Nodup := by
  rw [assemble_eq_latest]
  exact Keyed.nodup_latest nodes

/-- No two edges have the same ends. -/
theorem nodup_ends_assemble (nodes : List GraphNode) (edges : List GraphEdge) :
    ((assemble nodes edges).edges.map GraphEdge.ends).Nodup := by
  rw [assemble_eq_latest]
  exact Keyed.nodup_latest _

/-- When ends determine edges, an assembled graph has exactly the given edges that are no loops. -/
theorem mem_edges_assemble_iff (nodes : List GraphNode) {edges : List GraphEdge}
    (determined : Keyed.Determines GraphEdge.ends edges) {edge : GraphEdge} :
    edge ∈ (assemble nodes edges).edges ↔ edge ∈ edges ∧ edge.source ≠ edge.target := by
  have determinedRest : Keyed.Determines GraphEdge.ends (edges.filter (!GraphEdge.isLoop ·)) :=
    determined.of_subset List.filter_sublist.subset
  rw [edges_assemble, Keyed.foldl_upsert_eq_keepFirst determinedRest,
    Keyed.mem_keepFirst_iff determinedRest, List.mem_filter]
  simp [GraphEdge.isLoop]

/-- No edge leads from a node to itself. -/
theorem filter_isLoop_edges_assemble (nodes : List GraphNode) (edges : List GraphEdge) :
    (assemble nodes edges).edges.filter (!GraphEdge.isLoop ·) = (assemble nodes edges).edges := by
  rw [List.filter_eq_self]
  intro edge present
  rw [assemble_eq_latest] at present
  exact (List.mem_filter.mp (Keyed.mem_of_mem_latest present)).2

/-! ### The order of additions -/

/-- For every list of nodes and every list of edges the assembled graph has, for each identifier in
the order in which they first come, the last node with this identifier, and for each pair of
different ends in the order in which they first come, the last edge with these ends. After every run
of additions, in which nodes and edges may take turns, the graph under assembly has the same of what
was added so far, and its tables give for each identifier and each pair of ends the position of the
one entry that has it. -/
theorem additions_latestInPlace (nodes : List GraphNode) (edges : List GraphEdge)
    (additions : List Addition) :
    assemble nodes edges = ⟨Keyed.latest GraphNode.id nodes,
        Keyed.latest GraphEdge.ends (edges.filter fun edge => edge.source ≠ edge.target)⟩ ∧
      (additions.foldl Builder.add {}).Holds additions := by
  refine ⟨?_, Builder.holds_foldl_add additions⟩
  rw [assemble_eq_latest]
  simp [GraphEdge.isLoop]

/-- What was assembled may stand in for what it was assembled from, whatever is added after it. So
assembling a graph again changes nothing, nor does assembling its lists doubled. -/
theorem assembly_continued (nodes moreNodes : List GraphNode) (edges moreEdges : List GraphEdge) :
    assemble ((assemble nodes edges).nodes ++ moreNodes) ((assemble nodes edges).edges ++ moreEdges) =
        assemble (nodes ++ moreNodes) (edges ++ moreEdges) ∧
      assemble (assemble nodes edges).nodes (assemble nodes edges).edges = assemble nodes edges ∧
      assemble ((assemble nodes edges).nodes ++ (assemble nodes edges).nodes)
          ((assemble nodes edges).edges ++ (assemble nodes edges).edges) =
        assemble nodes edges := by
  refine ⟨?_, ?_, ?_⟩
  · rw [assemble_eq_latest (_ ++ _), List.filter_append, filter_isLoop_edges_assemble,
      assemble_eq_latest nodes, Keyed.latest_append, Keyed.latest_append, ← List.filter_append,
      ← assemble_eq_latest]
  · rw [assemble_eq_latest (assemble nodes edges).nodes, filter_isLoop_edges_assemble,
      Keyed.latest_of_nodup (nodup_ids_assemble nodes edges),
      Keyed.latest_of_nodup (nodup_ends_assemble nodes edges)]
  · rw [assemble_eq_latest (_ ++ _), List.filter_append, filter_isLoop_edges_assemble,
      Keyed.latest_append_of_subset (nodup_ids_assemble nodes edges) (List.Subset.refl _),
      Keyed.latest_append_of_subset (nodup_ends_assemble nodes edges) (List.Subset.refl _)]

end Graph

end CodeGraph
