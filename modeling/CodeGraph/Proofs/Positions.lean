import CodeGraph.Proofs.Calls
import CodeGraph.Proofs.Wiring
import Mathlib.Data.List.Forall2

/-!
# Graphs by positions

An edge of a graph names its ends by identifiers, an edge of the graph by positions by places in the
list of nodes. When no two nodes have one identifier, the one place of an identifier holds the node
that a search for the identifier finds, so the two graphs say the same. Only edges with an end that
is no node are lost. The analyses give no such edges: an edge is made when both of its ends have
been collected, and a class that shares its node with another has a node all the same.

## Main Definitions

* `Graph.Connects`: both ends of an edge are nodes.
* `Graph.StandsFor`: an edge between positions stands for an edge of a graph.
* `Graph.SeenBy`: a graph by positions shows a graph.

## Main Statements

* `Graph.position?_eq_some_iff`: the position of an identifier.
* `Graph.seenBy_digraph`: a graph whose nodes have distinct identifiers is shown.
* `Program.WellFormed.connects_wiringGraph`: the edges of a wiring graph lead between its nodes.
* `Analysis.edges_keptByPosition`: assembled graphs are shown, those of the analyses with all edges.
-/

namespace CodeGraph

namespace Graph

/-- Both ends of an edge are nodes. -/
def Connects (graph : Graph) (edge : GraphEdge) : Prop :=
  edge.source ∈ graph.nodes.map GraphNode.id ∧ edge.target ∈ graph.nodes.map GraphNode.id

instance (graph : Graph) : DecidablePred graph.Connects :=
  fun edge => inferInstanceAs (Decidable
    (edge.source ∈ graph.nodes.map GraphNode.id ∧ edge.target ∈ graph.nodes.map GraphNode.id))

/-- A position holds the node that a graph has for an identifier. -/
def Holds (graph : Graph) (position : Nat) (id : String) : Prop :=
  ∃ node, graph.node? id = some node ∧ graph.nodes[position]? = some node

/-- An edge between positions stands for an edge of a graph: the positions hold the nodes at its
ends, and it is of the same kind. -/
structure StandsFor (graph : Graph) (edge : GraphEdge) (arrow : Nat × Nat × EdgeKind) : Prop where
  /-- The first position holds the node that the edge starts at. -/
  source : graph.Holds arrow.1 edge.source
  /-- The second position holds the node that the edge leads to. -/
  target : graph.Holds arrow.2.1 edge.target
  /-- The kind is the same. -/
  kind : arrow.2.2 = edge.kind

/-- A graph by positions shows a graph: it has the same nodes, and for each edge between nodes, in
order, one that stands for it. -/
structure SeenBy (graph : Graph) (digraph : Digraph) : Prop where
  /-- The nodes are the same. -/
  nodes : digraph.nodes = graph.nodes
  /-- The edges stand for those between nodes. -/
  edges : List.Forall₂ graph.StandsFor (graph.edges.filter fun edge => graph.Connects edge)
    digraph.edges

variable {graph : Graph}

/-! ### Positions of identifiers -/

/-- The position of an identifier is the place of the one node that has it. -/
theorem position?_eq_some_iff {nodes : List GraphNode} (distinct : (nodes.map GraphNode.id).Nodup)
    {id : String} {position : Nat} :
    position? nodes id = some position ↔ (nodes.map GraphNode.id)[position]? = some id := by
  have reversed : (nodes.zipIdx.reverse.map fun entry => entry.1.id).Nodup := by
    have ids : (nodes.zipIdx.map fun entry => entry.1.id) = nodes.map GraphNode.id := by
      conv_rhs => rw [← List.zipIdx_map_fst 0 nodes, List.map_map]
      rfl
    rw [List.map_reverse, List.nodup_reverse, ids]
    exact distinct
  rw [position?, Option.map_eq_some_iff, List.getElem?_map, Option.map_eq_some_iff]
  constructor
  · rintro ⟨⟨node, place⟩, found, rfl⟩
    have present := List.mem_reverse.mp (List.mem_of_find?_eq_some found)
    have named : node.id = id := by simpa using List.find?_some found
    exact ⟨node, List.mem_zipIdx_iff_getElem?.mp present, named⟩
  · rintro ⟨node, there, rfl⟩
    have present : (node, position) ∈ nodes.zipIdx.reverse :=
      List.mem_reverse.mpr (List.mem_zipIdx_iff_getElem?.mpr there)
    exact ⟨(node, position), Keyed.find?_key_of_nodup reversed present, rfl⟩

/-- A position that is found holds the node of the identifier. -/
theorem holds_of_position? (distinct : (graph.nodes.map GraphNode.id).Nodup) {id : String}
    {position : Nat} (found : position? graph.nodes id = some position) :
    graph.Holds position id := by
  have place := (position?_eq_some_iff distinct).mp found
  rw [List.getElem?_map, Option.map_eq_some_iff] at place
  obtain ⟨node, there, rfl⟩ := place
  exact ⟨node, Keyed.find?_key_of_nodup distinct (List.mem_of_getElem? there), there⟩

/-- The identifiers of nodes are those with a position. -/
theorem exists_position?_iff (distinct : (graph.nodes.map GraphNode.id).Nodup) {id : String} :
    (∃ position, position? graph.nodes id = some position) ↔
      id ∈ graph.nodes.map GraphNode.id := by
  simp only [position?_eq_some_iff distinct, List.mem_iff_getElem?]

/-! ### Edges by positions -/

/-- The edge between positions for an edge, when both ends have a position. -/
def arrow? (graph : Graph) (edge : GraphEdge) : Option (Nat × Nat × EdgeKind) := do
  let source ← position? graph.nodes edge.source
  let target ← position? graph.nodes edge.target
  return (source, target, edge.kind)

theorem arrow?_eq_some_iff {edge : GraphEdge} {arrow : Nat × Nat × EdgeKind} :
    graph.arrow? edge = some arrow ↔
      ∃ source, position? graph.nodes edge.source = some source ∧
        ∃ target, position? graph.nodes edge.target = some target ∧
          (source, target, edge.kind) = arrow := by
  simp only [arrow?, Option.bind_eq_bind, Option.bind_eq_some_iff, Option.pure_def,
    Option.some.injEq]

/-- An edge between nodes has one that stands for it. -/
theorem exists_arrow (distinct : (graph.nodes.map GraphNode.id).Nodup) {edge : GraphEdge}
    (connects : graph.Connects edge) :
    ∃ arrow, graph.arrow? edge = some arrow ∧ graph.StandsFor edge arrow := by
  obtain ⟨source, isSource⟩ := (exists_position?_iff distinct).mpr connects.1
  obtain ⟨target, isTarget⟩ := (exists_position?_iff distinct).mpr connects.2
  refine ⟨(source, target, edge.kind), ?_, ?_⟩
  · exact arrow?_eq_some_iff.mpr ⟨source, isSource, target, isTarget, rfl⟩
  · exact ⟨holds_of_position? distinct isSource, holds_of_position? distinct isTarget, rfl⟩

/-- An edge with an end that is no node has none. -/
theorem arrow?_eq_none (distinct : (graph.nodes.map GraphNode.id).Nodup) {edge : GraphEdge}
    (dangles : ¬graph.Connects edge) : graph.arrow? edge = none := by
  rw [Option.eq_none_iff_forall_ne_some]
  intro arrow found
  obtain ⟨source, isSource, target, isTarget, -⟩ := arrow?_eq_some_iff.mp found
  apply dangles
  exact ⟨(exists_position?_iff distinct).mp ⟨source, isSource⟩,
    (exists_position?_iff distinct).mp ⟨target, isTarget⟩⟩

theorem standsFor_filterMap (distinct : (graph.nodes.map GraphNode.id).Nodup)
    (edges : List GraphEdge) :
    List.Forall₂ graph.StandsFor (edges.filter fun edge => graph.Connects edge)
      (edges.filterMap graph.arrow?) := by
  induction edges with
  | nil => exact List.Forall₂.nil
  | cons edge edges inductionHypothesis =>
    by_cases connects : graph.Connects edge
    · obtain ⟨arrow, made, stands⟩ := exists_arrow distinct connects
      rw [List.filter_cons, if_pos (decide_eq_true connects), List.filterMap_cons_some made]
      exact List.Forall₂.cons stands inductionHypothesis
    · rw [List.filter_cons, if_neg (by simpa using connects),
        List.filterMap_cons_none (arrow?_eq_none distinct connects)]
      exact inductionHypothesis

/-- A graph whose nodes have distinct identifiers is shown by positions. -/
theorem seenBy_digraph (distinct : (graph.nodes.map GraphNode.id).Nodup) :
    graph.SeenBy graph.digraph where
  nodes := rfl
  edges := standsFor_filterMap distinct graph.edges

/-- No edge is lost where all edges lead between nodes. -/
theorem SeenBy.whole {digraph : Digraph} (seen : graph.SeenBy digraph)
    (connected : ∀ edge ∈ graph.edges, graph.Connects edge) :
    List.Forall₂ graph.StandsFor graph.edges digraph.edges := by
  have all : graph.edges.filter (fun edge => graph.Connects edge) = graph.edges :=
    List.filter_eq_self.mpr fun edge present => decide_eq_true (connected edge present)
  have edges := seen.edges
  rwa [all] at edges

end Graph

/-! ### Edges of the analyses -/

namespace Program

variable {program : Program} {conventions : Conventions} {files : List SourceFile}

/-- The edges of a wiring graph lead between its nodes. Classes may share a node. -/
theorem WellFormed.connects_wiringGraph (wellFormed : program.WellFormed) {edge : GraphEdge}
    (present : edge ∈ (program.wiringGraph conventions files).edges) :
    (program.wiringGraph conventions files).Connects edge := by
  have areModules := wellFormed.areModules_modulesIn conventions files
  obtain ⟨source, target, wiresSource, wiresTarget, rfl⟩ :=
    wellFormed.exists_kindBetween areModules (Graph.mem_of_mem_edges_assemble present)
  exact ⟨wellFormed.id_mem_nodes_wiringGraph wiresSource,
    wellFormed.id_mem_nodes_wiringGraph wiresTarget⟩

/-- The edges of a call graph lead between its nodes. -/
theorem WellFormed.connects_callGraph (wellFormed : program.WellFormed)
    (scopes : program.Scopes files) {edge : GraphEdge}
    (present : edge ∈ (program.callGraph conventions files).edges) :
    (program.callGraph conventions files).Connects edge :=
  (wellFormed.exactCalls_assemble (wellFormed.distinct_collect scopes conventions)).endpoints
    edge present

end Program

namespace Analysis

/-- A graph whose nodes have distinct identifiers is shown by positions, so every assembled graph
is. The graphs of the three analyses lose no edge. -/
theorem edges_keptByPosition (graph : Graph) (distinct : (graph.nodes.map GraphNode.id).Nodup)
    (nodes : List GraphNode) (edges : List GraphEdge) (config : Config) (inputs : List Input)
    (scope : List String) :
    graph.SeenBy graph.digraph ∧
      (Graph.assemble nodes edges).SeenBy (Graph.assemble nodes edges).digraph ∧
      ∀ analysed ∈ [(callGraph config inputs scope).data, (wiring config inputs scope).data,
          (modules config inputs scope).data],
        analysed.SeenBy analysed.digraph ∧
          List.Forall₂ analysed.StandsFor analysed.edges analysed.digraph.edges := by
  have assembled : ∀ nodes edges,
      (Graph.assemble nodes edges).SeenBy (Graph.assemble nodes edges).digraph :=
    fun nodes edges => Graph.seenBy_digraph (Graph.nodup_ids_assemble nodes edges)
  refine ⟨Graph.seenBy_digraph distinct, assembled nodes edges, ?_⟩
  have wellFormed : (Program.ofModel (Model.build config.analysis inputs)).WellFormed :=
    Program.wellFormed_ofModel (Model.numbered_build config.analysis inputs)
  have scopes := scopes_scopeFiles (Model.build config.analysis inputs) scope
  intro analysed isOne
  simp only [List.mem_cons, List.not_mem_nil, or_false] at isOne
  rcases isOne with rfl | rfl | rfl
  · exact ⟨assembled _ _, (assembled _ _).whole fun edge present =>
      wellFormed.connects_callGraph scopes present⟩
  · exact ⟨assembled _ _, (assembled _ _).whole fun edge present =>
      wellFormed.connects_wiringGraph present⟩
  · refine ⟨assembled _ _, (assembled _ _).whole fun edge present => ?_⟩
    cases Graph.mem_of_mem_edges_assemble present

/-- Two functions that call each other, and a call of the first whose callee is no node. -/
def danglingCall : Graph where
  nodes := [⟨"a", "f", .functionDeclaration, some false, "a.ts", "a.ts#0", none, some .helper⟩,
    ⟨"b", "g", .arrowFunction, some true, "a.ts", "a.ts#0", none, none⟩]
  edges := [⟨"a", "b", false, .call⟩, ⟨"a", "c", true, .call⟩, ⟨"b", "a", false, .call⟩]

/-- The call whose callee is no node is left out, and the others keep their order. The module that
imports itself and contains another class keeps its one edge. -/
theorem edges_keptByPosition_danglingCall :
    let config : Config := { conventions := { moduleDecorators := ["M"] } }
    let wired := (wiring config [Program.selfImporting] ["a.ts"]).data
    (danglingCall.nodes.map GraphNode.id).Nodup ∧
      danglingCall.SeenBy danglingCall.digraph ∧
      danglingCall.digraph.edges = [(0, 1, .call), (1, 0, .call)] ∧
      List.Forall₂ wired.StandsFor wired.edges wired.digraph.edges ∧
      wired.digraph.edges = [(0, 1, .contains)] := by
  intro config wired
  have distinct : (danglingCall.nodes.map GraphNode.id).Nodup := by decide
  obtain ⟨seen, -, analysed⟩ :=
    edges_keptByPosition danglingCall distinct [] [] config [Program.selfImporting] ["a.ts"]
  exact ⟨distinct, seen, by decide +kernel, (analysed wired (by simp [wired])).2,
    by decide +kernel⟩

end Analysis

end CodeGraph
