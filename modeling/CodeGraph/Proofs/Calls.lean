import CodeGraph.Proofs.Assembly
import CodeGraph.Proofs.Callable
import CodeGraph.Proofs.Resolve.Kinds

/-!
# The call graph is exact

The call graph of a program has one node for each collected callable and an edge from one callable
to another exactly when a call in the body of the first calls the declaration of the second.

Identifiers stand for callables and callables for declarations, one to one. So an edge is known by
its ends, and putting it again when the call is repeated changes nothing.

## Main Definitions

* `Program.Calls`: a callable calls a declaration.
* `Program.ExactCalls`: a graph shows exactly the calls between collected callables.

## Main Statements

* `Program.WellFormed.mem_callEdges_iff`: the edges of all call sites.
* `Analysis.callGraph_exact`: the call graph of every program and scope is exact.
-/

namespace CodeGraph

namespace Program

/-- A call in the body of a callable calls a declaration. -/
def Calls (program : Program) (caller : Callable) (callee : Decl) : Prop :=
  ∃ call ∈ caller.function.callSites, program.calleeSymbol? call = some (.decl callee)

/-- A graph shows exactly the calls between collected callables. -/
structure ExactCalls (program : Program) (collected : Collected) (graph : Graph) : Prop where
  /-- There is one node for each callable, in the order of the collection. -/
  nodes : graph.nodes = collected.callables.map Callable.graphNode
  /-- No two nodes have one identifier. -/
  nodeIds : (graph.nodes.map GraphNode.id).Nodup
  /-- No two callables have one declaration. -/
  declIds : (collected.callables.map fun callable => callable.decl.id).Nodup
  /-- An edge leads from one callable to another exactly when the one calls the other. -/
  calls : ∀ caller ∈ collected.callables, ∀ callee ∈ collected.callables,
    (∃ edge ∈ graph.edges, edge.ends = (caller.id, callee.id)) ↔
      caller.decl.id ≠ callee.decl.id ∧ program.Calls caller callee.decl
  /-- Every edge is a call from one callable to another. -/
  edges : ∀ edge ∈ graph.edges, ∃ caller ∈ collected.callables, ∃ callee ∈ collected.callables,
    edge = callEdge caller callee
  /-- No two edges have the same ends. -/
  ends : (graph.edges.map GraphEdge.ends).Nodup
  /-- No edge leads from a node to itself. -/
  loopless : ∀ edge ∈ graph.edges, edge.source ≠ edge.target
  /-- All edges are calls. -/
  kinds : ∀ edge ∈ graph.edges, edge.kind = .call
  /-- Edges lead from nodes to nodes. -/
  endpoints : ∀ edge ∈ graph.edges,
    edge.source ∈ graph.nodes.map GraphNode.id ∧ edge.target ∈ graph.nodes.map GraphNode.id

end Program

namespace Collected.Distinct

variable {program : Program} {collected : Collected} {a b c d : Callable}

/-- Callables with one identifier are one callable. -/
theorem eq_of_id_eq (distinct : collected.Distinct program) (memA : a ∈ collected.callables)
    (memB : b ∈ collected.callables) (same : a.id = b.id) : a = b :=
  List.inj_on_of_nodup_map distinct.ids memA memB same

/-- Callables with one declaration are one callable. -/
theorem eq_of_decl_eq (distinct : collected.Distinct program) (memA : a ∈ collected.callables)
    (memB : b ∈ collected.callables) (same : a.decl.id = b.decl.id) : a = b :=
  List.inj_on_of_nodup_map distinct.decls memA memB same

/-- The identifiers of callables differ exactly when their declarations do. -/
theorem id_ne_iff (distinct : collected.Distinct program) (memA : a ∈ collected.callables)
    (memB : b ∈ collected.callables) : a.id ≠ b.id ↔ a.decl.id ≠ b.decl.id := by
  refine not_congr ⟨fun same => ?_, fun same => ?_⟩
  · rw [distinct.eq_of_id_eq memA memB same]
  · rw [distinct.eq_of_decl_eq memA memB same]

/-- The ends of a call tell its caller and its callee. -/
theorem eq_of_ends_eq (distinct : collected.Distinct program) (memA : a ∈ collected.callables)
    (memB : b ∈ collected.callables) (memC : c ∈ collected.callables)
    (memD : d ∈ collected.callables)
    (same : (Program.callEdge a b).ends = (Program.callEdge c d).ends) : a = c ∧ b = d := by
  have sources : a.id = c.id := congrArg Prod.fst same
  have targets : b.id = d.id := congrArg Prod.snd same
  exact ⟨distinct.eq_of_id_eq memA memC sources, distinct.eq_of_id_eq memB memD targets⟩

end Collected.Distinct

namespace Program

variable {program : Program} {collected : Collected}

/-! ### Edges of call sites -/

/-- A call calls a collected callable exactly when it calls its declaration. -/
theorem WellFormed.callee?_eq_some_iff (wellFormed : program.WellFormed)
    (distinct : collected.Distinct program) {call : Node} {callee : Callable} :
    program.callee? collected call = some callee ↔
      callee ∈ collected.callables ∧ program.calleeSymbol? call = some (.decl callee.decl) := by
  unfold callee?
  constructor
  · intro found
    split at found
    · next decl denotes =>
      obtain ⟨present, same⟩ := distinct.get?_eq_some_iff.mp found
      -- The lookup compares numbers; what a call denotes is a declaration of the program.
      have declared : decl ∈ program.index.decls :=
        (wellFormed.resolved_of_calleeSymbol? denotes).known
      have whole := wellFormed.eq_of_id_eq (distinct.declared callee present) declared same
      exact ⟨present, by rw [denotes, whole]⟩
    · cases found
  · rintro ⟨present, denotes⟩
    rw [denotes]
    exact distinct.get?_eq_some_iff.mpr ⟨present, rfl⟩

/-- The edges of all call sites are the calls from one callable to another. -/
theorem WellFormed.mem_callEdges_iff (wellFormed : program.WellFormed)
    (distinct : collected.Distinct program) {edge : GraphEdge} :
    edge ∈ program.callEdges collected ↔
      ∃ caller ∈ collected.callables, ∃ callee ∈ collected.callables,
        edge = callEdge caller callee ∧ caller.decl.id ≠ callee.decl.id ∧
          program.Calls caller callee.decl := by
  unfold callEdges
  rw [List.mem_filterMap]
  constructor
  · rintro ⟨site, memSite, found⟩
    obtain ⟨caller, memCaller, ofCaller⟩ := List.mem_flatMap.mp memSite
    obtain ⟨call, memCall, rfl⟩ := List.mem_map.mp ofCaller
    unfold siteEdge? at found
    split at found
    · next callee look =>
      obtain ⟨memCallee, denotes⟩ := (wellFormed.callee?_eq_some_iff distinct).mp look
      split at found
      · cases found
      · next other =>
        cases found
        have differ := (distinct.id_ne_iff memCaller memCallee).mp (Ne.symm other)
        exact ⟨caller, memCaller, callee, memCallee, rfl, differ, call, memCall, denotes⟩
    · cases found
  · rintro ⟨caller, memCaller, callee, memCallee, rfl, differ, call, memCall, denotes⟩
    refine ⟨⟨caller, call⟩, ?_, ?_⟩
    · exact List.mem_flatMap.mpr ⟨caller, memCaller, List.mem_map_of_mem memCall⟩
    · have look : program.callee? collected call = some callee :=
        (wellFormed.callee?_eq_some_iff distinct).mpr ⟨memCallee, denotes⟩
      have other : callee.id ≠ caller.id :=
        Ne.symm ((distinct.id_ne_iff memCaller memCallee).mpr differ)
      simp only [siteEdge?, look, if_neg other]

/-- The ends of a call tell the whole edge. -/
theorem WellFormed.determines_callEdges (wellFormed : program.WellFormed)
    (distinct : collected.Distinct program) :
    Keyed.Determines GraphEdge.ends (program.callEdges collected) := by
  intro first memFirst second memSecond same
  obtain ⟨a, memA, b, memB, rfl, -⟩ := (wellFormed.mem_callEdges_iff distinct).mp memFirst
  obtain ⟨c, memC, d, memD, rfl, -⟩ := (wellFormed.mem_callEdges_iff distinct).mp memSecond
  obtain ⟨rfl, rfl⟩ := distinct.eq_of_ends_eq memA memB memC memD same
  rfl

/-! ### The graph -/

theorem map_id_graphNode (callables : List Callable) :
    (callables.map Callable.graphNode).map GraphNode.id = callables.map Callable.id := by
  rw [List.map_map]
  rfl

/-- The graph that is assembled from distinct callables and their call sites is exact. -/
theorem WellFormed.exactCalls_assemble (wellFormed : program.WellFormed)
    (distinct : collected.Distinct program) :
    program.ExactCalls collected
      (Graph.assemble (collected.callables.map Callable.graphNode)
        (program.callEdges collected)) := by
  have nodeIds : ((collected.callables.map Callable.graphNode).map GraphNode.id).Nodup := by
    rw [map_id_graphNode]
    exact distinct.ids
  have nodes := Graph.nodes_assemble_of_nodup nodeIds (program.callEdges collected)
  -- No call is lost as a loop, since a callable that calls itself has no edge to begin with.
  have memEdges : ∀ {edge : GraphEdge}, edge ∈ (Graph.assemble
      (collected.callables.map Callable.graphNode) (program.callEdges collected)).edges ↔
        ∃ caller ∈ collected.callables, ∃ callee ∈ collected.callables,
          edge = callEdge caller callee ∧ caller.decl.id ≠ callee.decl.id ∧
            program.Calls caller callee.decl := by
    intro edge
    rw [Graph.mem_edges_assemble_iff _ (wellFormed.determines_callEdges distinct),
      wellFormed.mem_callEdges_iff distinct]
    refine ⟨And.left, fun present => ⟨present, ?_⟩⟩
    obtain ⟨caller, memCaller, callee, memCallee, rfl, differ, -⟩ := present
    exact (distinct.id_ne_iff memCaller memCallee).mpr differ
  refine
    { nodes := nodes
      nodeIds := by rw [nodes]; exact nodeIds
      declIds := distinct.decls
      calls := fun caller memCaller callee memCallee => ⟨?_, ?_⟩
      edges := fun edge present => ?_
      ends := Graph.nodup_ends_assemble _ _
      loopless := fun edge present => ?_
      kinds := fun edge present => ?_
      endpoints := fun edge present => ?_ }
  · rintro ⟨edge, present, sameEnds⟩
    obtain ⟨first, memFirst, second, memSecond, rfl, differ, calls⟩ := memEdges.mp present
    obtain ⟨rfl, rfl⟩ := distinct.eq_of_ends_eq memFirst memSecond memCaller memCallee sameEnds
    exact ⟨differ, calls⟩
  · rintro ⟨differ, calls⟩
    exact ⟨callEdge caller callee,
      memEdges.mpr ⟨caller, memCaller, callee, memCallee, rfl, differ, calls⟩, rfl⟩
  · obtain ⟨caller, memCaller, callee, memCallee, same, -⟩ := memEdges.mp present
    exact ⟨caller, memCaller, callee, memCallee, same⟩
  · obtain ⟨caller, memCaller, callee, memCallee, rfl, differ, -⟩ := memEdges.mp present
    exact (distinct.id_ne_iff memCaller memCallee).mpr differ
  · obtain ⟨caller, -, callee, -, rfl, -⟩ := memEdges.mp present
    rfl
  · obtain ⟨caller, memCaller, callee, memCallee, rfl, -⟩ := memEdges.mp present
    rw [nodes, map_id_graphNode]
    exact ⟨List.mem_map_of_mem memCaller, List.mem_map_of_mem memCallee⟩

end Program

/-- The call graph of every program and every scope is exact. -/
theorem Analysis.callGraph_exact (config : Config) (inputs : List Input) (scope : List String) :
    let model := Model.build config.analysis inputs
    let program := Program.ofModel model
    let collected := program.collect config.conventions (scopeFiles model scope)
    program.ExactCalls collected (callGraph config inputs scope).data := by
  intro model program collected
  have wellFormed : program.WellFormed :=
    Program.wellFormed_ofModel (Model.numbered_build config.analysis inputs)
  have distinct : collected.Distinct program :=
    wellFormed.distinct_collect (scopes_scopeFiles model scope) config.conventions
  exact wellFormed.exactCalls_assemble distinct

end CodeGraph
