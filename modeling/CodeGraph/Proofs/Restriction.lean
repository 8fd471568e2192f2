import CodeGraph.Proofs.Calls
import CodeGraph.Proofs.Model.Accounting
import CodeGraph.Proofs.Numbering

/-!
# Fewer files, the same graph

The files of a scope decide which callables are nodes of the call graph, and nothing else. What a
call calls is told by the whole program, and the identifier of a callable by the callables of its
own file that ask for the same one. So the call graph of some files of a scope is the part of the
call graph of the scope that lies in these files.

## Main Definitions

* `Graph.induced`: some nodes of a graph and the edges between them.
* `Program.FilesApart`: callables of different files never ask for the same identifier.

## Main Statements

* `Program.callables_collect_sublist`: the callables of fewer files, with the same identifiers.
* `Program.callEdges_filter`: the edges between some of the callables, in the same order.
* `Analysis.callGraph_induced`: the call graph of fewer files is an induced part.
-/

namespace CodeGraph

/-! ### Parts of lists and graphs -/

section Lists

variable {α κ : Type}

/-- A part of a list is told by its keys when no key of the list occurs twice. -/
theorem eq_filter_of_sublist [DecidableEq κ] {key : α → κ} {part whole : List α}
    (distinct : (whole.map key).Nodup) (sub : part.Sublist whole) :
    part = whole.filter fun record => key record ∈ part.map key := by
  induction sub with
  | slnil => rfl
  | @cons part whole first sub inductionHypothesis =>
    obtain ⟨fresh, distinctRest⟩ := List.nodup_cons.mp distinct
    have outside : key first ∉ part.map key := fun present => fresh ((sub.map key).subset present)
    rw [List.filter_cons_of_neg (by simpa using outside)]
    exact inductionHypothesis distinctRest
  | @cons_cons part whole first sub inductionHypothesis =>
    obtain ⟨fresh, distinctRest⟩ := List.nodup_cons.mp distinct
    rw [List.filter_cons_of_pos (by simp)]
    refine congrArg (first :: ·) ((inductionHypothesis distinctRest).trans ?_)
    refine List.filter_congr fun record present => ?_
    have other : key record ≠ key first := fun same =>
      fresh (same ▸ List.mem_map_of_mem present)
    simp [other]

end Lists

namespace Graph

/-- Whether both ends of an edge are among some identifiers. -/
def joins (ids : List String) (edge : GraphEdge) : Bool :=
  edge.source ∈ ids && edge.target ∈ ids

/-- Some nodes of a graph and the edges between them. -/
def induced (graph : Graph) (keep : GraphNode → Bool) : Graph where
  nodes := graph.nodes.filter keep
  edges := graph.edges.filter (joins ((graph.nodes.filter keep).map GraphNode.id))

/-- Leaving out nodes before a graph is assembled, with the edges that lead to or from them, leaves
the part that the other nodes induce. -/
theorem assemble_induced {nodes : List GraphNode} {edges : List GraphEdge}
    (distinct : (nodes.map GraphNode.id).Nodup)
    (determined : Keyed.Determines GraphEdge.ends edges) (keep : GraphNode → Bool) :
    assemble (nodes.filter keep) (edges.filter (joins ((nodes.filter keep).map GraphNode.id))) =
      (assemble nodes edges).induced keep := by
  have distinctKept : ((nodes.filter keep).map GraphNode.id).Nodup :=
    distinct.sublist (List.filter_sublist.map _)
  have proper : Keyed.Determines GraphEdge.ends (edges.filter (!GraphEdge.isLoop ·)) :=
    determined.of_subset List.filter_sublist.subset
  have sameNodes := nodes_assemble_of_nodup distinct edges
  have sameKept := nodes_assemble_of_nodup distinctKept
    (edges.filter (joins ((nodes.filter keep).map GraphNode.id)))
  rw [induced, sameNodes]
  generalize (nodes.filter keep).map GraphNode.id = ids at *
  have swap : (edges.filter (joins ids)).filter (!GraphEdge.isLoop ·) =
      (edges.filter (!GraphEdge.isLoop ·)).filter (joins ids) := List.filter_comm _ _ _
  have fewer : (assemble (nodes.filter keep) (edges.filter (joins ids))).edges =
      (assemble nodes edges).edges.filter (joins ids) := by
    rw [edges_assemble, edges_assemble, swap, Keyed.foldl_upsert_eq_keepFirst proper,
      Keyed.foldl_upsert_eq_keepFirst (proper.of_subset List.filter_sublist.subset),
      Keyed.keepFirst_filter]
    intro a _ b _ same
    have sources : a.source = b.source := congrArg Prod.fst same
    have targets : a.target = b.target := congrArg Prod.snd same
    rw [joins, joins, sources, targets]
  calc assemble (nodes.filter keep) (edges.filter (joins ids))
      = ⟨(assemble (nodes.filter keep) (edges.filter (joins ids))).nodes,
          (assemble (nodes.filter keep) (edges.filter (joins ids))).edges⟩ := rfl
    _ = ⟨nodes.filter keep, (assemble nodes edges).edges.filter (joins ids)⟩ := by
      rw [sameKept, fewer]

end Graph

/-- A part of distinct callables is distinct. -/
theorem Collected.Distinct.filter {program : Program} {collected : Collected}
    (distinct : collected.Distinct program) (keep : Callable → Bool) :
    Collected.Distinct program ⟨collected.callables.filter keep⟩ where
  ids := distinct.ids.sublist (List.filter_sublist.map _)
  decls := distinct.decls.sublist (List.filter_sublist.map _)
  declared callable present := distinct.declared callable (List.mem_filter.mp present).1

namespace Program

variable {program : Program} {files wider : List SourceFile} {conventions : Conventions}

/-! ### Callables of fewer files -/

/-- A callable of a top-level declaration is in the file of the declaration. -/
theorem WellFormed.file_of_mem_callableDrafts (wellFormed : program.WellFormed) {decl : Decl}
    (present : decl ∈ program.index.decls) {draft : CallableDraft}
    (drafted : draft ∈ program.callableDrafts conventions decl) :
    draft.decl.file = decl.file := by
  have itself : callableDraft? none (some .helper) decl = some draft →
      draft.decl.file = decl.file := by
    intro found
    rw [decl_of_callableDraft? found]
  unfold callableDrafts at drafted
  split at drafted
  · exact itself (Option.mem_toList.mp drafted)
  · exact itself (Option.mem_toList.mp drafted)
  · obtain ⟨member, memMember, found⟩ := List.mem_filterMap.mp drafted
    split at found
    · obtain ⟨declared, contained⟩ := wellFormed.mem_membersOf_iff.mp memMember
      obtain ⟨-, holder, here, -, sameFile⟩ := wellFormed.container member declared _ contained
      rw [wellFormed.getElem?_of_mem present] at here
      cases here
      rw [decl_of_callableDraft? found, sameFile]
    · cases found
  · cases drafted

/-- The callables of some files, file by file. -/
theorem draftsOf_eq_flatMap (program : Program) (conventions : Conventions)
    (files : List SourceFile) :
    program.draftsOf conventions files = files.flatMap fun file =>
      (program.scopeOf file).topLevel.flatMap (program.callableDrafts conventions) := by
  rw [draftsOf, topLevels, List.flatMap_assoc]

/-- The callables of fewer files are the callables in these files. -/
theorem WellFormed.draftsOf_sublist (wellFormed : program.WellFormed)
    (scopes : program.Scopes wider) (sub : files.Sublist wider) (conventions : Conventions) :
    program.draftsOf conventions files = (program.draftsOf conventions wider).filter fun draft =>
      draft.decl.file.id ∈ files.map SourceFile.id := by
  have told : ∀ file ∈ wider, ∀ draft ∈ (program.scopeOf file).topLevel.flatMap
      (program.callableDrafts conventions),
      decide (draft.decl.file.id ∈ files.map SourceFile.id) =
        decide (file.id ∈ files.map SourceFile.id) := by
    intro file memFile draft drafted
    obtain ⟨decl, present, ofDecl⟩ := List.mem_flatMap.mp drafted
    obtain ⟨declared, -, sameFile⟩ := wellFormed.of_mem_topLevels scopes memFile present
    rw [wellFormed.file_of_mem_callableDrafts declared ofDecl, sameFile]
  rw [draftsOf_eq_flatMap, draftsOf_eq_flatMap, Keyed.filter_flatMap_of_told told,
    ← eq_filter_of_sublist scopes.distinct sub]

/-- Callables of different files never ask for the same identifier. -/
def FilesApart (program : Program) (conventions : Conventions) (files : List SourceFile) : Prop :=
  ∀ a ∈ program.draftsOf conventions files, ∀ b ∈ program.draftsOf conventions files,
    a.decl.file.id ≠ b.decl.file.id → a.base ≠ b.base

theorem separate_bases (drafts : List CallableDraft) :
    Allocator.Separate (drafts.map CallableDraft.base) := by
  refine Identity.separate_of_composed fun base present => ?_
  obtain ⟨draft, -, rfl⟩ := List.mem_map.mp present
  exact ⟨draft.decl.file.path, draft.qualifiedName, draft.signature, rfl⟩

/-- The callables of fewer files are the callables in these files, with the same identifiers. -/
theorem WellFormed.callables_collect_sublist (wellFormed : program.WellFormed)
    (scopes : program.Scopes wider) (sub : files.Sublist wider)
    (apart : program.FilesApart conventions wider) :
    (program.collect conventions files).callables =
      (program.collect conventions wider).callables.filter fun callable =>
        callable.file.id ∈ files.map SourceFile.id := by
  rw [callables_collect, callables_collect, Allocator.allocateAll_eq_ordinals (separate_bases _),
    Allocator.allocateAll_eq_ordinals (separate_bases _), List.filter_map,
    wellFormed.draftsOf_sublist scopes sub conventions]
  refine congrArg (List.map _) (Allocator.ordinals_filter ?_ fun _ _ _ => rfl).symm
  intro a memA b memB keptA droppedB
  refine apart a memA b memB fun same => ?_
  rw [same, droppedB] at keptA
  cases keptA

/-! ### Edges between some callables -/

variable {collected : Collected} {keep : Callable → Bool}

/-- Among fewer callables a call calls the same callable or none. -/
theorem WellFormed.callee?_filter (wellFormed : program.WellFormed)
    (distinct : collected.Distinct program) (keep : Callable → Bool) (call : Node) :
    program.callee? ⟨collected.callables.filter keep⟩ call =
      (program.callee? collected call).filter keep := by
  ext callee
  rw [wellFormed.callee?_eq_some_iff (distinct.filter keep), Option.filter_eq_some_iff,
    wellFormed.callee?_eq_some_iff distinct, List.mem_filter]
  tauto

/-- The edges between some of the callables are the edges whose ends are among them, in the same
order. -/
theorem WellFormed.callEdges_filter (wellFormed : program.WellFormed)
    (distinct : collected.Distinct program) (keep : Callable → Bool) :
    program.callEdges ⟨collected.callables.filter keep⟩ =
      (program.callEdges collected).filter
        (Graph.joins ((collected.callables.filter keep).map Callable.id)) := by
  have kept_iff : ∀ callable ∈ collected.callables,
      callable.id ∈ (collected.callables.filter keep).map Callable.id ↔ keep callable = true := by
    intro callable present
    constructor
    · intro listed
      obtain ⟨other, memOther, same⟩ := List.mem_map.mp listed
      obtain ⟨presentOther, keptOther⟩ := List.mem_filter.mp memOther
      rwa [distinct.eq_of_id_eq presentOther present same] at keptOther
    · exact fun kept => List.mem_map_of_mem (List.mem_filter.mpr ⟨present, kept⟩)
  have told : ∀ caller ∈ collected.callables,
      ∀ site ∈ caller.function.callSites.map (CallSite.mk caller),
        keep site.caller = keep caller := by
    intro caller _ site memSite
    obtain ⟨call, -, rfl⟩ := List.mem_map.mp memSite
    rfl
  have sites : (Collected.mk (collected.callables.filter keep)).sites =
      collected.sites.filter fun site => keep site.caller :=
    (Keyed.filter_flatMap_of_told told).symm
  rw [callEdges, callEdges, sites, List.filterMap_filter, List.filter_filterMap]
  refine List.filterMap_congr fun site memSite => ?_
  obtain ⟨caller, memCaller, ofCaller⟩ := List.mem_flatMap.mp memSite
  obtain ⟨call, -, rfl⟩ := List.mem_map.mp ofCaller
  simp only [siteEdge?, wellFormed.callee?_filter distinct keep]
  cases look : program.callee? collected call with
  | none => simp
  | some callee =>
    have memCallee := ((wellFormed.callee?_eq_some_iff distinct).mp look).1
    have joined : Graph.joins ((collected.callables.filter keep).map Callable.id)
        (callEdge caller callee) = (keep caller && keep callee) := by
      simp only [Graph.joins, callEdge, kept_iff caller memCaller, kept_iff callee memCallee,
        Bool.decide_eq_true]
    by_cases recursive : callee.id = caller.id
    · by_cases keptCallee : keep callee = true <;> simp [recursive, keptCallee, Option.filter]
    · by_cases keptCaller : keep caller = true <;> by_cases keptCallee : keep callee = true <;>
        simp [recursive, keptCaller, keptCallee, joined, Option.filter]

/-- The call graph of fewer files is the part of the call graph that their callables induce. -/
theorem WellFormed.callGraph_sublist (wellFormed : program.WellFormed)
    (scopes : program.Scopes wider) (sub : files.Sublist wider)
    (apart : program.FilesApart conventions wider) {keep : GraphNode → Bool}
    (told : ∀ callable ∈ (program.collect conventions wider).callables,
      keep callable.graphNode = decide (callable.file.id ∈ files.map SourceFile.id)) :
    program.callGraph conventions files = (program.callGraph conventions wider).induced keep := by
  have distinct := wellFormed.distinct_collect scopes conventions
  have nodeIds : (((program.collect conventions wider).callables.map
      Callable.graphNode).map GraphNode.id).Nodup := by
    rw [map_id_graphNode]
    exact distinct.ids
  have kept : ((program.collect conventions wider).callables.filter fun callable =>
      callable.file.id ∈ files.map SourceFile.id).map Callable.graphNode =
        ((program.collect conventions wider).callables.map Callable.graphNode).filter keep := by
    rw [List.filter_map]
    exact congrArg _ (List.filter_congr fun callable present => (told callable present).symm)
  have part : program.collect conventions files =
      ⟨(program.collect conventions wider).callables.filter fun callable =>
        callable.file.id ∈ files.map SourceFile.id⟩ :=
    congrArg Collected.mk (wellFormed.callables_collect_sublist scopes sub apart)
  rw [callGraph, callGraph,
    ← Graph.assemble_induced nodeIds (wellFormed.determines_callEdges distinct), ← kept,
    map_id_graphNode, ← wellFormed.callEdges_filter distinct, part]

end Program

/-! ### Scopes -/

/-- **The call graph of fewer files is an induced part.** When the files of one scope are among
those of a wider one, in the same order, and callables of different files never ask for the same
identifier, the call graph of the first scope has the nodes of the second that lie in its files and
the edges of the second between these nodes, in the same order. -/
theorem Analysis.callGraph_induced (config : Config) (inputs : List Input)
    {scope wider : List String}
    (sub : (scopeFiles (Model.build config.analysis inputs) scope).Sublist
      (scopeFiles (Model.build config.analysis inputs) wider))
    (apart : (Program.ofModel (Model.build config.analysis inputs)).FilesApart
      config.conventions (scopeFiles (Model.build config.analysis inputs) wider)) :
    (callGraph config inputs scope).data =
      (callGraph config inputs wider).data.induced fun node =>
        node.filePath ∈
          (scopeFiles (Model.build config.analysis inputs) scope).map SourceFile.path := by
  have wellFormed := Program.wellFormed_ofModel (Model.numbered_build config.analysis inputs)
  have scopes := scopes_scopeFiles (Model.build config.analysis inputs) wider
  have known := (scopes_scopeFiles (Model.build config.analysis inputs) scope).known
  refine wellFormed.callGraph_sublist scopes sub apart fun callable present => ?_
  have declared :=
    (wellFormed.distinct_collect scopes config.conventions).declared callable present
  obtain ⟨own, memOwn, isOwn⟩ := wellFormed.declFile callable.decl declared
  have ownFile : callable.file = own.source := isOwn
  refine decide_eq_decide.mpr ?_
  simp only [Callable.graphNode, ownFile, List.mem_map]
  constructor
  · rintro ⟨file, memFile, samePath⟩
    obtain ⟨other, memOther, rfl⟩ := known file memFile
    rw [Model.eq_of_path_eq memOther memOwn samePath] at memFile
    exact ⟨own.source, memFile, rfl⟩
  · rintro ⟨file, memFile, sameId⟩
    obtain ⟨other, memOther, rfl⟩ := known file memFile
    have numbered := Model.numbered_build config.analysis inputs
    rw [List.inj_on_of_nodup_map numbered.nodup_ids memOther memOwn sameId] at memFile
    exact ⟨own.source, memFile, rfl⟩

namespace Analysis

/-- A file that declares a function twice, and a file with a function that calls it. -/
def declaredTwice : List Input :=
  let function (start : Nat) (body : List Tree) (stop : Nat) : Tree :=
    .node ⟨.functionDeclaration, none, true, false, start, stop⟩ [
      .node ⟨.functionWord, none, false, false, start, start + 8⟩ [],
      .node ⟨.identifier, some .name, true, false, start + 9, start + 10⟩ [],
      .node ⟨.formalParameters, some .parameters, true, false, start + 10, start + 12⟩ [],
      .node ⟨.statementBlock, some .body, true, false, start + 12, stop⟩ body]
  [{ path := "a.ts"
     text := "function f()\x7b\x7dfunction f()\x7b\x7dexport\x7bf\x7d"
     tree := some <|
       .node ⟨.program, none, true, false, 0, 37⟩ [
         function 0 [] 14,
         function 14 [] 28,
         .node ⟨.exportStatement, none, true, false, 28, 37⟩ [
           .node ⟨.exportClause, none, true, false, 34, 37⟩ [
             .node ⟨.exportSpecifier, none, true, false, 35, 36⟩ [
               .node ⟨.identifier, some .name, true, false, 35, 36⟩ []]]]] },
   { path := "b.ts"
     text := "import\x7bf\x7dfrom'./a';function g()\x7bf()\x7d"
     tree := some <|
       .node ⟨.program, none, true, false, 0, 36⟩ [
         .node ⟨.importStatement, none, true, false, 0, 19⟩ [
           .node ⟨.importClause, none, true, false, 6, 9⟩ [
             .node ⟨.namedImports, none, true, false, 6, 9⟩ [
               .node ⟨.importSpecifier, none, true, false, 7, 8⟩ [
                 .node ⟨.identifier, some .name, true, false, 7, 8⟩ []]]],
           .node ⟨.string, some .source, true, false, 13, 18⟩ []],
         function 19 [
           .node ⟨.other "expression_statement", none, true, false, 32, 35⟩ [
             .node ⟨.callExpression, none, true, false, 32, 35⟩ [
               .node ⟨.identifier, some .function, true, false, 32, 33⟩ [],
               .node ⟨.arguments, some .arguments, true, false, 33, 35⟩ []]]] 36] }]

/-- Without the file of the caller the edge is gone, and the second of the two functions keeps its
number. -/
theorem callGraph_induced_declaredTwice :
    let model := Model.build {} declaredTwice
    let graph := (callGraph {} declaredTwice ["b.ts", "a.ts"]).data
    (scopeFiles model ["a.ts"]).Sublist (scopeFiles model ["b.ts", "a.ts"]) ∧
      (Program.ofModel model).FilesApart ({} : Config).conventions
        (scopeFiles model ["b.ts", "a.ts"]) ∧
      (callGraph {} declaredTwice ["a.ts"]).data =
        graph.induced fun node =>
          node.filePath ∈ (scopeFiles model ["a.ts"]).map SourceFile.path := by
  intro model graph
  have ordered : orderInputs declaredTwice = declaredTwice :=
    orderInputs_of_ascending (by decide +kernel)
  have sub : (scopeFiles model ["a.ts"]).Sublist (scopeFiles model ["b.ts", "a.ts"]) := by
    simp only [model, Model.build, ordered]
    decide +kernel
  have apart : (Program.ofModel model).FilesApart ({} : Config).conventions
      (scopeFiles model ["b.ts", "a.ts"]) := by
    unfold Program.FilesApart
    simp only [model, Model.build, ordered]
    decide +kernel
  exact ⟨sub, apart, callGraph_induced {} declaredTwice sub apart⟩

end Analysis

end CodeGraph
