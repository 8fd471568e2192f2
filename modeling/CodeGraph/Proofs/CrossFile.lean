import CodeGraph.Proofs.Calls
import CodeGraph.Proofs.Model.Root
import CodeGraph.Proofs.Numbering
import CodeGraph.Proofs.Path.Relative
import CodeGraph.Proofs.Wiring

/-!
# Edges between files

An edge is marked when its two ends differ in the paths that the project root leaves of their files.
The mark can be told from the graph alone, by the paths or by the file keys of the nodes at its
ends. It does not always tell files apart: a file outside the root may be seen as another one.

## Main Definitions

* `Graph.Located`: every edge leads from a file of the model to a file of the model.
* `Graph.MarksCrossings`: the mark of every edge is told by its nodes.
* `Model.Blurs`: one of two files lies outside the root and is spelled like the other is seen.

## Main Statements

* `Model.simplified_eq`: the path of a file seen from the root is told by the path that was given.
* `Identity.fileKeyPath_fileKey`: a file key tells this path.
* `Analysis.marksCrossings`: the edges of both graphs are marked as their nodes tell.
* `Analysis.differentFiles_marked`: which files are told apart.
-/

namespace CodeGraph

/-! ### Keys and identifiers -/

namespace Identity

/-- A file key tells the path it was made from. -/
theorem fileKeyPath_fileKey (simplified normalized : String) :
    fileKeyPath (fileKey simplified normalized) = simplified := by
  have free : '#' ∉ (Digest.short normalized).toList.take fileKeyWidth := fun present =>
    Digest.notMem_short (by decide) normalized (List.mem_of_mem_take present)
  have key : (fileKey simplified normalized).toList =
      simplified.toList ++ '#' :: (Digest.short normalized).toList.take fileKeyWidth := by
    simp [fileKey]
  rw [fileKeyPath, key, Text.dropWhile_reverse_append free]
  simp

/-- The identifier of a declaration whose name has no colon tells the file. -/
theorem file_eq_of_compose_eq {file other name otherName signature otherSignature : String}
    (free : ':' ∉ name.toList) (otherFree : ':' ∉ otherName.toList)
    (same : compose file name signature = compose other otherName otherSignature) :
    file = other := by
  have digest : ∀ text, ':' ∉ (Digest.short text).toList := Digest.notMem_short (by decide)
  have whole : ∀ file name signature : String, (compose file name signature).toList =
      (file.toList ++ [':']) ++ ':' :: (name.toList ++ '#' :: (Digest.short signature).toList) := by
    intro file name signature
    rw [toList_compose, String.toList_append, String.toList_append]
    simp
  have lists := congrArg String.toList same
  rw [whole, whole] at lists
  have tailFree : ∀ {name signature : String}, ':' ∉ name.toList →
      ':' ∉ name.toList ++ '#' :: (Digest.short signature).toList := by
    intro name signature free
    simp [free, digest]
  obtain ⟨heads, -⟩ := Text.append_cons_inj (tailFree free) (tailFree otherFree) lists
  exact String.toList_inj.mp (List.append_cancel_right heads)

/-- The identifiers of declarations of one file tell their names. -/
theorem name_eq_of_compose_eq {file name otherName signature otherSignature : String}
    (same : compose file name signature = compose file otherName otherSignature) :
    name = otherName := by
  have digest : ∀ text, '#' ∉ (Digest.short text).toList := Digest.notMem_short (by decide)
  have lists := congrArg String.toList same
  rw [toList_compose, toList_compose] at lists
  obtain ⟨heads, -⟩ := Text.append_cons_inj (digest signature) (digest otherSignature) lists
  simp only [String.toList_append] at heads
  exact String.toList_inj.mp (List.append_cancel_left heads)

end Identity

/-! ### The root and what it leaves of paths -/

namespace Model

variable {settings : AnalysisSettings} {given : List Input} {file : ModelFile}

/-- The root of a model is in normal form, set or not. -/
theorem isNormal_projectRoot (settings : AnalysisSettings) (given : List Input) :
    Path.IsNormal (Model.build settings given).projectRoot.toList := by
  show Path.IsNormal (rootOf settings (orderInputs given)).toList
  unfold rootOf
  split
  · next root _ => exact Path.isNormal_normalize root
  · exact Path.isNormal_commonDir fun path => normalized_of_mem_given

/-- What the root leaves of the path of a file is told by the path in any spelling. -/
theorem simplified_eq (present : file ∈ (Model.build settings given).files) :
    file.source.simplified =
      Path.simplify file.source.path (Model.build settings given).projectRoot := by
  have made : file.source.simplified =
      Path.relativeTo file.source.normalized (Model.build settings given).projectRoot := by
    obtain ⟨input, -, -, made⟩ := exists_input_of_mem_files present
    rw [made]
    rfl
  rw [made, normalized_eq present, Path.simplify,
    Path.normalize_eq_self (isNormal_projectRoot settings given)]

end Model

/-! ### Nodes and their files -/

/-- A node lies in a file. -/
structure GraphNode.LiesIn (node : GraphNode) (file : SourceFile) : Prop where
  /-- It names the path of the file. -/
  path : node.filePath = file.path
  /-- It names the key of the file. -/
  key : node.fileKey = file.key

namespace Graph

/-- Some node of a graph has an identifier, and every such node lies in a file. -/
structure Locates (graph : Graph) (id : String) (file : SourceFile) : Prop where
  /-- Some node has the identifier. -/
  present : id ∈ graph.nodes.map GraphNode.id
  /-- The nodes with the identifier lie in the file. -/
  liesIn : ∀ node ∈ graph.nodes, node.id = id → node.LiesIn file

/-- Every edge of a graph leads from a file of a model to a file of the model and is marked when
the root leaves different paths of these files. -/
def Located (model : Model) (graph : Graph) : Prop :=
  ∀ edge ∈ graph.edges, ∃ a ∈ model.files, ∃ b ∈ model.files,
    graph.Locates edge.source a.source ∧ graph.Locates edge.target b.source ∧
      edge.crossFile = a.source.crosses b.source

/-- The mark of every edge is told by the nodes at its ends: by what a root leaves of their paths,
and by their file keys. -/
structure MarksCrossings (root : String) (graph : Graph) : Prop where
  /-- There is a node at each end. -/
  ends : ∀ edge ∈ graph.edges, edge.source ∈ graph.nodes.map GraphNode.id ∧
    edge.target ∈ graph.nodes.map GraphNode.id
  /-- An edge is marked when the root leaves different paths of the files of its nodes. -/
  paths : ∀ edge ∈ graph.edges, ∀ source ∈ graph.nodes, ∀ target ∈ graph.nodes,
    source.id = edge.source → target.id = edge.target →
      edge.crossFile =
        decide (Path.simplify source.filePath root ≠ Path.simplify target.filePath root)
  /-- An edge is marked when the file keys of its nodes were made from different paths. -/
  keys : ∀ edge ∈ graph.edges, ∀ source ∈ graph.nodes, ∀ target ∈ graph.nodes,
    source.id = edge.source → target.id = edge.target →
      edge.crossFile =
        decide (Identity.fileKeyPath source.fileKey ≠ Identity.fileKeyPath target.fileKey)

/-- Where the files of the ends of edges are known, the marks are told by the nodes. -/
theorem Located.marks {settings : AnalysisSettings} {given : List Input} {graph : Graph}
    (located : graph.Located (Model.build settings given)) :
    graph.MarksCrossings (Model.build settings given).projectRoot where
  ends edge present := by
    obtain ⟨a, -, b, -, source, target, -⟩ := located edge present
    exact ⟨source.present, target.present⟩
  paths edge present first memFirst second memSecond isSource isTarget := by
    obtain ⟨a, memA, b, memB, source, target, marked⟩ := located edge present
    rw [(source.liesIn first memFirst isSource).path, (target.liesIn second memSecond isTarget).path,
      ← Model.simplified_eq memA, ← Model.simplified_eq memB, marked]
    rfl
  keys edge present first memFirst second memSecond isSource isTarget := by
    obtain ⟨a, memA, b, memB, source, target, marked⟩ := located edge present
    rw [(source.liesIn first memFirst isSource).key, (target.liesIn second memSecond isTarget).key,
      SourceFile.key, SourceFile.key, Identity.fileKeyPath_fileKey, Identity.fileKeyPath_fileKey,
      marked]
    rfl

end Graph

namespace Program

variable {program : Program} {collected : Collected} {conventions : Conventions}

/-- The edges of a call graph lead between the files of their callables. -/
theorem WellFormed.located_calls (wellFormed : program.WellFormed)
    (distinct : collected.Distinct program) {graph : Graph}
    (exactly : program.ExactCalls collected graph) : graph.Located program.model := by
  intro edge present
  obtain ⟨caller, memCaller, callee, memCallee, rfl⟩ := exactly.edges edge present
  obtain ⟨hasSource, hasTarget⟩ := exactly.endpoints _ present
  have locates : ∀ callable ∈ collected.callables,
      callable.id ∈ graph.nodes.map GraphNode.id → graph.Locates callable.id callable.file := by
    intro callable memCallable hasNode
    refine ⟨hasNode, fun node memNode sameId => ?_⟩
    rw [exactly.nodes] at memNode
    obtain ⟨other, memOther, rfl⟩ := List.mem_map.mp memNode
    rw [distinct.eq_of_id_eq memOther memCallable sameId]
    exact ⟨rfl, rfl⟩
  obtain ⟨a, memA, ofCaller⟩ := wellFormed.declFile _ (distinct.declared caller memCaller)
  obtain ⟨b, memB, ofCallee⟩ := wellFormed.declFile _ (distinct.declared callee memCallee)
  refine ⟨a, memA, b, memB, ?_, ?_, ?_⟩
  · exact ofCaller ▸ locates caller memCaller hasSource
  · exact ofCallee ▸ locates callee memCallee hasTarget
  · rw [← ofCaller, ← ofCallee]
    rfl

/-- The edges of a wiring graph lead between the files of their classes, when names of classes have
no colon. -/
theorem WellFormed.located_wiringGraph (wellFormed : program.WellFormed)
    (told : ∀ a ∈ program.model.files, ∀ b ∈ program.model.files,
      a.source.path = b.source.path → a = b)
    (names : ∀ decl ∈ program.index.decls, decl.isClass → ':' ∉ decl.name.toList)
    (conventions : Conventions) (files : List SourceFile) :
    (program.wiringGraph conventions files).Located program.model := by
  have areModules := wellFormed.areModules_modulesIn conventions files
  have locates : ∀ decl, program.Wires conventions (program.modulesIn conventions files) decl →
      (program.wiringGraph conventions files).Locates (classNode decl .module).id decl.file := by
    intro decl wires
    have declared := wellFormed.declaresClass_of_wires areModules wires
    refine ⟨?_, fun node memNode sameId => ?_⟩
    · exact wellFormed.id_mem_nodes_wiringGraph wires
    · have given := Graph.mem_of_mem_nodes_assemble memNode
      obtain ⟨⟨other, role⟩, reached, rfl⟩ := List.mem_map.mp given
      have otherWires := ((wellFormed.mem_wiredClasses_iff areModules).mp reached).1
      have otherDeclared := wellFormed.declaresClass_of_wires areModules otherWires
      have samePath : other.file.path = decl.file.path := Identity.file_eq_of_compose_eq
        (names other otherDeclared.declared otherDeclared.isClass)
        (names decl declared.declared declared.isClass) sameId
      obtain ⟨a, memA, ofOther⟩ := wellFormed.declFile other otherDeclared.declared
      obtain ⟨b, memB, ofDecl⟩ := wellFormed.declFile decl declared.declared
      rw [ofOther, ofDecl] at samePath
      have sameFile : other.file = decl.file := by
        rw [ofOther, ofDecl, told a memA b memB samePath]
      rw [← sameFile]
      exact ⟨rfl, rfl⟩
  intro edge present
  obtain ⟨source, target, wiresSource, wiresTarget, rfl⟩ :=
    wellFormed.exists_kindBetween areModules (Graph.mem_of_mem_edges_assemble present)
  obtain ⟨a, memA, ofSource⟩ := wellFormed.declFile source
    (wellFormed.declaresClass_of_wires areModules wiresSource).declared
  obtain ⟨b, memB, ofTarget⟩ := wellFormed.declFile target
    (wellFormed.declaresClass_of_wires areModules wiresTarget).declared
  refine ⟨a, memA, b, memB, ?_, ?_, ?_⟩
  · exact ofSource ▸ locates source wiresSource
  · exact ofTarget ▸ locates target wiresTarget
  · rw [← ofSource, ← ofTarget]
    rfl

end Program

namespace Analysis

/-- **The mark of an edge is told by its nodes.** Both graphs mark their edges as the paths of the
nodes and as their file keys tell. What the root leaves of the path of a file is told by the path as
it was given, and a file key tells what was left. -/
theorem marksCrossings (config : Config) (inputs : List Input) (scope : List String) :
    let model := Model.build config.analysis inputs
    (callGraph config inputs scope).data.MarksCrossings model.projectRoot ∧
      ((∀ decl ∈ (Program.ofModel model).index.decls, decl.isClass → ':' ∉ decl.name.toList) →
        (wiring config inputs scope).data.MarksCrossings model.projectRoot) ∧
      (∀ file ∈ model.files,
        file.source.simplified = Path.simplify file.source.path model.projectRoot) ∧
      ∀ simplified normalized,
        Identity.fileKeyPath (Identity.fileKey simplified normalized) = simplified := by
  intro model
  have wellFormed : (Program.ofModel model).WellFormed :=
    Program.wellFormed_ofModel (Model.numbered_build config.analysis inputs)
  have distinct := wellFormed.distinct_collect (scopes_scopeFiles model scope) config.conventions
  refine ⟨?_, fun names => ?_, fun file => Model.simplified_eq, Identity.fileKeyPath_fileKey⟩
  · exact (wellFormed.located_calls distinct
      (wellFormed.exactCalls_assemble distinct)).marks
  · exact (wellFormed.located_wiringGraph (fun _ memA _ memB => Model.eq_of_path_eq memA memB)
      names config.conventions (scopeFiles model scope)).marks

/-- A module that imports another one and a function that calls another one. The path of the file
holds the sign that file keys are cut at. -/
def signInPath : Input where
  path := "file:///p\\a#b.ts"
  text := "@M(\x7bimports:[B]\x7d)class A\x7b\x7d@M(\x7b\x7d)class B\x7b\x7d" ++
    "function f()\x7b\x7dfunction g()\x7bf()\x7d"
  tree := some <|
    .node ⟨.program, none, true, false, 0, 72⟩ [
      .node ⟨.classDeclaration, none, true, false, 0, 26⟩ [
        .node ⟨.decorator, none, true, false, 0, 17⟩ [
          .node ⟨.callExpression, none, true, false, 1, 17⟩ [
            .node ⟨.identifier, some .function, true, false, 1, 2⟩ [],
            .node ⟨.arguments, some .arguments, true, false, 2, 17⟩ [
              .node ⟨.object, none, true, false, 3, 16⟩ [
                .node ⟨.pair, none, true, false, 4, 15⟩ [
                  .node ⟨.propertyIdentifier, some .key, true, false, 4, 11⟩ [],
                  .node ⟨.array, some .value, true, false, 12, 15⟩ [
                    .node ⟨.identifier, none, true, false, 13, 14⟩ []]]]]]],
        .node ⟨.typeIdentifier, some .name, true, false, 23, 24⟩ [],
        .node ⟨.classBody, some .body, true, false, 24, 26⟩ []],
      .node ⟨.classDeclaration, none, true, false, 26, 41⟩ [
        .node ⟨.decorator, none, true, false, 26, 32⟩ [
          .node ⟨.callExpression, none, true, false, 27, 32⟩ [
            .node ⟨.identifier, some .function, true, false, 27, 28⟩ [],
            .node ⟨.arguments, some .arguments, true, false, 28, 32⟩ [
              .node ⟨.object, none, true, false, 29, 31⟩ []]]],
        .node ⟨.typeIdentifier, some .name, true, false, 38, 39⟩ [],
        .node ⟨.classBody, some .body, true, false, 39, 41⟩ []],
      .node ⟨.functionDeclaration, none, true, false, 41, 55⟩ [
        .node ⟨.identifier, some .name, true, false, 50, 51⟩ [],
        .node ⟨.formalParameters, some .parameters, true, false, 51, 53⟩ [],
        .node ⟨.statementBlock, some .body, true, false, 53, 55⟩ []],
      .node ⟨.functionDeclaration, none, true, false, 55, 72⟩ [
        .node ⟨.identifier, some .name, true, false, 64, 65⟩ [],
        .node ⟨.formalParameters, some .parameters, true, false, 65, 67⟩ [],
        .node ⟨.statementBlock, some .body, true, false, 67, 72⟩ [
          .node ⟨.other "expression_statement", none, true, false, 68, 71⟩ [
            .node ⟨.callExpression, none, true, false, 68, 71⟩ [
              .node ⟨.identifier, some .function, true, false, 68, 69⟩ [],
              .node ⟨.arguments, some .arguments, true, false, 69, 71⟩ []]]]]]

/-- Both edges stay in the file and are not marked. -/
theorem marksCrossings_signInPath :
    let config : Config := { conventions := { moduleDecorators := ["M"] } }
    let model := Model.build config.analysis [signInPath]
    let scope := ["/p/./a#b.ts"]
    (∀ decl ∈ (Program.ofModel model).index.decls, decl.isClass → ':' ∉ decl.name.toList) ∧
      (callGraph config [signInPath] scope).data.MarksCrossings model.projectRoot ∧
      (wiring config [signInPath] scope).data.MarksCrossings model.projectRoot ∧
      (callGraph config [signInPath] scope).data.edges.map GraphEdge.crossFile = [false] ∧
      (wiring config [signInPath] scope).data.edges.map GraphEdge.crossFile = [false] := by
  intro config model scope
  have names : ∀ decl ∈ (Program.ofModel model).index.decls, decl.isClass →
      ':' ∉ decl.name.toList := by
    decide +kernel
  obtain ⟨calls, wired, -, -⟩ := marksCrossings config [signInPath] scope
  exact ⟨names, calls, wired names, by decide +kernel, by decide +kernel⟩

end Analysis

/-! ### Files that are told apart -/

/-- One of two files lies outside the root of a model and is spelled like the other is seen. -/
def Model.Blurs (model : Model) (a b : SourceFile) : Prop :=
  Path.Blurs model.projectRoot a.normalized b.normalized ∨
    Path.Blurs model.projectRoot b.normalized a.normalized

namespace Model

variable {settings : AnalysisSettings} {given : List Input} {a b : ModelFile}

/-- Files of which the root leaves the same path are one file, or one of them lies outside. -/
theorem eq_or_blurs_of_simplified_eq (memA : a ∈ (Model.build settings given).files)
    (memB : b ∈ (Model.build settings given).files)
    (same : a.source.simplified = b.source.simplified) :
    a = b ∨ (Model.build settings given).Blurs a.source b.source := by
  have normal : ∀ file ∈ (Model.build settings given).files,
      Path.IsNormal file.source.normalized.toList := fun file present =>
    normalized_eq present ▸ Path.isNormal_normalize file.source.path
  rw [simplified_eq memA, simplified_eq memB, Path.simplify, Path.simplify,
    Path.normalize_eq_self (isNormal_projectRoot settings given), ← normalized_eq memA,
    ← normalized_eq memB] at same
  rcases Path.eq_or_blurs_of_relativeTo_eq (isNormal_projectRoot settings given) (normal a memA)
    (normal b memB) same with samePath | blurs
  · exact Or.inl (List.inj_on_of_nodup_map ((filesAscend_build settings given).imp ne_of_lt) memA
      memB samePath)
  · exact Or.inr blurs

/-- Files that are not blurred cross exactly when they differ. -/
theorem crosses_iff (memA : a ∈ (Model.build settings given).files)
    (memB : b ∈ (Model.build settings given).files)
    (clear : ¬(Model.build settings given).Blurs a.source b.source) :
    a.source.crosses b.source = true ↔ a.source ≠ b.source := by
  rw [SourceFile.crosses, decide_eq_true_eq]
  refine not_congr ⟨fun same => ?_, fun same => same ▸ rfl⟩
  rw [(eq_or_blurs_of_simplified_eq memA memB same).resolve_right clear]

/-- No files are blurred when the root is their common directory and all inputs are absolute or all
are relative. -/
theorem not_blurs_of_unset (unset : settings.projectRoot = none)
    (alike : ∀ first ∈ given, ∀ second ∈ given,
      Path.isAbsoluteChars first.normalized.toList = Path.isAbsoluteChars second.normalized.toList)
    (memA : a ∈ (Model.build settings given).files)
    (memB : b ∈ (Model.build settings given).files) :
    ¬(Model.build settings given).Blurs a.source b.source := by
  have below : ∀ file ∈ (Model.build settings given).files,
      ¬Path.Outside (Model.build settings given).projectRoot file.source.normalized := by
    intro file present outside
    have listed : file.source.normalized ∈ given.map Input.normalized :=
      mem_given_of_mem_files (List.mem_map_of_mem present)
    have alikePaths : ∀ path ∈ given.map Input.normalized, ∀ other ∈ given.map Input.normalized,
        Path.isAbsoluteChars path.toList = Path.isAbsoluteChars other.toList := by
      simpa only [List.forall_mem_map] using alike
    obtain ⟨rest, isBelow⟩ := Path.exists_below_commonDir (fun _ => normalized_of_mem_given)
      alikePaths _ listed
    rw [projectRoot_of_unset given unset] at outside
    exact outside rest isBelow
  rintro (⟨outside, -⟩ | ⟨outside, -⟩)
  · exact below a memA outside
  · exact below b memB outside

end Model

namespace Analysis

/-- **Different files are told apart, unless one lies outside the root and is spelled like the
other.** Of two files the root leaves the same path only then, and all other edges between
declarations of different files are marked. Where no root is set, this happens only when absolute
and relative paths are mixed. -/
theorem differentFiles_marked (config : Config) (inputs : List Input) (scope : List String) :
    let model := Model.build config.analysis inputs
    let program := Program.ofModel model
    (∀ a ∈ model.files, ∀ b ∈ model.files, a.source.simplified = b.source.simplified →
        a = b ∨ model.Blurs a.source b.source) ∧
      (∀ a ∈ model.files, ∀ b ∈ model.files, ¬model.Blurs a.source b.source →
        (a.source.crosses b.source = true ↔ a.source ≠ b.source)) ∧
      (∀ edge ∈ (callGraph config inputs scope).data.edges,
        ∃ caller ∈ (program.collect config.conventions (scopeFiles model scope)).callables,
        ∃ callee ∈ (program.collect config.conventions (scopeFiles model scope)).callables,
          edge.ends = (caller.id, callee.id) ∧ (¬model.Blurs caller.file callee.file →
            (edge.crossFile = true ↔ caller.file ≠ callee.file))) ∧
      (∀ edge ∈ (wiring config inputs scope).data.edges,
        ∃ source ∈ program.index.decls, ∃ target ∈ program.index.decls,
          edge.ends =
            ((Program.classNode source .module).id, (Program.classNode target .module).id) ∧
            (¬model.Blurs source.file target.file →
              (edge.crossFile = true ↔ source.file ≠ target.file))) ∧
      (config.analysis.projectRoot = none →
        (∀ first ∈ inputs, ∀ second ∈ inputs, Path.isAbsoluteChars first.normalized.toList =
          Path.isAbsoluteChars second.normalized.toList) →
        ∀ a ∈ model.files, ∀ b ∈ model.files, ¬model.Blurs a.source b.source) := by
  intro model program
  have wellFormed : program.WellFormed :=
    Program.wellFormed_ofModel (Model.numbered_build config.analysis inputs)
  have distinct := wellFormed.distinct_collect (scopes_scopeFiles model scope) config.conventions
  have marked : ∀ a ∈ program.index.decls, ∀ b ∈ program.index.decls,
      ¬model.Blurs a.file b.file → (a.file.crosses b.file = true ↔ a.file ≠ b.file) := by
    intro a memA b memB
    obtain ⟨fileA, memFileA, isFileA⟩ := wellFormed.declFile a memA
    obtain ⟨fileB, memFileB, isFileB⟩ := wellFormed.declFile b memB
    rw [isFileA, isFileB]
    exact Model.crosses_iff memFileA memFileB
  refine ⟨fun a memA b memB => Model.eq_or_blurs_of_simplified_eq memA memB,
    fun a memA b memB => Model.crosses_iff memA memB, fun edge present => ?_,
    fun edge present => ?_,
    fun unset alike a memA b memB => Model.not_blurs_of_unset unset alike memA memB⟩
  · obtain ⟨caller, memCaller, callee, memCallee, rfl⟩ :=
      (wellFormed.exactCalls_assemble distinct).edges edge present
    exact ⟨caller, memCaller, callee, memCallee, rfl,
      marked _ (distinct.declared caller memCaller) _ (distinct.declared callee memCallee)⟩
  · have areModules :=
      wellFormed.areModules_modulesIn config.conventions (scopeFiles model scope)
    obtain ⟨source, target, wiresSource, wiresTarget, rfl⟩ :=
      wellFormed.exists_kindBetween areModules (Graph.mem_of_mem_edges_assemble present)
    have declared := (wellFormed.declaresClass_of_wires areModules wiresSource).declared
    have declaredTarget := (wellFormed.declaresClass_of_wires areModules wiresTarget).declared
    exact ⟨source, declared, target, declaredTarget, rfl, marked _ declared _ declaredTarget⟩

/-- Empty files. -/
def emptyFiles (paths : List String) : List Input :=
  paths.map fun path =>
    { path := path, text := "", tree := some (.node ⟨.program, none, true, false, 0, 0⟩ []) }

/-- Two files below their common directory are told apart. -/
theorem differentFiles_marked_belowCommonDir :
    let inputs := emptyFiles ["../p/a.ts", "../p/b/a.ts"]
    let model := Model.build {} inputs
    (∀ first ∈ inputs, ∀ second ∈ inputs, Path.isAbsoluteChars first.normalized.toList =
        Path.isAbsoluteChars second.normalized.toList) ∧
      (∀ a ∈ model.files, ∀ b ∈ model.files,
        (a.source.crosses b.source = true ↔ a.source ≠ b.source)) ∧
      model.files.length = 2 := by
  intro inputs model
  have ordered : orderInputs inputs = inputs := orderInputs_of_ascending (by decide +kernel)
  have alike : ∀ first ∈ inputs, ∀ second ∈ inputs,
      Path.isAbsoluteChars first.normalized.toList =
        Path.isAbsoluteChars second.normalized.toList := by
    decide +kernel
  obtain ⟨-, crosses, -, -, clear⟩ := differentFiles_marked {} inputs []
  refine ⟨alike, fun a memA b memB => crosses a memA b memB (clear rfl alike a memA b memB), ?_⟩
  simp only [model, Model.build, ordered]
  decide +kernel

/-- A file outside the root is seen as a file below it, and the two do not cross. -/
theorem outside_seenAsBelow :
    let model := Model.build { projectRoot := some "p" } (emptyFiles ["a.ts", "p/a.ts"])
    (model.files.map fun file => file.source.normalized) = ["a.ts", "p/a.ts"] ∧
      ∃ a ∈ model.files, ∃ b ∈ model.files, a.source ≠ b.source ∧
        a.source.simplified = "a.ts" ∧ b.source.simplified = "a.ts" ∧
          a.source.crosses b.source = false := by
  have ordered : orderInputs (emptyFiles ["a.ts", "p/a.ts"]) = emptyFiles ["a.ts", "p/a.ts"] :=
    orderInputs_of_ascending (by decide +kernel)
  simp only [Model.build, ordered]
  decide +kernel

end Analysis

end CodeGraph
