import CodeGraph.Proofs.Callable
import CodeGraph.Proofs.CrossFile

/-!
# Classes that share a node

The identifier of a class is made from its file and its name, and unlike the identifiers of
callables it is given out without asking whether another class has it. So two classes of one file
with one name share a node: a file may well declare a class and export another one of the same name,
whose name is only known inside it.

Nothing else makes classes share a node, as long as names have no colon. In the graph of modules the
classes that share a node would have equal ones, so only the count differs. In the wiring graph they
may play different roles, and the class that is reached last decides.

## Main Definitions

* `Decl.Namesakes`: two declarations have one name in one file.
* `Program.SharesByName`: classes share nodes exactly when they are namesakes.

## Main Statements

* `Program.classNode_id_eq_iff`: classes with one identifier.
* `Program.nodes_sharedByName`: which nodes are lost and which are kept.
* `Program.namesakes_shareNode`: a file with two modules that has one node.
-/

namespace CodeGraph

/-- Two declarations have one name in one file. -/
def Decl.Namesakes (a b : Decl) : Prop := a.file.id = b.file.id ∧ a.name = b.name

instance (a b : Decl) : Decidable (a.Namesakes b) :=
  inferInstanceAs (Decidable (a.file.id = b.file.id ∧ a.name = b.name))

namespace Program

/-- Classes have one identifier exactly when they are namesakes, whatever their roles. -/
def IdentifiesByName (program : Program) : Prop :=
  ∀ a b, program.DeclaresClass a → program.DeclaresClass b → ∀ role other : Role,
    (classNode a role).id = (classNode b other).id ↔ a.Namesakes b

/-- Classes share nodes exactly when they are namesakes. -/
structure SharesByName (program : Program) (conventions : Conventions)
    (files : List SourceFile) : Prop where
  /-- Classes have one identifier exactly when they are namesakes. -/
  ids : program.IdentifiesByName
  /-- There are as many nodes as modules exactly when no two modules are namesakes. -/
  modules : (program.moduleNodes conventions files).nodes.length =
      (program.modulesIn conventions files).length ↔
    ∀ a ∈ program.modulesIn conventions files, ∀ b ∈ program.modulesIn conventions files,
      a.Namesakes b → a = b
  /-- Every module has its node, which it may share. -/
  shown : ∀ decl ∈ program.modulesIn conventions files,
    classNode decl .module ∈ (program.moduleNodes conventions files).nodes
  /-- There are as many nodes as classes of the wiring exactly when no two of these are
  namesakes. -/
  wiring : (program.wiringGraph conventions files).nodes.length =
      (program.wiredClasses conventions (program.modulesIn conventions files)).length ↔
    ∀ a b, program.Wires conventions (program.modulesIn conventions files) a →
      program.Wires conventions (program.modulesIn conventions files) b → a.Namesakes b → a = b
  /-- The nodes of the wiring graph are those of the classes with no namesake after them. -/
  kept : ∀ node, node ∈ (program.wiringGraph conventions files).nodes ↔
    ∃ wired, ((program.wiredClasses conventions (program.modulesIn conventions files)).filter
        fun other => other.1.Namesakes wired.1).getLast? = some wired ∧
      classNode wired.1 wired.2 = node

/-! ### Identifiers -/

section Identifiers

variable {settings : AnalysisSettings} {inputs : List Input} {a b : Decl}
  (memA : a ∈ (ofModel (Model.build settings inputs)).index.decls)
  (memB : b ∈ (ofModel (Model.build settings inputs)).index.decls)

include memA memB

/-- Files of declarations are told apart by their numbers. -/
theorem file_eq_of_id_eq (same : a.file.id = b.file.id) : a.file = b.file := by
  have numbered := Model.numbered_build settings inputs
  obtain ⟨fileA, knownA, ofA⟩ := (wellFormed_ofModel numbered).declFile a memA
  obtain ⟨fileB, knownB, ofB⟩ := (wellFormed_ofModel numbered).declFile b memB
  rw [ofA, ofB] at same ⊢
  rw [List.inj_on_of_nodup_map numbered.nodup_ids knownA knownB same]

/-- Files of declarations are told apart by their paths. -/
theorem file_eq_of_path_eq (same : a.file.path = b.file.path) : a.file = b.file := by
  have wellFormed := wellFormed_ofModel (Model.numbered_build settings inputs)
  obtain ⟨fileA, knownA, ofA⟩ := wellFormed.declFile a memA
  obtain ⟨fileB, knownB, ofB⟩ := wellFormed.declFile b memB
  rw [ofA, ofB] at same ⊢
  rw [Model.eq_of_path_eq knownA knownB same]

/-- Namesakes with one role have equal nodes. -/
theorem classNode_eq_of_namesakes (namesakes : a.Namesakes b) (role : Role) :
    classNode a role = classNode b role := by
  rw [classNode, classNode, file_eq_of_id_eq memA memB namesakes.1, namesakes.2]

/-- Classes whose names have no colon have one identifier exactly when they are namesakes. -/
theorem classNode_id_eq_iff (freeA : ':' ∉ a.name.toList) (freeB : ':' ∉ b.name.toList)
    (role other : Role) :
    (classNode a role).id = (classNode b other).id ↔ a.Namesakes b := by
  constructor
  · intro same
    have files : a.file = b.file :=
      file_eq_of_path_eq memA memB (Identity.file_eq_of_compose_eq freeA freeB same)
    refine ⟨congrArg SourceFile.id files, ?_⟩
    simp only [classNode, files] at same
    exact Identity.name_eq_of_compose_eq same
  · intro namesakes
    show (classNode a role).id = (classNode b role).id
    rw [classNode_eq_of_namesakes memA memB namesakes]

end Identifiers

/-- When names of classes have no colon, classes are identified by file and name. -/
theorem identifiesByName {settings : AnalysisSettings} {inputs : List Input}
    (names : ∀ decl ∈ (ofModel (Model.build settings inputs)).index.decls,
      decl.isClass → ':' ∉ decl.name.toList) :
    (ofModel (Model.build settings inputs)).IdentifiesByName := by
  intro a b isA isB
  exact classNode_id_eq_iff isA.declared isB.declared (names a isA.declared isA.isClass)
    (names b isB.declared isB.isClass)

/-! ### Graphs -/

section Graphs

variable {program : Program} {conventions : Conventions} {files : List SourceFile}

/-- No node of a module is lost exactly when no two modules are namesakes. -/
theorem WellFormed.length_moduleNodes_eq_iff (wellFormed : program.WellFormed)
    (byName : program.IdentifiesByName) (scopes : program.Scopes files) :
    (program.moduleNodes conventions files).nodes.length =
        (program.modulesIn conventions files).length ↔
      ∀ a ∈ program.modulesIn conventions files, ∀ b ∈ program.modulesIn conventions files,
        a.Namesakes b → a = b := by
  have distinct : (program.modulesIn conventions files).Nodup :=
    (wellFormed.nodup_topLevels scopes).filter _
  have classes := (wellFormed.areModules_modulesIn conventions files).classes
  rw [moduleNodes, ← List.length_map (classNode · .module), Graph.length_nodes_assemble_eq_iff,
    List.map_map, List.nodup_map_iff_inj_on distinct]
  refine forall₄_congr fun a memA b memB => ?_
  show ((classNode a .module).id = (classNode b .module).id → a = b) ↔ _
  rw [byName a b (classes a memA) (classes b memB)]

/-- No node of the wiring is lost exactly when no two of its classes are namesakes. -/
theorem WellFormed.length_wiringGraph_eq_iff (wellFormed : program.WellFormed)
    (byName : program.IdentifiesByName) :
    (program.wiringGraph conventions files).nodes.length =
        (program.wiredClasses conventions (program.modulesIn conventions files)).length ↔
      ∀ a b, program.Wires conventions (program.modulesIn conventions files) a →
        program.Wires conventions (program.modulesIn conventions files) b →
          a.Namesakes b → a = b := by
  have areModules := wellFormed.areModules_modulesIn conventions files
  have distinct :
      (program.wiredClasses conventions (program.modulesIn conventions files)).Nodup :=
    List.Nodup.of_map _ (Keyed.nodup_keepFirst _)
  rw [wiringGraph, ← List.length_map fun wired : Wired => classNode wired.1 wired.2,
    Graph.length_nodes_assemble_eq_iff, List.map_map, List.nodup_map_iff_inj_on distinct]
  constructor
  · intro injective a b wiresA wiresB namesakes
    have same := injective _ ((wellFormed.mem_wiredClasses_iff areModules).mpr ⟨wiresA, rfl⟩)
      _ ((wellFormed.mem_wiredClasses_iff areModules).mpr ⟨wiresB, rfl⟩)
      ((byName a b (wellFormed.declaresClass_of_wires areModules wiresA)
        (wellFormed.declaresClass_of_wires areModules wiresB) _ _).mpr namesakes)
    exact congrArg Prod.fst same
  · rintro apart ⟨a, roleA⟩ memA ⟨b, roleB⟩ memB same
    obtain ⟨wiresA, rfl⟩ := (wellFormed.mem_wiredClasses_iff areModules).mp memA
    obtain ⟨wiresB, rfl⟩ := (wellFormed.mem_wiredClasses_iff areModules).mp memB
    have namesakes := (byName a b (wellFormed.declaresClass_of_wires areModules wiresA)
      (wellFormed.declaresClass_of_wires areModules wiresB) _ _).mp same
    rw [apart a b wiresA wiresB namesakes]

/-- The nodes of the wiring graph are those of the classes with no namesake after them. -/
theorem WellFormed.mem_nodes_wiringGraph_iff (wellFormed : program.WellFormed)
    (byName : program.IdentifiesByName) {node : GraphNode} :
    node ∈ (program.wiringGraph conventions files).nodes ↔
      ∃ wired, ((program.wiredClasses conventions (program.modulesIn conventions files)).filter
          fun other => other.1.Namesakes wired.1).getLast? = some wired ∧
        classNode wired.1 wired.2 = node := by
  have areModules := wellFormed.areModules_modulesIn conventions files
  have declares : ∀ wired ∈ program.wiredClasses conventions
      (program.modulesIn conventions files), program.DeclaresClass wired.1 := fun wired reached =>
    wellFormed.declaresClass_of_wires areModules
      ((wellFormed.mem_wiredClasses_iff areModules).mp reached).1
  -- Among the classes that are reached, those with the identifier of one are its namesakes.
  have alike : ∀ wired ∈ program.wiredClasses conventions (program.modulesIn conventions files),
      (program.wiredClasses conventions (program.modulesIn conventions files)).filter
          (fun other => (classNode other.1 other.2).id = (classNode wired.1 wired.2).id) =
        (program.wiredClasses conventions (program.modulesIn conventions files)).filter
          fun other => other.1.Namesakes wired.1 := by
    intro wired reached
    refine List.filter_congr fun other reachedOther => ?_
    rw [decide_eq_decide]
    exact byName other.1 wired.1 (declares other reachedOther) (declares wired reached) _ _
  rw [wiringGraph, Graph.mem_nodes_assemble_iff, List.filter_map, List.getLast?_map,
    Option.map_eq_some_iff]
  refine exists_congr fun wired => and_congr_left fun isNode => ?_
  subst isNode
  constructor
  · intro last
    have reached := (List.mem_filter.mp (List.mem_of_getLast? last)).1
    rw [← alike wired reached]
    exact last
  · intro last
    have reached := (List.mem_filter.mp (List.mem_of_getLast? last)).1
    rw [← alike wired reached] at last
    exact last

end Graphs

/-- Every module has its node in the graph of modules, since namesakes there have equal nodes. -/
theorem classNode_mem_moduleNodes {settings : AnalysisSettings} {inputs : List Input}
    {conventions : Conventions} {files : List SourceFile}
    (byName : (ofModel (Model.build settings inputs)).IdentifiesByName) {decl : Decl}
    (present : decl ∈ (ofModel (Model.build settings inputs)).modulesIn conventions files) :
    classNode decl .module ∈
      ((ofModel (Model.build settings inputs)).moduleNodes conventions files).nodes := by
  have classes := ((wellFormed_ofModel (Model.numbered_build settings inputs)).areModules_modulesIn
    conventions files).classes
  have determined : Keyed.Determines GraphNode.id
      (((ofModel (Model.build settings inputs)).modulesIn conventions files).map
        (classNode · .module)) := by
    intro first memFirst second memSecond same
    obtain ⟨a, memA, rfl⟩ := List.mem_map.mp memFirst
    obtain ⟨b, memB, rfl⟩ := List.mem_map.mp memSecond
    have namesakes := (byName a b (classes a memA) (classes b memB) _ _).mp same
    exact classNode_eq_of_namesakes (classes a memA).declared (classes b memB).declared
      namesakes .module
  rw [moduleNodes, Graph.nodes_assemble, Keyed.foldl_upsert_eq_keepFirst determined,
    Keyed.mem_keepFirst_iff determined]
  exact List.mem_map_of_mem present

/-- Classes of distinct files share nodes exactly when they are namesakes, if the names of classes
have no colon. -/
theorem nodes_sharedByName (settings : AnalysisSettings) (inputs : List Input)
    (conventions : Conventions) (files : List SourceFile)
    (scopes : (ofModel (Model.build settings inputs)).Scopes files)
    (names : ∀ decl ∈ (ofModel (Model.build settings inputs)).index.decls,
      decl.isClass → ':' ∉ decl.name.toList) :
    (ofModel (Model.build settings inputs)).SharesByName conventions files := by
  have wellFormed := wellFormed_ofModel (Model.numbered_build settings inputs)
  have byName := identifiesByName names
  exact
    { ids := byName
      modules := wellFormed.length_moduleNodes_eq_iff byName scopes
      shown := fun decl => classNode_mem_moduleNodes byName
      wiring := wellFormed.length_wiringGraph_eq_iff byName
      kept := fun node => wellFormed.mem_nodes_wiringGraph_iff byName }

/-- A module file that declares a class and exports another one of the same name. -/
def namesakes : Input where
  path := "a.module.ts"
  text := "class A\x7b\x7dexport default(class A\x7b\x7d)"
  tree := some <|
    .node ⟨.program, none, true, false, 0, 34⟩ [
      .node ⟨.classDeclaration, none, true, false, 0, 9⟩ [
        .node ⟨.typeIdentifier, some .name, true, false, 6, 7⟩ [],
        .node ⟨.classBody, some .body, true, false, 7, 9⟩ []],
      .node ⟨.exportStatement, none, true, false, 9, 34⟩ [
        .node ⟨.defaultWord, none, false, false, 16, 23⟩ [],
        .node ⟨.parenthesizedExpression, some .value, true, false, 23, 34⟩ [
          .node ⟨.classExpression, none, true, false, 24, 33⟩ [
            .node ⟨.typeIdentifier, some .name, true, false, 30, 31⟩ [],
            .node ⟨.classBody, some .body, true, false, 31, 33⟩ []]]]]

/-- The two modules of the file are namesakes, so a node is lost. -/
theorem nodes_sharedByName_namesakes :
    let program := ofModel (Model.build {} [namesakes])
    let files := Analysis.scopeFiles program.model ["a.module.ts"]
    program.Scopes files ∧
      (∀ decl ∈ program.index.decls, decl.isClass → ':' ∉ decl.name.toList) ∧
      program.SharesByName {} files ∧
      (program.modulesIn {} files).map (fun decl => (decl.id.val, decl.name)) =
        [(0, "A"), (1, "A")] := by
  intro program files
  have scopes : program.Scopes files :=
    Analysis.scopes_scopeFiles program.model ["a.module.ts"]
  have names : ∀ decl ∈ program.index.decls, decl.isClass → ':' ∉ decl.name.toList := by
    decide +kernel
  exact ⟨scopes, names, nodes_sharedByName {} [namesakes] {} files scopes names, by decide +kernel⟩

/-- **Two modules of one file may have one node.** -/
theorem namesakes_shareNode :
    let program := ofModel (Model.build {} [namesakes])
    let files := Analysis.scopeFiles program.model ["a.module.ts"]
    program.Scopes files ∧ (program.modulesIn {} files).length = 2 ∧
      (program.moduleNodes {} files).nodes.length = 1 ∧
      (program.wiringGraph {} files).nodes.length = 1 := by
  intro program files
  exact ⟨Analysis.scopes_scopeFiles program.model ["a.module.ts"], by decide +kernel,
    by decide +kernel, by decide +kernel⟩

end Program

end CodeGraph
