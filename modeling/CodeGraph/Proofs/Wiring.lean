import CodeGraph.Proofs.Assembly
import CodeGraph.Proofs.Resolve.Kinds
import CodeGraph.Wiring.Graph

/-!
# The wiring graph is exact

The wiring graph of some modules has one node for each class that they wire, and its edges are
exactly the imports, containments and injections between these classes.

A class is reached in several ways: declared as a module, imported by one, listed as a controller or
provider, from several modules and in any order. It plays the same role each time, since the role
depends on the class alone. Likewise the kind of an edge depends on its two ends alone: a module
imports modules and contains other classes, and into these classes others are injected. So nothing
is lost when a class or an edge is put again.

## Main Definitions

* `Program.Wires`: a class of the wiring of some modules.
* `Program.Relates`: one class imports, contains or has another one injected.
* `Program.ExactWiring`: a graph shows exactly the wiring of some modules.

## Main Statements

* `Program.WellFormed.mem_wiredClasses_iff`: the classes that are reached, with their roles.
* `Program.WellFormed.mem_wiringEdges_iff`: the edges between them.
* `Program.wiringGraph_exact`: the wiring graph is exact when identifiers tell classes apart.
-/

namespace CodeGraph

namespace Program

/-- The role of a class in the wiring. -/
def wiredRole (conventions : Conventions) (decl : Decl) : Role :=
  if isModule conventions decl then .module
  else Role.inWiring conventions decl.node.decoratorNames

/-- A class of the wiring of some modules: one of them, a module that one of them imports, or
another class that is a controller or provider of one of them. -/
inductive Wires (program : Program) (conventions : Conventions) (modules : List Decl) :
    Decl → Prop
  | declared {decl : Decl} (listed : decl ∈ modules) : Wires program conventions modules decl
  | imported {owner decl : Decl} (memOwner : owner ∈ modules)
      (listed : decl ∈ (program.moduleMetadata conventions owner).imports)
      (kind : isModule conventions decl) : Wires program conventions modules decl
  | contained {owner decl : Decl} (memOwner : owner ∈ modules)
      (listed : decl ∈ (program.moduleMetadata conventions owner).controllers ∨
        decl ∈ (program.moduleMetadata conventions owner).providers)
      (kind : ¬isModule conventions decl) : Wires program conventions modules decl

/-- How one class of the wiring of some modules relates to another. -/
inductive Relates (program : Program) (conventions : Conventions) (modules : List Decl) :
    EdgeKind → Decl → Decl → Prop
  /-- A module imports another one. -/
  | imports {source target : Decl} (memSource : source ∈ modules)
      (listed : target ∈ (program.moduleMetadata conventions source).imports)
      (kind : isModule conventions target) (other : target.id ≠ source.id) :
      Relates program conventions modules .imports source target
  /-- A module contains a controller or provider that is no module. -/
  | contains {source target : Decl} (memSource : source ∈ modules)
      (listed : target ∈ (program.moduleMetadata conventions source).controllers ∨
        target ∈ (program.moduleMetadata conventions source).providers)
      (kind : ¬isModule conventions target) :
      Relates program conventions modules .contains source target
  /-- A class that is no module has another class of the wiring injected. -/
  | injects {source target : Decl} (wired : program.Wires conventions modules source)
      (kind : ¬isModule conventions source)
      (asked : target ∈ program.dependencies conventions source)
      (reached : program.Wires conventions modules target) (other : target.id ≠ source.id) :
      Relates program conventions modules .injects source target

/-- Identifiers tell the classes of a wiring apart. -/
def TellsApart (program : Program) (conventions : Conventions) (modules : List Decl) : Prop :=
  ∀ a b, program.Wires conventions modules a → program.Wires conventions modules b →
    (classNode a .module).id = (classNode b .module).id → a.id = b.id

/-- A graph shows exactly the wiring of the modules of some files. -/
structure ExactWiring (program : Program) (conventions : Conventions) (files : List SourceFile)
    (graph : Graph) : Prop where
  /-- There is one node for each class of the wiring, and no other node. -/
  nodes : ∃ classes : List Decl, (classes.map Decl.id).Nodup ∧
    (∀ decl, decl ∈ classes ↔
      program.Wires conventions (program.modulesIn conventions files) decl) ∧
    graph.nodes = classes.map fun decl => classNode decl (wiredRole conventions decl)
  /-- No two nodes have one identifier. -/
  nodeIds : (graph.nodes.map GraphNode.id).Nodup
  /-- Modules, and no other classes, have the role of a module. -/
  roles : ∀ decl, wiredRole conventions decl = .module ↔ isModule conventions decl
  /-- The nodes of the modules come first, in order. -/
  modulesFirst : (program.moduleNodes conventions files).nodes <+: graph.nodes
  /-- The edges are the relations between the classes of the wiring. -/
  edges : ∀ edge, edge ∈ graph.edges ↔
    ∃ kind source target,
      program.Relates conventions (program.modulesIn conventions files) kind source target ∧
        edge = wiringEdge kind source target
  /-- No two edges have the same ends. -/
  ends : (graph.edges.map GraphEdge.ends).Nodup
  /-- Relations with the same ends are of one kind. -/
  oneKind : ∀ kind source target kind' source' target',
    program.Relates conventions (program.modulesIn conventions files) kind source target →
    program.Relates conventions (program.modulesIn conventions files) kind' source' target' →
    (wiringEdge kind source target).ends = (wiringEdge kind' source' target').ends → kind = kind'
  /-- No module is contained in another one. -/
  containment : ∀ edge ∈ graph.edges, edge.kind = .contains →
    ∀ node ∈ graph.nodes, node.id = edge.target → node.role ≠ some .module

variable {program : Program} {conventions : Conventions} {modules : List Decl} {decl : Decl}

/-! ### Classes -/

theorem inWiring_ne_module (conventions : Conventions) (decorators : List String) :
    Role.inWiring conventions decorators ≠ .module := by
  unfold Role.inWiring
  split
  · simp
  · split <;> simp

/-- A wired class has the role of a module exactly when it is one. -/
theorem wiredRole_eq_module_iff :
    wiredRole conventions decl = .module ↔ isModule conventions decl := by
  unfold wiredRole
  split
  · next kind => simp [kind]
  · next kind => simp [kind, inWiring_ne_module]

theorem mem_importedModules_iff {owner : Decl} :
    decl ∈ program.importedModules conventions owner ↔
      decl ∈ (program.moduleMetadata conventions owner).imports ∧ isModule conventions decl := by
  unfold importedModules
  rw [List.mem_filter]

theorem mem_containedClasses_iff {owner : Decl} :
    decl ∈ program.containedClasses conventions owner ↔
      (decl ∈ (program.moduleMetadata conventions owner).controllers ∨
        decl ∈ (program.moduleMetadata conventions owner).providers) ∧
      ¬isModule conventions decl := by
  unfold containedClasses
  rw [List.mem_filter, List.mem_append, Bool.not_eq_true', Bool.not_eq_true]

/-- Classes of the program that are modules. -/
structure AreModules (program : Program) (conventions : Conventions) (modules : List Decl) :
    Prop where
  /-- They are classes of the program. -/
  classes : ∀ decl ∈ modules, program.DeclaresClass decl
  /-- They are modules. -/
  kind : ∀ decl ∈ modules, isModule conventions decl

theorem WellFormed.areModules_modulesIn (wellFormed : program.WellFormed)
    (conventions : Conventions) (files : List SourceFile) :
    program.AreModules conventions (program.modulesIn conventions files) := by
  have both : ∀ decl ∈ program.modulesIn conventions files,
      program.DeclaresClass decl ∧ isModule conventions decl := by
    intro decl present
    obtain ⟨inFiles, fits⟩ := List.mem_filter.mp present
    obtain ⟨isClass, kind⟩ := Bool.and_eq_true_iff.mp fits
    obtain ⟨file, -, inFile⟩ := List.mem_flatMap.mp inFiles
    exact ⟨⟨wellFormed.mem_of_topLevel inFile, isClass⟩, kind⟩
  exact ⟨fun decl present => (both decl present).1, fun decl present => (both decl present).2⟩

/-- What the modules of a wiring bring in are its classes, each with its role. -/
theorem AreModules.mem_wired_iff (areModules : program.AreModules conventions modules)
    {role : Role} :
    (decl, role) ∈
        modules.map (·, Role.module) ++ modules.flatMap (program.wiredBy conventions) ↔
      program.Wires conventions modules decl ∧ role = wiredRole conventions decl := by
  rw [List.mem_append, List.mem_map, List.mem_flatMap]
  constructor
  · rintro (⟨listed, memListed, same⟩ | ⟨owner, memOwner, brought⟩)
    · cases same
      have kind := areModules.kind decl memListed
      exact ⟨.declared memListed, (wiredRole_eq_module_iff.mpr kind).symm⟩
    · rcases List.mem_append.mp brought with imported | contained
      · obtain ⟨listed, memListed, same⟩ := List.mem_map.mp imported
        cases same
        obtain ⟨inImports, kind⟩ := mem_importedModules_iff.mp memListed
        exact ⟨.imported memOwner inImports kind, (wiredRole_eq_module_iff.mpr kind).symm⟩
      · obtain ⟨listed, memListed, same⟩ := List.mem_map.mp contained
        cases same
        obtain ⟨inLists, kind⟩ := mem_containedClasses_iff.mp memListed
        exact ⟨.contained memOwner inLists kind, by simp [wiredRole, kind]⟩
  · rintro ⟨wires, rfl⟩
    cases wires with
    | declared listed =>
      refine Or.inl ⟨decl, listed, ?_⟩
      rw [wiredRole_eq_module_iff.mpr (areModules.kind decl listed)]
    | @imported owner _ memOwner listed kind =>
      refine Or.inr ⟨owner, memOwner, List.mem_append_left _ (List.mem_map.mpr ⟨decl, ?_, ?_⟩)⟩
      · exact mem_importedModules_iff.mpr ⟨listed, kind⟩
      · rw [wiredRole_eq_module_iff.mpr kind]
    | @contained owner _ memOwner listed kind =>
      refine Or.inr ⟨owner, memOwner, List.mem_append_right _ (List.mem_map.mpr ⟨decl, ?_, ?_⟩)⟩
      · exact mem_containedClasses_iff.mpr ⟨listed, kind⟩
      · simp [wiredRole, kind]

namespace WellFormed

/-- The wiring of modules consists of classes of the program. -/
theorem declaresClass_of_wires (wellFormed : program.WellFormed)
    (areModules : program.AreModules conventions modules)
    (wires : program.Wires conventions modules decl) : program.DeclaresClass decl := by
  cases wires with
  | declared listed => exact areModules.classes decl listed
  | imported _ listed _ => exact wellFormed.declaresClass_of_mem_moduleMetadata (Or.inl listed)
  | contained _ listed _ => exact wellFormed.declaresClass_of_mem_moduleMetadata (Or.inr listed)

/-- Classes of a wiring with one number are one class. -/
theorem eq_of_wires (wellFormed : program.WellFormed)
    (areModules : program.AreModules conventions modules) {a b : Decl}
    (wiresA : program.Wires conventions modules a) (wiresB : program.Wires conventions modules b)
    (same : a.id = b.id) : a = b :=
  wellFormed.eq_of_id_eq (wellFormed.declaresClass_of_wires areModules wiresA).declared
    (wellFormed.declaresClass_of_wires areModules wiresB).declared same

/-- A class is reached with the same role each time, so the first role is its role. -/
theorem mem_wiredClasses_iff (wellFormed : program.WellFormed)
    (areModules : program.AreModules conventions modules) {role : Role} :
    (decl, role) ∈ program.wiredClasses conventions modules ↔
      program.Wires conventions modules decl ∧ role = wiredRole conventions decl := by
  -- The list keeps the first role, and there is only one to keep.
  have determined : Keyed.Determines (fun wired : Wired => wired.1.id)
      (modules.map (·, Role.module) ++ modules.flatMap (program.wiredBy conventions)) := by
    rintro ⟨a, roleA⟩ memA ⟨b, roleB⟩ memB same
    obtain ⟨wiresA, rfl⟩ := areModules.mem_wired_iff.mp memA
    obtain ⟨wiresB, rfl⟩ := areModules.mem_wired_iff.mp memB
    obtain rfl := wellFormed.eq_of_wires areModules wiresA wiresB same
    rfl
  unfold wiredClasses
  rw [Keyed.mem_keepFirst_iff determined, areModules.mem_wired_iff]

/-- The classes of a wiring that are no modules. -/
theorem mem_receivers_iff (wellFormed : program.WellFormed)
    (areModules : program.AreModules conventions modules) :
    decl ∈ ((program.wiredClasses conventions modules).filter
        fun wired => wired.2 ≠ .module).map Prod.fst ↔
      program.Wires conventions modules decl ∧ ¬isModule conventions decl := by
  rw [List.mem_map]
  constructor
  · rintro ⟨⟨receiver, role⟩, present, rfl⟩
    obtain ⟨reached, other⟩ := List.mem_filter.mp present
    obtain ⟨wires, rfl⟩ := (wellFormed.mem_wiredClasses_iff areModules).mp reached
    refine ⟨wires, fun kind => ?_⟩
    rw [decide_eq_true_eq] at other
    exact other (wiredRole_eq_module_iff.mpr kind)
  · rintro ⟨wires, kind⟩
    refine ⟨(decl, wiredRole conventions decl), List.mem_filter.mpr ⟨?_, ?_⟩, rfl⟩
    · exact (wellFormed.mem_wiredClasses_iff areModules).mpr ⟨wires, rfl⟩
    · exact decide_eq_true fun same => kind (wiredRole_eq_module_iff.mp same)

/-- A class of the program is among the reached ones exactly when it belongs to the wiring. -/
theorem any_wiredClasses_iff (wellFormed : program.WellFormed)
    (areModules : program.AreModules conventions modules) (declared : program.DeclaresClass decl) :
    ((program.wiredClasses conventions modules).any fun wired => wired.1.id = decl.id) ↔
      program.Wires conventions modules decl := by
  rw [List.any_eq_true]
  constructor
  · rintro ⟨⟨other, role⟩, reached, same⟩
    obtain ⟨wires, -⟩ := (wellFormed.mem_wiredClasses_iff areModules).mp reached
    have whole : other = decl := wellFormed.eq_of_id_eq
      (wellFormed.declaresClass_of_wires areModules wires).declared declared.declared
      (of_decide_eq_true same)
    exact whole ▸ wires
  · intro wires
    exact ⟨(decl, wiredRole conventions decl),
      (wellFormed.mem_wiredClasses_iff areModules).mpr ⟨wires, rfl⟩, decide_eq_true rfl⟩

end WellFormed

/-! ### Edges -/

/-- The kind of an edge between two classes of a wiring, as its ends tell it. -/
def kindBetween (conventions : Conventions) (source target : Decl) : EdgeKind :=
  if isModule conventions source then
    if isModule conventions target then .imports else .contains
  else .injects

namespace Relates

variable {kind : EdgeKind} {source target : Decl}

/-- Classes that are related belong to the wiring. -/
theorem wires (relates : program.Relates conventions modules kind source target) :
    program.Wires conventions modules source ∧ program.Wires conventions modules target := by
  cases relates with
  | imports memSource listed kind _ => exact ⟨.declared memSource, .imported memSource listed kind⟩
  | contains memSource listed kind => exact ⟨.declared memSource, .contained memSource listed kind⟩
  | injects wired _ _ reached _ => exact ⟨wired, reached⟩

/-- The ends of a relation tell its kind. -/
theorem kind_eq (areModules : program.AreModules conventions modules)
    (relates : program.Relates conventions modules kind source target) :
    kind = kindBetween conventions source target := by
  cases relates with
  | imports memSource _ isModule _ => simp [kindBetween, areModules.kind source memSource, isModule]
  | contains memSource _ noModule => simp [kindBetween, areModules.kind source memSource, noModule]
  | injects _ noModule _ _ _ => simp [kindBetween, noModule]

/-- No class is related to itself. -/
theorem id_ne (areModules : program.AreModules conventions modules)
    (wellFormed : program.WellFormed)
    (relates : program.Relates conventions modules kind source target) :
    source.id ≠ target.id := by
  have both := relates.wires
  cases relates with
  | imports _ _ _ other => exact Ne.symm other
  | contains memSource _ noModule =>
    intro same
    have whole := wellFormed.eq_of_wires areModules both.1 both.2 same
    exact noModule (whole ▸ areModules.kind source memSource)
  | injects _ _ _ _ other => exact Ne.symm other

end Relates

/-- The edges of a module lead to the modules it imports and the classes it contains. -/
theorem mem_moduleEdges_iff {source : Decl} {edge : GraphEdge} :
    edge ∈ program.moduleEdges conventions source ↔
      (∃ target ∈ program.importedModules conventions source,
        wiringEdge .imports source target = edge) ∨
      ∃ target ∈ program.containedClasses conventions source,
        wiringEdge .contains source target = edge := by
  unfold moduleEdges
  rw [List.mem_append, List.mem_map, List.mem_map]

namespace WellFormed

/-- The injections of a class lead to those of its dependencies that are wired. -/
theorem mem_injectionEdges_iff (wellFormed : program.WellFormed)
    (areModules : program.AreModules conventions modules) {source : Decl} {edge : GraphEdge} :
    edge ∈ program.injectionEdges conventions (program.wiredClasses conventions modules) source ↔
      ∃ target ∈ program.dependencies conventions source,
        (target.id ≠ source.id ∧ program.Wires conventions modules target) ∧
          wiringEdge .injects source target = edge := by
  unfold injectionEdges
  rw [List.mem_map]
  refine exists_congr fun target => ?_
  rw [List.mem_filter, and_assoc]
  refine and_congr_right fun asked => and_congr_left fun _ => ?_
  have declared := wellFormed.declaresClass_of_mem_dependencies asked
  rw [Bool.and_eq_true, decide_eq_true_eq, wellFormed.any_wiredClasses_iff areModules declared]

/-- The edges of a wiring are its relations, and loops where a module imports itself. -/
theorem mem_wiringEdges_iff (wellFormed : program.WellFormed)
    (areModules : program.AreModules conventions modules) {edge : GraphEdge} :
    edge ∈ program.wiringEdges conventions modules ↔
      (∃ kind source target, program.Relates conventions modules kind source target ∧
        edge = wiringEdge kind source target) ∨
      ∃ owner ∈ modules, owner ∈ (program.moduleMetadata conventions owner).imports ∧
        edge = wiringEdge .imports owner owner := by
  unfold wiringEdges
  rw [List.mem_append, List.mem_flatMap, List.mem_flatMap]
  constructor
  · rintro (⟨source, memSource, ofModule⟩ | ⟨source, receives, injected⟩)
    · rcases mem_moduleEdges_iff.mp ofModule with ⟨target, listed, rfl⟩ | ⟨target, listed, rfl⟩
      · obtain ⟨inImports, kind⟩ := mem_importedModules_iff.mp listed
        -- A module may list itself; assembly leaves that edge out.
        by_cases same : target.id = source.id
        · obtain rfl := wellFormed.eq_of_wires areModules (.imported memSource inImports kind)
            (.declared memSource) same
          exact Or.inr ⟨target, memSource, inImports, rfl⟩
        · exact Or.inl ⟨_, source, target, .imports memSource inImports kind same, rfl⟩
      · obtain ⟨inLists, kind⟩ := mem_containedClasses_iff.mp listed
        exact Or.inl ⟨_, source, target, .contains memSource inLists kind, rfl⟩
    · obtain ⟨wires, kind⟩ := (wellFormed.mem_receivers_iff areModules).mp receives
      obtain ⟨target, asked, ⟨other, reached⟩, rfl⟩ :=
        (wellFormed.mem_injectionEdges_iff areModules).mp injected
      exact Or.inl ⟨_, source, target, .injects wires kind asked reached other, rfl⟩
  · rintro (⟨kind, source, target, relates, rfl⟩ | ⟨owner, memOwner, listed, rfl⟩)
    · cases relates with
      | imports memSource listed kind _ =>
        refine Or.inl ⟨source, memSource, mem_moduleEdges_iff.mpr (Or.inl ⟨target, ?_, rfl⟩)⟩
        exact mem_importedModules_iff.mpr ⟨listed, kind⟩
      | contains memSource listed kind =>
        refine Or.inl ⟨source, memSource, mem_moduleEdges_iff.mpr (Or.inr ⟨target, ?_, rfl⟩)⟩
        exact mem_containedClasses_iff.mpr ⟨listed, kind⟩
      | injects wired kind asked reached other =>
        refine Or.inr ⟨source, (wellFormed.mem_receivers_iff areModules).mpr ⟨wired, kind⟩, ?_⟩
        exact (wellFormed.mem_injectionEdges_iff areModules).mpr
          ⟨target, asked, ⟨other, reached⟩, rfl⟩
    · refine Or.inl ⟨owner, memOwner, mem_moduleEdges_iff.mpr (Or.inl ⟨owner, ?_, rfl⟩)⟩
      exact mem_importedModules_iff.mpr ⟨listed, areModules.kind owner memOwner⟩

/-- Every edge of a wiring leads between classes of the wiring and is of the kind that they tell. -/
theorem exists_kindBetween (wellFormed : program.WellFormed)
    (areModules : program.AreModules conventions modules) {edge : GraphEdge}
    (present : edge ∈ program.wiringEdges conventions modules) :
    ∃ source target, program.Wires conventions modules source ∧
      program.Wires conventions modules target ∧
        edge = wiringEdge (kindBetween conventions source target) source target := by
  rcases (wellFormed.mem_wiringEdges_iff areModules).mp present with
    ⟨kind, source, target, relates, rfl⟩ | ⟨owner, memOwner, -, rfl⟩
  · have both := relates.wires
    exact ⟨source, target, both.1, both.2, by rw [relates.kind_eq areModules]⟩
  · have kind := areModules.kind owner memOwner
    exact ⟨owner, owner, .declared memOwner, .declared memOwner, by simp [kindBetween, kind]⟩

/-! ### The graph -/

/-- With identifiers apart, a node stands for one class. Without this, two classes share a node and
their edges. -/
theorem eq_of_classNode_id_eq (wellFormed : program.WellFormed)
    (areModules : program.AreModules conventions modules)
    (apart : program.TellsApart conventions modules) {a b : Decl}
    (wiresA : program.Wires conventions modules a) (wiresB : program.Wires conventions modules b)
    (same : (classNode a .module).id = (classNode b .module).id) : a = b :=
  wellFormed.eq_of_wires areModules wiresA wiresB (apart a b wiresA wiresB same)

/-- The ends of an edge tell the whole edge. -/
theorem determines_wiringEdges (wellFormed : program.WellFormed)
    (areModules : program.AreModules conventions modules)
    (apart : program.TellsApart conventions modules) :
    Keyed.Determines GraphEdge.ends (program.wiringEdges conventions modules) := by
  intro first memFirst second memSecond same
  obtain ⟨a, b, wiresA, wiresB, rfl⟩ := wellFormed.exists_kindBetween areModules memFirst
  obtain ⟨c, d, wiresC, wiresD, rfl⟩ := wellFormed.exists_kindBetween areModules memSecond
  obtain rfl : a = c :=
    wellFormed.eq_of_classNode_id_eq areModules apart wiresA wiresC (congrArg Prod.fst same)
  obtain rfl : b = d :=
    wellFormed.eq_of_classNode_id_eq areModules apart wiresB wiresD (congrArg Prod.snd same)
  rfl

/-- The nodes of the classes of a wiring have distinct identifiers. -/
theorem nodup_ids_wiredClasses (wellFormed : program.WellFormed)
    (areModules : program.AreModules conventions modules)
    (apart : program.TellsApart conventions modules) :
    (((program.wiredClasses conventions modules).map fun wired =>
      classNode wired.1 wired.2).map GraphNode.id).Nodup := by
  rw [List.map_map]
  have once : (program.wiredClasses conventions modules).Nodup :=
    List.Nodup.of_map _ (Keyed.nodup_keepFirst _)
  refine once.map_on ?_
  rintro ⟨a, roleA⟩ memA ⟨b, roleB⟩ memB same
  obtain ⟨wiresA, rfl⟩ := (wellFormed.mem_wiredClasses_iff areModules).mp memA
  obtain ⟨wiresB, rfl⟩ := (wellFormed.mem_wiredClasses_iff areModules).mp memB
  obtain rfl := wellFormed.eq_of_classNode_id_eq areModules apart wiresA wiresB same
  rfl

/-- The graph of modules alone has one node for each module, in order. -/
theorem nodes_assemble_modules (wellFormed : program.WellFormed)
    (areModules : program.AreModules conventions modules)
    (apart : program.TellsApart conventions modules) :
    (Graph.assemble (modules.map (classNode · .module)) []).nodes =
      (Keyed.keepFirst Decl.id modules).map (classNode · .module) := by
  have same : ∀ a ∈ modules, ∀ b ∈ modules,
      (classNode a .module).id = (classNode b .module).id → a = b := fun a memA b memB =>
    wellFormed.eq_of_classNode_id_eq areModules apart (.declared memA) (.declared memB)
  have determined : Keyed.Determines GraphNode.id (modules.map (classNode · .module)) := by
    intro first memFirst second memSecond
    obtain ⟨a, memA, rfl⟩ := List.mem_map.mp memFirst
    obtain ⟨b, memB, rfl⟩ := List.mem_map.mp memSecond
    intro equal
    rw [same a memA b memB equal]
  rw [Graph.nodes_assemble, Keyed.foldl_upsert_eq_keepFirst determined]
  refine Keyed.keepFirst_map fun a memA b memB => ⟨fun equal => ?_, fun equal => ?_⟩
  · rw [same a memA b memB equal]
  · rw [wellFormed.eq_of_wires areModules (.declared memA) (.declared memB) equal]

/-- The modules are the first classes that are reached. -/
theorem modules_prefix_wiredClasses (program : Program) (conventions : Conventions)
    (modules : List Decl) :
    (Keyed.keepFirst Decl.id modules).map (·, Role.module) <+:
      program.wiredClasses conventions modules := by
  have first : Keyed.keepFirst (fun wired : Wired => wired.1.id) (modules.map (·, Role.module)) =
      (Keyed.keepFirst Decl.id modules).map (·, Role.module) :=
    Keyed.keepFirst_map fun _ _ _ _ => Iff.rfl
  rw [← first]
  exact Keyed.keepFirst_prefix _ _

/-- Every class of the wiring has a node in the wiring graph, one that it may share with others. -/
theorem id_mem_nodes_wiringGraph (wellFormed : program.WellFormed) {files : List SourceFile}
    {decl : Decl} (wires : program.Wires conventions (program.modulesIn conventions files) decl) :
    (classNode decl .module).id ∈
      (program.wiringGraph conventions files).nodes.map GraphNode.id := by
  have areModules := wellFormed.areModules_modulesIn conventions files
  have reached := (wellFormed.mem_wiredClasses_iff areModules).mpr ⟨wires, rfl⟩
  exact Graph.id_mem_nodes_assemble (List.mem_map_of_mem reached) _

/-- The nodes of the wiring graph are those of the classes that are reached. -/
theorem nodes_wiringGraph (wellFormed : program.WellFormed) {files : List SourceFile}
    (apart : program.TellsApart conventions (program.modulesIn conventions files)) :
    (program.wiringGraph conventions files).nodes =
      (program.wiredClasses conventions (program.modulesIn conventions files)).map fun wired =>
        classNode wired.1 wired.2 :=
  Graph.nodes_assemble_of_nodup (wellFormed.nodup_ids_wiredClasses
    (wellFormed.areModules_modulesIn conventions files) apart) _

/-- The wiring graph has one node for each class of the wiring. -/
theorem exists_classes (wellFormed : program.WellFormed) {files : List SourceFile}
    (apart : program.TellsApart conventions (program.modulesIn conventions files)) :
    ∃ classes : List Decl, (classes.map Decl.id).Nodup ∧
      (∀ decl, decl ∈ classes ↔
        program.Wires conventions (program.modulesIn conventions files) decl) ∧
      (program.wiringGraph conventions files).nodes =
        classes.map fun decl => classNode decl (wiredRole conventions decl) := by
  have areModules := wellFormed.areModules_modulesIn conventions files
  refine ⟨(program.wiredClasses conventions (program.modulesIn conventions files)).map Prod.fst,
    ?_, fun decl => ⟨?_, fun wires => ?_⟩, ?_⟩
  · rw [List.map_map]
    exact Keyed.nodup_keepFirst _
  · intro present
    obtain ⟨⟨_, role⟩, reached, rfl⟩ := List.mem_map.mp present
    exact ((wellFormed.mem_wiredClasses_iff areModules).mp reached).1
  · exact List.mem_map.mpr ⟨(decl, wiredRole conventions decl),
      (wellFormed.mem_wiredClasses_iff areModules).mpr ⟨wires, rfl⟩, rfl⟩
  · rw [wellFormed.nodes_wiringGraph apart, List.map_map]
    refine List.map_congr_left ?_
    rintro ⟨decl, role⟩ reached
    obtain ⟨-, rfl⟩ := (wellFormed.mem_wiredClasses_iff areModules).mp reached
    rfl

/-- The nodes of the modules come first. -/
theorem moduleNodes_prefix (wellFormed : program.WellFormed) {files : List SourceFile}
    (apart : program.TellsApart conventions (program.modulesIn conventions files)) :
    (program.moduleNodes conventions files).nodes <+:
      (program.wiringGraph conventions files).nodes := by
  have areModules := wellFormed.areModules_modulesIn conventions files
  have first := (modules_prefix_wiredClasses program conventions
    (program.modulesIn conventions files)).map fun wired => classNode wired.1 wired.2
  rw [List.map_map] at first
  unfold moduleNodes
  rw [wellFormed.nodes_assemble_modules areModules apart, wellFormed.nodes_wiringGraph apart]
  exact first

/-- The edges of the wiring graph are the relations between classes of the wiring. -/
theorem mem_edges_wiringGraph_iff (wellFormed : program.WellFormed) {files : List SourceFile}
    (apart : program.TellsApart conventions (program.modulesIn conventions files))
    {edge : GraphEdge} :
    edge ∈ (program.wiringGraph conventions files).edges ↔
      ∃ kind source target,
        program.Relates conventions (program.modulesIn conventions files) kind source target ∧
          edge = wiringEdge kind source target := by
  have areModules := wellFormed.areModules_modulesIn conventions files
  unfold wiringGraph
  rw [Graph.mem_edges_assemble_iff _ (wellFormed.determines_wiringEdges areModules apart),
    wellFormed.mem_wiringEdges_iff areModules]
  constructor
  · rintro ⟨related | ⟨owner, -, -, rfl⟩, noLoop⟩
    · exact related
    · exact absurd rfl noLoop
  · rintro ⟨kind, source, target, relates, rfl⟩
    have both := relates.wires
    refine ⟨Or.inl ⟨kind, source, target, relates, rfl⟩, fun same => ?_⟩
    exact relates.id_ne areModules wellFormed (apart source target both.1 both.2 same)

end WellFormed

/-- The wiring graph shows exactly the wiring, when identifiers tell its classes apart. -/
theorem wiringGraph_exact (settings : AnalysisSettings) (inputs : List Input)
    (conventions : Conventions) (files : List SourceFile)
    (apart : (ofModel (Model.build settings inputs)).TellsApart conventions
      ((ofModel (Model.build settings inputs)).modulesIn conventions files)) :
    (ofModel (Model.build settings inputs)).ExactWiring conventions files
      ((ofModel (Model.build settings inputs)).wiringGraph conventions files) := by
  generalize isProgram : ofModel (Model.build settings inputs) = program at apart ⊢
  have wellFormed : program.WellFormed :=
    isProgram ▸ wellFormed_ofModel (Model.numbered_build settings inputs)
  have areModules := wellFormed.areModules_modulesIn conventions files
  obtain ⟨classes, distinct, memClasses, nodes⟩ := wellFormed.exists_classes apart
  refine
    { nodes := ⟨classes, distinct, memClasses, nodes⟩
      nodeIds := ?_
      roles := fun decl => wiredRole_eq_module_iff
      modulesFirst := wellFormed.moduleNodes_prefix apart
      edges := fun edge => wellFormed.mem_edges_wiringGraph_iff apart
      ends := Graph.nodup_ends_assemble _ _
      oneKind := ?_
      containment := ?_ }
  · rw [wellFormed.nodes_wiringGraph apart]
    exact wellFormed.nodup_ids_wiredClasses areModules apart
  · intro kind source target kind' source' target' relates relates' same
    have both := relates.wires
    have both' := relates'.wires
    have sources : source = source' := wellFormed.eq_of_classNode_id_eq areModules apart both.1
      both'.1 (congrArg Prod.fst same)
    have targets : target = target' := wellFormed.eq_of_classNode_id_eq areModules apart both.2
      both'.2 (congrArg Prod.snd same)
    rw [relates.kind_eq areModules, relates'.kind_eq areModules, sources, targets]
  · intro edge present isContainment node memNode sameId
    obtain ⟨kind, source, target, relates, rfl⟩ :=
      (wellFormed.mem_edges_wiringGraph_iff apart).mp present
    rw [nodes] at memNode
    obtain ⟨decl, memDecl, rfl⟩ := List.mem_map.mp memNode
    have same : decl = target := wellFormed.eq_of_classNode_id_eq areModules apart
      ((memClasses decl).mp memDecl) relates.wires.2 sameId
    cases relates with
    | imports => cases isContainment
    | injects => cases isContainment
    | contains memSource listed noModule =>
      intro isModule
      have role : wiredRole conventions decl = .module := Option.some.inj isModule
      exact noModule (wiredRole_eq_module_iff.mp (same ▸ role))

/-- A file with a module that imports itself and provides another class. -/
def selfImporting : Input where
  path := "a.ts"
  text := "@M(\x7bimports:[A],providers:[S]\x7d)class A\x7b\x7dclass S\x7b\x7d"
  tree := some <|
    .node ⟨.program, none, true, false, 0, 49⟩ [
      .node ⟨.classDeclaration, none, true, false, 0, 40⟩ [
        .node ⟨.decorator, none, true, false, 0, 31⟩ [
          .node ⟨.callExpression, none, true, false, 1, 31⟩ [
            .node ⟨.identifier, some .function, true, false, 1, 2⟩ [],
            .node ⟨.arguments, some .arguments, true, false, 2, 31⟩ [
              .node ⟨.object, none, true, false, 3, 30⟩ [
                .node ⟨.pair, none, true, false, 4, 15⟩ [
                  .node ⟨.propertyIdentifier, some .key, true, false, 4, 11⟩ [],
                  .node ⟨.array, some .value, true, false, 12, 15⟩ [
                    .node ⟨.identifier, none, true, false, 13, 14⟩ []]],
                .node ⟨.pair, none, true, false, 16, 29⟩ [
                  .node ⟨.propertyIdentifier, some .key, true, false, 16, 25⟩ [],
                  .node ⟨.array, some .value, true, false, 26, 29⟩ [
                    .node ⟨.identifier, none, true, false, 27, 28⟩ []]]]]]],
        .node ⟨.typeIdentifier, some .name, true, false, 37, 38⟩ [],
        .node ⟨.classBody, some .body, true, false, 38, 40⟩ []],
      .node ⟨.classDeclaration, none, true, false, 40, 49⟩ [
        .node ⟨.typeIdentifier, some .name, true, false, 46, 47⟩ [],
        .node ⟨.classBody, some .body, true, false, 47, 49⟩ []]]

/-- The two classes have different identifiers. The module contains the other class, and the edge
from the module to itself is left out. -/
theorem wiringGraph_exact_selfImporting :
    let program := ofModel (Model.build {} [selfImporting])
    let files := program.model.files.map ModelFile.source
    let conventions : Conventions := { moduleDecorators := ["M"] }
    program.TellsApart conventions (program.modulesIn conventions files) ∧
      program.ExactWiring conventions files (program.wiringGraph conventions files) ∧
      (program.wiringGraph conventions files).edges.map GraphEdge.kind = [.contains] := by
  intro program files conventions
  have wellFormed : program.WellFormed :=
    wellFormed_ofModel (Model.numbered_build {} [selfImporting])
  have areModules := wellFormed.areModules_modulesIn conventions files
  have distinct : ∀ a ∈ program.index.decls, ∀ b ∈ program.index.decls,
      (classNode a .module).id = (classNode b .module).id → a.id = b.id := by
    decide +kernel
  have apart : program.TellsApart conventions (program.modulesIn conventions files) :=
    fun a b wiresA wiresB => distinct
      a (wellFormed.declaresClass_of_wires areModules wiresA).declared
      b (wellFormed.declaresClass_of_wires areModules wiresB).declared
  exact ⟨apart, wiringGraph_exact {} [selfImporting] conventions files apart, by decide +kernel⟩

end Program

end CodeGraph
