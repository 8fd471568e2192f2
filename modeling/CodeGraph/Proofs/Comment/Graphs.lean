import CodeGraph.Proofs.Comment.Answers
import CodeGraph.Proofs.Resolve.Asked
import CodeGraph.Proofs.Wiring

/-!
# Graphs of files without comments

The passes collect the same callables and classes and get the same answers about them, so the call
graph, the wiring graph and the graph of modules are the same when the comments are gone.

## Main Definitions

* `Collected.pruned`, `ModuleMetadata.pruned`: callables and metadata in the trees that are left.

## Main Statements

* `Program.collect_pruned`: the collected callables.
* `Program.Prunable.callGraph_pruned`, `Program.Prunable.callDiagnostics_pruned`: the call graph and
  its counters.
* `Program.Prunable.wiringGraph_pruned`, `Program.moduleNodes_pruned`: the wiring graph and the
  graph of modules.
-/

namespace CodeGraph

/-! ### Callables -/

/-- A callable without an identifier in the tree that is left. -/
def CallableDraft.pruned (draft : CallableDraft) : CallableDraft :=
  { draft with decl := draft.decl.pruned, function := draft.function.pruned }

/-- A callable in the tree that is left. -/
def Callable.pruned (callable : Callable) : Callable :=
  { callable with draft := callable.draft.pruned }

/-- The collected callables in the trees that are left. -/
def Collected.pruned (collected : Collected) : Collected :=
  ⟨collected.callables.map Callable.pruned⟩

/-- A call site in the tree that is left. -/
def CallSite.pruned (site : CallSite) : CallSite := ⟨site.caller.pruned, site.call.pruned⟩

/-- The identifier is made of the path, the name and the texts of types, none of which a comment
touches. -/
@[simp]
theorem CallableDraft.base_pruned (draft : CallableDraft) : draft.pruned.base = draft.base := by
  have parameters : draft.pruned.function.parameters.map Node.parameterType =
      draft.function.parameters.map Node.parameterType := by
    simp [CallableDraft.pruned, Function.comp_def]
  rw [base, signature, parameters]
  rfl

/-- So a callable gives the same node. -/
@[simp]
theorem Callable.graphNode_pruned (callable : Callable) :
    callable.pruned.graphNode = callable.graphNode := by
  have isAsync : callable.pruned.function.isAsync = callable.function.isAsync :=
    callable.function.isAsync_pruned
  rw [graphNode, isAsync]
  rfl

/-- What a role is read off is the same. -/
@[simp]
theorem Decl.classFacts_pruned (decl : Decl) : decl.pruned.classFacts = decl.classFacts := by
  simp [classFacts]

namespace Collected

variable (collected : Collected)

/-- The callable of a declaration is looked up by the number of the declaration. -/
@[simp]
theorem get?_pruned (decl : DeclId) :
    collected.pruned.get? decl = (collected.get? decl).map Callable.pruned := by
  rw [get?, pruned, ← List.map_reverse]
  exact find?_map_of fun _ _ => rfl

/-- The call sites, in the same order, with the same callers. -/
theorem sites_pruned : collected.pruned.sites = collected.sites.map CallSite.pruned := by
  refine flatMap_map_of fun caller _ => ?_
  rw [show caller.pruned.function = caller.function.pruned from rfl, Node.callSites_pruned,
    List.map_map, List.map_map]
  rfl

end Collected

@[simp]
theorem CallStrategy.ofCall_pruned (call : Node) : ofCall call.pruned = ofCall call := by
  have ofCallee_pruned : ∀ callee : Node, ofCallee callee.pruned = ofCallee callee := by
    intro callee
    simp [ofCallee]
  simp [ofCall, Function.comp_def, ofCallee_pruned]

namespace Program

variable {program : Program} (conventions : Conventions)

theorem callableDraft?_pruned (className : Option String) (role : Option Role) (decl : Decl) :
    callableDraft? className role decl.pruned =
      (callableDraft? className role decl).map CallableDraft.pruned := by
  unfold callableDraft?
  rw [Decl.functionNode?_pruned]
  cases decl.functionNode? with
  | none => rfl
  | some function =>
    cases kind : NodeKind.ofKind? function.kind <;> simp [kind, CallableDraft.pruned]

/-- A declaration brings the same callables, in order. -/
theorem callableDrafts_pruned (decl : Decl) : program.pruned.callableDrafts conventions decl.pruned =
    (program.callableDrafts conventions decl).map CallableDraft.pruned := by
  have itself : (callableDraft? none (some .helper) decl.pruned).toList =
      (callableDraft? none (some .helper) decl).toList.map CallableDraft.pruned := by
    rw [callableDraft?_pruned, Option.toList_map]
  unfold callableDrafts
  rw [Decl.kind_pruned]
  split
  · exact itself
  · exact itself
  · rw [Decl.id_pruned, membersOf_pruned]
    refine filterMap_map_of fun member _ => ?_
    rw [Decl.kind_pruned, callableDraft?_pruned, classRole, Decl.classFacts_pruned]
    split <;> rfl
  · rfl

theorem topLevels_pruned (files : List SourceFile) :
    program.pruned.topLevels files = (program.topLevels files).map Decl.pruned := by
  rw [topLevels, topLevels, List.map_flatMap]
  exact List.flatMap_congr fun file _ => by rw [scopeOf_pruned]; rfl

/-- Some files bring the same callables, in order. -/
theorem draftsOf_pruned (files : List SourceFile) : program.pruned.draftsOf conventions files =
    (program.draftsOf conventions files).map CallableDraft.pruned := by
  rw [draftsOf, topLevels_pruned]
  exact flatMap_map_of fun decl _ => callableDrafts_pruned conventions decl

/-- The callables of files. -/
theorem collect_pruned (files : List SourceFile) :
    program.pruned.collect conventions files = (program.collect conventions files).pruned := by
  have bases : CallableDraft.base ∘ CallableDraft.pruned = CallableDraft.base :=
    funext CallableDraft.base_pruned
  refine congrArg Collected.mk ?_
  rw [draftsOf_pruned, List.map_map, bases, List.zipWith_map_right, collect, List.map_zipWith]
  rfl

namespace Prunable

/-! ### The call graph -/

/-- A call leads to the same callable. Here all answers about expressions come in. -/
theorem callee?_pruned (prunable : program.Prunable) (collected : Collected) {call : Node}
    (has : program.HasNode call) : program.pruned.callee? collected.pruned call.pruned =
      (program.callee? collected call).map Callable.pruned := by
  have denotes : program.pruned.calleeSymbol? call.pruned =
      (program.calleeSymbol? call).map Symbol.pruned := by
    rw [calleeSymbol?, calleeSymbol?, Node.child?_pruned]
    cases found : call.child? .function with
    | none => rfl
    | some function => exact (prunable.prunes_level fullBudget).symbol function (has.of_child? found)
  unfold callee?
  rw [denotes]
  cases program.calleeSymbol? call with
  | none => rfl
  | some symbol =>
    cases symbol with
    | decl declared => exact collected.get?_pruned declared.id
    | _ => rfl

/-- The call graph of files. -/
theorem callGraph_pruned (prunable : program.Prunable) (files : List SourceFile) :
    program.pruned.callGraph conventions files = program.callGraph conventions files := by
  have nodes : (program.collect conventions files).pruned.callables.map Callable.graphNode =
      (program.collect conventions files).callables.map Callable.graphNode := by
    simp [Collected.pruned, Function.comp_def]
  have edges : program.pruned.callEdges (program.collect conventions files).pruned =
      program.callEdges (program.collect conventions files) := by
    rw [callEdges, callEdges, Collected.sites_pruned, List.filterMap_map]
    refine List.filterMap_congr fun site present => ?_
    have has := prunable.hasNode_of_mem_sites present
    rw [Function.comp_apply, siteEdge?, siteEdge?, show site.pruned.call = site.call.pruned from rfl,
      prunable.callee?_pruned _ has]
    cases program.callee? (program.collect conventions files) site.call <;> rfl
  rw [callGraph, collect_pruned, nodes, edges, callGraph]

/-- The counters of the call graph of files. -/
theorem callDiagnostics_pruned (prunable : program.Prunable) (files : List SourceFile) :
    program.pruned.callDiagnostics (program.pruned.collect conventions files) =
      program.callDiagnostics (program.collect conventions files) := by
  rw [collect_pruned, callDiagnostics, callDiagnostics, Collected.sites_pruned, List.foldl_map]
  refine List.foldl_ext _ _ _ fun counters site present => ?_
  have has := prunable.hasNode_of_mem_sites present
  rw [recordSite, recordSite, show site.pruned.call = site.call.pruned from rfl,
    prunable.callee?_pruned _ has, CallStrategy.ofCall_pruned]
  cases program.callee? (program.collect conventions files) site.call <;> rfl

end Prunable

/-! ### Modules -/

/-- Modules are told by their decorators. -/
@[simp]
theorem isModule_pruned (decl : Decl) :
    isModule conventions decl.pruned = isModule conventions decl := by
  rw [isModule, Decl.classFacts_pruned, isModule]

/-- The same modules, in the same order. -/
theorem modulesIn_pruned (files : List SourceFile) : program.pruned.modulesIn conventions files =
    (program.modulesIn conventions files).map Decl.pruned := by
  rw [modulesIn, topLevels_pruned, List.filter_map, modulesIn]
  simp [Function.comp_def]

@[simp]
theorem classNode_pruned (decl : Decl) (role : Role) :
    classNode decl.pruned role = classNode decl role := rfl

/-- The graph of the modules of files. -/
theorem moduleNodes_pruned (files : List SourceFile) :
    program.pruned.moduleNodes conventions files = program.moduleNodes conventions files := by
  rw [moduleNodes, modulesIn_pruned, moduleNodes, List.map_map]
  rfl

end Program

/-! ### Metadata -/

/-- The classes that a module lists, in the trees that are left. -/
def ModuleMetadata.pruned (metadata : ModuleMetadata) : ModuleMetadata where
  imports := metadata.imports.map Decl.pruned
  controllers := metadata.controllers.map Decl.pruned
  providers := metadata.providers.map Decl.pruned

/-- The elements of a list are named children. -/
@[simp]
theorem Node.listElements_pruned (value : Node) :
    value.pruned.listElements = value.listElements.map pruned := by
  simp only [listElements, unwrap_pruned, kind_pruned, namedChildren_pruned]
  split
  · rw [List.filter_map]
    simp [Function.comp_def]
  · rfl

/-- The first constructor of a class is read off names in its body. -/
@[simp]
theorem Node.firstConstructor?_pruned (node : Node) :
    node.pruned.firstConstructor? = node.firstConstructor?.map pruned := by
  unfold firstConstructor?
  rw [child?_pruned]
  cases node.child? .body with
  | none => rfl
  | some body =>
    simp only [Option.map_some, Option.bind_eq_bind, Option.bind_some, namedChildren_pruned]
    refine find?_map_of fun member _ => ?_
    rw [kind_pruned, child?_pruned]
    cases member.child? .name <;> simp

/-- Classes that are kept once each are told apart by the same numbers. -/
theorem Decl.keepFirst_pruned (decls : List Decl) :
    Keyed.keepFirst Decl.id (decls.map Decl.pruned) =
      (Keyed.keepFirst Decl.id decls).map Decl.pruned :=
  Keyed.keepFirst_map fun _ _ _ _ => Iff.rfl

namespace Program

variable {program : Program} (conventions : Conventions)

/-- The object that a module decorator is given. -/
theorem metadataObject?_pruned (decl : Decl) :
    metadataObject? conventions decl.pruned =
      (metadataObject? conventions decl).map Node.pruned := by
  have decorator : (decl.node.decorators.map Node.pruned).find?
        (fun decorator => decorator.decoratorName?.any conventions.moduleNames.contains) =
      (decl.node.decorators.find? fun decorator =>
        decorator.decoratorName?.any conventions.moduleNames.contains).map Node.pruned :=
    find?_map_of fun decorator _ => by rw [Node.decoratorName?_pruned]
  unfold metadataObject?
  rw [Decl.node_pruned, Node.decorators_pruned, decorator]
  cases decl.node.decorators.find? fun decorator =>
      decorator.decoratorName?.any conventions.moduleNames.contains with
  | none => rfl
  | some decorator =>
    simp only [Option.map_some, Option.bind_eq_bind, Option.bind_some,
      Node.decoratorArguments_pruned, List.head?_map]
    cases decorator.decoratorArguments.head? with
    | none => rfl
    | some argument => by_cases isObject : argument.unwrap.kind = .object <;> simp [isObject]

theorem shorthandElements_pruned (entry : Node) :
    program.pruned.shorthandElements entry.pruned =
      (program.shorthandElements entry).map Node.pruned := by
  unfold shorthandElements
  rw [Node.text_pruned, lookup?_pruned, bind_resolveAlias?_pruned]
  cases (program.lookup? entry entry.text).bind program.resolveAlias? with
  | none => rfl
  | some symbol =>
    simp only [Option.map_some, Option.bind_some, variableNode?_pruned]
    cases variableNode? symbol with
    | none => rfl
    | some declarator => cases found : declarator.child? .value <;> simp [found]

/-- What an entry of the metadata adds to a list. -/
theorem metadataEntry?_pruned (entry : Node) :
    program.pruned.metadataEntry? entry.pruned =
      Prod.map id (List.map Node.pruned) <$> program.metadataEntry? entry := by
  unfold metadataEntry?
  simp only [Node.kind_pruned, pairKey?_pruned, Node.child?_pruned, Node.text_pruned,
    shorthandElements_pruned]
  split
  · cases (pairKey? entry).bind MetadataKey.ofName? with
    | none => rfl
    | some key => cases entry.child? .value <;> simp
  · cases MetadataKey.ofName? entry.text <;> rfl
  · rfl

namespace Prunable

/-- The classes of one list of the metadata. -/
theorem listedClasses_pruned (prunable : program.Prunable) {object : Node}
    (has : program.HasNode object) (key : MetadataKey) :
    program.pruned.listedClasses object.pruned key =
      (program.listedClasses object key).map Decl.pruned := by
  have entries : object.pruned.namedChildren.filterMap program.pruned.metadataEntry? =
      (object.namedChildren.filterMap program.metadataEntry?).map
        (Prod.map id (List.map Node.pruned)) := by
    rw [Node.namedChildren_pruned]
    exact filterMap_map_of fun entry _ => metadataEntry?_pruned entry
  have elements : ∀ listed : List (MetadataKey × List Node),
      ((listed.map (Prod.map id (List.map Node.pruned))).filter fun entry =>
          entry.1 = key).flatMap Prod.snd =
        ((listed.filter fun entry => entry.1 = key).flatMap Prod.snd).map Node.pruned := by
    intro listed
    rw [List.filter_map]
    exact flatMap_map_of fun _ _ => rfl
  unfold listedClasses
  dsimp only
  rw [entries, elements, ← Decl.keepFirst_pruned]
  refine congrArg (Keyed.keepFirst Decl.id) (filterMap_map_of fun element present => ?_)
  obtain ⟨listed, memListed, inside⟩ := List.mem_flatMap.mp present
  obtain ⟨entry, memEntry, found⟩ := List.mem_filterMap.mp (List.mem_filter.mp memListed).1
  exact (prunable.prunes_level fullBudget).reference element
    (prunable.hasNode_of_mem_metadata (has.of_mem_namedChildren memEntry) found inside)

/-- The classes that a module lists. -/
theorem moduleMetadata_pruned (prunable : program.Prunable) {decl : Decl}
    (declared : decl ∈ program.index.decls) :
    program.pruned.moduleMetadata conventions decl.pruned =
      (program.moduleMetadata conventions decl).pruned := by
  unfold moduleMetadata
  rw [metadataObject?_pruned]
  cases found : metadataObject? conventions decl with
  | none => rfl
  | some object =>
    have has := prunable.hasNode_of_metadataObject? declared found
    simp only [Option.map_some, prunable.listedClasses_pruned has, ModuleMetadata.pruned]

/-- The modules that a module imports. -/
theorem importedModules_pruned (prunable : program.Prunable) {decl : Decl}
    (declared : decl ∈ program.index.decls) :
    program.pruned.importedModules conventions decl.pruned =
      (program.importedModules conventions decl).map Decl.pruned := by
  rw [importedModules, prunable.moduleMetadata_pruned conventions declared, importedModules,
    ModuleMetadata.pruned, List.filter_map]
  simp [Function.comp_def]

/-- The classes that a module contains. -/
theorem containedClasses_pruned (prunable : program.Prunable) {decl : Decl}
    (declared : decl ∈ program.index.decls) :
    program.pruned.containedClasses conventions decl.pruned =
      (program.containedClasses conventions decl).map Decl.pruned := by
  rw [containedClasses, prunable.moduleMetadata_pruned conventions declared, containedClasses,
    ModuleMetadata.pruned, ← List.map_append, List.filter_map]
  simp [Function.comp_def]

/-! ### Injection -/

/-- The class that a parameter of a constructor is injected with. -/
theorem parameterClass?_pruned (prunable : program.Prunable) {parameter : Node}
    (has : program.HasNode parameter) :
    program.pruned.parameterClass? conventions parameter.pruned =
      (program.parameterClass? conventions parameter).map Decl.pruned := by
  have token : tokenDecorator? conventions parameter.pruned =
      (tokenDecorator? conventions parameter).map Node.pruned := by
    rw [tokenDecorator?, Node.decorators_pruned]
    exact find?_map_of fun decorator _ => by rw [Node.decoratorName?_pruned]
  have answers := prunable.prunes_level fullBudget
  unfold parameterClass?
  rw [token]
  cases isToken : tokenDecorator? conventions parameter with
  | some decorator =>
    have hasDecorator := has.of_mem_decorators (List.mem_of_find?_eq_some isToken)
    simp only [Option.map_some, Node.decoratorArguments_pruned, List.head?_map]
    cases isArgument : decorator.decoratorArguments.head? with
    | none => rfl
    | some argument =>
      exact answers.reference argument
        (hasDecorator.of_mem_decoratorArguments (List.mem_of_head? isArgument))
  | none =>
    rw [Node.child?_pruned]
    cases parameter.child? .type with
    | none => rfl
    | some ascription =>
      have typed : program.pruned.ascribedType ascription.pruned =
          (program.ascribedType ascription).pruned := answers.ascribed ascription
      simp only [Option.map_some, typed]
      cases program.ascribedType ascription <;> rfl

/-- The classes that are injected into a class of the program. -/
theorem dependencies_pruned (prunable : program.Prunable) {decl : Decl}
    (declared : decl ∈ program.index.decls) :
    program.pruned.dependencies conventions decl.pruned =
      (program.dependencies conventions decl).map Decl.pruned := by
  unfold dependencies
  rw [Decl.node_pruned, Node.firstConstructor?_pruned]
  cases found : decl.node.firstConstructor? with
  | none => rfl
  | some constructor =>
    simp only [Option.map_some, Node.parameters_pruned]
    exact filterMap_map_of fun parameter present => prunable.parameterClass?_pruned conventions
      (prunable.hasNode_of_mem_parameters declared found present)

/-! ### The wiring graph -/

/-- The classes of the wiring of modules of the program. -/
theorem wiredClasses_pruned (prunable : program.Prunable) {modules : List Decl}
    (declared : ∀ decl ∈ modules, decl ∈ program.index.decls) :
    program.pruned.wiredClasses conventions (modules.map Decl.pruned) =
      (program.wiredClasses conventions modules).map (Prod.map Decl.pruned id) := by
  have brought : ∀ decl ∈ modules, program.pruned.wiredBy conventions decl.pruned =
      (program.wiredBy conventions decl).map (Prod.map Decl.pruned id) := by
    intro decl listed
    rw [wiredBy, prunable.importedModules_pruned conventions (declared decl listed),
      prunable.containedClasses_pruned conventions (declared decl listed), wiredBy]
    simp [Function.comp_def]
  have all : (modules.map Decl.pruned).map (·, Role.module) ++
        (modules.map Decl.pruned).flatMap (program.pruned.wiredBy conventions) =
      (modules.map (·, Role.module) ++ modules.flatMap (program.wiredBy conventions)).map
        (Prod.map Decl.pruned id) := by
    rw [flatMap_map_of brought]
    simp [Function.comp_def]
  rw [wiredClasses, all]
  exact Keyed.keepFirst_map fun _ _ _ _ => Iff.rfl

theorem moduleEdges_pruned (prunable : program.Prunable) {decl : Decl}
    (declared : decl ∈ program.index.decls) :
    program.pruned.moduleEdges conventions decl.pruned =
      program.moduleEdges conventions decl := by
  rw [moduleEdges, prunable.importedModules_pruned conventions declared,
    prunable.containedClasses_pruned conventions declared, List.map_map, List.map_map]
  rfl

/-- The injections of a class, in order. -/
theorem injectionEdges_pruned (prunable : program.Prunable) (classes : List Wired) {decl : Decl}
    (declared : decl ∈ program.index.decls) :
    program.pruned.injectionEdges conventions (classes.map (Prod.map Decl.pruned id)) decl.pruned =
      program.injectionEdges conventions classes decl := by
  rw [injectionEdges, prunable.dependencies_pruned conventions declared, List.filter_map,
    List.map_map, injectionEdges]
  simp only [List.any_map]
  rfl

/-- The wiring graph of files. -/
theorem wiringGraph_pruned (prunable : program.Prunable) (files : List SourceFile) :
    program.pruned.wiringGraph conventions files = program.wiringGraph conventions files := by
  have areModules := prunable.areModules_modulesIn conventions files
  have declared : ∀ decl ∈ program.modulesIn conventions files, decl ∈ program.index.decls :=
    fun decl listed => (areModules.classes decl listed).declared
  have classes := prunable.wiredClasses_pruned conventions declared
  have receivers : ((program.wiredClasses conventions
        (program.modulesIn conventions files)).map (Prod.map Decl.pruned id)).filter
          (fun wired => wired.2 ≠ .module) =
      ((program.wiredClasses conventions (program.modulesIn conventions files)).filter
        fun wired => wired.2 ≠ .module).map (Prod.map Decl.pruned id) := by
    rw [List.filter_map]
    rfl
  have edges : program.pruned.wiringEdges conventions
        ((program.modulesIn conventions files).map Decl.pruned) =
      program.wiringEdges conventions (program.modulesIn conventions files) := by
    unfold wiringEdges
    dsimp only
    rw [classes, receivers, List.map_map, List.flatMap_map, List.flatMap_map, List.flatMap_map]
    refine congrArg₂ (· ++ ·) ?_ ?_
    · exact List.flatMap_congr fun decl listed =>
        prunable.moduleEdges_pruned conventions (declared decl listed)
    · refine List.flatMap_congr fun wired present => ?_
      have reached := (List.mem_filter.mp present).1
      have wires := ((prunable.mem_wiredClasses_iff areModules).mp reached).1
      exact prunable.injectionEdges_pruned conventions _
        (prunable.declaresClass_of_wires areModules wires).declared
  rw [wiringGraph, modulesIn_pruned, classes, edges, wiringGraph, List.map_map]
  rfl

end Prunable

end Program

end CodeGraph
