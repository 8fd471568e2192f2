import CodeGraph.Wiring.Injection

/-!
# The wiring graph

Modules, the controllers and providers they list, the modules they import, and constructor injection
between these classes.

## Main Definitions

* `Program.modulesIn`: the module classes of some files.
* `Program.moduleNodes`: the graph of modules alone.
* `Program.wiringGraph`: the whole wiring graph.
-/

namespace CodeGraph.Program

/-- Whether a class is a module. -/
def isModule (conventions : Conventions) (decl : Decl) : Bool :=
  Role.isModuleClass conventions decl.classFacts

/-- The module classes of some files, in order. -/
def modulesIn (program : Program) (conventions : Conventions) (files : List SourceFile) :
    List Decl :=
  (program.topLevels files).filter fun decl => decl.isClass && isModule conventions decl

/-- The node of a class. -/
def classNode (decl : Decl) (role : Role) : GraphNode where
  id := Identity.compose decl.file.path decl.name ("class " ++ decl.name)
  label := decl.name
  kind := .classDeclaration
  isAsync := none
  filePath := decl.file.path
  fileKey := decl.file.key
  className := some decl.name
  role := some role

/-- One node for each module of some files, without edges. -/
def moduleNodes (program : Program) (conventions : Conventions) (files : List SourceFile) :
    Graph :=
  Graph.assemble ((program.modulesIn conventions files).map (classNode · .module)) []

/-! ### Classes -/

/-- A class with the role it plays in the wiring. -/
abbrev Wired := Decl × Role

/-- The modules that a module imports. -/
def importedModules (program : Program) (conventions : Conventions) (decl : Decl) : List Decl :=
  (program.moduleMetadata conventions decl).imports.filter (isModule conventions)

/-- The classes that a module contains: its controllers and providers that are no modules. -/
def containedClasses (program : Program) (conventions : Conventions) (decl : Decl) : List Decl :=
  let metadata := program.moduleMetadata conventions decl
  (metadata.controllers ++ metadata.providers).filter fun decl => !isModule conventions decl

/-- The classes that a module brings into the graph. -/
def wiredBy (program : Program) (conventions : Conventions) (decl : Decl) : List Wired :=
  (program.importedModules conventions decl).map (·, .module)
    ++ (program.containedClasses conventions decl).map fun decl =>
      (decl, Role.inWiring conventions decl.node.decoratorNames)

/-- The classes of the wiring graph of some modules, in the order in which they are reached. A class
that is reached again keeps its first role. -/
def wiredClasses (program : Program) (conventions : Conventions) (modules : List Decl) :
    List Wired :=
  Keyed.keepFirst (·.1.id)
    (modules.map (·, .module) ++ modules.flatMap (program.wiredBy conventions))

/-! ### Edges -/

/-- The edge between two classes. -/
def wiringEdge (kind : EdgeKind) (source target : Decl) : GraphEdge where
  source := (classNode source .module).id
  target := (classNode target .module).id
  crossFile := source.file.crosses target.file
  kind := kind

/-- The edges from a module to what it imports and contains. -/
def moduleEdges (program : Program) (conventions : Conventions) (decl : Decl) : List GraphEdge :=
  (program.importedModules conventions decl).map (wiringEdge .imports decl)
    ++ (program.containedClasses conventions decl).map (wiringEdge .contains decl)

/-- The edges from a class to the classes of the graph that are injected into it. -/
def injectionEdges (program : Program) (conventions : Conventions) (classes : List Wired)
    (decl : Decl) : List GraphEdge :=
  ((program.dependencies conventions decl).filter fun dependency =>
    dependency.id ≠ decl.id && classes.any fun wired => wired.1.id = dependency.id).map
      (wiringEdge .injects decl)

/-- The edges between the classes of the wiring graph of some modules, in order, repetitions
included. -/
def wiringEdges (program : Program) (conventions : Conventions) (modules : List Decl) :
    List GraphEdge :=
  let classes := program.wiredClasses conventions modules
  let receivers := (classes.filter fun wired => wired.2 ≠ .module).map Prod.fst
  modules.flatMap (program.moduleEdges conventions)
    ++ receivers.flatMap (program.injectionEdges conventions classes)

/-- The wiring graph of the modules of some files. -/
def wiringGraph (program : Program) (conventions : Conventions) (files : List SourceFile) :
    Graph :=
  let modules := program.modulesIn conventions files
  Graph.assemble
    ((program.wiredClasses conventions modules).map fun wired => classNode wired.1 wired.2)
    (program.wiringEdges conventions modules)

end CodeGraph.Program
