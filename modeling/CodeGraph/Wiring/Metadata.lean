import CodeGraph.Callable

/-!
# Module metadata

A module class lists its imports, controllers and providers in the object handed to its decorator.

## Main Definitions

* `ModuleMetadata`: the classes that a module lists.
* `Program.moduleMetadata`: the metadata of a class.
-/

namespace CodeGraph

/-- The lists of a module. -/
inductive MetadataKey where
  | imports
  | controllers
  /-- What a module provides to itself or to others. -/
  | providers
  deriving DecidableEq, Repr

/-- The list that a key of the metadata object stands for. -/
def MetadataKey.ofName? (name : String) : Option MetadataKey :=
  if name = "imports" then some .imports
  else if name = "controllers" then some .controllers
  else if name = "providers" ∨ name = "exports" then some .providers
  else none

/-- The classes that a module lists, each once, in source order. -/
structure ModuleMetadata where
  /-- Modules it imports. -/
  imports : List Decl := []
  /-- Controllers it declares. -/
  controllers : List Decl := []
  /-- Providers it declares or exports. -/
  providers : List Decl := []

/-- Whether a module lists no class. -/
def ModuleMetadata.isEmpty (metadata : ModuleMetadata) : Bool :=
  metadata.imports.isEmpty && metadata.controllers.isEmpty && metadata.providers.isEmpty

/-- The elements of a list in metadata: the items of an array, spreads left out, or a single
reference. -/
def Node.listElements (value : Node) : List Node :=
  let value := value.unwrap
  if value.kind = .array then
    value.namedChildren.filter fun element => element.kind ≠ .spreadElement
  else [value]

namespace Program

/-- The object handed to the decorator that makes a class a module. -/
def metadataObject? (conventions : Conventions) (decl : Decl) : Option Node := do
  let decorator ← decl.node.decorators.find? fun decorator =>
    decorator.decoratorName?.any conventions.moduleNames.contains
  let argument := (← decorator.decoratorArguments.head?).unwrap
  if argument.kind = .object then some argument else none

/-- The elements of a list that is given by the name of a variable. -/
def shorthandElements (program : Program) (entry : Node) : List Node :=
  match ((program.lookup? entry entry.text).bind program.resolveAlias?).bind variableNode? with
  | some declarator => ((declarator.child? .value).map Node.listElements).getD []
  | none => []

/-- The elements that an entry of the metadata object adds to a list. -/
def metadataEntry? (program : Program) (entry : Node) : Option (MetadataKey × List Node) :=
  match entry.kind with
  | .pair => do
    let key ← (pairKey? entry).bind MetadataKey.ofName?
    return (key, (← entry.child? .value).listElements)
  | .shorthandPropertyIdentifier => do
    let key ← MetadataKey.ofName? entry.text
    return (key, program.shorthandElements entry)
  | _ => none

/-- The classes of one list of the metadata object. -/
def listedClasses (program : Program) (object : Node) (key : MetadataKey) : List Decl :=
  let entries := object.namedChildren.filterMap program.metadataEntry?
  let elements := (entries.filter fun entry => entry.1 = key).flatMap Prod.snd
  Keyed.keepFirst Decl.id (elements.filterMap program.classReference?)

/-- The classes that a module lists. -/
def moduleMetadata (program : Program) (conventions : Conventions) (decl : Decl) :
    ModuleMetadata :=
  match metadataObject? conventions decl with
  | none => {}
  | some object =>
    { imports := program.listedClasses object .imports
      controllers := program.listedClasses object .controllers
      providers := program.listedClasses object .providers }

end Program

end CodeGraph
