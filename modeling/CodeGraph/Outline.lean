import CodeGraph.Declaration
import CodeGraph.Tree.Pattern

/-!
# What a file declares

The statements of a file are read, one after the other, into a list of things the file declares,
imports and exports. Numbering them is left to the index.

## Main Definitions

* `Draft`: a declaration that has no number yet.
* `Item`: something that a statement adds to its file.
* `Node.outline`: what a statement adds.
-/

namespace CodeGraph

/-- A class member that has no number yet. -/
structure MemberDraft where
  /-- What it declares. -/
  kind : DeclKind
  /-- The declared name. -/
  name : String
  /-- The node that declares it. -/
  node : Node

/-- A top-level declaration that has no number yet. -/
structure Draft where
  /-- What it declares. -/
  kind : DeclKind
  /-- The declared name. -/
  name : String
  /-- The node that declares it. -/
  node : Node
  /-- The members of a class, in source order. -/
  members : List MemberDraft := []

/-- What a statement adds to its file. -/
inductive Item where
  /-- A declaration under its name. -/
  | declare (draft : Draft)
  /-- A declaration that is only reached as the default export. -/
  | declareDefault (draft : Draft)
  /-- A name taken from another module. -/
  | bindImport (name specifier : String) (imported : Imported)
  /-- A name of the file, exported under the same or another name. -/
  | exportName (name target : String)
  /-- A name of another module, exported again. -/
  | exportFrom (name specifier : String) (imported : Imported)
  /-- All names of another module, exported again. -/
  | exportAll (specifier : String)

/-- What a statement adds, and the names it declares. -/
structure Outline where
  /-- What is added, in order. -/
  items : List Item := []
  /-- The names that an export around the statement would export. -/
  names : List String := []

namespace Outline

/-- The outline of declarations under their names. -/
def ofDrafts (drafts : List Draft) : Outline :=
  ⟨drafts.map Item.declare, drafts.map Draft.name⟩

end Outline

namespace Node

/-! ### Classes -/

/-- The name of a class member: by its name field, or, for a field, by its property field. -/
def memberDraftName? (member : Node) : Option String :=
  (member.child? .name).bind memberName?

/-- The field that a parameter of a constructor declares: it has a modifier and a plain name. -/
def propertyDraft? (parameter : Node) : Option MemberDraft :=
  if parameter.hasChild .accessibilityModifier || parameter.hasChild .readonlyWord
      || parameter.hasChild .overrideModifier then
    match parameter.parameterPattern? with
    | some pattern =>
      if pattern.kind = .identifier then some ⟨.property, pattern.text, parameter⟩ else none
    | none => none
  else none

/-- The fields that the parameters of a constructor declare. -/
def parameterProperties (constructor : Node) : List MemberDraft :=
  constructor.parameters.filterMap propertyDraft?

/-- The members that a part of a class body declares. The constructor declares the fields among its
parameters and is no member itself. -/
def memberDrafts (member : Node) : List MemberDraft :=
  match member.kind with
  | .methodDefinition =>
    match member.memberDraftName? with
    | none => []
    | some name =>
      if name = "constructor" ∧ !member.isStatic then member.parameterProperties
      else if member.hasChild .getWord || member.hasChild .setWord then
        [⟨.accessor, name, member⟩]
      else [⟨.method, name, member⟩]
  | .publicFieldDefinition | .fieldDefinition =>
    match member.memberDraftName? <|> (member.child? .property).bind memberName? with
    | some name => [⟨.property, name, member⟩]
    | none => []
  | _ => []

/-- A class with its members. -/
def classDraft (node : Node) (name : String) : Draft where
  kind := .classType
  name := name
  node := node
  members := match node.child? .body with
    | some body => body.namedChildren.flatMap memberDrafts
    | none => []

/-! ### Other declarations -/

/-- A declaration that is named by its name field. -/
def namedDraft? (node : Node) (kind : DeclKind) : Option Draft :=
  (node.child? .name).map fun name => { kind, name := name.text, node }

/-- The variable that a declarator declares. Patterns declare no variable that could be called or
typed. -/
def variableDraft? (declarator : Node) : Option Draft :=
  if declarator.kind = .variableDeclarator then
    match declarator.child? .name with
    | some name =>
      if name.kind = .identifier then
        some { kind := .variable, name := name.text, node := declarator }
      else none
    | none => none
  else none

/-- The variables of a declaration. -/
def variableDrafts (statement : Node) : List Draft :=
  statement.namedChildren.filterMap variableDraft?

/-! ### Imports -/

/-- The specifier of an import or export from another module. -/
def specifier? (statement : Node) : Option String :=
  (statement.child? .source).map fun source => unquote source.text

/-- The name taken by one part of `import { a, b as c }`. -/
def importSpecifier? (specifier : String) (part : Node) : Option Item :=
  if part.kind = .importSpecifier then do
    let name ← (part.child? .name).bind memberName?
    let bound := ((part.child? .alias).map text).getD name
    return .bindImport bound specifier (Imported.ofName name)
  else none

/-- The names taken by the clause of an import. -/
def importClause (specifier : String) (clause : Node) : List Item :=
  clause.namedChildren.flatMap fun part =>
    match part.kind with
    | .identifier => [.bindImport part.text specifier .default]
    | .namespaceImport =>
      part.firstNamed?.toList.map fun name => .bindImport name.text specifier .whole
    | .namedImports => part.namedChildren.filterMap (importSpecifier? specifier)
    | _ => []

/-- The names taken by an import statement. -/
def importItems (statement : Node) : List Item :=
  match statement.specifier? with
  | none => []
  | some specifier =>
    statement.namedChildren.flatMap fun child =>
      match child.kind with
      | .importClause => importClause specifier child
      | .importRequireClause =>
        child.firstNamed?.toList.map fun name => .bindImport name.text specifier .whole
      | _ => []

/-! ### Exports -/

/-- What one part of `export { a, b as c }` exports. -/
def exportSpecifier? (specifier : Option String) (part : Node) : Option Item :=
  if part.kind = .exportSpecifier then do
    let name ← (part.child? .name).bind memberName?
    let exported := ((part.child? .alias).bind memberName?).getD name
    return match specifier with
      | some specifier => .exportFrom exported specifier (Imported.ofName name)
      | none => .exportName exported name
  else none

/-- What an export exports that neither declares something nor has a value. -/
def exportClause (statement : Node) : List Item :=
  let clause := statement.namedChildren.find? fun child =>
    child.kind = .exportClause || child.kind = .namespaceExport
  match clause, statement.specifier? with
  | some clause, specifier =>
    if clause.kind = .exportClause then
      clause.namedChildren.filterMap (exportSpecifier? specifier)
    else
      match specifier, clause.firstNamed?.bind memberName? with
      | some specifier, some name => [.exportFrom name specifier .whole]
      | _, _ => []
  | none, some specifier => [.exportAll specifier]
  | none, none => []

/-- What a default export of a value exports: a name of the file, or a function or class without a
binding of its own. -/
def exportValue (value : Node) : List Item :=
  let value := value.unwrap
  let name (fallback : String) := ((value.child? .name).map text).getD fallback
  if value.kind = .identifier then [.exportName "default" value.text]
  else if value.kind.isFunctionValue then
    [.declareDefault { kind := .function, name := name "<anon>", node := value }]
  else if value.kind = .classExpression then [.declareDefault (value.classDraft (name "default"))]
  else []

/-! ### Statements -/

/-- What the declaration below an export exports: every name it declares, and the first also as the
default when the export says so. -/
def exportDeclared (statement : Node) (declared : Outline) : List Item :=
  declared.items ++ declared.names.map (fun name => .exportName name name)
    ++ if statement.hasChild .defaultWord then
        declared.names.head?.toList.map fun name => .exportName "default" name
      else []

/-- What a top-level statement adds to its file. -/
def outline (statement : Node) : Outline :=
  match statement.kind with
  | .functionDeclaration | .generatorFunctionDeclaration =>
    .ofDrafts (statement.namedDraft? .function).toList
  | .classDeclaration | .abstractClassDeclaration =>
    .ofDrafts ((statement.child? .name).map fun name => statement.classDraft name.text).toList
  | .interfaceDeclaration => .ofDrafts (statement.namedDraft? .interface).toList
  | .enumDeclaration => .ofDrafts (statement.namedDraft? .enum).toList
  | .lexicalDeclaration | .variableDeclaration => .ofDrafts statement.variableDrafts
  | .importStatement => ⟨statement.importItems, []⟩
  | .exportStatement =>
    match h : statement.child? .declaration with
    | some declaration =>
      have := size_lt_of_child? h
      ⟨statement.exportDeclared (outline declaration), []⟩
    | none =>
      match statement.child? .value with
      | some value => ⟨value.exportValue, []⟩
      | none => ⟨statement.exportClause, []⟩
  | .ambientDeclaration =>
    match h : statement.firstNamed? with
    | some inner =>
      have := size_lt_of_firstNamed? h
      outline inner
    | none => {}
  | _ => {}
termination_by statement.size

/-- What the statements of a file add to it. -/
def fileItems (root : Node) : List Item :=
  root.namedChildren.flatMap fun statement => statement.outline.items

end Node

end CodeGraph
