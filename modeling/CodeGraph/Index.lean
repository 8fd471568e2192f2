import CodeGraph.Keyed
import CodeGraph.Model
import CodeGraph.Outline

/-!
# The index of declarations

All declarations and imports of a program are numbered in the order in which the files declare them,
a class before its members. For each file there is a table of the names it binds and one of the
names it exports; two more tables lead from a class to its members and from a place to what it
declares.

## Main Definitions

* `FileScope`: the top-level names of a file.
* `Index`: all declarations, imports and file scopes.
* `Index.addFile`, `Index.build`: the index of files.
* `Program`: the files with their index.
* `Program.declAt?`, `Program.membersOf`, `Program.scopeOf`: looking things up.
-/

namespace CodeGraph

/-- What a top-level name of a file is bound to. -/
inductive Binding where
  | decl (decl : Decl)
  | imported (link : ImportLink)

/-- What an exported name stands for. -/
inductive ExportTarget where
  /-- A top-level name of the file. -/
  | name (name : String)
  /-- A declaration without a name of its own in the file. -/
  | decl (decl : Decl)
  /-- A name of another module. -/
  | reexport (link : ImportLink)

/-- The top-level names of a file. -/
structure FileScope where
  /-- The file. -/
  file : SourceFile
  /-- The names bound at top level; of two bindings of a name the later counts. -/
  bindings : Keyed.Table String Binding := []
  /-- The exported names; of two exports of a name the later counts. -/
  exports : Keyed.Table String ExportTarget := []
  /-- The specifiers of modules whose names are all exported again. -/
  starExports : List String := []
  /-- The top-level declarations, in source order. -/
  topLevel : List Decl := []

/-- All declarations and imports by number, the scopes of the files, and the tables by which
declarations are found. -/
structure Index where
  /-- The declarations. -/
  decls : List Decl := []
  /-- The imports. -/
  imports : List ImportLink := []
  /-- The scopes, in the order of the files. -/
  scopes : List FileScope := []
  /-- The members of each class that has some, in source order. -/
  members : Keyed.Table DeclId (List Decl) := []
  /-- The declarations by the places that declare them. -/
  places : Keyed.Table (FileId × List Nat) Decl := []

/-! ### Numbering -/

/-- The declaration of a draft. -/
def Draft.decl (draft : Draft) (id : Nat) : Decl where
  id := ⟨id⟩
  kind := draft.kind
  name := draft.name
  node := draft.node
  container := none
  isStatic := false

/-- The declaration of a class member. -/
def MemberDraft.decl (draft : MemberDraft) (owner id : Nat) : Decl where
  id := ⟨id⟩
  kind := draft.kind
  name := draft.name
  node := draft.node
  container := some ⟨owner⟩
  isStatic := draft.node.isStatic

namespace Index

/-- The next number for a declaration. -/
def nextDecl (index : Index) : Nat := index.decls.length

/-- The members of a class, in source order. -/
def membersOf (index : Index) (owner : DeclId) : List Decl :=
  (Keyed.get? index.members owner).getD []

/-- The members of all classes with one declaration more, which counts when it has a class. -/
def membersWith (index : Index) (decl : Decl) : Keyed.Table DeclId (List Decl) :=
  match decl.container with
  | some owner => Keyed.put index.members owner (index.membersOf owner ++ [decl])
  | none => index.members

/-- Adds a declaration to all tables. -/
def push (index : Index) (decl : Decl) : Index :=
  { index with
    decls := index.decls ++ [decl]
    members := index.membersWith decl
    places := Keyed.put index.places decl.node.place decl }

/-- Adds a member of a class under the next number. -/
def pushMember (owner : Nat) (index : Index) (member : MemberDraft) : Index :=
  index.push (member.decl owner index.nextDecl)

end Index

/-- The index and the scope of a file while the items of the file are added. -/
structure IndexStep where
  /-- The index so far. -/
  index : Index
  /-- The scope of the file so far. -/
  scope : FileScope

namespace IndexStep

/-- The declaration that a draft becomes. -/
def declOf (step : IndexStep) (draft : Draft) : Decl := draft.decl step.index.nextDecl

/-- Adds the declarations of a draft: the declaration, then its members. -/
def declare (step : IndexStep) (draft : Draft) : IndexStep where
  index := draft.members.foldl (Index.pushMember step.index.nextDecl)
    (step.index.push (step.declOf draft))
  scope := { step.scope with topLevel := step.scope.topLevel ++ [step.declOf draft] }

/-- Binds a name. -/
def bind (step : IndexStep) (name : String) (binding : Binding) : IndexStep :=
  { step with scope := { step.scope with bindings := Keyed.put step.scope.bindings name binding } }

/-- Exports a name. -/
def exportAs (step : IndexStep) (name : String) (target : ExportTarget) : IndexStep :=
  { step with scope := { step.scope with exports := Keyed.put step.scope.exports name target } }

/-- The import that a link to another module becomes. -/
def linkOf (step : IndexStep) (specifier : String) (imported : Imported) : ImportLink :=
  ⟨⟨step.index.imports.length⟩, step.scope.file, specifier, imported⟩

/-- Adds an import. -/
def link (step : IndexStep) (specifier : String) (imported : Imported) : IndexStep :=
  { step with
    index := { step.index with
      imports := step.index.imports ++ [step.linkOf specifier imported] } }

/-- Adds one item. -/
def add (step : IndexStep) : Item → IndexStep
  | .declare draft => (step.declare draft).bind draft.name (.decl (step.declOf draft))
  | .declareDefault draft => (step.declare draft).exportAs "default" (.decl (step.declOf draft))
  | .bindImport name specifier imported =>
    (step.link specifier imported).bind name (.imported (step.linkOf specifier imported))
  | .exportName name target => step.exportAs name (.name target)
  | .exportFrom name specifier imported =>
    (step.link specifier imported).exportAs name (.reexport (step.linkOf specifier imported))
  | .exportAll specifier =>
    { step with
      scope := { step.scope with starExports := step.scope.starExports ++ [specifier] } }

/-- Closes the file: its scope joins the scopes of the index. -/
def close (step : IndexStep) : Index :=
  { step.index with scopes := step.index.scopes ++ [step.scope] }

end IndexStep

namespace Index

/-- Adds a file. -/
def addFile (index : Index) (file : ModelFile) : Index :=
  (file.root.fileItems.foldl IndexStep.add ⟨index, { file := file.source }⟩).close

/-- The index of files, in their order. -/
def build (files : List ModelFile) : Index := files.foldl addFile {}

end Index

/-! ### Programs -/

/-- The files of a program and the index of their declarations. -/
structure Program where
  /-- The files. -/
  model : Model
  /-- The declarations. -/
  index : Index

namespace Program

/-- The program of a model. -/
def ofModel (model : Model) : Program := ⟨model, Index.build model.files⟩

/-- The scope of a file. -/
def scopeOf (program : Program) (file : SourceFile) : FileScope :=
  (program.index.scopes.find? fun scope => scope.file.id = file.id).getD { file }

/-- The declaration that a node declares. -/
def declAt? (program : Program) (node : Node) : Option Decl :=
  Keyed.get? program.index.places node.place

/-- The members of a class, in source order. -/
def membersOf (program : Program) (owner : DeclId) : List Decl :=
  program.index.membersOf owner

end Program

end CodeGraph
