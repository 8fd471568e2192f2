import CodeGraph.Scope

/-!
# Following imports

An imported name stands for a name that another file exports, which may be imported itself.
Following such links leads to a declaration or a whole file, or out of the program.

## Main Definitions

* `Program.exportSymbol?`: what a file exports under a name.
* `Program.resolveAlias?`: what a symbol stands for after all links.

## Design Notes

The files that a file exports again are searched depth first, each file once. The search runs on the
files not yet visited.
-/

namespace CodeGraph.Program

/-! ### Exports -/

/-- What an export stands for, when its name is bound. -/
def targetSymbol? (scope : FileScope) : ExportTarget → Option Symbol
  | .name name => (Keyed.get? scope.bindings name).map Binding.symbol
  | .decl decl => some (.decl decl)
  | .reexport link => some (.imported link)

/-- The files whose names a file exports again, in source order. -/
def starFiles (program : Program) (file : SourceFile) : List SourceFile :=
  (program.scopeOf file).starExports.filterMap (program.model.resolveModule? file)

/-- Searches files for an exported name, each file once. A file that has the name in its own table
decides about itself; for any other file the files it exports again are searched next. A default
export is not exported again. -/
def searchExport? (program : Program) (name : String) :
    (unvisited : List FileId) → (pending : List SourceFile) → Option Symbol
  | _, [] => none
  | unvisited, file :: pending =>
    if h : file.id ∈ unvisited then
      have : (unvisited.erase file.id).length < unvisited.length := by
        rw [List.length_erase_of_mem h]
        have := List.length_pos_of_mem h
        omega
      match Keyed.get? (program.scopeOf file).exports name with
      | some target =>
        match targetSymbol? (program.scopeOf file) target with
        | some symbol => some symbol
        | none => program.searchExport? name (unvisited.erase file.id) pending
      | none =>
        if name = "default" then program.searchExport? name (unvisited.erase file.id) pending
        else
          program.searchExport? name (unvisited.erase file.id) (program.starFiles file ++ pending)
    else program.searchExport? name unvisited pending
termination_by unvisited pending => (unvisited.length, pending.length)

/-- What a file exports under a name; it may be a link to another module. -/
def exportSymbol? (program : Program) (file : SourceFile) (name : String) : Option Symbol :=
  program.searchExport? name (program.model.files.map (·.source.id)) [file]

/-! ### Links -/

/-- What an import stands for after one link. -/
def follow? (program : Program) (link : ImportLink) : Option Symbol := do
  let target ← program.model.resolveModule? link.file link.specifier
  match link.imported with
  | .whole => some (.module target)
  | .default => program.exportSymbol? target "default"
  | .named name => program.exportSymbol? target name

/-- Follows links until a symbol is no import, looking at no more than `looks` symbols. -/
def followUpTo? (program : Program) : (looks : Nat) → Symbol → Option Symbol
  | 0, _ => none
  | looks + 1, .imported link => (program.follow? link).bind (program.followUpTo? looks)
  | _ + 1, symbol => some symbol

/-- The number of symbols looked at before a chain of links is given up. -/
def aliasLimit : Nat := 32

/-- What a symbol stands for after all links; nothing when a link leads out of the program, to a
name that is not exported, or when the chain is too long or goes round. -/
def resolveAlias? (program : Program) (symbol : Symbol) : Option Symbol :=
  program.followUpTo? aliasLimit symbol

/-! ### Keys of element accesses -/

/-- The declarator that a symbol stands for, when it is a variable. -/
def variableNode? : Symbol → Option Node
  | .decl decl => if decl.kind = .variable then some decl.node else none
  | .binder node => if node.kind = .variableDeclarator then some node else none
  | _ => none

/-- The text of a literal text or template. -/
def literalText? (value : Node) : Option String :=
  if value.kind = .string ∨ value.kind = .templateString then value.literal? else none

/-- The key of an element access, when it is known: a literal, or a constant with a literal text. -/
def literalKey? (program : Program) (index : Node) : Option String :=
  let index := index.unwrap
  match index.literal? with
  | some key => some key
  | none =>
    if index.kind = .identifier then do
      let symbol ← (program.resolveIdentifier? index).bind program.resolveAlias?
      let declarator ← variableNode? symbol
      if declarator.isConstDeclarator then
        literalText? (← declarator.child? .value).unwrap
      else none
    else none

end CodeGraph.Program
