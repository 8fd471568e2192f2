import CodeGraph.Proofs.Comment.Index
import CodeGraph.Resolve.Answers

/-!
# Names in files without comments

A name is looked up in the blocks around its place and in the tables of the index, and an imported
name is followed from file to file. All of this gives the same declaration, file or binder when the
comments are gone.

## Main Definitions

* `Program.pruned`: a program with the trees that are left.
* `Symbol.pruned`, `Ty.pruned`: what names and expressions denote in these trees.

## Main Statements

* `Program.lookup?_pruned`: what a name denotes at a place.
* `Program.exportSymbol?_pruned`, `Program.resolveAlias?_pruned`: what files export and what imports
  stand for.
* `Program.literalKey?_pruned`: the keys of element accesses.
-/

namespace CodeGraph

/-- What a name or an expression denotes in the trees that are left. -/
def Symbol.pruned : Symbol → Symbol
  | .decl declared => .decl declared.pruned
  | .imported link => .imported link
  | .module file => .module file
  | .binder node => .binder node.pruned

/-- The type of an expression in the trees that are left. -/
def Ty.pruned : Ty → Ty
  | .instanceOf declared => .instanceOf declared.pruned
  | .classItself declared => .classItself declared.pruned
  | .module file => .module file
  | .object node => .object node.pruned
  | .unknown => .unknown

@[simp]
theorem Ty.pruned_unknown : unknown.pruned = unknown := rfl

@[simp]
theorem Ty.isUnknown_pruned (type : Ty) : type.pruned.isUnknown = type.isUnknown := by
  cases type <;> rfl

/-- Which of two types counts does not depend on comments. -/
@[simp]
theorem Ty.pruned_orElse (first second : Ty) :
    (first.orElse second).pruned = first.pruned.orElse second.pruned := by
  rw [orElse, orElse, isUnknown_pruned]
  split <;> rfl

/-! ### Modules -/

/-- The files of a program with the trees that are left. -/
def Model.pruned (model : Model) : Model :=
  { model with files := model.files.map ModelFile.pruned }

namespace Model

variable (model : Model)

/-- Files are found by their paths, which are the same. -/
@[simp]
theorem fileWith?_pruned : model.pruned.fileWith? = model.fileWith? := by
  funext path
  rw [fileWith?, pruned, List.find?_map, Option.map_map]
  rfl

@[simp]
theorem fileAt?_pruned : model.pruned.fileAt? = model.fileAt? := by
  funext path
  rw [fileAt?, fileWith?_pruned, fileAt?]

@[simp]
theorem firstCandidate?_pruned : model.pruned.firstCandidate? = model.firstCandidate? := by
  funext base
  rw [firstCandidate?, fileWith?_pruned, firstCandidate?]

/-- So a specifier leads to the same file. -/
@[simp]
theorem resolveModule?_pruned : model.pruned.resolveModule? = model.resolveModule? := by
  funext importer specifier
  rw [resolveModule?, firstCandidate?_pruned]
  rfl

end Model

namespace Program

/-- A program with the trees that are left. -/
def pruned (program : Program) : Program := ⟨program.model.pruned, program.index.pruned⟩

/-- The program of files whose comments are gone. -/
theorem ofModel_pruned (model : Model) : ofModel model.pruned = (ofModel model).pruned :=
  congrArg (Program.mk model.pruned) (Index.build_pruned model.files)

variable (program : Program)

@[simp]
theorem model_pruned : program.pruned.model = program.model.pruned := rfl

/-! ### Looking up in the index -/

/-- The tables of a file are what is left of its tables. -/
@[simp]
theorem scopeOf_pruned (file : SourceFile) :
    program.pruned.scopeOf file = (program.scopeOf file).pruned := by
  have found : (program.index.scopes.map FileScope.pruned).find?
        (fun scope => scope.file.id = file.id) =
      (program.index.scopes.find? fun scope => scope.file.id = file.id).map FileScope.pruned :=
    find?_map_of fun _ _ => rfl
  rw [scopeOf, show program.pruned.index.scopes = program.index.scopes.map FileScope.pruned from rfl,
    found, scopeOf]
  cases program.index.scopes.find? fun scope => scope.file.id = file.id <;> rfl

/-- The members of a class are what is left of its members. -/
@[simp]
theorem membersOf_pruned (owner : DeclId) :
    program.pruned.membersOf owner = (program.membersOf owner).map Decl.pruned :=
  program.index.membersOf_pruned owner

/-- A name of a file stands for what is left of what it stood for. -/
theorem bindingSymbol?_pruned (scope : FileScope) (name : String) :
    (Keyed.get? scope.pruned.bindings name).map Binding.symbol =
      ((Keyed.get? scope.bindings name).map Binding.symbol).map Symbol.pruned := by
  rw [FileScope.pruned, Keyed.get?_mapValues, Option.map_map, Option.map_map]
  refine congrArg (Option.map · _) (funext fun binding => ?_)
  cases binding <;> rfl

/-- What a name denotes at a place. -/
@[simp]
theorem lookup?_pruned (place : Node) (name : String) :
    program.pruned.lookup? place.pruned name =
      (program.lookup? place name).map Symbol.pruned := by
  have around : (place.enclosing.map Node.pruned).findSome? (Node.binderIn? name) =
      (place.enclosing.findSome? (Node.binderIn? name)).map Node.pruned :=
    findSome?_map_of fun scope _ => scope.binderIn?_pruned name
  unfold lookup?
  rw [Node.enclosing_pruned, around, Node.source_pruned, scopeOf_pruned]
  cases place.enclosing.findSome? (Node.binderIn? name) with
  | some node => rfl
  | none => exact bindingSymbol?_pruned (program.scopeOf place.source) name

@[simp]
theorem resolveIdentifier?_pruned (identifier : Node) :
    program.pruned.resolveIdentifier? identifier.pruned =
      (program.resolveIdentifier? identifier).map Symbol.pruned := by
  rw [resolveIdentifier?, lookup?_pruned, Node.text_pruned, resolveIdentifier?]

/-! ### Exports -/

/-- So does an export. -/
@[simp]
theorem targetSymbol?_pruned (scope : FileScope) (target : ExportTarget) :
    targetSymbol? scope.pruned target.pruned =
      (targetSymbol? scope target).map Symbol.pruned := by
  cases target with
  | name own => exact bindingSymbol?_pruned scope own
  | decl declared => rfl
  | reexport link => rfl

/-- The files that a file exports again are found by specifiers. -/
@[simp]
theorem starFiles_pruned (file : SourceFile) :
    program.pruned.starFiles file = program.starFiles file := by
  rw [starFiles, scopeOf_pruned, model_pruned, Model.resolveModule?_pruned]
  rfl

/-- The search goes through the same files in the same order, and each table answers alike. -/
theorem searchExport?_pruned (name : String) (unvisited : List FileId)
    (pending : List SourceFile) :
    program.pruned.searchExport? name unvisited pending =
      (program.searchExport? name unvisited pending).map Symbol.pruned := by
  have exports : ∀ file, Keyed.get? (program.pruned.scopeOf file).exports name =
      (Keyed.get? (program.scopeOf file).exports name).map ExportTarget.pruned := by
    intro file
    rw [scopeOf_pruned, FileScope.pruned, Keyed.get?_mapValues]
  fun_induction program.searchExport? name unvisited pending with
  | case1 => rw [searchExport?]; rfl
  | case2 unvisited file pending fresh _ target listed symbol gives =>
    rw [searchExport?, dif_pos fresh, exports]
    simp [listed, gives]
  | case3 unvisited file pending fresh _ target listed gives inductionHypothesis =>
    rw [searchExport?, dif_pos fresh, exports]
    simp [listed, gives, inductionHypothesis]
  | case4 unvisited file pending fresh _ listed isDefault inductionHypothesis =>
    rw [searchExport?, dif_pos fresh, exports, listed]
    simp only [Option.map_none, if_pos isDefault, inductionHypothesis]
  | case5 unvisited file pending fresh _ listed isNamed inductionHypothesis =>
    rw [searchExport?, dif_pos fresh, exports]
    simp [listed, isNamed, inductionHypothesis]
  | case6 unvisited file pending visited inductionHypothesis =>
    rw [searchExport?, dif_neg visited, inductionHypothesis]

/-- What a file exports under a name. -/
@[simp]
theorem exportSymbol?_pruned (file : SourceFile) (name : String) :
    program.pruned.exportSymbol? file name =
      (program.exportSymbol? file name).map Symbol.pruned := by
  have files : program.pruned.model.files.map (fun file => file.source.id) =
      program.model.files.map fun file => file.source.id := List.map_map
  rw [exportSymbol?, files, searchExport?_pruned, exportSymbol?]

/-! ### Links -/

/-- One link leads to what is left of what it led to. -/
@[simp]
theorem follow?_pruned (link : ImportLink) :
    program.pruned.follow? link = (program.follow? link).map Symbol.pruned := by
  unfold follow?
  rw [model_pruned, Model.resolveModule?_pruned]
  cases program.model.resolveModule? link.file link.specifier with
  | none => rfl
  | some target =>
    simp only [Option.bind_eq_bind, Option.bind_some, exportSymbol?_pruned]
    split <;> rfl

/-- So do several, by induction on the number of looks. -/
theorem followUpTo?_pruned (looks : Nat) (symbol : Symbol) :
    program.pruned.followUpTo? looks symbol.pruned =
      (program.followUpTo? looks symbol).map Symbol.pruned := by
  induction looks generalizing symbol with
  | zero => rfl
  | succ looks inductionHypothesis =>
    cases symbol with
    | imported link =>
      rw [Symbol.pruned, followUpTo?, followUpTo?, follow?_pruned]
      cases program.follow? link with
      | none => rfl
      | some next => exact inductionHypothesis next
    | decl declared => rfl
    | module file => rfl
    | binder node => rfl

/-- What a symbol stands for after all links. -/
@[simp]
theorem resolveAlias?_pruned (symbol : Symbol) :
    program.pruned.resolveAlias? symbol.pruned =
      (program.resolveAlias? symbol).map Symbol.pruned :=
  program.followUpTo?_pruned aliasLimit symbol

/-- The form in which readings follow links. -/
@[simp]
theorem bind_resolveAlias?_pruned (symbol : Option Symbol) :
    (symbol.map Symbol.pruned).bind program.pruned.resolveAlias? =
      (symbol.bind program.resolveAlias?).map Symbol.pruned := by
  cases symbol <;> simp

/-! ### Keys of element accesses -/

@[simp]
theorem variableNode?_pruned (symbol : Symbol) :
    variableNode? symbol.pruned = (variableNode? symbol).map Node.pruned := by
  cases symbol with
  | decl declared => by_cases isVariable : declared.kind = .variable <;>
      simp [Symbol.pruned, variableNode?, isVariable]
  | binder node => by_cases isDeclarator : node.kind = .variableDeclarator <;>
      simp [Symbol.pruned, variableNode?, isDeclarator]
  | imported link => rfl
  | module file => rfl

@[simp]
theorem literalText?_pruned (value : Node) : literalText? value.pruned = literalText? value := by
  simp [literalText?]

/-- The key of an element access. -/
@[simp]
theorem literalKey?_pruned (index : Node) :
    program.pruned.literalKey? index.pruned = program.literalKey? index := by
  unfold literalKey?
  simp only [Node.unwrap_pruned, Node.literal?_pruned, Node.kind_pruned,
    resolveIdentifier?_pruned, bind_resolveAlias?_pruned]
  split
  · rfl
  · split
    · cases (program.resolveIdentifier? index.unwrap).bind program.resolveAlias? with
      | none => rfl
      | some symbol =>
        simp only [Option.map_some, Option.bind_eq_bind, Option.bind_some, variableNode?_pruned]
        cases variableNode? symbol with
        | none => rfl
        | some declarator =>
          cases found : declarator.child? .value <;> simp [found]
    · rfl

end Program

end CodeGraph
