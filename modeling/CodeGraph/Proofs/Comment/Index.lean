import CodeGraph.Proofs.Comment.Node

/-!
# The index of files without comments

What a statement declares, imports and exports is the same when the comments are gone, and so is
everything that is numbered and listed in the index: declarations, members, bindings and exports, in
the same order and under the same numbers.

## Main Definitions

* `FileScope.pruned`, `Index.pruned`: the scope of a file and the index, in the trees that are left.
* `ModelFile.pruned`: a file with the tree that is left.

## Main Statements

* `Node.outline_pruned`: what a statement adds to its file.
* `IndexStep.add_pruned`, `Index.build_pruned`: what one item and what all files add to the index.
-/

namespace CodeGraph

/-! ### What files add -/

/-- A class member in the tree that is left. -/
def MemberDraft.pruned (draft : MemberDraft) : MemberDraft :=
  { draft with node := draft.node.pruned }

/-- A declaration in the tree that is left. -/
def Draft.pruned (draft : Draft) : Draft :=
  { draft with node := draft.node.pruned, members := draft.members.map MemberDraft.pruned }

/-- What a statement adds in the tree that is left. -/
def Item.pruned : Item → Item
  | .declare draft => .declare draft.pruned
  | .declareDefault draft => .declareDefault draft.pruned
  | item => item

/-- What a statement adds, and the names it declares, in the tree that is left. -/
def Outline.pruned (outline : Outline) : Outline :=
  { outline with items := outline.items.map Item.pruned }

@[simp]
theorem Outline.pruned_ofDrafts (drafts : List Draft) :
    (ofDrafts drafts).pruned = ofDrafts (drafts.map Draft.pruned) := by
  simp [Outline.pruned, ofDrafts, Function.comp_def, Item.pruned, Draft.pruned]

namespace Node

variable (node : Node)

/-! ### Classes -/

@[simp]
theorem memberDraftName?_pruned : node.pruned.memberDraftName? = node.memberDraftName? := by
  rw [memberDraftName?, child?_pruned]
  exact bind_map_of fun name _ => name.memberName?_pruned

@[simp]
theorem propertyDraft?_pruned :
    node.pruned.propertyDraft? = node.propertyDraft?.map MemberDraft.pruned := by
  unfold propertyDraft?
  rw [hasChild_pruned _ (by decide), hasChild_pruned _ (by decide), hasChild_pruned _ (by decide),
    parameterPattern?_pruned]
  split
  · cases node.parameterPattern? with
    | none => rfl
    | some pattern =>
      by_cases plain : pattern.kind = .identifier <;> simp [plain, MemberDraft.pruned]
  · rfl

@[simp]
theorem parameterProperties_pruned :
    node.pruned.parameterProperties = node.parameterProperties.map MemberDraft.pruned := by
  rw [parameterProperties, parameters_pruned]
  exact filterMap_map_of fun parameter _ => parameter.propertyDraft?_pruned

/-- A class has the same members: comments in its body are no member, and a member is read off parts
that are left. -/
@[simp]
theorem memberDrafts_pruned :
    node.pruned.memberDrafts = node.memberDrafts.map MemberDraft.pruned := by
  have property : (node.pruned.child? .property).bind memberName? =
      (node.child? .property).bind memberName? := by
    rw [child?_pruned]
    exact bind_map_of fun name _ => name.memberName?_pruned
  unfold memberDrafts
  rw [kind_pruned, memberDraftName?_pruned, isStatic_pruned, hasChild_pruned _ (by decide),
    hasChild_pruned _ (by decide), parameterProperties_pruned, property]
  split
  · split
    · rfl
    · split
      · rfl
      · split <;> rfl
  · split <;> rfl
  · split <;> rfl
  · rfl

/-- So the class is drafted with the same members. -/
@[simp]
theorem classDraft_pruned (name : String) :
    node.pruned.classDraft name = (node.classDraft name).pruned := by
  have members : (node.pruned.classDraft name).members =
      (node.classDraft name).members.map MemberDraft.pruned := by
    simp only [classDraft, child?_pruned]
    cases node.child? .body with
    | none => rfl
    | some body =>
      dsimp only [Option.map_some]
      rw [namedChildren_pruned]
      exact flatMap_map_of fun member _ => member.memberDrafts_pruned
  exact congrArg (Draft.mk .classType name node.pruned) members

/-! ### Other declarations -/

@[simp]
theorem namedDraft?_pruned (kind : DeclKind) :
    node.pruned.namedDraft? kind = (node.namedDraft? kind).map Draft.pruned := by
  simp [namedDraft?, Function.comp_def, Draft.pruned]

@[simp]
theorem variableDraft?_pruned :
    node.pruned.variableDraft? = node.variableDraft?.map Draft.pruned := by
  unfold variableDraft?
  rw [kind_pruned, child?_pruned]
  split
  · cases node.child? .name with
    | none => rfl
    | some name => by_cases plain : name.kind = .identifier <;> simp [plain, Draft.pruned]
  · rfl

/-- The declarators of a statement are named children. -/
@[simp]
theorem variableDrafts_pruned :
    node.pruned.variableDrafts = node.variableDrafts.map Draft.pruned := by
  rw [variableDrafts, namedChildren_pruned]
  exact filterMap_map_of fun declarator _ => declarator.variableDraft?_pruned

/-! ### Imports -/

@[simp]
theorem specifier?_pruned : node.pruned.specifier? = node.specifier? := by
  simp [specifier?, Function.comp_def]

/-- An import of one name is read off its two names. -/
@[simp]
theorem importSpecifier?_pruned (specifier : String) :
    node.pruned.importSpecifier? specifier =
      (node.importSpecifier? specifier).map Item.pruned := by
  unfold importSpecifier?
  simp only [kind_pruned, child?_pruned, Option.bind_map, Option.map_map, Function.comp_def,
    memberName?_pruned, text_pruned]
  split
  · cases (node.child? .name).bind fun name => name.memberName? <;> rfl
  · rfl

/-- The import of a module as a whole. -/
theorem wholeImport_pruned (specifier : String) :
    (node.pruned.firstNamed?.toList.map fun name => Item.bindImport name.text specifier .whole) =
      (node.firstNamed?.toList.map fun name =>
        Item.bindImport name.text specifier .whole).map Item.pruned := by
  rw [firstNamed?_pruned]
  cases node.firstNamed? <;> simp [Item.pruned]

/-- The imports of a clause, in order. -/
theorem importClause_pruned (specifier : String) :
    node.pruned.importClause specifier = (node.importClause specifier).map Item.pruned := by
  rw [importClause, namedChildren_pruned]
  refine flatMap_map_of fun part _ => ?_
  rw [kind_pruned]
  split
  · rw [text_pruned]
    rfl
  · exact part.wholeImport_pruned specifier
  · rw [namedChildren_pruned]
    exact filterMap_map_of fun name _ => name.importSpecifier?_pruned specifier
  · rfl

theorem importItems_pruned : node.pruned.importItems = node.importItems.map Item.pruned := by
  unfold importItems
  rw [specifier?_pruned]
  split
  · rfl
  · next specifier _ =>
    rw [namedChildren_pruned]
    refine flatMap_map_of fun child _ => ?_
    rw [kind_pruned]
    split
    · exact child.importClause_pruned specifier
    · exact child.wholeImport_pruned specifier
    · rfl

/-! ### Exports -/

@[simp]
theorem exportSpecifier?_pruned (specifier : Option String) :
    node.pruned.exportSpecifier? specifier =
      (node.exportSpecifier? specifier).map Item.pruned := by
  unfold exportSpecifier?
  simp only [kind_pruned, child?_pruned, Option.bind_map, Function.comp_def, memberName?_pruned]
  split
  · cases (node.child? .name).bind fun name => name.memberName? with
    | none => rfl
    | some name => cases specifier <;> rfl
  · rfl

theorem exportClause_pruned : node.pruned.exportClause = node.exportClause.map Item.pruned := by
  have clause : (node.pruned.namedChildren.find? fun child =>
      child.kind = .exportClause || child.kind = .namespaceExport) =
        (node.namedChildren.find? fun child =>
          child.kind = .exportClause || child.kind = .namespaceExport).map pruned := by
    rw [namedChildren_pruned]
    exact find?_map_of fun child _ => by rw [kind_pruned]
  unfold exportClause
  rw [clause, specifier?_pruned]
  cases node.namedChildren.find? fun child =>
      child.kind = .exportClause || child.kind = .namespaceExport with
  | none => cases node.specifier? <;> rfl
  | some clause =>
    have named : clause.pruned.firstNamed?.bind memberName? =
        clause.firstNamed?.bind memberName? := by
      rw [firstNamed?_pruned]
      exact bind_map_of fun name _ => name.memberName?_pruned
    simp only [Option.map_some, kind_pruned, named]
    split
    · rw [namedChildren_pruned]
      exact filterMap_map_of fun part _ => part.exportSpecifier?_pruned node.specifier?
    · split <;> rfl

/-- A default export of a value. -/
theorem exportValue_pruned : node.pruned.exportValue = node.exportValue.map Item.pruned := by
  unfold exportValue
  rw [unwrap_pruned]
  generalize node.unwrap = value
  have name : ((value.pruned.child? .name).map text) = (value.child? .name).map text := by
    simp [Function.comp_def]
  simp only [kind_pruned, text_pruned, name, classDraft_pruned]
  split
  · rfl
  · split
    · rfl
    · split <;> rfl

/-! ### Statements -/

/-- What an export of a declaration adds to what the declaration adds. -/
theorem exportDeclared_pruned (declared : Outline) :
    node.pruned.exportDeclared declared.pruned =
      (node.exportDeclared declared).map Item.pruned := by
  unfold exportDeclared
  rw [hasChild_pruned _ (by decide)]
  by_cases isDefault : node.hasChild .defaultWord
  · cases first : declared.names.head? <;>
      simp [Outline.pruned, Item.pruned, Function.comp_def, isDefault, first]
  · simp [Outline.pruned, Item.pruned, Function.comp_def, isDefault]

/-- What a statement adds, unfolded once. The definition recurses along the size of statements,
which pruning changes. -/
theorem outline_eq : node.outline =
    match node.kind with
    | .functionDeclaration | .generatorFunctionDeclaration =>
      .ofDrafts (node.namedDraft? .function).toList
    | .classDeclaration | .abstractClassDeclaration =>
      .ofDrafts ((node.child? .name).map fun name => node.classDraft name.text).toList
    | .interfaceDeclaration => .ofDrafts (node.namedDraft? .interface).toList
    | .enumDeclaration => .ofDrafts (node.namedDraft? .enum).toList
    | .lexicalDeclaration | .variableDeclaration => .ofDrafts node.variableDrafts
    | .importStatement => ⟨node.importItems, []⟩
    | .exportStatement =>
      match node.child? .declaration with
      | some declaration => ⟨node.exportDeclared declaration.outline, []⟩
      | none =>
        match node.child? .value with
        | some value => ⟨value.exportValue, []⟩
        | none => ⟨node.exportClause, []⟩
    | .ambientDeclaration => (node.firstNamed?.map outline).getD {}
    | _ => {} := by
  fun_cases outline node <;> simp_all

/-- What a statement adds to its file. -/
@[simp]
theorem outline_pruned : node.pruned.outline = node.outline.pruned := by
  have listed : ∀ draft : Option Draft,
      Outline.ofDrafts (draft.map Draft.pruned).toList = (Outline.ofDrafts draft.toList).pruned := by
    intro draft
    cases draft <;> rfl
  induction node using outline.induct with
  | case1 statement kind | case2 statement kind | case5 statement kind | case6 statement kind =>
    rw [outline_eq, outline_eq statement, kind_pruned, kind]
    simp only [namedDraft?_pruned, listed]
  | case3 statement kind | case4 statement kind =>
    rw [outline_eq, outline_eq statement, kind_pruned, kind]
    cases found : statement.child? .name <;> simp [found]
  | case7 statement kind | case8 statement kind =>
    rw [outline_eq, outline_eq statement, kind_pruned, kind]
    simp
  | case9 statement kind =>
    rw [outline_eq, outline_eq statement, kind_pruned, kind]
    simp only [importItems_pruned]
    rfl
  | case10 statement kind declaration found smaller inductionHypothesis =>
    rw [outline_eq, outline_eq statement, kind_pruned, kind]
    simp only [child?_pruned, found, Option.map_some, inductionHypothesis, exportDeclared_pruned]
    rfl
  | case11 statement kind missing value found =>
    rw [outline_eq, outline_eq statement, kind_pruned, kind]
    simp only [child?_pruned, missing, found, Option.map_some, Option.map_none, exportValue_pruned]
    rfl
  | case12 statement kind missing noValue =>
    rw [outline_eq, outline_eq statement, kind_pruned, kind]
    simp only [child?_pruned, missing, noValue, Option.map_none, exportClause_pruned]
    rfl
  | case13 statement kind inner found smaller inductionHypothesis =>
    rw [outline_eq, outline_eq statement, kind_pruned, kind]
    simpa [found] using inductionHypothesis
  | case14 statement kind missing =>
    rw [outline_eq, outline_eq statement, kind_pruned, kind]
    simp [missing, Outline.pruned]
  | case15 statement =>
    rw [outline_eq, outline_eq statement, kind_pruned]
    split <;> simp_all [Outline.pruned]

/-- What the statements of a file add to it. -/
@[simp]
theorem fileItems_pruned : node.pruned.fileItems = node.fileItems.map Item.pruned := by
  rw [fileItems, namedChildren_pruned]
  exact flatMap_map_of fun statement _ => by rw [outline_pruned]; rfl

end Node

/-! ### Tables -/

/-- What a name is bound to in the tree that is left. -/
def Binding.pruned : Binding → Binding
  | .decl declared => .decl declared.pruned
  | .imported link => .imported link

/-- What an exported name stands for in the tree that is left. -/
def ExportTarget.pruned : ExportTarget → ExportTarget
  | .name own => .name own
  | .decl declared => .decl declared.pruned
  | .reexport link => .reexport link

/-- The names of a file in the tree that is left. -/
def FileScope.pruned (scope : FileScope) : FileScope :=
  { scope with
    bindings := Keyed.mapValues Binding.pruned scope.bindings
    exports := Keyed.mapValues ExportTarget.pruned scope.exports
    topLevel := scope.topLevel.map Decl.pruned }

namespace Index

/-- The places of declarations that enter an index one after the other. -/
def placesOf (decls : List Decl) : Keyed.Table (FileId × List Nat) Decl :=
  decls.foldl (fun places decl => Keyed.put places decl.node.place decl) []

/-- The index of the trees that are left. Declarations stand at other places there, so the table of
places is made anew. -/
def pruned (index : Index) : Index where
  decls := index.decls.map Decl.pruned
  imports := index.imports
  scopes := index.scopes.map FileScope.pruned
  members := Keyed.mapValues (List.map Decl.pruned) index.members
  places := placesOf (index.decls.map Decl.pruned)

variable (index : Index)

@[simp]
theorem nextDecl_pruned : index.pruned.nextDecl = index.nextDecl := List.length_map _

@[simp]
theorem membersOf_pruned (owner : DeclId) :
    index.pruned.membersOf owner = (index.membersOf owner).map Decl.pruned := by
  rw [membersOf, pruned, Keyed.get?_mapValues, membersOf]
  cases Keyed.get? index.members owner <;> rfl

theorem membersWith_pruned (decl : Decl) : index.pruned.membersWith decl.pruned =
    Keyed.mapValues (List.map Decl.pruned) (index.membersWith decl) := by
  unfold membersWith
  rw [Decl.container_pruned]
  cases decl.container with
  | none => rfl
  | some owner =>
    dsimp only
    rw [membersOf_pruned, ← Keyed.put_mapValues, List.map_append]
    rfl

/-- Pushing a declaration gives it the same number, so that the tables stay alike. -/
theorem push_pruned (decl : Decl) :
    index.pruned.push decl.pruned = (index.push decl).pruned := by
  have places : Keyed.put index.pruned.places decl.pruned.node.place decl.pruned =
      placesOf ((index.decls ++ [decl]).map Decl.pruned) := by
    rw [List.map_append, placesOf, List.foldl_append]
    rfl
  rw [push, membersWith_pruned, places]
  simp only [pruned, push, List.map_append, List.map_singleton]

theorem pushMember_pruned (owner : Nat) (index : Index) (member : MemberDraft) :
    index.pruned.pushMember owner member.pruned = (index.pushMember owner member).pruned := by
  rw [pushMember, pushMember, ← push_pruned, nextDecl_pruned]
  simp [MemberDraft.decl, MemberDraft.pruned, Decl.pruned]

end Index

namespace IndexStep

/-- The index and the scope of a file in the trees that are left. -/
def pruned (step : IndexStep) : IndexStep := ⟨step.index.pruned, step.scope.pruned⟩

variable (step : IndexStep)

theorem declOf_pruned (draft : Draft) :
    step.pruned.declOf draft.pruned = (step.declOf draft).pruned := by
  rw [declOf, declOf, pruned, Index.nextDecl_pruned]
  rfl

/-- Declaring pushes the declaration and its members, and binds its name. -/
theorem declare_pruned (draft : Draft) :
    step.pruned.declare draft.pruned = (step.declare draft).pruned := by
  have index : (step.pruned.declare draft.pruned).index = (step.declare draft).index.pruned := by
    show (draft.members.map MemberDraft.pruned).foldl _ (step.index.pruned.push _) = _
    rw [declOf_pruned, Index.push_pruned, List.foldl_map, show step.pruned.index = step.index.pruned
      from rfl, Index.nextDecl_pruned]
    refine List.foldl_hom Index.pruned ?_
    exact Index.pushMember_pruned step.index.nextDecl
  have scope : (step.pruned.declare draft.pruned).scope = (step.declare draft).scope.pruned := by
    simp only [declare, declOf_pruned]
    simp only [pruned, FileScope.pruned, List.map_append, List.map_singleton]
  exact congrArg₂ IndexStep.mk index scope

theorem bind_pruned (name : String) (binding : Binding) :
    step.pruned.bind name binding.pruned = (step.bind name binding).pruned := by
  simp only [bind, pruned, FileScope.pruned, Keyed.put_mapValues]

theorem exportAs_pruned (name : String) (target : ExportTarget) :
    step.pruned.exportAs name target.pruned = (step.exportAs name target).pruned := by
  simp only [exportAs, pruned, FileScope.pruned, Keyed.put_mapValues]

/-- What one item adds to the index. -/
theorem add_pruned (item : Item) : step.pruned.add item.pruned = (step.add item).pruned := by
  cases item with
  | declare draft =>
    rw [add, ← bind_pruned, ← declare_pruned, Binding.pruned, ← declOf_pruned]
    rfl
  | declareDefault draft =>
    rw [add, ← exportAs_pruned, ← declare_pruned, ExportTarget.pruned, ← declOf_pruned]
    rfl
  | bindImport name specifier imported =>
    exact bind_pruned (step.link specifier imported) name
      (.imported (step.linkOf specifier imported))
  | exportName name target => exact step.exportAs_pruned name (.name target)
  | exportFrom name specifier imported =>
    exact exportAs_pruned (step.link specifier imported) name
      (.reexport (step.linkOf specifier imported))
  | exportAll specifier => rfl

/-- The table of a file is put into the index as it was built. -/
theorem close_pruned : step.pruned.close = step.close.pruned := by
  simp only [close, pruned, Index.pruned, List.map_append, List.map_singleton]

end IndexStep

/-! ### Files -/

/-- The language and the tree of a file whose comments are gone. Comments are no syntax errors. -/
def Parsed.pruned (parsed : Parsed) : Parsed := { parsed with tree := parsed.tree.pruned }

/-- A file with the tree that is left. -/
def ModelFile.pruned (file : ModelFile) : ModelFile :=
  { file with parsed := file.parsed.pruned }

@[simp]
theorem ModelFile.source_pruned (file : ModelFile) : file.pruned.source = file.source := rfl

@[simp]
theorem ModelFile.root_pruned (file : ModelFile) : file.pruned.root = file.root.pruned := rfl

namespace Index

/-- One file more. The run over all files is an induction with this as its step. -/
theorem addFile_pruned (index : Index) (file : ModelFile) :
    index.pruned.addFile file.pruned = (index.addFile file).pruned := by
  have items : (file.root.fileItems.map Item.pruned).foldl IndexStep.add
        (IndexStep.pruned ⟨index, { file := file.source }⟩) =
      (file.root.fileItems.foldl IndexStep.add ⟨index, { file := file.source }⟩).pruned := by
    rw [List.foldl_map]
    refine List.foldl_hom IndexStep.pruned ?_
    exact IndexStep.add_pruned
  rw [addFile, addFile, ← IndexStep.close_pruned, ModelFile.root_pruned, Node.fileItems_pruned]
  exact congrArg IndexStep.close items

/-- The index of files whose comments are gone. -/
theorem build_pruned (files : List ModelFile) :
    build (files.map ModelFile.pruned) = (build files).pruned := by
  have started : ∀ index : Index, (files.map ModelFile.pruned).foldl addFile index.pruned =
      (files.foldl addFile index).pruned := by
    intro index
    rw [List.foldl_map]
    refine List.foldl_hom pruned ?_
    exact addFile_pruned
  exact started {}

end Index

end CodeGraph
