import CodeGraph.Proofs.Model.Order
import CodeGraph.Proofs.Resolve.Exports

/-!
# Default exports and their names

A declaration that is exported as the default of its file is put into the table of exports twice:
under `default`, and under its own name like any other declaration below an export. The second entry
makes it an export by name. It is found wherever the search for the name comes to its file first, in
the file itself and along star exports, and so it may stand before an export by name of another
file. Under `default` it is found in its own file only.

What a table of exports holds is read off the items of the file: every entry stems from an item, and
a name that an item exports has an entry. Both are shown for one item and then for all of them.

## Main Definitions

* `Item.exported?`: the name under which an item exports something.
* `IndexStep.exportOf?`: the entry that an item adds to the table of exports.
* `Program.DefaultOnly`: a declaration whose only export is a default export around it.
* `Program.ExportsDefault`: where such a declaration is found.

## Main Statements

* `Node.exportName_of_declaration`: what the declaration below an export is exported as.
* `IndexStep.of_get?_exports`: every entry stems from an item.
* `Program.exists_scope`: the scope of a file is made of the items of the file.
* `Program.defaultExport_underOwnName`: a default export is found under its own name too.
* `Program.defaultExport_hidesNamed`: a star export that finds it in place of an export by name.
-/

namespace CodeGraph

/-! ### What statements export -/

/-- The name under which an item exports something. -/
def Item.exported? : Item → Option String
  | .declareDefault _ => some "default"
  | .exportName name _ => some name
  | .exportFrom name _ _ => some name
  | .declare _ | .bindImport _ _ _ | .exportAll _ => none

namespace Node

/-- A statement exports a name of the file, under this or another name. -/
def Exports (statement : Node) (target : String) : Prop :=
  ∃ name, .exportName name target ∈ statement.outline.items

/-- A statement exports something under a name. -/
def ExportsUnder (statement : Node) (name : String) : Prop :=
  ∃ item ∈ statement.outline.items, item.exported? = some name

/-- A statement that declares a name declares drafts under their names and does nothing else. -/
theorem outline_of_mem_names {statement : Node} {name : String}
    (declares : name ∈ statement.outline.names) :
    ∃ drafts, statement.outline = .ofDrafts drafts := by
  revert declares
  fun_induction outline statement with
  | case1 | case2 | case3 | case4 | case5 | case6 | case7 | case8 => exact fun _ => ⟨_, rfl⟩
  | case9 | case10 | case11 | case12 | case14 | case15 =>
    exact fun declares => absurd declares List.not_mem_nil
  | case13 _ _ _ _ _ inductionHypothesis => exact inductionHypothesis

variable {statement declaration : Node} {name : String}

theorem outline_items_of_declaration (isExport : statement.kind = .exportStatement)
    (exported : statement.child? .declaration = some declaration) :
    statement.outline.items = statement.exportDeclared declaration.outline := by
  rw [outline]
  simp only [isExport]
  split
  · next found =>
    rw [exported] at found
    cases found
    rfl
  · next missing => rw [exported] at missing; cases missing

/-- A name that is declared below an export is exported under itself. -/
theorem exportName_mem_of_declaration (isExport : statement.kind = .exportStatement)
    (exported : statement.child? .declaration = some declaration)
    (declares : name ∈ declaration.outline.names) :
    .exportName name name ∈ statement.outline.items := by
  rw [outline_items_of_declaration isExport exported, exportDeclared]
  exact List.mem_append_left _ (List.mem_append_right _ (List.mem_map_of_mem declares))

/-- What is declared below an export is exported under itself, and as the default at most. -/
theorem exportName_of_declaration {own : String} {item : Item}
    (isExport : statement.kind = .exportStatement)
    (exported : statement.child? .declaration = some declaration)
    (declares : own ∈ declaration.outline.names) (present : item ∈ statement.outline.items)
    (under : item.exported? = some name) (isNamed : name ≠ "default") :
    item = .exportName name name := by
  obtain ⟨drafts, read⟩ := outline_of_mem_names declares
  rw [outline_items_of_declaration isExport exported, read, exportDeclared, List.mem_append,
    List.mem_append] at present
  rcases present with (declared | named) | default
  · obtain ⟨draft, -, rfl⟩ := List.mem_map.mp declared
    cases under
  · obtain ⟨target, -, rfl⟩ := List.mem_map.mp named
    cases under
    rfl
  · split at default
    · obtain ⟨target, -, rfl⟩ := List.mem_map.mp default
      cases under
      exact absurd rfl isNamed
    · cases default

end Node

/-! ### The table of exports -/

namespace IndexStep

/-- The entry that an item adds to the table of exports. -/
def exportOf? (step : IndexStep) : Item → Option (String × ExportTarget)
  | .declareDefault draft => some ("default", .decl (step.declOf draft))
  | .exportName name target => some (name, .name target)
  | .exportFrom name specifier imported =>
    some (name, .reexport (step.linkOf specifier imported))
  | .declare _ | .bindImport _ _ _ | .exportAll _ => none

variable {step : IndexStep} {item : Item} {items : List Item} {name : String}
  {target : ExportTarget}

theorem exported?_of_exportOf? (adds : step.exportOf? item = some (name, target)) :
    item.exported? = some name := by
  cases item <;> cases adds <;> rfl

/-- An item sets the entry of the name that it exports and no other one. -/
theorem get?_exports_add (step : IndexStep) (item : Item) (name : String) :
    Keyed.get? (step.add item).scope.exports name =
      match step.exportOf? item with
      | some (key, target) =>
        if key = name then some target else Keyed.get? step.scope.exports name
      | none => Keyed.get? step.scope.exports name := by
  cases item with
  | declare | bindImport | exportAll => rfl
  | declareDefault | exportName | exportFrom => exact Keyed.get?_put _ _ _ name

/-- Every entry that items add stems from one of them. -/
theorem of_get?_exports
    (found : Keyed.get? (items.foldl add step).scope.exports name = some target) :
    Keyed.get? step.scope.exports name = some target ∨
      ∃ item ∈ items, ∃ before : IndexStep, before.exportOf? item = some (name, target) := by
  induction items generalizing step with
  | nil => exact .inl found
  | cons item rest inductionHypothesis =>
    rcases inductionHypothesis found with here | ⟨later, memLater, ofLater⟩
    · rw [get?_exports_add] at here
      split at here
      · next key entry adds =>
        split at here
        · next same =>
          cases here
          exact .inr ⟨item, List.mem_cons_self, step, same ▸ adds⟩
        · exact .inl here
      · exact .inl here
    · exact .inr ⟨later, List.mem_cons_of_mem _ memLater, ofLater⟩

/-- An entry stays, though its target may be set again. -/
theorem isSome_get?_exports_add (listed : (Keyed.get? step.scope.exports name).isSome) :
    (Keyed.get? (step.add item).scope.exports name).isSome := by
  rw [get?_exports_add]
  split
  · split
    · rfl
    · exact listed
  · exact listed

theorem isSome_get?_exports_foldl (listed : (Keyed.get? step.scope.exports name).isSome) :
    (Keyed.get? (items.foldl add step).scope.exports name).isSome := by
  induction items generalizing step with
  | nil => exact listed
  | cons item rest inductionHypothesis => exact inductionHypothesis (isSome_get?_exports_add listed)

/-- A name that an item exports has an entry. -/
theorem isSome_get?_exports_of_mem {own : String} (present : .exportName name own ∈ items) :
    (Keyed.get? (items.foldl add step).scope.exports name).isSome := by
  obtain ⟨before, after, rfl⟩ := List.append_of_mem present
  rw [List.foldl_append, List.foldl_cons]
  refine isSome_get?_exports_foldl ?_
  rw [get?_exports_add]
  simp only [exportOf?, if_pos, Option.isSome_some]

end IndexStep

/-! ### The scope of a file -/

namespace Index

theorem scopes_addFile (index : Index) (file : ModelFile) :
    (index.addFile file).scopes = index.scopes ++
      [(file.root.fileItems.foldl IndexStep.add ⟨index, { file := file.source }⟩).scope] :=
  congrArg (· ++ _) (IndexStep.grows_foldl_add ⟨index, { file := file.source }⟩ _).scopes

theorem scopes_subset_foldl_addFile (index : Index) (files : List ModelFile) :
    index.scopes ⊆ (files.foldl addFile index).scopes := by
  induction files generalizing index with
  | nil => exact List.Subset.refl _
  | cons file rest inductionHypothesis =>
    refine List.Subset.trans ?_ (inductionHypothesis (index.addFile file))
    rw [scopes_addFile]
    exact List.subset_append_left _ _

/-- The scope of each file is among the scopes; it was made when the file was added. -/
theorem exists_scope_foldl_addFile {files : List ModelFile} {file : ModelFile}
    (present : file ∈ files) (index : Index) :
    ∃ before : Index, (file.root.fileItems.foldl IndexStep.add
      ⟨before, { file := file.source }⟩).scope ∈ (files.foldl addFile index).scopes := by
  obtain ⟨first, rest, rfl⟩ := List.append_of_mem present
  refine ⟨first.foldl addFile index, ?_⟩
  rw [List.foldl_append, List.foldl_cons]
  refine scopes_subset_foldl_addFile _ rest ?_
  rw [scopes_addFile]
  exact List.mem_append_right _ (List.mem_singleton_self _)

end Index

namespace Program

variable {model : Model} {file : ModelFile}

/-- The scope of a file of the program is made of the items of the file. -/
theorem exists_scope (numbered : model.Numbered) (memFile : file ∈ model.files) :
    ∃ before : Index, (ofModel model).scopeOf file.source =
      (file.root.fileItems.foldl IndexStep.add ⟨before, { file := file.source }⟩).scope := by
  obtain ⟨before, present⟩ := Index.exists_scope_foldl_addFile memFile {}
  refine ⟨before, ?_⟩
  have look := (Index.indexes_build numbered.nodup_ids).find?_scope numbered.nodup_ids present
  rw [IndexStep.file_foldl_add] at look
  exact congrArg (fun found => Option.getD found _) look

/-- An exported name is exported by an item of the file. -/
theorem exists_item_of_get?_exports (numbered : model.Numbered) (memFile : file ∈ model.files)
    {name : String} {target : ExportTarget}
    (found : Keyed.get? ((ofModel model).scopeOf file.source).exports name = some target) :
    ∃ statement ∈ file.root.namedChildren, ∃ item ∈ statement.outline.items,
      ∃ before : IndexStep, before.exportOf? item = some (name, target) := by
  obtain ⟨index, scope⟩ := exists_scope numbered memFile
  rw [scope] at found
  rcases IndexStep.of_get?_exports found with nothing | ⟨item, present, stems⟩
  · cases nothing
  · obtain ⟨statement, memStatement, ofStatement⟩ := List.mem_flatMap.mp present
    exact ⟨statement, memStatement, item, ofStatement, stems⟩

/-- A declaration that a table of exports gives is one of the file, and is given by its name or by
itself. -/
theorem WellFormed.of_ownExport?_decl {program : Program} (wellFormed : program.WellFormed)
    (memFile : file ∈ program.model.files) {name : String} {decl : Decl}
    (gives : program.ownExport? name file.source = some (.decl decl)) :
    decl ∈ (program.scopeOf file.source).topLevel ∧
      ∃ target, Keyed.get? (program.scopeOf file.source).exports name = some target ∧
        (target = .name decl.name ∨ target = .decl decl) := by
  obtain ⟨target, listed, found⟩ := Option.bind_eq_some_iff.mp gives
  cases target with
  | name own =>
    obtain ⟨binding, bound, isDecl⟩ := Option.map_eq_some_iff.mp found
    cases binding with
    | decl _ =>
      cases isDecl
      obtain ⟨top, rfl⟩ :=
        wellFormed.boundDecl file memFile own decl (Keyed.mem_of_get?_eq_some bound)
      exact ⟨top, _, listed, .inl rfl⟩
    | imported _ => cases isDecl
  | decl _ =>
    cases found
    exact ⟨wellFormed.exportedDecl file memFile name decl (Keyed.mem_of_get?_eq_some listed), _,
      listed, .inr rfl⟩
  | reexport _ => cases found

/-- Star exports lead from files of the program to files of the program. -/
theorem HasFile.of_reflTransGen {program : Program} {name : String} {start stop : SourceFile}
    (known : program.HasFile start)
    (path : Relation.ReflTransGen (program.Forwards name) start stop) : program.HasFile stop := by
  rcases Relation.ReflTransGen.cases_tail path with rfl | ⟨last, -, forwards⟩
  · exact known
  · exact forwards.hasFile

/-! ### Default exports -/

/-- The only export of a declaration is a default export around it. -/
structure DefaultOnly (program : Program) (file : ModelFile) (statement declaration : Node)
    (decl : Decl) : Prop where
  /-- The file belongs to the program. -/
  known : file ∈ program.model.files
  /-- The export is a statement of the file. -/
  present : statement ∈ file.root.namedChildren
  /-- It is an export. -/
  isExport : statement.kind = .exportStatement
  /-- It exports the default. -/
  isDefault : statement.hasChild .defaultWord
  /-- It is around a declaration. -/
  around : statement.child? .declaration = some declaration
  /-- This is the declaration in question. -/
  declares : program.declAt? declaration = some decl
  /-- It has a name of its own. -/
  named : decl.name ∈ declaration.outline.names
  /-- No other statement exports the name. -/
  only : ∀ other ∈ file.root.namedChildren, other ≠ statement → ¬other.Exports decl.name

/-- Where a declaration is found whose only export is a default export. -/
structure ExportsDefault (program : Program) (file : ModelFile) (statement : Node) (decl : Decl) :
    Prop where
  /-- As the default it is found in its own file only. -/
  default : ∀ start, program.HasFile start →
    program.exportSymbol? start "default" = some (.decl decl) → start = file.source
  /-- Under another name it is found only when the name is its own and star exports lead to its
  file. -/
  ownName : ∀ start name, program.HasFile start → name ≠ "default" →
    program.exportSymbol? start name = some (.decl decl) →
      name = decl.name ∧ Relation.ReflTransGen (program.Forwards name) start file.source
  /-- Under its own name it is found wherever the search comes to its file before any other file
  that has an answer, provided that the name is bound to it and exported by no other statement. -/
  found : decl.name ≠ "default" →
    Keyed.get? (program.scopeOf file.source).bindings decl.name = some (.decl decl) →
      (∀ other ∈ file.root.namedChildren, other ≠ statement → ¬other.ExportsUnder decl.name) →
        ∀ start, program.HasFile start →
          (program.exportSymbol? start decl.name = some (.decl decl) ↔ ∃ before after,
            program.starEnds decl.name program.fileIds start = before ++ file.source :: after ∧
              ∀ stop ∈ before, program.ownExport? decl.name stop = none)

namespace DefaultOnly

variable {statement declaration : Node} {decl : Decl} {name : String}

/-- The declaration belongs to the file of the export. -/
theorem file_id (numbered : model.Numbered)
    (exported : (ofModel model).DefaultOnly file statement declaration decl) :
    decl.file.id = file.source.id := by
  have place := ((wellFormed_ofModel numbered).declaredAt declaration decl exported.declares).2
  have within : declaration.Within file.root :=
    (Node.within_of_child? exported.around).trans
      (Node.within_of_mem_namedChildren exported.present)
  exact (congrArg Prod.fst place).trans (congrArg SourceFile.id within.source)

/-- A file whose table gives the declaration is the file that declares it. -/
theorem eq_of_ownExport? (numbered : model.Numbered)
    (exported : (ofModel model).DefaultOnly file statement declaration decl) {stop : SourceFile}
    (known : (ofModel model).HasFile stop)
    (gives : (ofModel model).ownExport? name stop = some (.decl decl)) : stop = file.source := by
  have wellFormed := wellFormed_ofModel numbered
  have home : (ofModel model).HasFile file.source := ⟨file, exported.known, rfl⟩
  apply known.eq_of_id_eq numbered home
  obtain ⟨other, memOther, rfl⟩ := known
  obtain ⟨top, -⟩ := wellFormed.of_ownExport?_decl memOther gives
  rw [wellFormed.topLevel other memOther, List.mem_filter, Bool.and_eq_true] at top
  exact (of_decide_eq_true top.2.2).symm.trans (exported.file_id numbered)

/-- Under a name other than `default` the table gives the declaration for its own name only. -/
theorem name_eq_of_ownExport? (numbered : model.Numbered)
    (exported : (ofModel model).DefaultOnly file statement declaration decl)
    (isNamed : name ≠ "default")
    (gives : (ofModel model).ownExport? name file.source = some (.decl decl)) :
    name = decl.name := by
  obtain ⟨-, target, listed, form⟩ :=
    (wellFormed_ofModel numbered).of_ownExport?_decl exported.known gives
  obtain ⟨other, memOther, item, present, before, adds⟩ :=
    exists_item_of_get?_exports numbered exported.known listed
  -- A declaration stands in the table itself under `default` only, so here its name does.
  have isExport : item = .exportName name decl.name := by
    rcases form with rfl | rfl
    · cases item <;> cases adds
      rfl
    · cases item <;> cases adds
      exact absurd rfl isNamed
  subst isExport
  by_cases same : other = statement
  · subst same
    cases Node.exportName_of_declaration exported.isExport exported.around exported.named present
      rfl isNamed
    rfl
  · exact absurd ⟨name, present⟩ (exported.only other memOther same)

/-- The table gives the declaration for its own name, when the name is bound to it and no other
statement exports something under the name. -/
theorem ownExport?_name (numbered : model.Numbered)
    (exported : (ofModel model).DefaultOnly file statement declaration decl)
    (isNamed : decl.name ≠ "default")
    (bound : Keyed.get? ((ofModel model).scopeOf file.source).bindings decl.name =
      some (.decl decl))
    (alone : ∀ other ∈ file.root.namedChildren, other ≠ statement →
      ¬other.ExportsUnder decl.name) :
    (ofModel model).ownExport? decl.name file.source = some (.decl decl) := by
  have listed : (Keyed.get? ((ofModel model).scopeOf file.source).exports decl.name).isSome := by
    obtain ⟨index, scope⟩ := exists_scope numbered exported.known
    have present : .exportName decl.name decl.name ∈ file.root.fileItems :=
      List.mem_flatMap.mpr ⟨statement, exported.present,
        Node.exportName_mem_of_declaration exported.isExport exported.around exported.named⟩
    rw [scope]
    exact IndexStep.isSome_get?_exports_of_mem present
  obtain ⟨target, found⟩ := Option.isSome_iff_exists.mp listed
  obtain ⟨other, memOther, item, present, before, adds⟩ :=
    exists_item_of_get?_exports numbered exported.known found
  have under := IndexStep.exported?_of_exportOf? adds
  by_cases same : other = statement
  · subst same
    cases Node.exportName_of_declaration exported.isExport exported.around exported.named present
      under isNamed
    cases adds
    rw [ownExport?, found, Option.bind_some, targetSymbol?, bound]
    rfl
  · exact absurd ⟨item, present, under⟩ (alone other memOther same)

end DefaultOnly

/-- **A default export is also an export under its own name.** As the default it is found in its own
file only. By name it is found as its own name alone, but there like any other export: in its own
file, and along star exports where the search comes to its file first. -/
theorem defaultExport_underOwnName (settings : AnalysisSettings) (inputs : List Input)
    {file : ModelFile} {statement declaration : Node} {decl : Decl}
    (exported : (ofModel (Model.build settings inputs)).DefaultOnly file statement declaration
      decl) :
    (ofModel (Model.build settings inputs)).ExportsDefault file statement decl := by
  have numbered := Model.numbered_build settings inputs
  generalize Model.build settings inputs = model at exported numbered ⊢
  refine ⟨fun start known found => ?_, fun start name known isNamed found => ?_,
    fun isNamed bound alone start known => ?_⟩
  · rw [exportSymbol?_default known] at found
    exact exported.eq_of_ownExport? numbered known found
  · obtain ⟨stop, path, gives⟩ := (findsExport numbered isNamed known).sound _ found
    obtain rfl := exported.eq_of_ownExport? numbered (known.of_reflTransGen path) gives
    exact ⟨exported.name_eq_of_ownExport? numbered isNamed gives, path⟩
  · have own := exported.ownExport?_name numbered isNamed bound alone
    have finds := findsExport numbered isNamed known
    rw [finds.first, List.findSome?_eq_some_iff]
    constructor
    · rintro ⟨before, stop, after, ends, gives, nothing⟩
      have present : stop ∈ (ofModel model).starEnds decl.name (ofModel model).fileIds start :=
        ends ▸ List.mem_append_right _ List.mem_cons_self
      have path := (finds.ends stop).mp present
      obtain rfl := exported.eq_of_ownExport? numbered (known.of_reflTransGen path) gives
      exact ⟨before, after, ends, nothing⟩
    · rintro ⟨before, after, ends, nothing⟩
      exact ⟨before, file.source, after, ends, own, nothing⟩

/-! ### A default export before an export by name -/

/-- A file with a default export, one with an export by name of the same name, and one that exports
all names of both. -/
def starOverDefault : List Input :=
  [{ path := "a.ts"
     text := "export default function run()\x7b\x7d"
     tree := some <|
       .node ⟨.program, none, true, false, 0, 31⟩ [
         .node ⟨.exportStatement, none, true, false, 0, 31⟩ [
           .node ⟨.defaultWord, none, false, false, 7, 14⟩ [],
           .node ⟨.functionDeclaration, some .declaration, true, false, 15, 31⟩ [
             .node ⟨.identifier, some .name, true, false, 24, 27⟩ [],
             .node ⟨.formalParameters, some .parameters, true, false, 27, 29⟩ [],
             .node ⟨.statementBlock, some .body, true, false, 29, 31⟩ []]]] },
   { path := "b.ts"
     text := "export function run()\x7b\x7d"
     tree := some <|
       .node ⟨.program, none, true, false, 0, 23⟩ [
         .node ⟨.exportStatement, none, true, false, 0, 23⟩ [
           .node ⟨.functionDeclaration, some .declaration, true, false, 7, 23⟩ [
             .node ⟨.identifier, some .name, true, false, 16, 19⟩ [],
             .node ⟨.formalParameters, some .parameters, true, false, 19, 21⟩ [],
             .node ⟨.statementBlock, some .body, true, false, 21, 23⟩ []]]] },
   { path := "c.ts"
     text := "export*from'./a';export*from'./b'"
     tree := some <|
       .node ⟨.program, none, true, false, 0, 33⟩ [
         .node ⟨.exportStatement, none, true, false, 0, 17⟩ [
           .node ⟨.string, some .source, true, false, 11, 16⟩ []],
         .node ⟨.exportStatement, none, true, false, 17, 33⟩ [
           .node ⟨.string, some .source, true, false, 28, 33⟩ []]] }]

theorem orderInputs_starOverDefault : orderInputs starOverDefault = starOverDefault :=
  orderInputs_of_ascending (by decide +kernel)

/-- The statement that the first file begins with, the declaration in it, and what this declares. -/
def firstExport? (program : Program) : Option (ModelFile × Node × Node × Decl) := do
  let file ← program.model.files.head?
  let statement ← file.root.firstNamed?
  let declaration ← statement.child? .declaration
  let decl ← program.declAt? declaration
  return (file, statement, declaration, decl)

/-- A file consists of a default export of a declaration under its name. -/
def isDefaultAlone (file : ModelFile) (statement declaration : Node) (decl : Decl) : Bool :=
  file.root.namedChildren.length = 1 && statement.kind = .exportStatement &&
    statement.hasChild .defaultWord && decl.name ∈ declaration.outline.names

theorem defaultOnly_of_firstExport? {program : Program} {file : ModelFile}
    {statement declaration : Node} {decl : Decl}
    (found : program.firstExport? = some (file, statement, declaration, decl))
    (alone : isDefaultAlone file statement declaration decl) :
    program.DefaultOnly file statement declaration decl := by
  obtain ⟨_, isFirst, found⟩ := Option.bind_eq_some_iff.mp found
  obtain ⟨_, isStatement, found⟩ := Option.bind_eq_some_iff.mp found
  obtain ⟨_, around, found⟩ := Option.bind_eq_some_iff.mp found
  obtain ⟨_, declares, same⟩ := Option.bind_eq_some_iff.mp found
  cases same
  simp only [isDefaultAlone, Bool.and_eq_true, decide_eq_true_eq] at alone
  obtain ⟨⟨⟨single, isExport⟩, isDefault⟩, named⟩ := alone
  have noOther : ∀ other ∈ file.root.namedChildren, other = statement := by
    obtain ⟨first, all⟩ := List.length_eq_one_iff.mp single
    rw [Node.firstNamed?, all] at isStatement
    cases isStatement
    exact fun other present => List.mem_singleton.mp (all ▸ present)
  exact ⟨List.mem_of_head? isFirst, List.mem_of_head? isStatement, isExport, isDefault, around,
    declares, named, fun other present different => absurd (noOther other present) different⟩

/-- A known symbol with the number of the declaration denotes the declaration. -/
theorem DefaultOnly.symbol_eq {program : Program} (wellFormed : program.WellFormed)
    {file : ModelFile} {statement declaration : Node} {decl : Decl}
    (exported : program.DefaultOnly file statement declaration decl) {symbol : Symbol}
    (known : symbol.Known program) (same : symbol.decl?.any fun found => found.id = decl.id) :
    symbol = .decl decl := by
  obtain ⟨found, isDecl, sameId⟩ := (Option.any_eq_true _ _).mp same
  obtain rfl := symbol.eq_of_decl? isDecl
  have declared := (wellFormed.declaredAt declaration decl exported.declares).1
  rw [wellFormed.eq_of_id_eq known declared (of_decide_eq_true sameId)]

/-- The default export is found under its name in its own file. -/
theorem defaultExport_underOwnName_starOverDefault :
    let program := ofModel (Model.build {} starOverDefault)
    ∃ file statement declaration decl, program.DefaultOnly file statement declaration decl ∧
      program.ExportsDefault file statement decl ∧
      program.exportSymbol? file.source "run" = some (.decl decl) := by
  intro program
  have wellFormed : program.WellFormed := wellFormed_ofModel (Model.numbered_build {} _)
  have seen : program.firstExport?.any fun found =>
      isDefaultAlone found.1 found.2.1 found.2.2.1 found.2.2.2 &&
        (program.ownExport? "run" found.1.source).any fun symbol =>
          symbol.decl?.any fun own => own.id = found.2.2.2.id := by
    simp only [program, Model.build, orderInputs_starOverDefault]
    decide +kernel
  obtain ⟨⟨file, statement, declaration, decl⟩, found, both⟩ := (Option.any_eq_true _ _).mp seen
  obtain ⟨alone, hasOwn⟩ := (Bool.and_eq_true _ _).mp both
  obtain ⟨symbol, own, same⟩ := (Option.any_eq_true _ _).mp hasOwn
  have exported := defaultOnly_of_firstExport? found alone
  have listed := exportSymbol?_of_ownExport? ⟨file, exported.known, rfl⟩ own
  rw [exported.symbol_eq wellFormed (wellFormed.known_of_exportSymbol? listed) same] at listed
  exact ⟨file, statement, declaration, decl, exported,
    defaultExport_underOwnName {} starOverDefault exported, listed⟩

/-- **A star export may forward a default export.** In the last file the name denotes the default
export of the first file and not the export by name of the second. -/
theorem defaultExport_hidesNamed :
    let program := ofModel (Model.build {} starOverDefault)
    ¬ ∀ file statement declaration decl, program.DefaultOnly file statement declaration decl →
      ∀ start, program.HasFile start → ∀ name, name ≠ "default" →
        program.exportSymbol? start name ≠ some (.decl decl) := by
  intro program never
  have numbered : program.model.Numbered := Model.numbered_build {} starOverDefault
  have wellFormed : program.WellFormed := wellFormed_ofModel numbered
  have seen : program.firstExport?.any fun found =>
      isDefaultAlone found.1 found.2.1 found.2.2.1 found.2.2.2 &&
        program.model.files.getLast?.any fun last =>
          ((program.starEnds "run" program.fileIds last.source).findSome?
            (program.ownExport? "run")).any fun symbol =>
              symbol.decl?.any fun denoted => denoted.id = found.2.2.2.id := by
    simp only [program, Model.build, orderInputs_starOverDefault]
    decide +kernel
  obtain ⟨⟨file, statement, declaration, decl⟩, found, both⟩ := (Option.any_eq_true _ _).mp seen
  obtain ⟨alone, inLast⟩ := (Bool.and_eq_true _ _).mp both
  obtain ⟨last, isLast, hasSymbol⟩ := (Option.any_eq_true _ _).mp inLast
  obtain ⟨symbol, isSymbol, same⟩ := (Option.any_eq_true _ _).mp hasSymbol
  have exported := defaultOnly_of_firstExport? found alone
  have known : program.HasFile last.source := ⟨last, List.mem_of_getLast? isLast, rfl⟩
  rw [← (findsExport numbered (by decide) known).first] at isSymbol
  rw [exported.symbol_eq wellFormed (wellFormed.known_of_exportSymbol? isSymbol) same] at isSymbol
  exact never file statement declaration decl exported last.source known "run" (by decide) isSymbol

end Program

end CodeGraph
