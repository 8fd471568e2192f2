import CodeGraph.Proofs.Index.Tables

/-!
# Well-formed programs

The index of every program is well formed: numbers are positions, every declaration is found at its
node and in the tables that should hold it, and every name of a file leads to a declaration of that
file or to one of its imports.

## Main Definitions

* `IndexStep.Sound`: the tables and the scope of a file agree while its items are added.
* `Index.Indexes`: an index is that of a list of files.
* `Program.WellFormed`: what the rest of the program may rely on.

## Main Statements

* `IndexStep.Sound.add`, `IndexStep.Sound.foldl_add`: items keep tables and scope in agreement.
* `Index.indexes_build`: building gives the index of the files.
* `Program.wellFormed_ofModel`: the program of numbered files is well formed.
-/

namespace CodeGraph

namespace IndexStep

/-- The tables of the index and the scope of the file agree. -/
structure Sound (step : IndexStep) : Prop where
  /-- The tables agree with the declarations. -/
  tabled : step.index.Tabled
  /-- The scope agrees with the index. -/
  agrees : step.scope.Agrees step.index

/-! ### What an item adds -/

/-- Declaring adds a declaration and its members, and nothing else. -/
theorem grows_declare (step : IndexStep) (draft : Draft) :
    step.index.Grows (step.declare draft).index draft.nodes :=
  (Index.grows_push step.index (step.declOf draft)).trans
    (Index.grows_foldl_pushMember _ step.index.nextDecl draft.members)

theorem grows_link (step : IndexStep) (specifier : String) (imported : Imported) :
    step.index.Grows (step.link specifier imported).index [] :=
  ⟨⟨[], by simp [link]⟩, List.prefix_append _ _, rfl⟩

/-- One item adds the nodes that it declares, in order. -/
theorem grows_add (step : IndexStep) (item : Item) :
    step.index.Grows (step.add item).index (Item.nodesOf [item]) := by
  cases item with
  | declare draft => exact Item.nodesOf_declare draft ▸ step.grows_declare draft
  | declareDefault draft => exact Item.nodesOf_declareDefault draft ▸ step.grows_declare draft
  | bindImport name specifier imported | exportFrom name specifier imported =>
    exact step.grows_link specifier imported
  | exportName name target => exact Index.Grows.refl _
  | exportAll specifier => exact Index.Grows.refl _

theorem grows_foldl_add (step : IndexStep) (items : List Item) :
    step.index.Grows (items.foldl add step).index (Item.nodesOf items) := by
  induction items generalizing step with
  | nil => exact Index.Grows.refl _
  | cons item rest inductionHypothesis =>
    have all := (step.grows_add item).trans (inductionHypothesis (step.add item))
    rwa [← Item.nodesOf_append, List.singleton_append] at all

theorem file_add (step : IndexStep) (item : Item) :
    (step.add item).scope.file = step.scope.file := by
  cases item <;> rfl

/-- A run stays in its file. -/
theorem file_foldl_add (step : IndexStep) (items : List Item) :
    (items.foldl add step).scope.file = step.scope.file := by
  induction items generalizing step with
  | nil => rfl
  | cons item rest inductionHypothesis =>
    rw [List.foldl_cons, inductionHypothesis, file_add]

/-! ### Items keep tables and scope in agreement -/

namespace Sound

variable {step : IndexStep}

/-- Declaring keeps a step sound, when what is declared is of the file. -/
theorem declare (sound : step.Sound) {draft : Draft} (good : draft.Sound)
    (inFile : ∀ node ∈ draft.nodes, node.source = step.scope.file) :
    (step.declare draft).Sound := by
  have here : draft.node.source = step.scope.file := inFile draft.node List.mem_cons_self
  refine ⟨?_, ?_, fun entry present => ?_, fun entry present => ?_⟩
  · have pushed : (step.index.push (step.declOf draft)).Tabled :=
      sound.tabled.push rfl fun owner contained => by cases contained
    refine pushed.foldl_pushMember (List.mem_append_right _ (List.mem_singleton_self _))
      (fun some => ?_) good.memberKind fun member present => ?_
    · exact decide_eq_true (good.isClass some)
    · exact (inFile member.node
        (List.mem_cons_of_mem _ (List.mem_map_of_mem present))).trans here.symm
  · change step.scope.topLevel ++ [step.declOf draft] = Index.topLevelOf _ step.scope.file.id
    rw [IndexStep.declare, Index.topLevelOf_foldl_pushMember, Index.topLevelOf_push,
      if_pos ⟨rfl, congrArg SourceFile.id here⟩, sound.agrees.topLevel]
  · exact (sound.agrees.bindings entry present).mono rfl (List.subset_append_left _ _)
      (step.grows_declare draft).imports.subset
  · exact (sound.agrees.exports entry present).mono rfl (List.subset_append_left _ _)
      (step.grows_declare draft).imports.subset

theorem link (sound : step.Sound) (specifier : String) (imported : Imported) :
    (step.link specifier imported).Sound := by
  refine ⟨sound.tabled.addImport rfl, sound.agrees.of_grows (step.grows_link specifier imported) ?_⟩
  intro node present
  cases present

/-- Binding keeps a step sound, when the name is bound to something of the file. -/
theorem bind (sound : step.Sound) {name : String} {binding : Binding}
    (fits : binding.Fits step.scope step.index name) : (step.bind name binding).Sound := by
  refine ⟨sound.tabled, sound.agrees.topLevel, fun entry present => ?_, fun entry present => ?_⟩
  · rcases Keyed.eq_or_mem_of_mem_put present with rfl | old
    · exact fits.mono rfl (List.Subset.refl _) (List.Subset.refl _)
    · exact sound.agrees.bindings entry old
  · exact sound.agrees.exports entry present

theorem exportAs (sound : step.Sound) {name : String} {target : ExportTarget}
    (fits : target.Fits step.scope step.index) : (step.exportAs name target).Sound := by
  refine ⟨sound.tabled, sound.agrees.topLevel, fun entry present => ?_, fun entry present => ?_⟩
  · exact sound.agrees.bindings entry present
  · rcases Keyed.eq_or_mem_of_mem_put present with rfl | old
    · exact fits.mono rfl (List.Subset.refl _) (List.Subset.refl _)
    · exact sound.agrees.exports entry old

/-- An item whose drafts are sound and declared in the file keeps tables and scope in agreement. -/
theorem add (sound : step.Sound) {item : Item} (good : ∀ draft ∈ item.drafts, draft.Sound)
    (inFile : ∀ node ∈ Item.nodesOf [item], node.source = step.scope.file) :
    (step.add item).Sound := by
  cases item with
  | declare draft =>
    have declared := sound.declare (good draft List.mem_cons_self)
      (Item.nodesOf_declare draft ▸ inFile)
    exact declared.bind ⟨List.mem_append_right _ (List.mem_singleton_self _), rfl⟩
  | declareDefault draft =>
    have declared := sound.declare (good draft List.mem_cons_self)
      (Item.nodesOf_declareDefault draft ▸ inFile)
    exact declared.exportAs (List.mem_append_right _ (List.mem_singleton_self _))
  | bindImport name specifier imported =>
    exact (sound.link specifier imported).bind
      ⟨List.mem_append_right _ (List.mem_singleton_self _), rfl⟩
  | exportName name target => exact sound.exportAs trivial
  | exportFrom name specifier imported =>
    exact (sound.link specifier imported).exportAs
      ⟨List.mem_append_right _ (List.mem_singleton_self _), rfl⟩
  | exportAll specifier =>
    exact ⟨sound.tabled, sound.agrees.topLevel,
      fun entry present => (sound.agrees.bindings entry present).mono rfl (List.Subset.refl _)
        (List.Subset.refl _),
      fun entry present => (sound.agrees.exports entry present).mono rfl (List.Subset.refl _)
        (List.Subset.refl _)⟩

/-- Items that a place of the file declares keep tables and scope in agreement. -/
theorem foldl_add (sound : step.Sound) {items : List Item}
    (good : ∀ item ∈ items, ∀ draft ∈ item.drafts, draft.Sound)
    (inFile : ∀ node ∈ Item.nodesOf items, node.source = step.scope.file) :
    (items.foldl IndexStep.add step).Sound := by
  induction items generalizing step with
  | nil => exact sound
  | cons item rest inductionHypothesis =>
    rw [← List.singleton_append, Item.nodesOf_append] at inFile
    refine inductionHypothesis (sound.add (good item List.mem_cons_self) fun node present =>
      inFile node (List.mem_append_left _ present))
      (fun other later => good other (List.mem_cons_of_mem _ later)) fun node present => ?_
    rw [file_add]
    exact inFile node (List.mem_append_right _ present)

end Sound

/-- Closing a file leaves the tables as they are. -/
theorem tabled_close {step : IndexStep} (tabled : step.index.Tabled) : step.close.Tabled :=
  ⟨tabled.numbered, tabled.linked, tabled.members, tabled.places, tabled.owned⟩

/-- Closing a file does not disturb the tables of others. -/
theorem agrees_close {step : IndexStep} {scope : FileScope} (agrees : scope.Agrees step.index) :
    scope.Agrees step.close :=
  ⟨agrees.topLevel, agrees.bindings, agrees.exports⟩

end IndexStep

/-! ### Files -/

/-- The nodes by which a file declares something. -/
def ModelFile.declaring (file : ModelFile) : List Node := Item.nodesOf file.root.fileItems

theorem ModelFile.source_of_mem_declaring {file : ModelFile} {node : Node}
    (present : node ∈ file.declaring) : node.source = file.source :=
  ((Node.declares_fileItems file.root).covers.within node present).source

namespace Index

/-- An index is that of a list of files. -/
structure Indexes (index : Index) (files : List ModelFile) : Prop where
  /-- The tables agree with the declarations. -/
  tabled : index.Tabled
  /-- Each file has its scope, in the order of the files. -/
  scopes : index.scopes.map FileScope.file = files.map ModelFile.source
  /-- Every scope agrees with the index. -/
  agrees : ∀ scope ∈ index.scopes, scope.Agrees index
  /-- The declarations are those that the files declare, in order. -/
  nodes : index.decls.map Decl.node = files.flatMap ModelFile.declaring

/-- Before the first file nothing is indexed. -/
theorem indexes_empty : Indexes {} [] where
  tabled := tabled_empty
  scopes := rfl
  agrees scope present := by cases present
  nodes := rfl

namespace Indexes

variable {index : Index} {files : List ModelFile}

/-- A declaration belongs to one of the files. -/
theorem exists_file (indexed : index.Indexes files) {decl : Decl} (present : decl ∈ index.decls) :
    ∃ file ∈ files, decl.file = file.source := by
  have declaring : decl.node ∈ files.flatMap ModelFile.declaring :=
    indexed.nodes ▸ List.mem_map_of_mem present
  obtain ⟨file, memFile, inside⟩ := List.mem_flatMap.mp declaring
  exact ⟨file, memFile, ModelFile.source_of_mem_declaring inside⟩

/-- The start of a file with a new number: no declaration belongs to it yet. -/
theorem sound_start (indexed : index.Indexes files) {file : ModelFile}
    (fresh : ∀ old ∈ files, old.source.id ≠ file.source.id) :
    IndexStep.Sound ⟨index, { file := file.source }⟩ := by
  refine ⟨indexed.tabled, ?_, fun entry present => ?_, fun entry present => ?_⟩
  · refine (List.filter_eq_nil_iff.mpr fun decl present counts => ?_).symm
    obtain ⟨old, memOld, sameFile⟩ := indexed.exists_file present
    simp only [Bool.and_eq_true, decide_eq_true_eq] at counts
    exact fresh old memOld (sameFile ▸ counts.2)
  · cases present
  · cases present

/-- Adding a file with a new number gives the index of the files with it. -/
theorem addFile (indexed : index.Indexes files) {file : ModelFile}
    (fresh : ∀ old ∈ files, old.source.id ≠ file.source.id) :
    (index.addFile file).Indexes (files ++ [file]) := by
  let start : IndexStep := ⟨index, { file := file.source }⟩
  let done := file.root.fileItems.foldl IndexStep.add start
  have declares := Node.declares_fileItems file.root
  have sound : done.Sound := (indexed.sound_start fresh).foldl_add declares.sound
    fun node present => ModelFile.source_of_mem_declaring present
  have grows : index.Grows done.index file.declaring :=
    start.grows_foldl_add file.root.fileItems
  have ownFile : done.scope.file = file.source := start.file_foldl_add file.root.fileItems
  have scopes : (index.addFile file).scopes = index.scopes ++ [done.scope] :=
    congrArg (· ++ [done.scope]) grows.scopes
  -- The items run on the tables that are there, so old scopes have to outlive the new declarations.
  refine ⟨?_, ?_, fun scope present => ?_, ?_⟩
  · show done.close.Tabled
    exact IndexStep.tabled_close sound.tabled
  · rw [scopes, List.map_append, List.map_append, indexed.scopes, List.map_singleton, ownFile]
    rfl
  · have agrees : scope.Agrees done.index := by
      rcases List.mem_append.mp (scopes ▸ present) with old | new
      · refine (indexed.agrees scope old).of_grows grows fun node inside => ?_
        have known : scope.file ∈ files.map ModelFile.source :=
          indexed.scopes ▸ List.mem_map_of_mem old
        obtain ⟨other, memOther, sameFile⟩ := List.mem_map.mp known
        rw [ModelFile.source_of_mem_declaring inside, ← sameFile]
        exact (fresh other memOther).symm
      · exact List.mem_singleton.mp new ▸ sound.agrees
    show scope.Agrees done.close
    exact IndexStep.agrees_close agrees
  · obtain ⟨added, decls, nodes⟩ := grows.decls
    show done.index.decls.map Decl.node = _
    rw [decls, List.map_append, indexed.nodes, nodes, List.flatMap_append, List.flatMap_singleton]

/-- Adding files with new numbers gives the index of all files. -/
theorem foldl_addFile (indexed : index.Indexes files) {more : List ModelFile}
    (distinct : ((files ++ more).map fun file => file.source.id).Nodup) :
    (more.foldl Index.addFile index).Indexes (files ++ more) := by
  induction more generalizing index files with
  | nil => simpa using indexed
  | cons file rest inductionHypothesis =>
    have fresh : ∀ old ∈ files, old.source.id ≠ file.source.id := by
      intro old memOld
      rw [List.map_append, List.nodup_append] at distinct
      exact distinct.2.2 _ (List.mem_map_of_mem memOld) _ (List.mem_map_of_mem List.mem_cons_self)
    have all := inductionHypothesis (indexed.addFile fresh) (by simpa using distinct)
    simpa using all

/-- No two declarations are made at one place. -/
theorem nodup_places (indexed : index.Indexes files)
    (distinct : (files.map fun file => file.source.id).Nodup) :
    (index.decls.map fun decl => decl.node.place).Nodup := by
  have places : (index.decls.map fun decl => decl.node.place) =
      files.flatMap fun file => file.declaring.map Node.place := by
    rw [← List.map_flatMap, ← indexed.nodes, List.map_map]
    rfl
  rw [places]
  -- Within a file addresses differ, and between files the numbers of the files.
  refine Keyed.nodup_flatMap_of_group Prod.fst (fun file => file.source.id) distinct ?_ ?_
  · intro file _
    have addresses := (Node.declares_fileItems file.root).covers.distinct
    exact List.Nodup.of_map Prod.snd (by rwa [List.map_map])
  · intro file _ place inFile
    obtain ⟨node, declaring, rfl⟩ := List.mem_map.mp inFile
    exact congrArg SourceFile.id (ModelFile.source_of_mem_declaring declaring)

/-- Every declaration is found at its place. -/
theorem get?_place (indexed : index.Indexes files)
    (distinct : (files.map fun file => file.source.id).Nodup) {decl : Decl}
    (present : decl ∈ index.decls) : Keyed.get? index.places decl.node.place = some decl := by
  rw [indexed.tabled.places]
  refine Keyed.find?_key_of_nodup ?_ (List.mem_reverse.mpr present)
  rw [List.map_reverse, List.nodup_reverse]
  exact indexed.nodup_places distinct

/-- The scope of a file is found by the number of the file. -/
theorem find?_scope (indexed : index.Indexes files)
    (distinct : (files.map fun file => file.source.id).Nodup) {scope : FileScope}
    (present : scope ∈ index.scopes) :
    index.scopes.find? (fun other => other.file.id = scope.file.id) = some scope := by
  refine Keyed.find?_key_of_nodup ?_ present
  have numbers : (index.scopes.map fun scope => scope.file.id) =
      files.map fun file => file.source.id := by
    simpa [Function.comp_def] using congrArg (List.map SourceFile.id) indexed.scopes
  exact numbers ▸ distinct

end Indexes

/-- Building gives the index of the files. -/
theorem indexes_build {files : List ModelFile}
    (distinct : (files.map fun file => file.source.id).Nodup) : (build files).Indexes files := by
  have all := indexes_empty.foldl_addFile (List.nil_append files ▸ distinct)
  rwa [List.nil_append] at all

end Index

/-! ### Programs -/

/-- The files of a model are numbered by position. -/
def Model.Numbered (model : Model) : Prop :=
  ∀ (position : Nat) (file : ModelFile),
    model.files[position]? = some file → file.source.id.val = position

/-- The files of every model that is built are numbered by position. -/
theorem Model.numbered_build (settings : AnalysisSettings) (inputs : List Input) :
    (Model.build settings inputs).Numbered := by
  intro position file found
  simp only [Model.build, List.getElem?_map, List.getElem?_zipIdx, Option.map_map,
    Option.map_eq_some_iff] at found
  obtain ⟨⟨input, parsed⟩, -, rfl⟩ := found
  simp [Input.sourceFile]

/-- Files are numbered by their place, so no two share a number. -/
theorem Model.Numbered.nodup_ids {model : Model} (numbered : model.Numbered) :
    (model.files.map fun file => file.source.id).Nodup := by
  refine List.Nodup.of_map FileId.val ?_
  rw [List.map_map]
  have numbers := map_eq_range_of_numbered numbered
  exact numbers ▸ List.nodup_range

namespace Program

/-- What the rest of the program may rely on: the tables of the index agree with each other and with
the files. -/
structure WellFormed (program : Program) : Prop where
  /-- Declarations are numbered by position. -/
  numbered : ∀ (position : Nat) (decl : Decl),
    program.index.decls[position]? = some decl → decl.id.val = position
  /-- Every declaration is found at its node; so no node declares twice. -/
  declAt : ∀ decl ∈ program.index.decls, program.declAt? decl.node = some decl
  /-- What is found at a node was declared at its place. -/
  declaredAt : ∀ node decl, program.declAt? node = some decl →
    decl ∈ program.index.decls ∧ decl.node.place = node.place
  /-- A member belongs to a class of the same file with a smaller number. -/
  container : ∀ decl ∈ program.index.decls, ∀ owner, decl.container = some owner →
    owner.val < decl.id.val ∧ ∃ holder, program.index.decls[owner.val]? = some holder ∧
      holder.isClass ∧ holder.file = decl.file
  /-- The members of a class are the declarations that name it as their class. -/
  members : ∀ owner, program.membersOf owner =
    program.index.decls.filter fun decl => decl.container = some owner
  /-- The members of a class come in the order of their numbers. -/
  membersAscend : ∀ owner,
    ((program.membersOf owner).map fun member => member.id.val).Pairwise (· < ·)
  /-- Members are methods, accessors and fields. -/
  memberKind : ∀ owner, ∀ member ∈ program.membersOf owner, member.kind.IsMember
  /-- The scopes are numbered as the files are. -/
  scopes : program.index.scopes.length = program.model.files.length ∧
    ∀ (position : Nat) (file : ModelFile), program.model.files[position]? = some file →
      program.index.scopes[position]? = some (program.scopeOf file.source)
  /-- Every declaration is made in a file of the program. -/
  declFile : ∀ decl ∈ program.index.decls, ∃ file ∈ program.model.files, decl.file = file.source
  /-- The top-level declarations of a file are its declarations that are no members. -/
  topLevel : ∀ file ∈ program.model.files, (program.scopeOf file.source).topLevel =
    program.index.decls.filter fun decl =>
      decl.container = none && decl.file.id = file.source.id
  /-- The top-level declarations of a file come in the order of their numbers. -/
  topLevelAscend : ∀ file ∈ program.model.files,
    ((program.scopeOf file.source).topLevel.map fun decl => decl.id.val).Pairwise (· < ·)
  /-- A name that is bound to a declaration is bound to a top-level declaration of that name. -/
  boundDecl : ∀ file ∈ program.model.files, ∀ name decl,
    (name, .decl decl) ∈ (program.scopeOf file.source).bindings →
      decl ∈ (program.scopeOf file.source).topLevel ∧ decl.name = name
  /-- A name that is bound to an import is bound to an import of the file. -/
  boundLink : ∀ file ∈ program.model.files, ∀ name link,
    (name, .imported link) ∈ (program.scopeOf file.source).bindings →
      program.index.imports[link.id.val]? = some link ∧ link.file = file.source
  /-- A declaration that is exported is a top-level declaration. -/
  exportedDecl : ∀ file ∈ program.model.files, ∀ name decl,
    (name, .decl decl) ∈ (program.scopeOf file.source).exports →
      decl ∈ (program.scopeOf file.source).topLevel
  /-- An import that is exported again is an import of the file. -/
  exportedLink : ∀ file ∈ program.model.files, ∀ name link,
    (name, .reexport link) ∈ (program.scopeOf file.source).exports →
      program.index.imports[link.id.val]? = some link ∧ link.file = file.source

section OfModel

variable {model : Model}

/-- The scope of a file of the program stands where its number says. -/
theorem getElem?_scopes (numbered : model.Numbered) {position : Nat} {file : ModelFile}
    (found : model.files[position]? = some file) :
    (ofModel model).index.scopes[position]? = some ((ofModel model).scopeOf file.source) ∧
      ((ofModel model).scopeOf file.source).file = file.source := by
  have indexed := Index.indexes_build numbered.nodup_ids
  have files := congrArg (fun list => list[position]?) indexed.scopes
  simp only [List.getElem?_map, found, Option.map_some] at files
  obtain ⟨scope, here, sameFile⟩ := Option.map_eq_some_iff.mp files
  have scopeOf : (ofModel model).scopeOf file.source = scope := by
    have look := indexed.find?_scope numbered.nodup_ids (List.mem_of_getElem? here)
    rw [sameFile] at look
    exact congrArg (fun found => Option.getD found _) look
  rw [scopeOf]
  exact ⟨here, sameFile⟩

/-- The scope of a file of the program agrees with the index. -/
theorem agrees_scopeOf (numbered : model.Numbered) {file : ModelFile}
    (present : file ∈ model.files) :
    ((ofModel model).scopeOf file.source).Agrees (ofModel model).index ∧
      ((ofModel model).scopeOf file.source).file = file.source := by
  obtain ⟨position, found⟩ := List.mem_iff_getElem?.mp present
  obtain ⟨here, sameFile⟩ := getElem?_scopes numbered found
  exact ⟨(Index.indexes_build numbered.nodup_ids).agrees _ (List.mem_of_getElem? here), sameFile⟩

/-- The program of numbered files is well formed. -/
theorem wellFormed_ofModel (numbered : model.Numbered) : (ofModel model).WellFormed := by
  have indexed := Index.indexes_build numbered.nodup_ids
  have tabled := indexed.tabled
  have lengths : (Index.build model.files).scopes.length = model.files.length := by
    simpa using congrArg List.length indexed.scopes
  refine
    { numbered := tabled.numbered
      declAt := fun decl present => indexed.get?_place numbered.nodup_ids present
      declaredAt := fun node decl found => ?_
      container := fun decl present owner contained => ?_
      members := tabled.members
      membersAscend := fun owner => ?_
      memberKind := fun owner member present => ?_
      scopes := ⟨lengths, fun position file found => (getElem?_scopes numbered found).1⟩
      declFile := fun decl present => indexed.exists_file present
      topLevel := fun file present => ?_
      topLevelAscend := fun file present => ?_
      boundDecl := fun file present name decl bound =>
        (agrees_scopeOf numbered present).1.bindings _ bound
      boundLink := fun file present name link bound => ?_
      exportedDecl := fun file present name decl exported =>
        (agrees_scopeOf numbered present).1.exports _ exported
      exportedLink := fun file present name link exported => ?_ }
  · rw [declAt?, show Keyed.get? (ofModel model).index.places node.place = _ from
      tabled.places node.place] at found
    exact ⟨List.mem_reverse.mp (List.mem_of_find?_eq_some found), by
      simpa using List.find?_some found⟩
  · obtain ⟨-, holder, memHolder, rfl, isClass, sameFile, earlier⟩ :=
      tabled.owned decl present owner contained
    exact ⟨earlier, holder, getElem?_of_numbered tabled.numbered memHolder, isClass, sameFile⟩
  · rw [show (ofModel model).membersOf owner = _ from tabled.members owner]
    exact tabled.ascending.sublist (List.filter_sublist.map _)
  · rw [show (ofModel model).membersOf owner = _ from tabled.members owner,
      List.mem_filter] at present
    exact (tabled.owned member present.1 owner (by simpa using present.2)).1
  · obtain ⟨agrees, sameFile⟩ := agrees_scopeOf numbered present
    rw [agrees.topLevel, sameFile]
    rfl
  · rw [(agrees_scopeOf numbered present).1.topLevel]
    exact tabled.ascending.sublist (List.filter_sublist.map _)
  · obtain ⟨agrees, sameFile⟩ := agrees_scopeOf numbered present
    obtain ⟨memLink, ofFile⟩ := agrees.bindings _ bound
    exact ⟨getElem?_of_numbered tabled.linked memLink, ofFile.trans sameFile⟩
  · obtain ⟨agrees, sameFile⟩ := agrees_scopeOf numbered present
    obtain ⟨memLink, ofFile⟩ := agrees.exports _ exported
    exact ⟨getElem?_of_numbered tabled.linked memLink, ofFile.trans sameFile⟩

end OfModel

/-! ### What follows for any well-formed program -/

namespace WellFormed

variable {program : Program}

/-- A declaration of the program stands at the position that its number says. -/
theorem getElem?_of_mem (wellFormed : program.WellFormed) {decl : Decl}
    (present : decl ∈ program.index.decls) : program.index.decls[decl.id.val]? = some decl :=
  getElem?_of_numbered wellFormed.numbered present

/-- Declarations with one number are one declaration. -/
theorem eq_of_id_eq (wellFormed : program.WellFormed) {a b : Decl}
    (memA : a ∈ program.index.decls) (memB : b ∈ program.index.decls) (same : a.id = b.id) :
    a = b := by
  have foundA := wellFormed.getElem?_of_mem memA
  rw [same, wellFormed.getElem?_of_mem memB] at foundA
  exact (Option.some.inj foundA).symm

/-- The scope of any file is that of a file of the program or has no names. -/
theorem scopeOf_cases (wellFormed : program.WellFormed) (file : SourceFile) :
    (∃ known ∈ program.model.files, program.scopeOf file = program.scopeOf known.source) ∨
      program.scopeOf file = { file } := by
  cases look : program.index.scopes.find? fun scope => scope.file.id = file.id with
  | none => exact Or.inr (by rw [scopeOf, look, Option.getD_none])
  | some scope =>
    refine Or.inl ?_
    obtain ⟨position, here⟩ := List.mem_iff_getElem?.mp (List.mem_of_find?_eq_some look)
    have inside : position < program.model.files.length :=
      wellFormed.scopes.1 ▸ (List.getElem?_eq_some_iff.mp here).1
    have known := wellFormed.scopes.2 position _ (List.getElem?_eq_getElem inside)
    refine ⟨_, List.getElem_mem inside, ?_⟩
    rw [scopeOf, look, Option.getD_some]
    exact Option.some.inj (here.symm.trans known)

/-- The top-level declarations of a file are declarations of the program. -/
theorem mem_of_topLevel (wellFormed : program.WellFormed) {file : SourceFile} {decl : Decl}
    (present : decl ∈ (program.scopeOf file).topLevel) : decl ∈ program.index.decls := by
  rcases wellFormed.scopeOf_cases file with ⟨known, memKnown, same⟩ | empty
  · rw [same, wellFormed.topLevel known memKnown] at present
    exact (List.mem_filter.mp present).1
  · rw [empty] at present
    cases present

/-- The members of a class are declarations of the program that name it as their class. -/
theorem mem_membersOf_iff (wellFormed : program.WellFormed) {owner : DeclId} {member : Decl} :
    member ∈ program.membersOf owner ↔
      member ∈ program.index.decls ∧ member.container = some owner := by
  rw [wellFormed.members, List.mem_filter, decide_eq_true_eq]

end WellFormed

/-- **The index of every program is well formed.** The tables agree with each other and with the
files, and every number that the tables hold is in range. -/
theorem index_wellFormed (settings : AnalysisSettings) (inputs : List Input) :
    let program := ofModel (Model.build settings inputs)
    program.WellFormed ∧
      ∀ decl ∈ program.index.decls, program.index.decls[decl.id.val]? = some decl ∧
        decl.file.id.val < program.index.scopes.length := by
  intro program
  have numbered := Model.numbered_build settings inputs
  have wellFormed : program.WellFormed := wellFormed_ofModel numbered
  refine ⟨wellFormed, fun decl present => ⟨wellFormed.getElem?_of_mem present, ?_⟩⟩
  obtain ⟨file, memFile, sameFile⟩ := wellFormed.declFile decl present
  obtain ⟨position, found⟩ := List.mem_iff_getElem?.mp memFile
  rw [sameFile, numbered position file found, wellFormed.scopes.1]
  exact (List.getElem?_eq_some_iff.mp found).1

end Program

end CodeGraph
