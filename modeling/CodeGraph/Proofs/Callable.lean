import CodeGraph.Analysis
import CodeGraph.Proofs.Counters
import CodeGraph.Proofs.Resolve.Symbols

/-!
# Collected callables

The callables of distinct files have distinct identifiers and distinct declarations. So a callable
is told by its identifier as well as by its declaration, and looking the callable of a declaration
up finds the one callable that there is.

## Main Definitions

* `Program.Scopes`: distinct files of the program.
* `Collected.Distinct`: callables with distinct identifiers and distinct declarations.

## Main Statements

* `Program.WellFormed.distinct_collect`: collected callables are distinct.
* `Collected.Distinct.get?_eq_some_iff`: which callable a declaration has.
* `Analysis.scopes_scopeFiles`: the files of a scope are distinct files of the program.
-/

namespace CodeGraph

/-- Distinct files of the program. -/
structure Program.Scopes (program : Program) (files : List SourceFile) : Prop where
  /-- They are files of the program. -/
  known : ∀ file ∈ files, program.HasFile file
  /-- No file occurs twice. -/
  distinct : (files.map SourceFile.id).Nodup

/-- The paths of a scope name distinct files of the program. -/
theorem Analysis.scopes_scopeFiles (model : Model) (scope : List String) :
    (Program.ofModel model).Scopes (scopeFiles model scope) where
  known file present := by
    obtain ⟨path, -, found⟩ := List.mem_filterMap.mp (Keyed.mem_of_mem_keepFirst present)
    exact Program.hasFile_of_fileWith? found
  distinct := Keyed.nodup_keepFirst _

/-- Callables of a program with distinct identifiers and distinct declarations. -/
structure Collected.Distinct (program : Program) (collected : Collected) : Prop where
  /-- No identifier occurs twice. -/
  ids : (collected.callables.map Callable.id).Nodup
  /-- No declaration occurs twice. -/
  decls : (collected.callables.map fun callable => callable.decl.id).Nodup
  /-- The program makes all the declarations. -/
  declared : ∀ callable ∈ collected.callables, callable.decl ∈ program.index.decls

/-- The callable of a declaration is the one that was collected for it. -/
theorem Collected.Distinct.get?_eq_some_iff {program : Program} {collected : Collected}
    (distinct : collected.Distinct program) {decl : DeclId} {callable : Callable} :
    collected.get? decl = some callable ↔
      callable ∈ collected.callables ∧ callable.decl.id = decl := by
  constructor
  · intro found
    have present := List.mem_reverse.mp (List.mem_of_find?_eq_some found)
    exact ⟨present, by simpa using List.find?_some found⟩
  · rintro ⟨present, rfl⟩
    have reversed : (collected.callables.reverse.map fun callable => callable.decl.id).Nodup := by
      rw [List.map_reverse, List.nodup_reverse]
      exact distinct.decls
    exact Keyed.find?_key_of_nodup reversed (List.mem_reverse.mpr present)

namespace Program

/-! ### Callables of one declaration -/

theorem decl_of_callableDraft? {className : Option String} {role : Option Role} {decl : Decl}
    {draft : CallableDraft} (found : callableDraft? className role decl = some draft) :
    draft.decl = decl := by
  obtain ⟨function, -, rest⟩ := Option.bind_eq_some_iff.mp found
  obtain ⟨kind, -, result⟩ := Option.bind_eq_some_iff.mp rest
  cases result
  rfl

/-- The top-level declaration that a declaration is or belongs to. -/
def topOf (decl : Decl) : DeclId := decl.container.getD decl.id

variable {program : Program}

/-- The declarations of the callables of a top-level declaration are distinct. -/
theorem WellFormed.nodup_callableDrafts (wellFormed : program.WellFormed)
    (conventions : Conventions) (decl : Decl) :
    ((program.callableDrafts conventions decl).map CallableDraft.decl).Nodup := by
  have single : (((callableDraft? none (some .helper) decl).toList).map
      CallableDraft.decl).Nodup := by
    cases callableDraft? none (some .helper) decl with
    | none => exact List.nodup_nil
    | some draft => exact List.nodup_singleton _
  have members : (program.membersOf decl.id).Nodup :=
    List.Nodup.of_map _ ((wellFormed.membersAscend decl.id).imp Nat.ne_of_lt)
  unfold callableDrafts
  split
  · exact single
  · exact single
  · refine (sublist_of_filterMap ?_ _).nodup members
    intro member draft found
    split at found
    · exact decl_of_callableDraft? found
    · cases found
  · exact List.nodup_nil

/-- A callable of a top-level declaration is declared by it or by a member of it. -/
theorem WellFormed.topOf_of_mem_callableDrafts (wellFormed : program.WellFormed)
    {conventions : Conventions} {decl : Decl} (present : decl ∈ program.index.decls)
    (top : decl.container = none) {draft : CallableDraft}
    (drafted : draft ∈ program.callableDrafts conventions decl) :
    draft.decl ∈ program.index.decls ∧ topOf draft.decl = decl.id := by
  have itself : callableDraft? none (some .helper) decl = some draft →
      draft.decl ∈ program.index.decls ∧ topOf draft.decl = decl.id := by
    intro found
    rw [decl_of_callableDraft? found]
    exact ⟨present, by simp [topOf, top]⟩
  unfold callableDrafts at drafted
  split at drafted
  · exact itself (Option.mem_toList.mp drafted)
  · exact itself (Option.mem_toList.mp drafted)
  · obtain ⟨member, memMember, found⟩ := List.mem_filterMap.mp drafted
    split at found
    · obtain ⟨declared, contained⟩ := wellFormed.mem_membersOf_iff.mp memMember
      rw [decl_of_callableDraft? found]
      exact ⟨declared, by simp [topOf, contained]⟩
    · cases found
  · cases drafted

/-! ### Callables of files -/

theorem WellFormed.of_mem_topLevels (wellFormed : program.WellFormed) {files : List SourceFile}
    (scopes : program.Scopes files) {file : SourceFile} (memFile : file ∈ files) {decl : Decl}
    (present : decl ∈ (program.scopeOf file).topLevel) :
    decl ∈ program.index.decls ∧ decl.container = none ∧ decl.file.id = file.id := by
  obtain ⟨known, memKnown, rfl⟩ := scopes.known file memFile
  rw [wellFormed.topLevel known memKnown, List.mem_filter] at present
  simpa using present

/-- Distinct files have distinct top-level declarations. -/
theorem WellFormed.nodup_topLevels (wellFormed : program.WellFormed) {files : List SourceFile}
    (scopes : program.Scopes files) : (program.topLevels files).Nodup := by
  refine Keyed.nodup_flatMap_of_group (fun decl => decl.file.id) SourceFile.id scopes.distinct
    ?_ ?_
  · intro file memFile
    obtain ⟨known, memKnown, rfl⟩ := scopes.known file memFile
    exact List.Nodup.of_map _ ((wellFormed.topLevelAscend known memKnown).imp Nat.ne_of_lt)
  · intro file memFile decl present
    exact (wellFormed.of_mem_topLevels scopes memFile present).2.2

theorem WellFormed.mem_topLevels (wellFormed : program.WellFormed) {files : List SourceFile}
    (scopes : program.Scopes files) {decl : Decl} (present : decl ∈ program.topLevels files) :
    decl ∈ program.index.decls ∧ decl.container = none := by
  obtain ⟨file, memFile, inFile⟩ := List.mem_flatMap.mp present
  obtain ⟨declared, top, -⟩ := wellFormed.of_mem_topLevels scopes memFile inFile
  exact ⟨declared, top⟩

theorem WellFormed.declared_of_mem_draftsOf (wellFormed : program.WellFormed)
    {files : List SourceFile} (scopes : program.Scopes files) {conventions : Conventions}
    {draft : CallableDraft} (drafted : draft ∈ program.draftsOf conventions files) :
    draft.decl ∈ program.index.decls := by
  obtain ⟨decl, present, ofDecl⟩ := List.mem_flatMap.mp drafted
  obtain ⟨declared, top⟩ := wellFormed.mem_topLevels scopes present
  exact (wellFormed.topOf_of_mem_callableDrafts declared top ofDecl).1

/-- The declarations of the callables of distinct files are distinct. -/
theorem WellFormed.nodup_draftsOf (wellFormed : program.WellFormed) {files : List SourceFile}
    (scopes : program.Scopes files) (conventions : Conventions) :
    ((program.draftsOf conventions files).map CallableDraft.decl).Nodup := by
  rw [draftsOf, List.map_flatMap]
  -- A declaration tells the top-level declaration that brought it in.
  refine Keyed.nodup_flatMap_of_group topOf Decl.id ?_ ?_ ?_
  · refine (wellFormed.nodup_topLevels scopes).map_on ?_
    intro a memA b memB
    exact wellFormed.eq_of_id_eq (wellFormed.mem_topLevels scopes memA).1
      (wellFormed.mem_topLevels scopes memB).1
  · intro decl _
    exact wellFormed.nodup_callableDrafts conventions decl
  · intro decl memDecl _ memDraft
    obtain ⟨draft, drafted, rfl⟩ := List.mem_map.mp memDraft
    obtain ⟨declared, top⟩ := wellFormed.mem_topLevels scopes memDecl
    exact (wellFormed.topOf_of_mem_callableDrafts declared top drafted).2

theorem callables_collect (program : Program) (conventions : Conventions)
    (files : List SourceFile) :
    (program.collect conventions files).callables =
      ((Allocator.empty.allocateAll
        ((program.draftsOf conventions files).map CallableDraft.base)).zip
          (program.draftsOf conventions files)).map (Function.uncurry Callable.mk) := by
  rw [List.map_uncurry_zip_eq_zipWith, collect]

/-- The callables carry the identifiers that were handed out, in order. -/
theorem ids_collect (program : Program) (conventions : Conventions) (files : List SourceFile) :
    (program.collect conventions files).callables.map Callable.id =
      Allocator.empty.allocateAll
        ((program.draftsOf conventions files).map CallableDraft.base) := by
  rw [callables_collect, List.map_map]
  exact List.map_fst_zip (by simp)

/-- Counts of 32 bits hand out the same identifiers, as long as they can count the declarations that
ask for one. -/
theorem ids_collect_words {program : Program} {conventions : Conventions} {files : List SourceFile}
    (few : ∀ base,
      ((program.draftsOf conventions files).map CallableDraft.base).count base < 2 ^ 32) :
    (program.collect conventions files).callables.map Callable.id =
      WordAllocator.empty.allocateAll
        ((program.draftsOf conventions files).map CallableDraft.base) := by
  rw [ids_collect, Allocator.allocateAll_toWords few]

/-- The callables are made of the drafts, in order. -/
theorem drafts_collect (program : Program) (conventions : Conventions) (files : List SourceFile) :
    (program.collect conventions files).callables.map Callable.draft =
      program.draftsOf conventions files := by
  rw [callables_collect, List.map_map]
  exact List.map_snd_zip (by simp)

/-- The callables of distinct files are distinct. -/
theorem WellFormed.distinct_collect (wellFormed : program.WellFormed) {files : List SourceFile}
    (scopes : program.Scopes files) (conventions : Conventions) :
    (program.collect conventions files).Distinct program := by
  have drafts := drafts_collect program conventions files
  have declared : ∀ callable ∈ (program.collect conventions files).callables,
      callable.decl ∈ program.index.decls := by
    intro callable present
    have drafted : callable.draft ∈ program.draftsOf conventions files := by
      rw [← drafts]
      exact List.mem_map_of_mem present
    exact wellFormed.declared_of_mem_draftsOf scopes drafted
  refine ⟨?_, ?_, declared⟩
  · rw [ids_collect]
    exact Allocator.nodup_allocateAll _ _
  · have decls := wellFormed.nodup_draftsOf scopes conventions
    rw [← drafts, List.map_map] at decls
    have ids : ((program.collect conventions files).callables.map Callable.decl |>.map
        Decl.id).Nodup := by
      refine List.Nodup.map_on ?_ decls
      intro a memA b memB
      obtain ⟨first, memFirst, rfl⟩ := List.mem_map.mp memA
      obtain ⟨second, memSecond, rfl⟩ := List.mem_map.mp memB
      exact wellFormed.eq_of_id_eq (declared first memFirst) (declared second memSecond)
    rw [List.map_map] at ids
    exact ids

end Program

end CodeGraph
