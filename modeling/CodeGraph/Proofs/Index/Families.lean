import CodeGraph.Proofs.Index.WellFormed

/-!
# The declarations of a program, in order

The index numbers what the files of a program are read as, one draft after the other, and the
members of a class right after the class. So the declarations of a program can be written down from
the drafts of its files alone: each draft gives a family, and the families follow each other.

## Main Definitions

* `Draft.family`, `Draft.families`: the declarations of a draft, and of several drafts in order.
* `Decl.content`, `Draft.contents`: what a declaration says, its number and its class apart.

## Main Statements

* `Index.decls_build`: the declarations of files are the families of their drafts.
* `Index.contents_build`: what they say is what the files are read as.
* `Program.decls_ofModel_grouped`: a class is followed by its members.
-/

namespace CodeGraph

/-- The members of a class, numbered from `next` on. -/
def MemberDraft.numbered (owner : Nat) : (next : Nat) → List MemberDraft → List Decl
  | _, [] => []
  | next, member :: rest => member.decl owner next :: numbered owner (next + 1) rest

/-- What a declaration says: its kind, its name and its node. -/
def Decl.content (decl : Decl) : MemberDraft := ⟨decl.kind, decl.name, decl.node⟩

namespace Draft

/-- The declarations of a draft: the draft itself under a number, its members under the next ones.
-/
def family (draft : Draft) (id : Nat) : List Decl :=
  draft.decl id :: MemberDraft.numbered id (id + 1) draft.members

/-- The declarations of several drafts, numbered from `next` on. -/
def families : (next : Nat) → List Draft → List Decl
  | _, [] => []
  | next, draft :: rest =>
    draft.family next ++ families (next + (draft.family next).length) rest

/-- What the declarations of a draft say. -/
def contents (draft : Draft) : List MemberDraft :=
  ⟨draft.kind, draft.name, draft.node⟩ :: draft.members

theorem families_append (next : Nat) (first second : List Draft) :
    families next (first ++ second) =
      families next first ++ families (next + (families next first).length) second := by
  induction first generalizing next with
  | nil => rfl
  | cons draft rest inductionHypothesis =>
    rw [List.cons_append, families, inductionHypothesis, families, List.append_assoc,
      List.length_append, Nat.add_assoc]

theorem families_singleton (next : Nat) (draft : Draft) :
    families next [draft] = draft.family next :=
  List.append_nil _

end Draft

/-! ### Numbering -/

namespace Index

theorem decls_foldl_pushMember (index : Index) (owner : Nat) (members : List MemberDraft) :
    (members.foldl (pushMember owner) index).decls =
      index.decls ++ MemberDraft.numbered owner index.nextDecl members := by
  induction members generalizing index with
  | nil => exact (List.append_nil _).symm
  | cons member rest inductionHypothesis =>
    have next : (index.pushMember owner member).nextDecl = index.nextDecl + 1 :=
      List.length_append
    rw [List.foldl_cons, inductionHypothesis, next]
    show (index.decls ++ [member.decl owner index.nextDecl]) ++ _ = _
    rw [List.append_assoc]
    rfl

end Index

namespace IndexStep

theorem decls_declare (step : IndexStep) (draft : Draft) :
    (step.declare draft).index.decls = step.index.decls ++ draft.family step.index.nextDecl := by
  have next : (step.index.push (step.declOf draft)).nextDecl = step.index.nextDecl + 1 :=
    List.length_append
  rw [declare, Index.decls_foldl_pushMember, next]
  show (step.index.decls ++ [step.declOf draft]) ++ _ = _
  rw [List.append_assoc]
  rfl

/-- An item adds the families of its drafts. -/
theorem decls_add (step : IndexStep) (item : Item) :
    (step.add item).index.decls =
      step.index.decls ++ Draft.families step.index.nextDecl item.drafts := by
  cases item with
  | declare draft | declareDefault draft =>
    rw [Item.drafts, Draft.families_singleton]
    exact step.decls_declare draft
  | bindImport | exportName | exportFrom | exportAll => exact (List.append_nil _).symm

/-- Items add the families of their drafts, one after the other. -/
theorem decls_foldl_add (step : IndexStep) (items : List Item) :
    (items.foldl add step).index.decls =
      step.index.decls ++ Draft.families step.index.nextDecl (Item.draftsOf items) := by
  induction items generalizing step with
  | nil => exact (List.append_nil _).symm
  | cons item rest inductionHypothesis =>
    have next : (step.add item).index.nextDecl = step.index.nextDecl +
        (Draft.families step.index.nextDecl item.drafts).length := by
      rw [Index.nextDecl, decls_add, List.length_append, Index.nextDecl]
    rw [List.foldl_cons, inductionHypothesis, next, decls_add, List.append_assoc,
      ← Draft.families_append]
    rfl

end IndexStep

/-- The drafts that a file is read as. -/
def ModelFile.drafts (file : ModelFile) : List Draft := Item.draftsOf file.root.fileItems

namespace Index

theorem decls_foldl_addFile (index : Index) (files : List ModelFile) :
    (files.foldl addFile index).decls =
      index.decls ++ Draft.families index.nextDecl (files.flatMap ModelFile.drafts) := by
  induction files generalizing index with
  | nil => exact (List.append_nil _).symm
  | cons file rest inductionHypothesis =>
    have decls : (index.addFile file).decls =
        index.decls ++ Draft.families index.nextDecl file.drafts :=
      IndexStep.decls_foldl_add ⟨index, { file := file.source }⟩ file.root.fileItems
    have next : (index.addFile file).nextDecl =
        index.nextDecl + (Draft.families index.nextDecl file.drafts).length := by
      rw [nextDecl, decls, List.length_append, nextDecl]
    rw [List.foldl_cons, inductionHypothesis, next, decls, List.append_assoc,
      ← Draft.families_append, List.flatMap_cons]

/-- The declarations of files are the families of their drafts, numbered from zero. -/
theorem decls_build (files : List ModelFile) :
    (build files).decls = Draft.families 0 (files.flatMap ModelFile.drafts) :=
  decls_foldl_addFile {} files

end Index

/-! ### What declarations say -/

theorem MemberDraft.content_numbered (owner next : Nat) (members : List MemberDraft) :
    (numbered owner next members).map Decl.content = members := by
  induction members generalizing next with
  | nil => rfl
  | cons member rest inductionHypothesis =>
    rw [numbered, List.map_cons, inductionHypothesis]
    rfl

/-- The declarations of drafts say what the drafts say. -/
theorem Draft.content_families (next : Nat) (drafts : List Draft) :
    (families next drafts).map Decl.content = drafts.flatMap contents := by
  induction drafts generalizing next with
  | nil => rfl
  | cons draft rest inductionHypothesis =>
    rw [families, List.map_append, inductionHypothesis, List.flatMap_cons, family, List.map_cons,
      MemberDraft.content_numbered]
    rfl

/-- The declarations of files say what the files are read as. -/
theorem Index.contents_build (files : List ModelFile) :
    (build files).decls.map Decl.content =
      files.flatMap fun file => file.drafts.flatMap Draft.contents := by
  rw [decls_build, Draft.content_families, List.flatMap_assoc]

/-! ### Families -/

/-- A member names its class, and its number is not below the first one. -/
theorem MemberDraft.of_mem_numbered {owner next : Nat} {members : List MemberDraft} {decl : Decl}
    (present : decl ∈ numbered owner next members) :
    decl.container = some ⟨owner⟩ ∧ next ≤ decl.id.val := by
  induction members generalizing next with
  | nil => cases present
  | cons member rest inductionHypothesis =>
    rcases List.mem_cons.mp present with rfl | later
    · exact ⟨rfl, Nat.le_refl next⟩
    · obtain ⟨contained, bound⟩ := inductionHypothesis later
      exact ⟨contained, by omega⟩

namespace Draft

variable {next : Nat} {drafts : List Draft} {decl : Decl}

/-- The numbers of families, and the classes that they name, are not below the first number. -/
theorem bounds_of_mem_families (present : decl ∈ families next drafts) :
    next ≤ decl.id.val ∧ ∀ owner, decl.container = some owner → next ≤ owner.val := by
  induction drafts generalizing next with
  | nil => cases present
  | cons draft rest inductionHypothesis =>
    rw [families, family, List.cons_append] at present
    rcases List.mem_cons.mp present with rfl | inRest
    · exact ⟨Nat.le_refl next, fun owner contained => nomatch contained⟩
    · rcases List.mem_append.mp inRest with isMember | later
      · obtain ⟨contained, bound⟩ := MemberDraft.of_mem_numbered isMember
        refine ⟨by omega, fun owner named => ?_⟩
        cases contained.symm.trans named
        exact Nat.le_refl next
      · obtain ⟨bound, owners⟩ := inductionHypothesis later
        refine ⟨by omega, fun owner named => ?_⟩
        have := owners owner named
        omega

/-- A declaration of a family that is no member has the kind of a draft. -/
theorem exists_draft_of_mem_families (present : decl ∈ families next drafts)
    (top : decl.container = none) : ∃ draft ∈ drafts, decl.kind = draft.kind := by
  induction drafts generalizing next with
  | nil => cases present
  | cons draft rest inductionHypothesis =>
    rw [families, family, List.cons_append] at present
    rcases List.mem_cons.mp present with rfl | inRest
    · exact ⟨draft, List.mem_cons_self, rfl⟩
    · rcases List.mem_append.mp inRest with isMember | later
      · obtain ⟨contained, -⟩ := MemberDraft.of_mem_numbered isMember
        cases contained.symm.trans top
      · obtain ⟨found, memFound, same⟩ := inductionHypothesis later
        exact ⟨found, List.mem_cons_of_mem _ memFound, same⟩

/-- Of all families, the members of the first class are those of the first family. -/
theorem filter_container_families (draft : Draft) (rest : List Draft) (next : Nat) :
    (families next (draft :: rest)).filter (fun decl => decl.container = some ⟨next⟩) =
      MemberDraft.numbered next (next + 1) draft.members := by
  rw [families, family, List.cons_append, List.filter_cons_of_neg (by simp [decl]),
    List.filter_append]
  have own : (MemberDraft.numbered next (next + 1) draft.members).filter
      (fun decl => decl.container = some ⟨next⟩) =
        MemberDraft.numbered next (next + 1) draft.members := by
    apply List.filter_eq_self.mpr
    intro decl isMember
    simpa using (MemberDraft.of_mem_numbered isMember).1
  have others : (families (next + (draft.family next).length) rest).filter
      (fun decl => decl.container = some ⟨next⟩) = [] := by
    apply List.filter_eq_nil_iff.mpr
    intro decl later named
    have bound := (bounds_of_mem_families later).2 ⟨next⟩ (by simpa using named)
    simp only [family, List.length_cons] at bound
    omega
  rw [family] at others
  rw [own, others, List.append_nil]

/-- The members of a later class are not in the first family. -/
theorem filter_container_families_of_lt (draft : Draft) (rest : List Draft) {owner : DeclId}
    (later : next < owner.val) :
    (families next (draft :: rest)).filter (fun decl => decl.container = some owner) =
      (families (next + (draft.family next).length) rest).filter
        (fun decl => decl.container = some owner) := by
  have none : (draft.family next).filter (fun decl => decl.container = some owner) = [] := by
    apply List.filter_eq_nil_iff.mpr
    intro decl inFamily named
    rcases List.mem_cons.mp inFamily with rfl | isMember
    · simp [Draft.decl] at named
    · have contained := (MemberDraft.of_mem_numbered isMember).1
      rw [contained, decide_eq_true_eq, Option.some.injEq] at named
      rw [← named] at later
      exact Nat.lt_irrefl _ later
  rw [families, List.filter_append, none, List.nil_append]

/-- Families are the declarations that are no members, each followed by its members. -/
theorem families_grouped (next : Nat) (drafts : List Draft) :
    families next drafts = ((families next drafts).filter fun decl => decl.container = none).flatMap
      fun decl => decl :: (families next drafts).filter fun other =>
        other.container = some decl.id := by
  induction drafts generalizing next with
  | nil => rfl
  | cons draft rest inductionHypothesis =>
    have tops : (families next (draft :: rest)).filter (fun decl => decl.container = none) =
        draft.decl next :: (families (next + (draft.family next).length) rest).filter
          fun decl => decl.container = none := by
      have members : (MemberDraft.numbered next (next + 1) draft.members).filter
          (fun decl => decl.container = none) = [] := by
        apply List.filter_eq_nil_iff.mpr
        intro decl isMember
        simp [(MemberDraft.of_mem_numbered isMember).1]
      rw [families, List.filter_append, family, List.filter_cons_of_pos (by simp [decl]), members]
      rfl
    -- A later declaration has a larger number, so it finds the same members without the first family.
    have later : ∀ decl ∈ (families (next + (draft.family next).length) rest).filter
        (fun decl => decl.container = none),
        (decl :: (families next (draft :: rest)).filter fun other =>
          other.container = some decl.id) =
        decl :: (families (next + (draft.family next).length) rest).filter fun other =>
          other.container = some decl.id := by
      intro decl isTop
      have bound := (bounds_of_mem_families (List.mem_filter.mp isTop).1).1
      simp only [family, List.length_cons] at bound
      rw [filter_container_families_of_lt draft rest (by omega)]
    rw [tops, List.flatMap_cons, List.flatMap_congr later, ← inductionHypothesis]
    show _ = (draft.decl next :: (families next (draft :: rest)).filter _) ++ _
    rw [show (draft.decl next).id = ⟨next⟩ from rfl, filter_container_families]
    rfl

end Draft

namespace Program

variable {model : Model}

/-- The declarations of a program are its declarations that are no members, each followed by its
members. -/
theorem decls_ofModel_grouped (numbered : model.Numbered) :
    (ofModel model).index.decls =
      ((ofModel model).index.decls.filter fun decl => decl.container = none).flatMap
        fun decl => decl :: (ofModel model).membersOf decl.id := by
  have members := (wellFormed_ofModel numbered).members
  have grouped := Draft.families_grouped 0 (model.files.flatMap ModelFile.drafts)
  rw [← Index.decls_build] at grouped
  simp only [members]
  exact grouped

end Program

end CodeGraph
