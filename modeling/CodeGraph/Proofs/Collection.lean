import CodeGraph.Proofs.Callable
import CodeGraph.Proofs.Index.Families

/-!
# All functions are collected

The callables of some files are the declarations of these files that have a function, all of them
and in the order of their numbers. Getters and setters are left out, and a constructor is no
declaration.

A declaration with a function could still be lost where its function is not of a kind that has nodes
in a graph. It is not: functions and methods are declared by functions and methods, the value of a
variable or field counts only when it is a function, and every such kind has its kind of node.

## Main Definitions

* `Decl.isCallable`: a declaration that is to be collected.
* `MemberDraft.Shaped`: a declaration that has the node its kind promises.
* `Program.Collects`: the callables are those of some files.

## Main Statements

* `NodeKind.isSome_ofKind?_iff`: the kinds of functions are the kinds that have nodes.
* `Program.map_decl_callableDrafts`: the callables of a top-level declaration and its members.
* `Program.functions_collected`: the callables of distinct files are their functions.
-/

namespace CodeGraph

/-! ### Kinds of functions -/

/-- The kinds of functions are the kinds that have nodes. -/
theorem NodeKind.isSome_ofKind?_iff (kind : Kind) :
    (ofKind? kind).isSome ↔ kind.isFunctionLike := by
  cases kind <;> simp [ofKind?, Kind.isFunctionLike]

/-- A part of a class body is the constructor of the class. -/
def Node.IsConstructor (member : Node) : Prop :=
  member.kind = .methodDefinition ∧ member.memberDraftName? = some "constructor" ∧
    ¬member.isStatic

/-! ### Drafts -/

/-- A declaration has the node its kind promises. -/
structure MemberDraft.Shaped (content : MemberDraft) : Prop where
  /-- What is declared as a function is one. -/
  functionLike : content.kind = .function ∨ content.kind = .method ∨ content.kind = .accessor →
    content.node.kind.isFunctionLike
  /-- The constructor of a class is not declared. -/
  noConstructor : ¬content.node.IsConstructor

namespace MemberDraft

variable {content : MemberDraft}

/-- A declaration whose node is a function other than a method. -/
theorem shaped_of_functionLike (fits : content.node.kind.isFunctionLike)
    (free : content.node.kind ≠ .methodDefinition) : content.Shaped :=
  ⟨fun _ => fits, fun isConstructor => free isConstructor.1⟩

/-- A declaration of another kind whose node is no method. -/
theorem shaped_of_plain
    (plain : content.kind ≠ .function ∧ content.kind ≠ .method ∧ content.kind ≠ .accessor)
    (free : content.node.kind ≠ .methodDefinition) : content.Shaped := by
  refine ⟨fun isFunction => ?_, fun isConstructor => free isConstructor.1⟩
  rcases isFunction with isFunction | isMethod | isAccessor
  · exact absurd isFunction plain.1
  · exact absurd isMethod plain.2.1
  · exact absurd isAccessor plain.2.2

end MemberDraft

namespace Node

/-- A parameter that declares a field is no method. -/
theorem shaped_of_propertyDraft? {parameter : Node} {member : MemberDraft}
    (declared : parameter.propertyDraft? = some member) : member.Shaped := by
  obtain ⟨rfl, isProperty⟩ := of_propertyDraft? declared
  refine MemberDraft.shaped_of_plain (by simp [isProperty]) fun isMethod => ?_
  have pattern : member.node.parameterPattern? = some member.node := by
    simp [parameterPattern?, isMethod]
  simp [propertyDraft?, pattern, isMethod] at declared

theorem shaped_of_mem_memberDrafts {part : Node} {member : MemberDraft}
    (present : member ∈ part.memberDrafts) : member.Shaped := by
  rw [memberDrafts] at present
  have field : ∀ name, part.kind ≠ .methodDefinition →
      MemberDraft.Shaped ⟨.property, name, part⟩ := fun name free =>
    MemberDraft.shaped_of_plain ⟨by simp, by simp, by simp⟩ free
  split at present
  · next isMethod =>
    have fits : part.kind.isFunctionLike := by rw [isMethod]; rfl
    split at present
    · cases present
    · next name isName =>
      split at present
      · obtain ⟨parameter, -, declared⟩ := List.mem_filterMap.mp present
        exact shaped_of_propertyDraft? declared
      · next ordinary =>
        -- What is left of the methods is static or has another name.
        have noConstructor : ¬part.IsConstructor := by
          rintro ⟨-, named, notStatic⟩
          rw [isName] at named
          cases named
          exact ordinary ⟨rfl, by simpa using notStatic⟩
        split at present
        · obtain rfl := List.mem_singleton.mp present
          exact ⟨fun _ => fits, noConstructor⟩
        · obtain rfl := List.mem_singleton.mp present
          exact ⟨fun _ => fits, noConstructor⟩
  · next isField =>
    split at present
    · next name _ =>
      obtain rfl := List.mem_singleton.mp present
      exact field name (by simp [isField])
    · cases present
  · next isField =>
    split at present
    · next name _ =>
      obtain rfl := List.mem_singleton.mp present
      exact field name (by simp [isField])
    · cases present
  · cases present

/-- What a node is read as is no member of a class, and all that it declares has the node its kind
promises. -/
theorem Reads.shaped {place : Node} {drafts : List Draft} (reads : place.Reads drafts) :
    ∀ draft ∈ drafts, ¬draft.kind.IsMember ∧ ∀ content ∈ draft.contents, content.Shaped := by
  induction reads with
  | function name fits free =>
    intro draft only
    obtain rfl := List.mem_singleton.mp only
    refine ⟨by simp [DeclKind.IsMember], fun content itself => ?_⟩
    obtain rfl := List.mem_singleton.mp itself
    exact MemberDraft.shaped_of_functionLike fits free
  | plain name isPlain free =>
    intro draft only
    obtain rfl := List.mem_singleton.mp only
    refine ⟨?_, fun content itself => ?_⟩
    · rcases isPlain with rfl | rfl | rfl <;> simp [DeclKind.IsMember]
    · obtain rfl := List.mem_singleton.mp itself
      refine MemberDraft.shaped_of_plain ?_ free
      rcases isPlain with rfl | rfl | rfl <;> simp
  | @classType node name free =>
    intro draft only
    obtain rfl := List.mem_singleton.mp only
    refine ⟨by simp [DeclKind.IsMember, classDraft], fun content present => ?_⟩
    rcases List.mem_cons.mp present with rfl | isMember
    · exact MemberDraft.shaped_of_plain ⟨by simp [classDraft], by simp [classDraft],
        by simp [classDraft]⟩ free
    · rw [classDraft] at isMember
      split at isMember
      · obtain ⟨part, -, ofPart⟩ := List.mem_flatMap.mp isMember
        exact shaped_of_mem_memberDrafts ofPart
      · cases isMember
  | each _ _ inductionHypothesis =>
    intro draft present
    obtain ⟨child, memChild, ofChild⟩ := List.mem_flatMap.mp present
    exact inductionHypothesis child memChild draft ofChild
  | inside _ _ inductionHypothesis => exact inductionHypothesis

end Node

/-! ### Declarations -/

/-- Whether a declaration is to be collected: a function, a variable, a method or a field that has a
function. -/
def Decl.isCallable (decl : Decl) : Bool :=
  [.function, .variable, .method, .property].contains decl.kind && decl.functionNode?.isSome

/-- The function of a declaration with the node its kind promises is of a kind that has nodes. -/
theorem Decl.isSome_ofKind?_of_functionNode? {decl : Decl} {function : Node}
    (shaped : decl.content.Shaped) (found : decl.functionNode? = some function) :
    (NodeKind.ofKind? function.kind).isSome := by
  rw [NodeKind.isSome_ofKind?_iff]
  have valued : (decl.value?.map Node.unwrap).filter (fun value => value.kind.isFunctionValue) =
      some function → function.kind.isFunctionLike := by
    intro isFunction
    exact (Kind.isFunctionLike_of_isFunctionValue (Option.filter_eq_some_iff.mp isFunction).2).1
  rw [functionNode?] at found
  split at found
  · next kind => cases found; exact shaped.functionLike (Or.inl kind)
  · next kind => cases found; exact shaped.functionLike (Or.inr (Or.inl kind))
  · next kind => cases found; exact shaped.functionLike (Or.inr (Or.inr kind))
  · exact valued found
  · exact valued found
  all_goals cases found

namespace Program

variable {model : Model} {conventions : Conventions}

/-- All declarations of a program have the nodes their kinds promise. -/
theorem shaped_of_mem_decls {decl : Decl} (present : decl ∈ (ofModel model).index.decls) :
    decl.content.Shaped := by
  have content : decl.content ∈ (Index.build model.files).decls.map Decl.content :=
    List.mem_map_of_mem present
  rw [Index.contents_build] at content
  obtain ⟨file, -, inFile⟩ := List.mem_flatMap.mp content
  obtain ⟨draft, memDraft, ofDraft⟩ := List.mem_flatMap.mp inFile
  exact ((Node.reads_fileItems file.root).shaped draft memDraft).2 _ ofDraft

/-- A declaration of a program that belongs to no class is not of a kind of members. -/
theorem not_isMember_of_top {decl : Decl} (present : decl ∈ (ofModel model).index.decls)
    (top : decl.container = none) : ¬decl.kind.IsMember := by
  change decl ∈ (Index.build model.files).decls at present
  rw [Index.decls_build] at present
  obtain ⟨draft, memDraft, kind⟩ := Draft.exists_draft_of_mem_families present top
  obtain ⟨file, -, inFile⟩ := List.mem_flatMap.mp memDraft
  rw [kind]
  exact ((Node.reads_fileItems file.root).shaped draft inFile).1

/-- A declaration gives a callable exactly when it has a function. -/
theorem map_decl_callableDraft? {decl : Decl} (shaped : decl.content.Shaped)
    (className : Option String) (role : Option Role) :
    (callableDraft? className role decl).map CallableDraft.decl =
      if decl.functionNode?.isSome then some decl else none := by
  cases found : decl.functionNode? with
  | none => simp [callableDraft?, found]
  | some function =>
    obtain ⟨kind, isKind⟩ := Option.isSome_iff_exists.mp
      (decl.isSome_ofKind?_of_functionNode? shaped found)
    simp [callableDraft?, found, isKind]

/-- The callables among the members of a class. -/
theorem map_decl_filterMap_members {members : List Decl} {className : Option String}
    {role : Option Role} (shaped : ∀ member ∈ members, member.content.Shaped)
    (kinds : ∀ member ∈ members, member.kind.IsMember) :
    ((members.filterMap fun member =>
      if member.kind = .method ∨ member.kind = .property then
        callableDraft? className role member
      else none).map CallableDraft.decl) = members.filter Decl.isCallable := by
  rw [List.map_filterMap, ← List.filterMap_eq_filter]
  refine List.filterMap_congr fun member present => ?_
  have isDraft := map_decl_callableDraft? (shaped member present) className role
  rcases kinds member present with isMethod | isAccessor | isProperty
  · rw [if_pos (Or.inl isMethod), isDraft]
    simp [Option.guard, Decl.isCallable, isMethod]
  · rw [if_neg (by simp [isAccessor])]
    simp [Option.guard, Decl.isCallable, isAccessor]
  · rw [if_pos (Or.inr isProperty), isDraft]
    simp [Option.guard, Decl.isCallable, isProperty]

/-- A declaration that is no class has no members. -/
theorem WellFormed.membersOf_eq_nil {program : Program} (wellFormed : program.WellFormed)
    {decl : Decl} (present : decl ∈ program.index.decls) (noClass : decl.kind ≠ .classType) :
    program.membersOf decl.id = [] := by
  apply List.eq_nil_iff_forall_not_mem.mpr
  intro member isMember
  obtain ⟨declared, contained⟩ := wellFormed.mem_membersOf_iff.mp isMember
  obtain ⟨-, holder, here, isClass, -⟩ := wellFormed.container member declared _ contained
  rw [wellFormed.getElem?_of_mem present] at here
  cases here
  exact noClass (by simpa [Decl.isClass] using isClass)

/-- The callables of a top-level declaration are those among the declaration and its members. -/
theorem map_decl_callableDrafts (numbered : model.Numbered) {decl : Decl}
    (present : decl ∈ (ofModel model).index.decls) (top : decl.container = none) :
    ((ofModel model).callableDrafts conventions decl).map CallableDraft.decl =
      (decl :: (ofModel model).membersOf decl.id).filter Decl.isCallable := by
  have wellFormed := wellFormed_ofModel numbered
  have shaped := shaped_of_mem_decls present
  have single : decl.kind = .function ∨ decl.kind = .variable →
      ((callableDraft? none (some .helper) decl).toList).map CallableDraft.decl =
        (decl :: (ofModel model).membersOf decl.id).filter Decl.isCallable := by
    intro kind
    have noClass : decl.kind ≠ .classType := by rcases kind with kind | kind <;> simp [kind]
    have told : decl.isCallable = decl.functionNode?.isSome := by
      rcases kind with kind | kind <;> simp [Decl.isCallable, kind]
    rw [wellFormed.membersOf_eq_nil present noClass, ← Option.toList_map,
      map_decl_callableDraft? shaped, List.filter_singleton, told]
    cases decl.functionNode?.isSome <;> rfl
  unfold callableDrafts
  split
  · next kind => exact single (Or.inl kind)
  · next kind => exact single (Or.inr kind)
  · next kind =>
    rw [List.filter_cons_of_neg (by simp [Decl.isCallable, kind])]
    refine map_decl_filterMap_members (fun member isMember => ?_) (wellFormed.memberKind decl.id)
    exact shaped_of_mem_decls (wellFormed.mem_membersOf_iff.mp isMember).1
  · next noFunction noVariable noClass =>
    have noMember := not_isMember_of_top present top
    rw [wellFormed.membersOf_eq_nil present noClass]
    cases kind : decl.kind <;> simp_all [Decl.isCallable, DeclKind.IsMember]

/-! ### Files -/

/-- The declarations of a file are its top-level declarations, each followed by its members. -/
theorem filter_file_decls (numbered : model.Numbered) {file : ModelFile}
    (memFile : file ∈ model.files) :
    (ofModel model).index.decls.filter (fun decl => decl.file.id = file.source.id) =
      ((ofModel model).scopeOf file.source).topLevel.flatMap fun decl =>
        decl :: (ofModel model).membersOf decl.id := by
  have wellFormed := wellFormed_ofModel numbered
  -- Members are declared in the file of their class.
  have told : ∀ decl ∈ (ofModel model).index.decls.filter (fun decl => decl.container = none),
      ∀ member ∈ decl :: (ofModel model).membersOf decl.id,
        decide (member.file.id = file.source.id) = decide (decl.file.id = file.source.id) := by
    intro decl isTop member inFamily
    rcases List.mem_cons.mp inFamily with rfl | isMember
    · rfl
    · obtain ⟨declared, contained⟩ := wellFormed.mem_membersOf_iff.mp isMember
      obtain ⟨-, holder, here, -, sameFile⟩ := wellFormed.container member declared _ contained
      rw [wellFormed.getElem?_of_mem (List.mem_filter.mp isTop).1] at here
      cases here
      rw [sameFile]
  have grouped := congrArg (List.filter fun decl => decl.file.id = file.source.id)
    (decls_ofModel_grouped numbered)
  rw [Keyed.filter_flatMap_of_told told, List.filter_filter] at grouped
  rw [wellFormed.topLevel file memFile, grouped]
  congr 1
  refine List.filter_congr fun decl _ => ?_
  exact Bool.and_comm _ _

/-- The callables of files are declared, file by file, by the declarations that are to be
collected. -/
theorem map_decl_draftsOf (numbered : model.Numbered) {files : List SourceFile}
    (known : ∀ file ∈ files, (ofModel model).HasFile file) :
    ((ofModel model).draftsOf conventions files).map CallableDraft.decl =
      files.flatMap fun file => (ofModel model).index.decls.filter fun decl =>
        decl.file.id = file.id && decl.isCallable := by
  rw [draftsOf, topLevels, List.flatMap_assoc, List.map_flatMap]
  refine List.flatMap_congr fun file memFile => ?_
  obtain ⟨found, memFound, rfl⟩ := known file memFile
  have each : ∀ decl ∈ ((ofModel model).scopeOf found.source).topLevel,
      ((ofModel model).callableDrafts conventions decl).map CallableDraft.decl =
        (decl :: (ofModel model).membersOf decl.id).filter Decl.isCallable := by
    intro decl isTop
    rw [(wellFormed_ofModel numbered).topLevel found memFound, List.mem_filter] at isTop
    have top : decl.container = none := by simpa using (Bool.and_eq_true_iff.mp isTop.2).1
    exact map_decl_callableDrafts numbered isTop.1 top
  rw [List.map_flatMap, List.flatMap_congr each, ← List.filter_flatMap,
    ← filter_file_decls numbered memFound, List.filter_filter]
  refine List.filter_congr fun decl _ => ?_
  exact Bool.and_comm _ _

/-- The callables are the functions of some files. -/
structure Collects (program : Program) (files : List SourceFile) (collected : Collected) :
    Prop where
  /-- They are declared, file by file, by the declarations that are to be collected. -/
  decls : collected.callables.map Callable.decl = files.flatMap fun file =>
    program.index.decls.filter fun decl => decl.file.id = file.id && decl.isCallable
  /-- In a file they come in the order of their numbers. -/
  ascending : ∀ file ∈ files,
    ((program.index.decls.filter fun decl => decl.file.id = file.id && decl.isCallable).map
      fun decl => decl.id.val).Pairwise (· < ·)
  /-- No declaration occurs twice. -/
  once : (collected.callables.map fun callable => callable.decl.id).Nodup
  /-- No identifier occurs twice. -/
  ids : (collected.callables.map Callable.id).Nodup
  /-- A callable carries the function of its declaration. -/
  functions : ∀ callable ∈ collected.callables,
    callable.decl.functionNode? = some callable.function
  /-- Looking a declaration up finds its callable. -/
  found : ∀ id callable, collected.get? id = some callable ↔
    callable ∈ collected.callables ∧ callable.decl.id = id
  /-- Looking up succeeds for the declarations of the files that are to be collected. -/
  known : ∀ id, (collected.get? id).isSome ↔ ∃ decl ∈ program.index.decls,
    decl.id = id ∧ decl.isCallable ∧ decl.file.id ∈ files.map SourceFile.id
  /-- Every function that a declaration has is of a kind that has nodes. -/
  kinded : ∀ decl ∈ program.index.decls, ∀ function, decl.functionNode? = some function →
    (NodeKind.ofKind? function.kind).isSome
  /-- No callable is an accessor or a constructor. -/
  ordinary : ∀ callable ∈ collected.callables,
    callable.decl.kind ≠ .accessor ∧ ¬callable.decl.node.IsConstructor

theorem map_decl_collect (program : Program) (conventions : Conventions)
    (files : List SourceFile) :
    (program.collect conventions files).callables.map Callable.decl =
      (program.draftsOf conventions files).map CallableDraft.decl := by
  rw [← drafts_collect, List.map_map]
  rfl

theorem functionNode?_of_callableDraft? {className : Option String} {role : Option Role}
    {decl : Decl} {draft : CallableDraft} (found : callableDraft? className role decl = some draft) :
    draft.decl.functionNode? = some draft.function := by
  obtain ⟨function, isFunction, rest⟩ := Option.bind_eq_some_iff.mp found
  obtain ⟨kind, -, result⟩ := Option.bind_eq_some_iff.mp rest
  cases result
  exact isFunction

theorem functionNode?_of_mem_callableDrafts {program : Program} {decl : Decl}
    {draft : CallableDraft} (drafted : draft ∈ program.callableDrafts conventions decl) :
    draft.decl.functionNode? = some draft.function := by
  unfold callableDrafts at drafted
  split at drafted
  · exact functionNode?_of_callableDraft? (Option.mem_toList.mp drafted)
  · exact functionNode?_of_callableDraft? (Option.mem_toList.mp drafted)
  · obtain ⟨member, -, found⟩ := List.mem_filterMap.mp drafted
    split at found
    · exact functionNode?_of_callableDraft? found
    · cases found
  · cases drafted

theorem functionNode?_of_mem_collect {program : Program} {files : List SourceFile}
    {callable : Callable} (present : callable ∈ (program.collect conventions files).callables) :
    callable.decl.functionNode? = some callable.function := by
  have drafted : callable.draft ∈ program.draftsOf conventions files := by
    rw [← drafts_collect]
    exact List.mem_map_of_mem present
  obtain ⟨decl, -, ofDecl⟩ := List.mem_flatMap.mp drafted
  exact functionNode?_of_mem_callableDrafts ofDecl

/-- A declaration has a callable exactly when it is one of the files and is to be collected. -/
theorem mem_decls_collect_iff (numbered : model.Numbered) {files : List SourceFile}
    (known : ∀ file ∈ files, (ofModel model).HasFile file) {decl : Decl} :
    decl ∈ ((ofModel model).collect conventions files).callables.map Callable.decl ↔
      decl ∈ (ofModel model).index.decls ∧ decl.isCallable ∧
        decl.file.id ∈ files.map SourceFile.id := by
  rw [map_decl_collect, map_decl_draftsOf numbered known]
  simp only [List.mem_flatMap, List.mem_filter, Bool.and_eq_true, decide_eq_true_eq,
    List.mem_map]
  constructor
  · rintro ⟨file, memFile, present, same, isCallable⟩
    exact ⟨present, isCallable, file, memFile, same.symm⟩
  · rintro ⟨present, isCallable, file, memFile, same⟩
    exact ⟨file, memFile, present, same.symm, isCallable⟩

/-- Looking a declaration up succeeds exactly when it is one of the files and is to be collected. -/
theorem isSome_get?_collect_iff (numbered : model.Numbered) {files : List SourceFile}
    (scopes : (ofModel model).Scopes files) {id : DeclId} :
    (((ofModel model).collect conventions files).get? id).isSome ↔
      ∃ decl ∈ (ofModel model).index.decls,
        decl.id = id ∧ decl.isCallable ∧ decl.file.id ∈ files.map SourceFile.id := by
  have distinct := (wellFormed_ofModel numbered).distinct_collect scopes conventions
  constructor
  · intro isFound
    obtain ⟨callable, look⟩ := Option.isSome_iff_exists.mp isFound
    obtain ⟨present, same⟩ := distinct.get?_eq_some_iff.mp look
    obtain ⟨declared, isCallable, inFiles⟩ :=
      (mem_decls_collect_iff numbered scopes.known).mp (List.mem_map_of_mem present)
    exact ⟨callable.decl, declared, same, isCallable, inFiles⟩
  · rintro ⟨decl, declared, same, isCallable, inFiles⟩
    obtain ⟨callable, present, rfl⟩ := List.mem_map.mp
      ((mem_decls_collect_iff numbered scopes.known).mpr ⟨declared, isCallable, inFiles⟩)
    rw [distinct.get?_eq_some_iff.mpr ⟨present, same⟩]
    rfl

/-- The callables of distinct files are the functions of these files. -/
theorem functions_collected (settings : AnalysisSettings) (inputs : List Input)
    (conventions : Conventions) (files : List SourceFile)
    (scopes : (ofModel (Model.build settings inputs)).Scopes files) :
    (ofModel (Model.build settings inputs)).Collects files
      ((ofModel (Model.build settings inputs)).collect conventions files) := by
  have numbered := Model.numbered_build settings inputs
  generalize Model.build settings inputs = model at scopes numbered ⊢
  have distinct := (wellFormed_ofModel numbered).distinct_collect scopes conventions
  have ascending : ((ofModel model).index.decls.map fun decl => decl.id.val).Pairwise (· < ·) :=
    (Index.indexes_build numbered.nodup_ids).tabled.ascending
  refine
    { decls := ?_
      ascending := fun file _ => ascending.sublist (List.filter_sublist.map _)
      once := distinct.decls
      ids := distinct.ids
      functions := fun callable present => functionNode?_of_mem_collect present
      found := fun id callable => distinct.get?_eq_some_iff
      known := fun id => isSome_get?_collect_iff numbered scopes
      kinded := fun decl present function isFunction => ?_
      ordinary := fun callable present => ?_ }
  · rw [map_decl_collect, map_decl_draftsOf numbered scopes.known]
  · exact decl.isSome_ofKind?_of_functionNode? (shaped_of_mem_decls present) isFunction
  · obtain ⟨declared, isCallable, -⟩ :=
      (mem_decls_collect_iff numbered scopes.known).mp (List.mem_map_of_mem present)
    refine ⟨fun isAccessor => ?_, (shaped_of_mem_decls declared).noConstructor⟩
    simp [Decl.isCallable, isAccessor] at isCallable

/-- A class with a constructor whose parameter declares a function, a getter and a method, and a
function that the others call. -/
def callsFromClass : Input where
  path := "a.ts"
  text := "class C\x7bconstructor(private f=()=>g())\x7b\x7dget p()\x7b\x7dm()\x7bg()\x7d\x7d" ++
    "function g()\x7b\x7d"
  tree := some <|
    .node ⟨.program, none, true, false, 0, 72⟩ [
      .node ⟨.classDeclaration, none, true, false, 0, 58⟩ [
        .node ⟨.typeIdentifier, some .name, true, false, 6, 7⟩ [],
        .node ⟨.classBody, some .body, true, false, 7, 58⟩ [
          .node ⟨.methodDefinition, none, true, false, 8, 40⟩ [
            .node ⟨.propertyIdentifier, some .name, true, false, 8, 19⟩ [],
            .node ⟨.formalParameters, some .parameters, true, false, 19, 38⟩ [
              .node ⟨.requiredParameter, none, true, false, 20, 37⟩ [
                .node ⟨.accessibilityModifier, none, true, false, 20, 27⟩ [],
                .node ⟨.identifier, some .pattern, true, false, 28, 29⟩ [],
                .node ⟨.arrowFunction, some .value, true, false, 30, 37⟩ [
                  .node ⟨.formalParameters, some .parameters, true, false, 30, 32⟩ [],
                  .node ⟨.callExpression, some .body, true, false, 34, 37⟩ [
                    .node ⟨.identifier, some .function, true, false, 34, 35⟩ [],
                    .node ⟨.arguments, some .arguments, true, false, 35, 37⟩ []]]]],
            .node ⟨.statementBlock, some .body, true, false, 38, 40⟩ []],
          .node ⟨.methodDefinition, none, true, false, 40, 49⟩ [
            .node ⟨.getWord, none, false, false, 40, 43⟩ [],
            .node ⟨.propertyIdentifier, some .name, true, false, 44, 45⟩ [],
            .node ⟨.formalParameters, some .parameters, true, false, 45, 47⟩ [],
            .node ⟨.statementBlock, some .body, true, false, 47, 49⟩ []],
          .node ⟨.methodDefinition, none, true, false, 49, 57⟩ [
            .node ⟨.propertyIdentifier, some .name, true, false, 49, 50⟩ [],
            .node ⟨.formalParameters, some .parameters, true, false, 50, 52⟩ [],
            .node ⟨.statementBlock, some .body, true, false, 52, 57⟩ [
              .node ⟨.other "expression_statement", none, true, false, 53, 56⟩ [
                .node ⟨.callExpression, none, true, false, 53, 56⟩ [
                  .node ⟨.identifier, some .function, true, false, 53, 54⟩ [],
                  .node ⟨.arguments, some .arguments, true, false, 54, 56⟩ []]]]]]],
      .node ⟨.functionDeclaration, none, true, false, 58, 72⟩ [
        .node ⟨.identifier, some .name, true, false, 67, 68⟩ [],
        .node ⟨.formalParameters, some .parameters, true, false, 68, 70⟩ [],
        .node ⟨.statementBlock, some .body, true, false, 70, 72⟩ []]]

/-- The function of the parameter is collected, the constructor and the getter are not. -/
theorem functions_collected_callsFromClass :
    let program := ofModel (Model.build {} [callsFromClass])
    let files := Analysis.scopeFiles program.model ["a.ts"]
    program.Scopes files ∧ program.Collects files (program.collect {} files) ∧
      (program.collect {} files).callables.map (fun callable => callable.decl.name) =
        ["f", "m", "g"] := by
  intro program files
  have scopes : program.Scopes files := Analysis.scopes_scopeFiles program.model ["a.ts"]
  exact ⟨scopes, functions_collected {} [callsFromClass] {} files scopes, by decide +kernel⟩

end Program

end CodeGraph
