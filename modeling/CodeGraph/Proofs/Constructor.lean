import CodeGraph.Proofs.Collection
import CodeGraph.Proofs.Resolve.Kinds

/-!
# The two readings of a constructor

The constructor of a class is looked for twice. The index takes for it every method that is named
`constructor`, in whatever way the name is written, and that is not static: such a method is no
member, and the fields among its parameters are. Injection takes for it the first method whose name
is written `constructor`, and does not ask whether the method is static.

So the two may take different methods. A static method of that name is a member to the index and the
constructor to injection; a constructor whose name is quoted declares fields and has nothing
injected. They agree exactly when the first method that one of them takes is taken by both.

## Main Definitions

* `Node.classParts`: the parts of the body of a class.
* `Node.isSpelledConstructor`: the test that injection makes.
* `Node.constructor?`: the first constructor in the reading of the index.
* `Program.ReadsConstructor`: how the two readings relate in a class.

## Main Statements

* `find?_eq_find?_iff`: when two searches of a list find the same.
* `Draft.content_members_families`: the members of a declaration are those of its draft.
* `Node.firstConstructor?_eq_constructor?_iff`: when the two readings agree.
* `Program.content_membersOf`: the members of a class are what the parts of its body declare.
* `Program.constructor_readTwice`: the readings of the constructor of any class.
* `Program.staticMethod_takenForConstructor`: a class in which they differ.
-/

namespace CodeGraph

/-- Two searches find the same exactly when the first element that passes one of the tests passes
both. -/
theorem find?_eq_find?_iff {α : Type} {p q : α → Bool} {list : List α} :
    list.find? p = list.find? q ↔
      ∀ a, list.find? (fun a => p a || q a) = some a → p a ∧ q a := by
  induction list with
  | nil => simp
  | cons first rest inductionHypothesis =>
    by_cases passes : p first || q first
    · rw [List.find?_cons_of_pos (p := fun a => p a || q a) passes]
      constructor
      · rintro same a ⟨⟩
        -- Whichever test the first element passes, the search with the other test finds it too.
        rcases (Bool.or_eq_true _ _).mp passes with one | other
        · rw [List.find?_cons_of_pos one] at same
          exact ⟨one, List.find?_some same.symm⟩
        · rw [List.find?_cons_of_pos other] at same
          exact ⟨List.find?_some same, other⟩
      · intro both
        obtain ⟨one, other⟩ := both first rfl
        rw [List.find?_cons_of_pos one, List.find?_cons_of_pos other]
    · obtain ⟨one, other⟩ := not_or.mp (mt (Bool.or_eq_true _ _).mpr passes)
      rw [List.find?_cons_of_neg (p := fun a => p a || q a) passes, List.find?_cons_of_neg one,
        List.find?_cons_of_neg other]
      exact inductionHypothesis

/-! ### The parts of a class -/

namespace Node

/-- The parts of the body of a class. -/
def classParts (node : Node) : List Node :=
  match node.child? .body with
  | some body => body.namedChildren
  | none => []

/-- A part of a class body is a method whose name is written `constructor`. -/
def isSpelledConstructor (part : Node) : Bool :=
  part.kind = .methodDefinition && (part.child? .name).any fun name => name.text = "constructor"

instance decidableIsConstructor (part : Node) : Decidable part.IsConstructor :=
  inferInstanceAs (Decidable (_ ∧ _ ∧ ¬_))

/-- The first part of a class that is its constructor. -/
def constructor? (node : Node) : Option Node :=
  node.classParts.find? fun part => part.IsConstructor

theorem firstConstructor?_eq_find? (node : Node) :
    node.firstConstructor? = node.classParts.find? isSpelledConstructor := by
  unfold firstConstructor? classParts
  cases node.child? .body <;> rfl

theorem members_classDraft (node : Node) (name : String) :
    (node.classDraft name).members = node.classParts.flatMap memberDrafts := by
  unfold classDraft classParts
  cases node.child? .body <;> rfl

/-- A constructor declares the fields among its parameters. -/
theorem memberDrafts_of_isConstructor {part : Node} (isConstructor : part.IsConstructor) :
    part.memberDrafts = part.parameterProperties := by
  obtain ⟨isMethod, named, notStatic⟩ := isConstructor
  simp [memberDrafts, isMethod, named, notStatic]

/-- A method with a name that is no constructor declares itself, and not as a field. -/
theorem mem_memberDrafts_of_method {part : Node} {name : String}
    (isMethod : part.kind = .methodDefinition) (named : part.memberDraftName? = some name)
    (ordinary : ¬part.IsConstructor) :
    ∃ member ∈ part.memberDrafts, member.node = part ∧ member.name = name ∧
      member.kind ≠ .property := by
  have noConstructor : ¬(name = "constructor" ∧ !part.isStatic) := by
    rintro ⟨rfl, notStatic⟩
    exact ordinary ⟨isMethod, named, by simpa using notStatic⟩
  simp only [memberDrafts, isMethod, named, if_neg noConstructor]
  split
  · exact ⟨_, List.mem_singleton_self _, rfl, rfl, by simp⟩
  · exact ⟨_, List.mem_singleton_self _, rfl, rfl, by simp⟩

/-- Only a constructor declares members elsewhere than at itself. -/
theorem node_of_mem_memberDrafts {part : Node} {member : MemberDraft}
    (present : member ∈ part.memberDrafts) (ordinary : ¬part.IsConstructor) :
    member.node = part := by
  rw [memberDrafts] at present
  split at present
  · next isMethod =>
    split at present
    · cases present
    · next name named =>
      split at present
      · next isConstructor =>
        obtain ⟨rfl, notStatic⟩ := isConstructor
        exact absurd ⟨isMethod, named, by simpa using notStatic⟩ ordinary
      · split at present <;> exact List.mem_singleton.mp present ▸ rfl
  · split at present
    · exact List.mem_singleton.mp present ▸ rfl
    · cases present
  · split at present
    · exact List.mem_singleton.mp present ▸ rfl
    · cases present
  · cases present

/-- Parts without a constructor declare members at themselves. -/
theorem node_mem_of_mem_flatMap_memberDrafts {parts : List Node} {member : MemberDraft}
    (ordinary : ∀ part ∈ parts, ¬part.IsConstructor)
    (present : member ∈ parts.flatMap memberDrafts) : member.node ∈ parts := by
  obtain ⟨part, memPart, ofPart⟩ := List.mem_flatMap.mp present
  rw [node_of_mem_memberDrafts ofPart (ordinary part memPart)]
  exact memPart

/-! ### The two searches -/

/-- The searches agree exactly when the first part that is the constructor in one reading is the
constructor in both. -/
theorem firstConstructor?_eq_constructor?_iff {node : Node} :
    node.firstConstructor? = node.constructor? ↔ ∀ part,
      (node.classParts.find? fun part =>
        part.isSpelledConstructor || decide part.IsConstructor) = some part →
          part.isSpelledConstructor ∧ part.IsConstructor := by
  rw [firstConstructor?_eq_find?, constructor?, find?_eq_find?_iff]
  simp only [decide_eq_true_eq]

/-- The fields of the first constructor follow on what parts of the body declare themselves. -/
theorem memberDrafts_of_constructor? {node constructor : Node}
    (found : node.constructor? = some constructor) :
    ∃ before after, node.classParts.flatMap memberDrafts =
      before ++ constructor.parameterProperties ++ after ∧
        ∀ content ∈ before, content.node ∈ node.classParts := by
  obtain ⟨isConstructor, before, after, parts, ordinary⟩ := List.find?_eq_some_iff_append.mp found
  refine ⟨before.flatMap memberDrafts, after.flatMap memberDrafts, ?_, fun content present => ?_⟩
  · rw [parts, List.flatMap_append, List.flatMap_cons,
      memberDrafts_of_isConstructor (of_decide_eq_true isConstructor), List.append_assoc]
  · rw [parts]
    apply List.mem_append_left
    exact node_mem_of_mem_flatMap_memberDrafts
      (fun part memPart => by simpa using ordinary part memPart) present

theorem node_mem_of_constructor?_eq_none {node : Node} (missing : node.constructor? = none)
    {member : MemberDraft} (present : member ∈ node.classParts.flatMap memberDrafts) :
    member.node ∈ node.classParts := by
  refine node_mem_of_mem_flatMap_memberDrafts (fun part memPart => ?_) present
  simpa using List.find?_eq_none.mp missing part memPart

/-- A method with a name that only the search by spelling takes for the constructor declares itself
as a member. -/
theorem exists_member_of_firstConstructor? {node method : Node} {name : String}
    (found : node.firstConstructor? = some method) (ordinary : ¬method.IsConstructor)
    (named : method.memberDraftName? = some name) :
    ∃ content ∈ node.classParts.flatMap memberDrafts, content.node = method ∧
      content.name = name ∧ content.kind ≠ .property := by
  rw [firstConstructor?_eq_find?] at found
  have spelled := List.find?_some found
  have isMethod : method.kind = .methodDefinition :=
    of_decide_eq_true ((Bool.and_eq_true _ _).mp spelled).1
  obtain ⟨content, ofMethod, declared⟩ := mem_memberDrafts_of_method isMethod named ordinary
  exact ⟨content, List.mem_flatMap.mpr ⟨method, List.mem_of_find?_eq_some found, ofMethod⟩,
    declared⟩

/-- A class is read as itself with the members that its parts declare. -/
theorem Reads.members_of_classType {place : Node} {drafts : List Draft}
    (reads : place.Reads drafts) :
    ∀ draft ∈ drafts, draft.kind = .classType →
      draft.members = draft.node.classParts.flatMap memberDrafts := by
  induction reads with
  | function =>
    intro draft only isClass
    obtain rfl := List.mem_singleton.mp only
    cases isClass
  | plain name isPlain =>
    intro draft only isClass
    obtain rfl := List.mem_singleton.mp only
    rcases isPlain with rfl | rfl | rfl <;> cases isClass
  | @classType node name =>
    intro draft only _
    obtain rfl := List.mem_singleton.mp only
    exact members_classDraft node name
  | each _ _ inductionHypothesis =>
    intro draft present
    obtain ⟨child, memChild, ofChild⟩ := List.mem_flatMap.mp present
    exact inductionHypothesis child memChild draft ofChild
  | inside _ _ inductionHypothesis => exact inductionHypothesis

end Node

/-! ### The members of a class -/

/-- The members of a declaration are those of the draft that it stems from. -/
theorem Draft.content_members_families {next : Nat} {drafts : List Draft} {decl : Decl}
    (present : decl ∈ families next drafts) (top : decl.container = none) :
    ∃ draft ∈ drafts, decl.content = ⟨draft.kind, draft.name, draft.node⟩ ∧
      ((families next drafts).filter fun member => member.container = some decl.id).map
        Decl.content = draft.members := by
  induction drafts generalizing next with
  | nil => cases present
  | cons draft rest inductionHypothesis =>
    have split := present
    rw [families, family, List.cons_append] at split
    rcases List.mem_cons.mp split with rfl | inRest
    · refine ⟨draft, List.mem_cons_self, rfl, ?_⟩
      rw [show (draft.decl next).id = ⟨next⟩ from rfl, filter_container_families,
        MemberDraft.content_numbered]
    · rcases List.mem_append.mp inRest with isMember | later
      · cases (MemberDraft.of_mem_numbered isMember).1.symm.trans top
      · obtain ⟨found, memFound, same, members⟩ := inductionHypothesis later
        have bound := (bounds_of_mem_families later).1
        simp only [List.length_cons] at bound
        refine ⟨found, List.mem_cons_of_mem _ memFound, same, ?_⟩
        rw [filter_container_families_of_lt draft rest (by omega)]
        exact members

namespace Program

/-- A class is no member of another one. -/
theorem WellFormed.container_of_declaresClass {program : Program} (wellFormed : program.WellFormed)
    {owner : Decl} (isOwner : program.DeclaresClass owner) : owner.container = none := by
  cases contained : owner.container with
  | none => rfl
  | some outer =>
    have kind := wellFormed.memberKind outer owner
      (wellFormed.mem_membersOf_iff.mpr ⟨isOwner.declared, contained⟩)
    have isClass : owner.kind = .classType := by simpa [Decl.isClass] using isOwner.isClass
    rw [isClass] at kind
    simp [DeclKind.IsMember] at kind

/-- The members of a class are what the parts of its body declare. -/
theorem content_membersOf {model : Model} (numbered : model.Numbered) {owner : Decl}
    (isOwner : (ofModel model).DeclaresClass owner) :
    ((ofModel model).membersOf owner.id).map Decl.content =
      owner.node.classParts.flatMap Node.memberDrafts := by
  have wellFormed := wellFormed_ofModel numbered
  have declared : owner ∈ (Index.build model.files).decls := isOwner.declared
  rw [Index.decls_build] at declared
  obtain ⟨draft, memDraft, content, members⟩ := Draft.content_members_families declared
    (wellFormed.container_of_declaresClass isOwner)
  obtain ⟨file, -, inFile⟩ := List.mem_flatMap.mp memDraft
  have kind : owner.kind = draft.kind := congrArg MemberDraft.kind content
  have node : owner.node = draft.node := congrArg MemberDraft.node content
  have isClass : draft.kind = .classType := by
    simpa [Decl.isClass, kind] using isOwner.isClass
  rw [wellFormed.members, node,
    ← (Node.reads_fileItems file.root).members_of_classType draft inFile isClass, ← members,
    ← Index.decls_build]
  rfl

/-! ### The constructor of a class -/

/-- How the reading of the index and the reading of injection relate in a class. -/
structure ReadsConstructor (program : Program) (conventions : Conventions) (owner : Decl) :
    Prop where
  /-- They agree exactly when the first part that is the constructor in one reading is the
  constructor in both. -/
  agree : owner.node.firstConstructor? = owner.node.constructor? ↔ ∀ part,
    (owner.node.classParts.find? fun part =>
      part.isSpelledConstructor || decide part.IsConstructor) = some part →
        part.isSpelledConstructor ∧ part.IsConstructor
  /-- The fields that are indexed first among those of parameters are the fields of the
  constructor; what comes before is declared by parts of the body. -/
  indexed : ∀ constructor, owner.node.constructor? = some constructor → ∃ before after,
    (program.membersOf owner.id).map Decl.content =
      before ++ constructor.parameterProperties ++ after ∧
        ∀ content ∈ before, content.node ∈ owner.node.classParts
  /-- Without a constructor no field of a parameter is indexed. -/
  unindexed : owner.node.constructor? = none →
    ∀ member ∈ program.membersOf owner.id, member.node ∈ owner.node.classParts
  /-- When they agree, the parameters of the constructor are asked for what is injected. -/
  injected : owner.node.firstConstructor? = owner.node.constructor? →
    program.dependencies conventions owner =
      (owner.node.constructor?.toList.flatMap Node.parameters).filterMap
        (program.parameterClass? conventions)
  /-- A method with a name that only injection takes for the constructor is a member of the class,
  and no field. -/
  mistaken : ∀ method name, owner.node.firstConstructor? = some method → ¬method.IsConstructor →
    method.memberDraftName? = some name → ∃ member ∈ program.membersOf owner.id,
      member.node = method ∧ member.name = name ∧ member.kind ≠ .property

/-- **The constructor of a class is read in two ways.** -/
theorem constructor_readTwice (settings : AnalysisSettings) (inputs : List Input)
    (conventions : Conventions) (owner : Decl)
    (isOwner : (ofModel (Model.build settings inputs)).DeclaresClass owner) :
    (ofModel (Model.build settings inputs)).ReadsConstructor conventions owner := by
  have members := content_membersOf (Model.numbered_build settings inputs) isOwner
  generalize ofModel (Model.build settings inputs) = program at members
  refine
    { agree := Node.firstConstructor?_eq_constructor?_iff
      indexed := fun constructor found => members ▸ Node.memberDrafts_of_constructor? found
      unindexed := fun missing member present => ?_
      injected := fun same => ?_
      mistaken := fun method name found ordinary named => ?_ }
  · have content : member.content ∈ owner.node.classParts.flatMap Node.memberDrafts :=
      members ▸ List.mem_map_of_mem present
    exact Node.node_mem_of_constructor?_eq_none missing content
  · rw [dependencies, same]
    cases owner.node.constructor? with
    | none => rfl
    | some constructor => simp
  · obtain ⟨content, present, declared⟩ :=
      Node.exists_member_of_firstConstructor? found ordinary named
    rw [← members] at present
    obtain ⟨member, isMember, rfl⟩ := List.mem_map.mp present
    exact ⟨member, isMember, declared⟩

/-! ### A class with a static method named as the constructor -/

/-- Two classes: the first has a constructor that asks for an instance, the second has only a static
method of that name. -/
def staticNamesake : Input where
  path := "a.ts"
  text := "class A\x7bconstructor(private a:A)\x7b\x7d\x7d" ++
    "class C\x7bstatic constructor()\x7b\x7d\x7d"
  tree := some <|
    .node ⟨.program, none, true, false, 0, 66⟩ [
      .node ⟨.classDeclaration, none, true, false, 0, 35⟩ [
        .node ⟨.typeIdentifier, some .name, true, false, 6, 7⟩ [],
        .node ⟨.classBody, some .body, true, false, 7, 35⟩ [
          .node ⟨.methodDefinition, none, true, false, 8, 34⟩ [
            .node ⟨.propertyIdentifier, some .name, true, false, 8, 19⟩ [],
            .node ⟨.formalParameters, some .parameters, true, false, 19, 32⟩ [
              .node ⟨.requiredParameter, none, true, false, 20, 31⟩ [
                .node ⟨.accessibilityModifier, none, true, false, 20, 27⟩ [],
                .node ⟨.identifier, some .pattern, true, false, 28, 29⟩ [],
                .node ⟨.typeAscription, some .type, true, false, 29, 31⟩ [
                  .node ⟨.typeIdentifier, none, true, false, 30, 31⟩ []]]],
            .node ⟨.statementBlock, some .body, true, false, 32, 34⟩ []]]],
      .node ⟨.classDeclaration, none, true, false, 35, 66⟩ [
        .node ⟨.typeIdentifier, some .name, true, false, 41, 42⟩ [],
        .node ⟨.classBody, some .body, true, false, 42, 66⟩ [
          .node ⟨.methodDefinition, none, true, false, 43, 65⟩ [
            .node ⟨.staticWord, none, false, false, 43, 49⟩ [],
            .node ⟨.propertyIdentifier, some .name, true, false, 50, 61⟩ [],
            .node ⟨.formalParameters, some .parameters, true, false, 61, 63⟩ [],
            .node ⟨.statementBlock, some .body, true, false, 63, 65⟩ []]]]]

/-- The classes of a program, in the order of their numbers. -/
def classes (program : Program) : List Decl := program.index.decls.filter Decl.isClass

theorem declaresClass_of_mem_classes {program : Program} {owner : Decl}
    (present : owner ∈ program.classes) : program.DeclaresClass owner :=
  ⟨(List.mem_filter.mp present).1, (List.mem_filter.mp present).2⟩

/-- In the first class both readings find the constructor, and the class it asks for is injected. -/
theorem constructor_readTwice_staticNamesake :
    let program := ofModel (Model.build {} [staticNamesake])
    ∃ owner, program.DeclaresClass owner ∧ program.ReadsConstructor {} owner ∧
      owner.node.firstConstructor? = owner.node.constructor? ∧
      (program.dependencies {} owner).length = 1 := by
  intro program
  have seen : program.classes.head?.any fun owner =>
      ((owner.node.classParts.find? fun part =>
        part.isSpelledConstructor || decide part.IsConstructor).all fun part =>
          part.isSpelledConstructor ∧ part.IsConstructor) &&
        (program.dependencies {} owner).length = 1 := by
    decide +kernel
  obtain ⟨owner, isFirst, both⟩ := (Option.any_eq_true _ _).mp seen
  obtain ⟨agrees, injected⟩ := (Bool.and_eq_true _ _).mp both
  have isOwner := declaresClass_of_mem_classes (List.mem_of_head? isFirst)
  have readings := constructor_readTwice {} [staticNamesake] {} owner isOwner
  refine ⟨owner, isOwner, readings, readings.agree.mpr fun part isFound => ?_,
    of_decide_eq_true injected⟩
  exact of_decide_eq_true ((Option.all_eq_true _ _).mp agrees part isFound)

/-- **A static method may be taken for the constructor.** In the second class one reading finds the
static method and the other nothing. -/
theorem staticMethod_takenForConstructor :
    let program := ofModel (Model.build {} [staticNamesake])
    ¬ ∀ owner, program.DeclaresClass owner →
      owner.node.firstConstructor? = owner.node.constructor? := by
  intro program agree
  have seen : program.classes.getLast?.any fun owner =>
      owner.node.firstConstructor?.isSome && !owner.node.constructor?.isSome := by
    decide +kernel
  obtain ⟨owner, isLast, differ⟩ := (Option.any_eq_true _ _).mp seen
  have isOwner := declaresClass_of_mem_classes (List.mem_of_getLast? isLast)
  rw [agree owner isOwner, Bool.and_not_self] at differ
  cases differ

end Program

end CodeGraph
