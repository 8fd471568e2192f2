import CodeGraph.Proofs.Constructor
import CodeGraph.Proofs.Resolve.Dialogue
import CodeGraph.Proofs.SourceOrder

/-!
# Members up the chain of base classes

A member is looked up in a class, then in the class that it extends, and so on. The search stops at
the first class that has such a member of its own, so the nearest one counts; in a class that has
several it is the first in source order. It gives up at the end of the chain, at a class that it has
come through before, and after a number of classes.

What it finds can be said without the search: a way up the chain on which no class comes twice leads
to the first class with such a member. So a chain that runs in a circle is no special case. On the
way round every class comes once, and if none of them has the member there is none.

## Main Definitions

* `Program.OwnMember`, `Program.FirstMember`: a member of a class itself, and the first of them.
* `Program.Climbs`: the classes on the way up from a class.
* `Program.FindsNearest`: what looking a member up finds.

## Main Statements

* `Program.pairwise_precedes_membersOf`: the members of a class come in source order.
* `Program.memberUpTo?_eq_some_iff`: what the search finds when some classes are not to be entered.
* `Program.Climbs.prefix_of_length_le`: two ways up from one class run together.
* `Program.members_foundNearest`: looking a member up finds the nearest one.
-/

namespace CodeGraph

namespace Node

/-! ### The order of members -/

theorem lists_parameters (function : Node) : function.Lists function.parameters := by
  rw [parameters]
  split
  · next list found => exact (Lists.namedChildren list).mono (within_of_child? found)
  · cases single : function.child? .parameter with
    | none => exact Lists.nil function
    | some parameter => exact (Lists.self parameter).mono (within_of_child? single)

theorem lists_memberDrafts (part : Node) : part.Lists (part.memberDrafts.map MemberDraft.node) := by
  by_cases isConstructor : part.IsConstructor
  · rw [memberDrafts_of_isConstructor isConstructor]
    exact (lists_parameters part).sublist
      (sublist_of_filterMap (fun _ _ declared => (of_propertyDraft? declared).1) _)
  · rw [memberDrafts]
    split
    · next isMethod =>
      split
      · exact Lists.nil part
      · next name named =>
        split
        · next both =>
          exact absurd ⟨isMethod, both.1 ▸ named, by simpa using both.2⟩ isConstructor
        · split <;> exact Lists.self part
    · split
      · exact Lists.self part
      · exact Lists.nil part
    · split
      · exact Lists.self part
      · exact Lists.nil part
    · exact Lists.nil part

/-- The parts of a class body declare members in source order. -/
theorem pairwise_precedes_classParts (node : Node) :
    ((node.classParts.flatMap memberDrafts).map MemberDraft.node).Pairwise Precedes := by
  rw [classParts]
  split
  · next body _ =>
    rw [List.map_flatMap]
    exact (Lists.flatMap_children List.filter_sublist fun part _ => lists_memberDrafts part).ascend
  · exact List.Pairwise.nil

end Node

namespace Program

variable {program : Program} {name : String} {isStatic : Bool}

/-- The members of a class come in source order. -/
theorem pairwise_precedes_membersOf {model : Model} (numbered : model.Numbered) {owner : Decl}
    (isOwner : (ofModel model).DeclaresClass owner) :
    ((ofModel model).membersOf owner.id).Pairwise fun a b => a.node.Precedes b.node := by
  have inOrder := owner.node.pairwise_precedes_classParts
  rw [← content_membersOf numbered isOwner, List.map_map] at inOrder
  exact List.pairwise_map.mp inOrder

/-! ### The members of one class -/

/-- A class declares a member with a name, static or not, itself. -/
structure OwnMember (program : Program) (name : String) (isStatic : Bool) (owner member : Decl) :
    Prop where
  /-- The program declares it. -/
  declared : member ∈ program.index.decls
  /-- It belongs to the class. -/
  container : member.container = some owner.id
  /-- It has the name. -/
  name_eq : member.name = name
  /-- It is static or not, as asked. -/
  isStatic_eq : member.isStatic = isStatic

/-- The first member of a class, in source order, that it declares itself with a name. -/
structure FirstMember (program : Program) (name : String) (isStatic : Bool) (owner member : Decl) :
    Prop where
  /-- The class declares it. -/
  own : program.OwnMember name isStatic owner member
  /-- It comes before all others. -/
  first : ∀ other, program.OwnMember name isStatic owner other →
    other = member ∨ member.node.Precedes other.node

/-- What the search for a member finds in one class. -/
def ownMember? (program : Program) (name : String) (isStatic : Bool) (owner : Decl) : Option Decl :=
  (program.membersOf owner.id).find? fun member => member.name = name && member.isStatic = isStatic

theorem WellFormed.ownMember_iff (wellFormed : program.WellFormed) {owner member : Decl} :
    program.OwnMember name isStatic owner member ↔ member ∈ program.membersOf owner.id ∧
      (member.name = name && member.isStatic = isStatic) := by
  rw [wellFormed.mem_membersOf_iff, Bool.and_eq_true, decide_eq_true_eq, decide_eq_true_eq]
  constructor
  · intro own
    exact ⟨⟨own.declared, own.container⟩, own.name_eq, own.isStatic_eq⟩
  · rintro ⟨⟨declared, container⟩, named, side⟩
    exact ⟨declared, container, named, side⟩

theorem WellFormed.ownMember?_eq_none_iff (wellFormed : program.WellFormed) {owner : Decl} :
    program.ownMember? name isStatic owner = none ↔
      ∀ member, ¬program.OwnMember name isStatic owner member := by
  simp only [ownMember?, List.find?_eq_none, wellFormed.ownMember_iff, not_and]

/-- In one class the search finds the first member in source order. -/
theorem ownMember?_eq_some_iff {model : Model} (numbered : model.Numbered) {owner member : Decl}
    (isOwner : (ofModel model).DeclaresClass owner) :
    (ofModel model).ownMember? name isStatic owner = some member ↔
      (ofModel model).FirstMember name isStatic owner member := by
  have wellFormed := wellFormed_ofModel numbered
  have asymm : ∀ a b : Decl, a.node.Precedes b.node → ¬b.node.Precedes a.node :=
    fun _ _ before => before.asymm
  rw [ownMember?, find?_eq_some_iff_of_pairwise asymm (pairwise_precedes_membersOf numbered isOwner)]
  constructor
  · rintro ⟨present, fits, first⟩
    refine ⟨wellFormed.ownMember_iff.mpr ⟨present, fits⟩, fun other own => ?_⟩
    obtain ⟨otherPresent, otherFits⟩ := wellFormed.ownMember_iff.mp own
    exact first other otherPresent otherFits
  · rintro ⟨own, first⟩
    obtain ⟨present, fits⟩ := wellFormed.ownMember_iff.mp own
    refine ⟨present, fits, fun other otherPresent otherFits => first other ?_⟩
    exact wellFormed.ownMember_iff.mpr ⟨otherPresent, otherFits⟩

/-! ### Ways up the chain -/

/-- Going up from a class leads through some classes to another one: each class extends the next. -/
inductive Climbs (level : Level) : Decl → List Decl → Decl → Prop
  /-- The class itself is reached at once. -/
  | here (owner : Decl) : Climbs level owner [] owner
  /-- The way goes on from the class that the class extends. -/
  | up {owner base holder : Decl} {passed : List Decl} (extended : Extends level owner base)
      (rest : Climbs level base passed holder) : Climbs level owner (owner :: passed) holder

/-- No class comes twice among some classes and one more. -/
def Afresh (passed : List Decl) (holder : Decl) : Prop :=
  ((passed ++ [holder]).map Decl.id).Nodup

variable {below : Level} {owner holder : Decl} {passed : List Decl}

/-- Ways up from one class run together as long as both go on. -/
theorem Climbs.prefix_of_length_le {other : Decl} {further : List Decl}
    (climbs : Climbs below owner passed holder) (longer : Climbs below owner further other)
    (shorter : passed.length ≤ further.length) :
    passed ++ [holder] <+: further ++ [other] := by
  induction climbs generalizing further with
  | here owner =>
    cases longer with
    | here => exact List.prefix_rfl
    | up => exact List.cons_prefix_cons.mpr ⟨rfl, List.nil_prefix⟩
  | up extended _ inductionHypothesis =>
    cases longer with
    | here => cases shorter
    | up alsoExtended rest =>
      cases Option.some.inj (extended.symm.trans alsoExtended)
      exact List.cons_prefix_cons.mpr
        ⟨rfl, inductionHypothesis rest (Nat.le_of_succ_le_succ shorter)⟩

/-- On a way to a class with some property, the first class with the property is reached. -/
theorem Climbs.exists_first {p : Decl → Bool} (climbs : Climbs below owner passed holder)
    (fits : p holder) :
    ∃ fewer nearest, Climbs below owner fewer nearest ∧ p nearest ∧
      (∀ nearer ∈ fewer, ¬p nearer) ∧ fewer ++ [nearest] <+: passed ++ [holder] := by
  induction climbs with
  | here owner => exact ⟨[], owner, .here owner, fits, by simp, List.prefix_rfl⟩
  | @up owner base holder passed extended rest inductionHypothesis =>
    by_cases already : p owner
    · exact ⟨[], owner, .here owner, already, by simp,
        List.cons_prefix_cons.mpr ⟨rfl, List.nil_prefix⟩⟩
    · obtain ⟨fewer, nearest, climbs, found, none, part⟩ := inductionHypothesis fits
      exact ⟨owner :: fewer, nearest, .up extended climbs, found,
        List.forall_mem_cons.mpr ⟨already, none⟩, List.cons_prefix_cons.mpr ⟨rfl, part⟩⟩

/-- Every class on the way up from a class is a class. -/
theorem Climbs.declaresClass (kinded : below.WellKinded program)
    (climbs : Climbs below owner passed holder) (isOwner : program.DeclaresClass owner) :
    program.DeclaresClass holder := by
  induction climbs with
  | here => exact isOwner
  | up extended _ inductionHypothesis => exact inductionHypothesis (kinded.base _ _ extended).1

/-! ### The search -/

theorem memberUpTo?_succ (classes : Nat) (visited : List DeclId) (owner : Decl) :
    program.memberUpTo? below name isStatic (classes + 1) visited owner =
      if owner.id ∈ visited then none
      else match program.ownMember? name isStatic owner with
        | some member => some member
        | none => (below.base? owner).bind
          (program.memberUpTo? below name isStatic classes (owner.id :: visited)) := rfl

/-- The search finds a member in the first class that has one, on a way up that enters no class
twice and none of those that are not to be entered. -/
theorem memberUpTo?_eq_some_iff {classes : Nat} {visited : List DeclId} {member : Decl} :
    program.memberUpTo? below name isStatic classes visited owner = some member ↔
      ∃ passed holder, Climbs below owner passed holder ∧ passed.length < classes ∧
        Afresh passed holder ∧ (∀ entered ∈ passed ++ [holder], entered.id ∉ visited) ∧
        program.ownMember? name isStatic holder = some member ∧
        ∀ nearer ∈ passed, program.ownMember? name isStatic nearer = none := by
  induction classes generalizing visited owner with
  | zero => simp [memberUpTo?]
  | succ classes inductionHypothesis =>
    rw [memberUpTo?_succ]
    constructor
    · intro found
      split at found
      · cases found
      · next unvisited =>
        split at found
        · next own look =>
          cases found
          exact ⟨[], owner, .here owner, Nat.succ_pos classes, by simp [Afresh],
            by simpa using unvisited, look, by simp⟩
        · next look =>
          obtain ⟨base, extended, rest⟩ := Option.bind_eq_some_iff.mp found
          obtain ⟨passed, holder, climbs, short, afresh, free, isFound, nearest⟩ :=
            inductionHypothesis.mp rest
          refine ⟨owner :: passed, holder, .up extended climbs, Nat.succ_lt_succ short, ?_, ?_,
            isFound, List.forall_mem_cons.mpr ⟨look, nearest⟩⟩
          · refine List.nodup_cons.mpr ⟨fun again => ?_, afresh⟩
            obtain ⟨entered, memEntered, same⟩ := List.mem_map.mp again
            exact free entered memEntered (same ▸ List.mem_cons_self)
          · exact List.forall_mem_cons.mpr ⟨unvisited, fun entered memEntered known =>
              free entered memEntered (List.mem_cons_of_mem _ known)⟩
    · rintro ⟨passed, holder, climbs, short, afresh, free, isFound, nearest⟩
      cases climbs with
      | here =>
        rw [if_neg (free owner List.mem_cons_self), isFound]
      | up extended climbs =>
        obtain ⟨unvisited, free⟩ := List.forall_mem_cons.mp free
        obtain ⟨look, nearest⟩ := List.forall_mem_cons.mp nearest
        obtain ⟨notAgain, afresh⟩ := List.nodup_cons.mp afresh
        rw [if_neg unvisited, look, show below.base? owner = _ from extended]
        refine inductionHypothesis.mpr ⟨_, holder, climbs, Nat.lt_of_succ_lt_succ short, afresh,
          fun entered memEntered known => ?_, isFound, nearest⟩
        rcases List.mem_cons.mp known with same | visitedBefore
        · exact notAgain (same ▸ List.mem_map_of_mem memEntered)
        · exact free entered memEntered visitedBefore

theorem classMember?_eq_some_iff {member : Decl} :
    program.classMember? below name isStatic owner = some member ↔
      ∃ passed holder, Climbs below owner passed holder ∧ passed.length < chainLimit ∧
        Afresh passed holder ∧ program.ownMember? name isStatic holder = some member ∧
        ∀ nearer ∈ passed, program.ownMember? name isStatic nearer = none := by
  simp [classMember?, memberUpTo?_eq_some_iff]

/-- Something is found as soon as a class that may be entered has such a member. -/
theorem isSome_classMember?_iff :
    (program.classMember? below name isStatic owner).isSome ↔
      ∃ passed holder, Climbs below owner passed holder ∧ passed.length < chainLimit ∧
        Afresh passed holder ∧ (program.ownMember? name isStatic holder).isSome := by
  constructor
  · intro found
    obtain ⟨member, look⟩ := Option.isSome_iff_exists.mp found
    obtain ⟨passed, holder, climbs, short, afresh, own, -⟩ := classMember?_eq_some_iff.mp look
    exact ⟨passed, holder, climbs, short, afresh, own ▸ rfl⟩
  · rintro ⟨passed, holder, climbs, short, afresh, own⟩
    obtain ⟨fewer, nearest, reached, found, none, part⟩ := climbs.exists_first
      (p := fun entered => (program.ownMember? name isStatic entered).isSome) own
    obtain ⟨member, look⟩ := Option.isSome_iff_exists.mp found
    have shorter : fewer.length ≤ passed.length := by simpa using part.length_le
    refine Option.isSome_iff_exists.mpr ⟨member, classMember?_eq_some_iff.mpr
      ⟨fewer, nearest, reached, by omega, ?_, look, fun nearer present => ?_⟩⟩
    · exact afresh.sublist (part.sublist.map Decl.id)
    · exact Option.not_isSome_iff_eq_none.mp (none nearer present)

/-- When the way up comes back to a class that it has passed, and no class on it has such a member,
nothing is found. -/
theorem classMember?_of_circle {again : Decl} (climbs : Climbs below owner passed again)
    (circle : again.id ∈ passed.map Decl.id)
    (nothing : ∀ entered ∈ passed, program.ownMember? name isStatic entered = none) :
    program.classMember? below name isStatic owner = none := by
  have notAfresh : ¬Afresh passed again := by
    rw [Afresh, List.map_append, List.map_singleton, List.nodup_append]
    exact fun fresh => fresh.2.2 _ circle _ (List.mem_singleton_self _) rfl
  rw [Option.eq_none_iff_forall_ne_some]
  intro member look
  obtain ⟨fewer, holder, reached, -, afresh, own, -⟩ := classMember?_eq_some_iff.mp look
  rcases Nat.lt_or_ge fewer.length passed.length with shorter | longer
  · -- The holder is one of the classes on the way round.
    have part := reached.prefix_of_length_le climbs (Nat.le_of_lt shorter)
    have onWay : fewer ++ [holder] <+: passed :=
      List.prefix_of_prefix_length_le part (List.prefix_append _ _)
        (by rwa [List.length_append, List.length_singleton])
    have present : holder ∈ passed := onWay.subset (by simp)
    cases (nothing holder present).symm.trans own
  · have part := climbs.prefix_of_length_le reached longer
    exact notAfresh (afresh.sublist (part.sublist.map Decl.id))

/-! ### What is found -/

/-- Looking a member up at some depth finds the nearest one. -/
structure FindsNearest (program : Program) (depth : Nat) (name : String) (isStatic : Bool)
    (owner : Decl) : Prop where
  /-- There is an answer exactly when a class that is reached in time, and without a class coming
  twice, declares such a member. -/
  found : (program.answer (.classMember name isStatic owner depth)).isSome ↔
    ∃ passed holder, Climbs (program.atDepth (depth + 1)) owner passed holder ∧
      passed.length < chainLimit ∧ Afresh passed holder ∧
      ∃ member, program.OwnMember name isStatic holder member
  /-- The answer is the first member of the first such class. -/
  nearest : ∀ member, program.answer (.classMember name isStatic owner depth) = some member ↔
    ∃ passed holder, Climbs (program.atDepth (depth + 1)) owner passed holder ∧
      passed.length < chainLimit ∧ Afresh passed holder ∧
      program.FirstMember name isStatic holder member ∧
      ∀ nearer ∈ passed, ∀ other, ¬program.OwnMember name isStatic nearer other
  /-- A chain that comes back to a class and has no such member gives no answer. -/
  circle : ∀ passed again, Climbs (program.atDepth (depth + 1)) owner passed again →
    again.id ∈ passed.map Decl.id →
    (∀ entered ∈ passed, ∀ member, ¬program.OwnMember name isStatic entered member) →
      program.answer (.classMember name isStatic owner depth) = none

/-- **A member of a class is looked up nearest first.** Whatever the depth, the first class up the
chain that declares the member decides, chains in a circle included. -/
theorem members_foundNearest (settings : AnalysisSettings) (inputs : List Input) (depth : Nat)
    (name : String) (isStatic : Bool) (owner : Decl)
    (isOwner : (ofModel (Model.build settings inputs)).DeclaresClass owner) :
    (ofModel (Model.build settings inputs)).FindsNearest depth name isStatic owner := by
  have numbered := Model.numbered_build settings inputs
  generalize Model.build settings inputs = model at isOwner numbered
  have wellFormed := wellFormed_ofModel numbered
  have noOwn : ∀ {entered}, (ofModel model).ownMember? name isStatic entered = none ↔ _ :=
    wellFormed.ownMember?_eq_none_iff
  have kinded : ((ofModel model).atDepth (depth + 1)).WellKinded (ofModel model) :=
    wellFormed.wellKinded_level _
  refine ⟨?_, fun member => ?_, fun passed again climbs circle nothing => ?_⟩
  · refine isSome_classMember?_iff.trans (exists_congr fun passed => exists_congr fun holder => ?_)
    have own : ((ofModel model).ownMember? name isStatic holder).isSome ↔
        ∃ member, (ofModel model).OwnMember name isStatic holder member := by
      rw [← Option.ne_none_iff_isSome, ne_eq, noOwn, not_forall_not]
    rw [own]
  · refine classMember?_eq_some_iff.trans (exists_congr fun passed => exists_congr fun holder => ?_)
    simp only [noOwn]
    refine and_congr_right fun climbs => ?_
    rw [ownMember?_eq_some_iff numbered (climbs.declaresClass kinded isOwner)]
  · exact classMember?_of_circle climbs circle fun entered present =>
      noOwn.mpr (nothing entered present)

/-! ### Classes in a circle -/

/-- Three classes that extend each other in a circle; only the first declares a method. -/
def circle : Input where
  path := "a.ts"
  text := "class A extends B\x7bgo()\x7b\x7d\x7dclass B extends C\x7b\x7dclass C extends A\x7b\x7d"
  tree := some <|
    .node ⟨.program, none, true, false, 0, 63⟩ [
      .node ⟨.classDeclaration, none, true, false, 0, 25⟩ [
        .node ⟨.typeIdentifier, some .name, true, false, 6, 7⟩ [],
        .node ⟨.classHeritage, none, true, false, 8, 17⟩ [
          .node ⟨.extendsClause, none, true, false, 8, 17⟩ [
            .node ⟨.identifier, some .value, true, false, 16, 17⟩ []]],
        .node ⟨.classBody, some .body, true, false, 17, 25⟩ [
          .node ⟨.methodDefinition, none, true, false, 18, 24⟩ [
            .node ⟨.propertyIdentifier, some .name, true, false, 18, 20⟩ [],
            .node ⟨.formalParameters, some .parameters, true, false, 20, 22⟩ [],
            .node ⟨.statementBlock, some .body, true, false, 22, 24⟩ []]]],
      .node ⟨.classDeclaration, none, true, false, 25, 44⟩ [
        .node ⟨.typeIdentifier, some .name, true, false, 31, 32⟩ [],
        .node ⟨.classHeritage, none, true, false, 33, 42⟩ [
          .node ⟨.extendsClause, none, true, false, 33, 42⟩ [
            .node ⟨.identifier, some .value, true, false, 41, 42⟩ []]],
        .node ⟨.classBody, some .body, true, false, 42, 44⟩ []],
      .node ⟨.classDeclaration, none, true, false, 44, 63⟩ [
        .node ⟨.typeIdentifier, some .name, true, false, 50, 51⟩ [],
        .node ⟨.classHeritage, none, true, false, 52, 61⟩ [
          .node ⟨.extendsClause, none, true, false, 52, 61⟩ [
            .node ⟨.identifier, some .value, true, false, 60, 61⟩ []]],
        .node ⟨.classBody, some .body, true, false, 61, 63⟩ []]]

/-- From the second class the method of the first is found, which it inherits, and no other member
is. -/
theorem members_foundNearest_circle :
    let program := ofModel (Model.build {} [circle])
    ∃ owner, program.DeclaresClass owner ∧ program.FindsNearest 0 "go" false owner ∧
      (∃ passed holder member, Climbs (program.atDepth 1) owner passed holder ∧
        holder.id ≠ owner.id ∧ program.FirstMember "go" false holder member ∧
        program.answer (.classMember "go" false owner 0) = some member) ∧
      program.answer (.classMember "stop" false owner 0) = none := by
  intro program
  have seen : program.classes[1]?.any fun owner =>
      ((program.answer (.classMember "go" false owner 0)).any fun member =>
        member.container ≠ some owner.id) &&
        (program.answer (.classMember "stop" false owner 0)).isNone := by
    decide +kernel
  obtain ⟨owner, isSecond, both⟩ := (Option.any_eq_true _ _).mp seen
  obtain ⟨hasMember, noOther⟩ := (Bool.and_eq_true _ _).mp both
  obtain ⟨member, look, inherited⟩ := (Option.any_eq_true _ _).mp hasMember
  have isOwner := declaresClass_of_mem_classes (List.mem_of_getElem? isSecond)
  have finds := members_foundNearest {} [circle] 0 "go" false owner isOwner
  obtain ⟨passed, holder, climbs, -, -, isFirst, -⟩ := (finds.nearest member).mp look
  refine ⟨owner, isOwner, finds, ⟨passed, holder, member, climbs, fun same => ?_, isFirst, look⟩,
    Option.isNone_iff_eq_none.mp noOther⟩
  exact of_decide_eq_true inherited (same ▸ isFirst.own.container)

end Program

end CodeGraph
