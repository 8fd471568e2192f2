import CodeGraph.Proofs.Resolve.Symbols
import CodeGraph.Wiring.Injection
import Mathlib.Logic.Relation

/-!
# Answers are well kinded

Every answer about a program is of the kind it claims to be, whatever is asked and however much
budget is left: instances are instances of classes of the program, objects are object literals,
modules are files of the program, and no expression denotes an import that was not followed.

The answers for a budget are made from the answers for the budget less one, so the proof goes by
induction on the budget. One step is the work: each kind of expression and annotation gives
well-kinded answers when the level below does.

## Main Definitions

* `Program.DeclaresClass`: a class that the program declares.
* `Ty.WellKinded`, `Reading.WellKinded`, `Level.WellKinded`: well-kinded types, readings and levels.
* `Program.HasMember`: a member of a class or of a class that it extends.
* `Program.WellKinded`: all answers about a program are well kinded.

## Main Statements

* `Program.WellFormed.wellKinded_read`: what is read off an expression is well kinded.
* `Program.WellFormed.wellKinded_level`: the answers for every budget are well kinded.
* `Program.hasMember_of_memberUpTo?`: members are found on the chain of base classes.
* `Program.answers_wellKinded`: every program gives well-kinded answers only.
-/

namespace CodeGraph

/-- A class that the program declares. -/
structure Program.DeclaresClass (program : Program) (decl : Decl) : Prop where
  /-- The program declares it. -/
  declared : decl ∈ program.index.decls
  /-- It is a class. -/
  isClass : decl.isClass

/-- A type is of the kind it claims to be. -/
def Ty.WellKinded (program : Program) : Ty → Prop
  | .instanceOf decl | .classItself decl => program.DeclaresClass decl
  | .module file => program.HasFile file
  | .object node => node.kind = .object
  | .unknown => True

/-- Of two types, the one that counts is one of them. -/
theorem Ty.WellKinded.orElse {program : Program} {first second : Ty}
    (one : first.WellKinded program) (other : second.WellKinded program) :
    (first.orElse second).WellKinded program := by
  rw [Ty.orElse]
  split
  · exact other
  · exact one

/-- The symbol of a reading is resolved and its types are well kinded. -/
structure Reading.WellKinded (program : Program) (reading : Reading) : Prop where
  /-- The symbol is resolved. -/
  symbol : ∀ symbol, reading.symbol? = some symbol → symbol.Resolved program
  /-- The types are well kinded. -/
  type : ∀ preference, (reading.type preference).WellKinded program

/-- All answers of a level are well kinded. -/
structure Level.WellKinded (program : Program) (level : Level) : Prop where
  /-- Expressions denote resolved symbols. -/
  symbol : ∀ node symbol, level.symbol? node = some symbol → symbol.Resolved program
  /-- Types of expressions are well kinded. -/
  type : ∀ preference node, (level.type preference node).WellKinded program
  /-- Types of annotations are well kinded. -/
  ascribed : ∀ node, (level.ascribed node).WellKinded program
  /-- Types of bindings are well kinded. -/
  binding : ∀ preference node, (level.binding preference node).WellKinded program
  /-- Types of results are well kinded. -/
  returned : ∀ decl, (level.returned decl).WellKinded program
  /-- A class extends another class. -/
  base : ∀ decl base, level.base? decl = some base →
    program.DeclaresClass base ∧ base.id ≠ decl.id
  /-- References lead to classes. -/
  reference : ∀ node decl, level.reference? node = some decl → program.DeclaresClass decl

namespace Reading

variable {program : Program}

theorem wellKinded_unknown : Reading.unknown.WellKinded program where
  symbol _ found := by cases found
  type _ := trivial

/-- A reading without a symbol is as good as its types. -/
theorem wellKinded_ofType {type : Preference → Ty}
    (kinds : ∀ preference, (type preference).WellKinded program) :
    (Reading.ofType type).WellKinded program where
  symbol _ found := by cases found
  type := kinds

end Reading

/-- With no budget left nothing is answered, so nothing is answered wrongly. -/
theorem Level.wellKinded_exhausted (program : Program) : Level.exhausted.WellKinded program where
  symbol _ _ found := by cases found
  type _ _ := trivial
  ascribed _ := trivial
  binding _ _ := trivial
  returned _ := trivial
  base _ _ found := by cases found
  reference _ _ found := by cases found

namespace Program

variable {program : Program}

namespace WellFormed

/-! ### Annotations and bindings -/

/-- Following the links of a known symbol ends at one that is no import. -/
theorem resolved_of_bind (wellFormed : program.WellFormed) {symbol : Option Symbol}
    (known : ∀ found, symbol = some found → found.Known program) {result : Symbol}
    (found : symbol.bind program.resolveAlias? = some result) : result.Resolved program := by
  obtain ⟨start, isStart, follows⟩ := Option.bind_eq_some_iff.mp found
  exact wellFormed.resolved_of_resolveAlias? (known start isStart) follows

/-- A name in an annotation gives an instance of a declared class, or nothing. -/
theorem wellKinded_namedType (wellFormed : program.WellFormed) {symbol : Option Symbol}
    (known : ∀ found, symbol = some found → found.Known program) :
    (program.namedType symbol).WellKinded program := by
  rw [namedType]
  split
  · next result found =>
    have resolved := wellFormed.resolved_of_bind known found
    cases result with
    | decl declared =>
      rw [instanceType]
      split
      · next isClass => exact ⟨resolved.known, isClass⟩
      · trivial
    | imported link => trivial
    | module file => trivial
    | binder node => trivial
  · trivial

theorem wellKinded_nestedType (wellFormed : program.WellFormed) (node : Node) :
    (program.nestedType node).WellKinded program := by
  rw [nestedType]
  split
  · split
    · split
      · exact wellFormed.wellKinded_namedType fun _ found => wellFormed.known_of_exportSymbol? found
      · trivial
    · trivial
  · trivial

theorem wellKinded_genericType {below : Level} (kinded : below.WellKinded program) (node : Node) :
    (genericType below node).WellKinded program := by
  rw [genericType]
  split
  · trivial
  · split
    · split
      · exact kinded.ascribed _
      · trivial
    · exact kinded.ascribed _

/-- Annotations name instances of classes. -/
theorem wellKinded_ascriptionStep (wellFormed : program.WellFormed) {below : Level}
    (kinded : below.WellKinded program) (ascription : Node) :
    (program.ascriptionStep below ascription).WellKinded program := by
  rw [ascriptionStep]
  split
  · trivial
  · next node _ =>
    split
    · exact wellFormed.wellKinded_namedType fun _ found => wellFormed.known_of_lookup? found
    · exact wellFormed.wellKinded_namedType fun _ found => wellFormed.known_of_lookup? found
    · exact wellKinded_genericType kinded node
    · exact wellFormed.wellKinded_nestedType node
    · split
      · exact kinded.ascribed _
      · trivial
    · split
      · exact kinded.ascribed _
      · trivial
    · split
      · exact kinded.ascribed _
      · trivial
    · trivial

/-- The type of a binding is one that the level below gives. -/
theorem wellKinded_bindingStep {below : Level} (kinded : below.WellKinded program)
    (preference : Preference) (node : Node) :
    (bindingStep below preference node).WellKinded program := by
  have declared : (declaredType below node).WellKinded program := by
    rw [declaredType]
    cases node.child? .type with
    | none => trivial
    | some ascription => exact kinded.ascribed ascription
  have valued : ∀ preference, (valueType below preference node).WellKinded program := by
    intro preference
    rw [valueType]
    cases node.child? .value with
    | none => trivial
    | some value => exact kinded.type preference value
  cases preference with
  | declared => exact declared.orElse (valued .declared)
  | value => exact (valued .value).orElse declared

theorem wellKinded_returnedStep {below : Level} (kinded : below.WellKinded program)
    (decl : Decl) : (returnedStep below decl).WellKinded program := by
  rw [returnedStep]
  split
  · exact kinded.ascribed _
  · trivial

/-- The type of a resolved symbol is well kinded. -/
theorem wellKinded_symbolType {below : Level} (kinded : below.WellKinded program)
    (preference : Preference) {symbol : Symbol} (resolved : symbol.Resolved program) :
    (symbolType below preference symbol).WellKinded program := by
  cases symbol with
  | module file => exact resolved.known
  | binder node => exact kinded.binding preference node
  | imported link => trivial
  | decl declared =>
    rw [symbolType]
    split
    · next isClass => exact ⟨resolved.known, decide_eq_true isClass⟩
    · exact kinded.binding preference declared.node
    · exact kinded.binding preference declared.node
    · exact kinded.returned declared
    · trivial

end WellFormed

/-! ### Members -/

/-- A class extends another one, by the answers of a level. -/
def Extends (level : Level) (derived base : Decl) : Prop := level.base? derived = some base

/-- A member, by name and staticness, of a class or of a class that it extends, directly or not. -/
def HasMember (program : Program) (level : Level) (owner : Decl) (name : String)
    (isStatic : Bool) (member : Decl) : Prop :=
  ∃ holder, Relation.ReflTransGen (Extends level) owner holder ∧ program.DeclaresClass holder ∧
    member ∈ program.membersOf holder.id ∧ member.name = name ∧ member.isStatic = isStatic

/-- The search up a chain of classes finds a member of a class of the chain. -/
theorem hasMember_of_memberUpTo? {below : Level} (kinded : below.WellKinded program)
    {name : String} {isStatic : Bool} {classes : Nat} {visited : List DeclId}
    {owner member : Decl} (isClass : program.DeclaresClass owner)
    (found : program.memberUpTo? below name isStatic classes visited owner = some member) :
    program.HasMember below owner name isStatic member := by
  induction classes generalizing visited owner with
  | zero => cases found
  | succ classes inductionHypothesis =>
    rw [memberUpTo?] at found
    split at found
    · cases found
    · split at found
      · next own look =>
        cases found
        have fits := List.find?_some look
        simp only [Bool.and_eq_true, decide_eq_true_eq] at fits
        exact ⟨owner, .refl, isClass, List.mem_of_find?_eq_some look, fits⟩
      · obtain ⟨base, extends_, rest⟩ := Option.bind_eq_some_iff.mp found
        obtain ⟨holder, chain, held⟩ :=
          inductionHypothesis (kinded.base owner base extends_).1 rest
        exact ⟨holder, .head extends_ chain, held⟩

/-- What a name denotes on a receiver with a class is a member of the class. -/
theorem hasMember_of_classMember? {below : Level} (kinded : below.WellKinded program)
    {name : String} {isStatic : Bool} {owner : Decl} (isClass : program.DeclaresClass owner)
    {symbol : Symbol}
    (found : (program.classMember? below name isStatic owner).map .decl = some symbol) :
    ∃ member, symbol = .decl member ∧ program.HasMember below owner name isStatic member := by
  obtain ⟨member, look, rfl⟩ := Option.map_eq_some_iff.mp found
  exact ⟨member, rfl, hasMember_of_memberUpTo? kinded isClass look⟩

namespace WellFormed

/-- A member of a class is a declaration of the program. -/
theorem mem_decls_of_hasMember (wellFormed : program.WellFormed) {level : Level} {owner : Decl}
    {name : String} {isStatic : Bool} {member : Decl}
    (has : program.HasMember level owner name isStatic member) : member ∈ program.index.decls := by
  obtain ⟨holder, -, -, present, -⟩ := has
  exact (wellFormed.mem_membersOf_iff.mp present).1

/-- An entry of an object denotes something known. -/
theorem known_of_objectMember? (wellFormed : program.WellFormed) {below : Level}
    (kinded : below.WellKinded program) {name : String} {object : Node} {symbol : Symbol}
    (found : program.objectMember? below name object = some symbol) : symbol.Known program := by
  obtain ⟨entry, -, result⟩ := Option.bind_eq_some_iff.mp found
  split at result
  · obtain ⟨value, -, denotes⟩ := Option.bind_eq_some_iff.mp result
    exact (kinded.symbol value symbol denotes).known
  · have known : ∀ symbol, program.lookup? entry name = some symbol → symbol.Known program :=
      fun _ look => wellFormed.known_of_lookup? look
    exact (wellFormed.resolved_of_bind known result).known

/-- What a name denotes on a receiver is known. -/
theorem known_of_member? (wellFormed : program.WellFormed) {below : Level}
    (kinded : below.WellKinded program) {name : String} {receiver : Ty}
    (received : receiver.WellKinded program) {symbol : Symbol}
    (found : program.member? below name receiver = some symbol) : symbol.Known program := by
  cases receiver with
  | instanceOf owner =>
    obtain ⟨member, rfl, has⟩ := hasMember_of_classMember? kinded received found
    exact wellFormed.mem_decls_of_hasMember has
  | classItself owner =>
    obtain ⟨member, rfl, has⟩ := hasMember_of_classMember? kinded received found
    exact wellFormed.mem_decls_of_hasMember has
  | module file => exact wellFormed.known_of_exportSymbol? found
  | object node => exact wellFormed.known_of_objectMember? kinded found
  | unknown => cases found

/-! ### Expressions -/

/-- What a name denotes is resolved, and so its type is well-kinded. -/
theorem wellKinded_readingOf (wellFormed : program.WellFormed) {below : Level}
    (kinded : below.WellKinded program) {symbol : Option Symbol}
    (known : ∀ found, symbol = some found → found.Known program) :
    (program.readingOf below symbol).WellKinded program := by
  refine ⟨fun result found => wellFormed.resolved_of_bind known found, fun preference => ?_⟩
  unfold readingOf
  dsimp only
  split
  · next result found =>
    exact wellKinded_symbolType kinded preference (wellFormed.resolved_of_bind known found)
  · trivial

/-- An element access denotes a member, so something known. -/
theorem known_of_elementSymbol? (wellFormed : program.WellFormed) {below : Level}
    (kinded : below.WellKinded program) {key : String} {receiver : Reading}
    (received : receiver.WellKinded program) {symbol : Symbol}
    (found : program.elementSymbol? below key receiver = some symbol) : symbol.Known program := by
  rw [elementSymbol?] at found
  split at found
  · next declared look =>
    cases found
    exact wellFormed.known_of_member? kinded (received.type .declared) look
  · dsimp only at found
    split at found
    · cases found
    · exact wellFormed.known_of_member? kinded (received.type .value) found

/-- The class around a place is a class of the program. -/
theorem declaresClass_of_enclosingClass? (wellFormed : program.WellFormed) {place : Node}
    {decl : Decl} (found : program.enclosingClass? place = some decl) :
    program.DeclaresClass decl := by
  rw [enclosingClass?] at found
  generalize place.ancestors = above at found
  induction above with
  | nil => cases found
  | cons node rest inductionHypothesis =>
    rw [classAmong?] at found
    split at found
    · obtain ⟨look, isClass⟩ := Option.filter_eq_some_iff.mp found
      obtain ⟨outer, -, declares⟩ := Option.bind_eq_some_iff.mp look
      exact ⟨(wellFormed.declaredAt outer decl declares).1, isClass⟩
    iterate 5 cases found
    · split at found
      · cases found
      · exact inductionHypothesis found
    · exact inductionHypothesis found

/-- What is read off an expression is well kinded, when the level below is. -/
theorem wellKinded_read (wellFormed : program.WellFormed) {below : Level}
    (kinded : below.WellKinded program) (node : Node) :
    (program.read below node).WellKinded program := by
  fun_induction read program below node with
  | case1 node =>
    exact wellFormed.wellKinded_readingOf kinded fun _ found => wellFormed.known_of_lookup? found
  | case2 _ _ _ _ _ _ _ received =>
    exact wellFormed.wellKinded_readingOf kinded fun _ found =>
      wellFormed.known_of_member? kinded (received.type .declared) found
  | case4 _ _ _ _ _ _ _ received =>
    exact wellFormed.wellKinded_readingOf kinded fun _ found =>
      wellFormed.known_of_elementSymbol? kinded received found
  -- Wrappers are read as what stands inside them.
  | case6 _ _ _ _ _ inner | case8 _ _ _ _ _ inner | case10 _ _ _ _ _ inner => exact inner
  | case12 _ _ _ _ _ inner => exact Reading.wellKinded_ofType inner.type
  | case14 node isCall function found smaller callee =>
    refine Reading.wellKinded_ofType fun _ => ?_
    split
    · exact kinded.returned _
    · trivial
  | case16 node isNew constructor found smaller constructed =>
    refine Reading.wellKinded_ofType fun preference => ?_
    have kind := constructed.type preference
    split
    · next decl isClass =>
      rw [isClass] at kind
      exact kind
    · trivial
  | case19 node isAs inner rest children smaller asserted =>
    refine Reading.wellKinded_ofType fun preference => ?_
    cases preference with
    | declared =>
      refine Ty.WellKinded.orElse ?_ (asserted.type .declared)
      cases rest.head? with
      | none => trivial
      | some ascription => exact wellFormed.wellKinded_ascriptionStep kinded ascription
    | value => exact asserted.type .value
  | case20 node =>
    refine Reading.wellKinded_ofType fun _ => ?_
    cases found : program.enclosingClass? node with
    | none => trivial
    | some decl => exact wellFormed.declaresClass_of_enclosingClass? found
  | case21 node =>
    refine Reading.wellKinded_ofType fun _ => ?_
    cases found : (program.enclosingClass? node).bind below.base? with
    | none => trivial
    | some base =>
      obtain ⟨decl, -, extends_⟩ := Option.bind_eq_some_iff.mp found
      exact (kinded.base decl base extends_).1
  | case22 node isObject => exact Reading.wellKinded_ofType fun _ => isObject
  | case3 | case5 | case7 | case9 | case11 | case13 | case15 | case17 | case18 | case23 =>
    exact Reading.wellKinded_unknown

/-! ### References to classes -/

/-- A base class is a declared class, and another one than the class itself. -/
theorem wellKinded_baseStep? {below : Level} (kinded : below.WellKinded program)
    {decl base : Decl} (found : baseStep? below decl = some base) :
    program.DeclaresClass base ∧ base.id ≠ decl.id := by
  obtain ⟨expression, -, rest⟩ := Option.bind_eq_some_iff.mp found
  obtain ⟨symbol, denotes, result⟩ := Option.bind_eq_some_iff.mp rest
  split at result
  · next declared =>
    split at result
    · next another =>
      cases result
      exact ⟨⟨(kinded.symbol expression _ denotes).known, another.1⟩, another.2⟩
    · cases result
  · cases result

/-- A call in metadata refers to a declared class. -/
theorem declaresClass_of_calledClass? {below : Level} (kinded : below.WellKinded program)
    {call : Node} {decl : Decl} (found : calledClass? below call = some decl) :
    program.DeclaresClass decl := by
  obtain ⟨callee, -, rest⟩ := Option.bind_eq_some_iff.mp found
  dsimp only at rest
  split at rest
  · obtain ⟨argument, -, result⟩ := Option.bind_eq_some_iff.mp rest
    split at result
    · obtain ⟨target, -, refers⟩ := Option.bind_eq_some_iff.mp result
      exact kinded.reference target decl refers
    · exact kinded.reference argument decl result
  · split at rest
    · obtain ⟨object, -, refers⟩ := Option.bind_eq_some_iff.mp rest
      exact kinded.reference object decl refers
    · cases rest

/-- A provider refers to a declared class. -/
theorem declaresClass_of_providedClass? {below : Level} (kinded : below.WellKinded program)
    {object : Node} {decl : Decl} (found : providedClass? below object = some decl) :
    program.DeclaresClass decl := by
  rw [providedClass?, Option.orElse_eq_orElse, Option.orElse_eq_or, Option.or_eq_some_iff] at found
  rcases found with used | ⟨-, provided⟩
  · obtain ⟨value, -, refers⟩ := List.exists_of_findSome?_eq_some used
    exact kinded.reference value decl refers
  · obtain ⟨value, -, refers⟩ := Option.bind_eq_some_iff.mp provided
    exact kinded.reference value decl refers

/-- Every reference is to a declared class, form by form. -/
theorem declaresClass_of_classStep? {below : Level} (kinded : below.WellKinded program)
    {expression : Node} {decl : Decl} (found : classStep? below expression = some decl) :
    program.DeclaresClass decl := by
  rw [classStep?] at found
  split at found
  · exact declaresClass_of_calledClass? kinded found
  · exact declaresClass_of_providedClass? kinded found
  · split at found
    · next declared denotes =>
      split at found
      · next isClass =>
        cases found
        exact ⟨(kinded.symbol _ _ denotes).known, isClass⟩
      · cases found
    · cases found

/-! ### All budgets -/

/-- One unit of budget more keeps all answers well kinded. -/
theorem wellKinded_levelStep (wellFormed : program.WellFormed) {below : Level}
    (kinded : below.WellKinded program) : (program.levelStep below).WellKinded program where
  symbol node := (wellFormed.wellKinded_read kinded node).symbol
  type preference node := (wellFormed.wellKinded_read kinded node).type preference
  ascribed := wellFormed.wellKinded_ascriptionStep kinded
  binding := wellKinded_bindingStep kinded
  returned := wellKinded_returnedStep kinded
  base _ _ := wellKinded_baseStep? kinded
  reference _ _ := declaresClass_of_classStep? kinded

/-- The answers for every budget are well kinded. -/
theorem wellKinded_level (wellFormed : program.WellFormed) (budget : Nat) :
    (program.level budget).WellKinded program := by
  induction budget with
  | zero => exact Level.wellKinded_exhausted program
  | succ budget inductionHypothesis => exact wellFormed.wellKinded_levelStep inductionHypothesis

/-- What a call calls is resolved. -/
theorem resolved_of_calleeSymbol? (wellFormed : program.WellFormed) {call : Node}
    {symbol : Symbol} (found : program.calleeSymbol? call = some symbol) :
    symbol.Resolved program := by
  obtain ⟨function, -, denotes⟩ := Option.bind_eq_some_iff.mp found
  exact (wellFormed.wellKinded_level fullBudget).symbol function symbol denotes

/-! ### Metadata and injection -/

theorem declaresClass_of_classReference? (wellFormed : program.WellFormed) {expression : Node}
    {decl : Decl} (found : program.classReference? expression = some decl) :
    program.DeclaresClass decl :=
  (wellFormed.wellKinded_level fullBudget).reference expression decl found

/-- So the lists of a module hold declared classes only. -/
theorem declaresClass_of_mem_listedClasses (wellFormed : program.WellFormed) {object : Node}
    {key : MetadataKey} {decl : Decl} (present : decl ∈ program.listedClasses object key) :
    program.DeclaresClass decl := by
  have given := Keyed.mem_of_mem_keepFirst present
  obtain ⟨element, -, refers⟩ := List.mem_filterMap.mp given
  exact wellFormed.declaresClass_of_classReference? refers

/-- The lists of a module hold classes. -/
theorem declaresClass_of_mem_moduleMetadata (wellFormed : program.WellFormed)
    {conventions : Conventions} {owner decl : Decl}
    (present : decl ∈ (program.moduleMetadata conventions owner).imports ∨
      decl ∈ (program.moduleMetadata conventions owner).controllers ∨
        decl ∈ (program.moduleMetadata conventions owner).providers) :
    program.DeclaresClass decl := by
  rw [moduleMetadata] at present
  split at present
  · simp at present
  · rcases present with listed | listed | listed <;>
      exact wellFormed.declaresClass_of_mem_listedClasses listed

/-- What is injected into a class is a class. -/
theorem declaresClass_of_mem_dependencies (wellFormed : program.WellFormed)
    {conventions : Conventions} {owner decl : Decl}
    (present : decl ∈ program.dependencies conventions owner) : program.DeclaresClass decl := by
  rw [dependencies] at present
  split at present
  · obtain ⟨parameter, -, asks⟩ := List.mem_filterMap.mp present
    rw [parameterClass?] at asks
    split at asks
    · obtain ⟨token, -, refers⟩ := Option.bind_eq_some_iff.mp asks
      exact wellFormed.declaresClass_of_classReference? refers
    · split at asks
      · next found typed =>
        cases asks
        obtain ⟨ascription, -, isInstance⟩ := Option.map_eq_some_iff.mp typed
        have kind : (program.ascribedType ascription).WellKinded program :=
          (wellFormed.wellKinded_level fullBudget).ascribed ascription
        rw [isInstance] at kind
        exact kind
      · cases asks
  · cases present

end WellFormed

/-! ### The whole program -/

/-- Whatever a program is asked, the answer is of the kind it claims to be. -/
structure WellKinded (program : Program) : Prop where
  /-- With any budget types are of their kinds, expressions denote no imports, and what a class
  extends or a reference leads to is a class. -/
  level : ∀ budget, (program.level budget).WellKinded program
  /-- A name in scope denotes something of the program. -/
  lookup : ∀ place name symbol, program.lookup? place name = some symbol → symbol.Known program
  /-- An export denotes something of the program. -/
  exported : ∀ file name symbol, program.exportSymbol? file name = some symbol →
    symbol.Known program
  /-- Following imports ends at no import and does not leave the program. -/
  followed : ∀ symbol result, program.resolveAlias? symbol = some result →
    (∀ link, result ≠ .imported link) ∧ (symbol.Known program → result.Known program)
  /-- A call calls no import. -/
  callee : ∀ call symbol, program.calleeSymbol? call = some symbol → symbol.Resolved program
  /-- A name on an instance denotes a member of its class that is not static. -/
  instanceMember : ∀ budget name owner symbol, program.DeclaresClass owner →
    program.member? (program.level budget) name (.instanceOf owner) = some symbol →
      ∃ member, symbol = .decl member ∧
        program.HasMember (program.level budget) owner name false member
  /-- A name on a class denotes a static member of the class. -/
  staticMember : ∀ budget name owner symbol, program.DeclaresClass owner →
    program.member? (program.level budget) name (.classItself owner) = some symbol →
      ∃ member, symbol = .decl member ∧
        program.HasMember (program.level budget) owner name true member
  /-- A class extends another class. -/
  base : ∀ decl base, program.baseClass? decl = some base →
    program.DeclaresClass base ∧ base.id ≠ decl.id
  /-- References lead to classes. -/
  reference : ∀ expression decl, program.classReference? expression = some decl →
    program.DeclaresClass decl
  /-- The lists of a module hold classes. -/
  metadata : ∀ conventions owner, ∀ decl,
    decl ∈ (program.moduleMetadata conventions owner).imports ∨
      decl ∈ (program.moduleMetadata conventions owner).controllers ∨
        decl ∈ (program.moduleMetadata conventions owner).providers →
    program.DeclaresClass decl
  /-- What is injected into a class is a class. -/
  injected : ∀ conventions owner, ∀ decl ∈ program.dependencies conventions owner,
    program.DeclaresClass decl

/-- Every program gives well-kinded answers only. -/
theorem answers_wellKinded (settings : AnalysisSettings) (inputs : List Input) :
    (ofModel (Model.build settings inputs)).WellKinded := by
  have wellFormed := wellFormed_ofModel (Model.numbered_build settings inputs)
  have kinded := wellFormed.wellKinded_level
  exact {
    level := kinded
    lookup := fun _ _ _ found => wellFormed.known_of_lookup? found
    exported := fun _ _ _ found => wellFormed.known_of_exportSymbol? found
    followed := fun _ _ found => ⟨ne_imported_of_resolveAlias? found,
      fun known => (wellFormed.resolved_of_resolveAlias? known found).known⟩
    callee := fun _ _ found => wellFormed.resolved_of_calleeSymbol? found
    instanceMember := fun budget _ _ _ isClass found =>
      hasMember_of_classMember? (kinded budget) isClass found
    staticMember := fun budget _ _ _ isClass found =>
      hasMember_of_classMember? (kinded budget) isClass found
    base := (kinded fullBudget).base
    reference := (kinded fullBudget).reference
    metadata := fun _ _ _ present => wellFormed.declaresClass_of_mem_moduleMetadata present
    injected := fun _ _ _ present => wellFormed.declaresClass_of_mem_dependencies present }

end Program

end CodeGraph
