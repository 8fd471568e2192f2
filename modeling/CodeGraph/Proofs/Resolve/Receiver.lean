import CodeGraph.Proofs.Resolve.Inside
import CodeGraph.Proofs.Resolve.Reading

/-!
# Calls on `this` and `super`

A class has two sides: its static members belong to the class itself, the others to its instances.
Which side `this` and `super` stand for depends on the part of the class body that they are written
in, seen through arrow functions. The resolver knows the class around a place but does not ask for
the part, and always takes the instance side.

So a call on `this` or `super` leads to the nearest member with the name that is not static, in
every part of the class. In a part that is not static this is the right side, and no static member
is ever called. In a static part it is the wrong one: whatever such a call leads to is not static.

## Main Definitions

* `Node.classPart?`: the part of a class body that a place stands in.
* `Node.selfAccess?`: the receiver and the member of a call on `this` or `super`.
* `Program.CallsInstanceSide`: what such a call leads to.

## Main Statements

* `Program.enclosingClass?_eq_bind`: a place has the class of the part that it stands in.
* `Program.symbol?_read_self`: what a member of `this` or `super` denotes.
* `Program.selfCalls_reachInstances`: what calls on `this` and `super` lead to.
* `Program.staticThis_callsInstance`: a call in a static method that leads to the wrong side.
-/

namespace CodeGraph

namespace Node

/-! ### Parts of a class body -/

/-- The part of a class body that comes first among a node and the nodes around it, seen through
what the class around a place is seen through. -/
def partAmong? (part : Node) : List Node → Option Node
  | [] => none
  | node :: above =>
    match node.kind with
    | .classBody => some part
    | .functionDeclaration | .functionExpression | .functionWord
    | .generatorFunctionDeclaration | .generatorFunction => none
    | .methodDefinition =>
      if above.head?.map Node.kind = some .object then none else partAmong? node above
    | _ => partAmong? node above

/-- The part of a class body that a place stands in: a method, a field or a static block. -/
def classPart? (place : Node) : Option Node := partAmong? place place.ancestors

theorem ancestors_of_cons {node parent : Node} {above : List Node}
    (around : node.ancestors = parent :: above) : parent.ancestors = above := by
  cases way : node.trail with
  | nil => simp [ancestors, way, alongTrail] at around
  | cons step rest =>
    rw [ancestors, way, alongTrail] at around
    obtain ⟨rfl, rfl⟩ := List.cons.inj around
    rfl

/-- The receiver and the name of the member, when a call is one of a member of `this` or `super`. -/
def selfAccess? (call : Node) : Option (Node × Node) := do
  let callee := (← call.child? .function).unwrap
  let receiver ← callee.child? .object
  let property ← callee.child? .property
  if callee.kind = .memberExpression ∧
      (receiver.kind = .thisExpression ∨ receiver.kind = .superExpression) then
    some (receiver, property)
  else none

theorem of_selfAccess? {call receiver property : Node}
    (calls : call.selfAccess? = some (receiver, property)) :
    ∃ callee, call.child? .function = some callee ∧ callee.unwrap.kind = .memberExpression ∧
      callee.unwrap.child? .object = some receiver ∧
      callee.unwrap.child? .property = some property ∧
      (receiver.kind = .thisExpression ∨ receiver.kind = .superExpression) := by
  obtain ⟨callee, isCallee, rest⟩ := Option.bind_eq_some_iff.mp calls
  obtain ⟨object, isObject, rest⟩ := Option.bind_eq_some_iff.mp rest
  obtain ⟨member, isMember, rest⟩ := Option.bind_eq_some_iff.mp rest
  split at rest
  · next both =>
    cases rest
    exact ⟨callee, isCallee, both.1, isObject, isMember, both.2⟩
  · cases rest

end Node

namespace Program

variable {program : Program}

theorem classAmong?_eq_bind {place : Node} {above : List Node} (around : place.ancestors = above) :
    program.classAmong? above = (Node.partAmong? place above).bind program.enclosingClass? := by
  fun_induction Node.partAmong? place above with
  | case1 => rfl
  | case2 part node above isBody => rw [Option.bind_some, enclosingClass?, around]
  | case3 _ _ _ kind | case4 _ _ _ kind | case5 _ _ _ kind | case6 _ _ _ kind | case7 _ _ _ kind =>
    simp only [classAmong?, kind, Option.bind_none]
  | case8 part node above isMethod inObject =>
    simp only [classAmong?, isMethod, if_pos inObject, Option.bind_none]
  | case9 part node above isMethod inClass inductionHypothesis =>
    simp only [classAmong?, isMethod, if_neg inClass]
    exact inductionHypothesis (Node.ancestors_of_cons around)
  | case10 part node above noBody _ _ _ _ _ noMethod inductionHypothesis =>
    rw [← inductionHypothesis (Node.ancestors_of_cons around), classAmong?]
    split <;> simp_all

/-- The class around a place is the class around the part of a class body that the place stands
in. -/
theorem enclosingClass?_eq_bind (place : Node) :
    program.enclosingClass? place = place.classPart?.bind program.enclosingClass? :=
  classAmong?_eq_bind rfl

/-! ### What calls on the receiver lead to -/

/-- The class whose instance side a receiver is taken for: the class around `this`, and the class
that it extends for `super`. -/
def selfClass? (program : Program) (below : Level) (receiver : Node) : Option Decl :=
  if receiver.kind = .superExpression then (program.enclosingClass? receiver).bind below.base?
  else program.enclosingClass? receiver

theorem type_read_self {below : Level} {receiver : Node}
    (self : receiver.kind = .thisExpression ∨ receiver.kind = .superExpression)
    (preference : Preference) :
    (program.read below receiver).type preference =
      ((program.selfClass? below receiver).map .instanceOf).getD .unknown := by
  rcases self with isThis | isSuper
  · rw [read_this isThis, selfClass?, if_neg (by simp [isThis])]
    rfl
  · rw [read_super isSuper, selfClass?, if_pos isSuper]
    rfl

/-- A member of `this` or `super` is the nearest one of its class that is not static. -/
theorem symbol?_read_self {below : Level} {access receiver property : Node}
    (isAccess : access.kind = .memberExpression)
    (isReceiver : access.child? .object = some receiver)
    (isProperty : access.child? .property = some property)
    (self : receiver.kind = .thisExpression ∨ receiver.kind = .superExpression) :
    (program.read below access).symbol? = ((program.selfClass? below receiver).bind
      (program.classMember? below property.text false)).map .decl := by
  rw [read_member isAccess isReceiver isProperty, type_read_self self]
  cases program.selfClass? below receiver with
  | none => rfl
  | some owner =>
    -- A member is no link to another module, so there is nothing to follow.
    rw [Option.bind_some]
    show ((program.classMember? below property.text false owner).map Symbol.decl).bind
      program.resolveAlias? = _
    cases program.classMember? below property.text false owner <;> rfl

/-- What is found on `this` or `super` is a member, on the instance side, of the class around the
place or of a class that it extends. -/
theorem WellFormed.hasMember_of_selfClass? (wellFormed : program.WellFormed) {below : Level}
    (kinded : below.WellKinded program) {receiver : Node} {owner member : Decl} {name : String}
    (isSelf : program.selfClass? below receiver = some owner)
    (found : program.classMember? below name false owner = some member) :
    ∃ around, program.enclosingClass? receiver = some around ∧
      program.HasMember below around name false member := by
  rw [selfClass?] at isSelf
  split at isSelf
  · obtain ⟨around, isAround, extends_⟩ := Option.bind_eq_some_iff.mp isSelf
    obtain ⟨holder, chain, held⟩ :=
      hasMember_of_memberUpTo? kinded (kinded.base around owner extends_).1 found
    exact ⟨around, isAround, holder, .head extends_ chain, held⟩
  · exact ⟨owner, isSelf, hasMember_of_memberUpTo? kinded
      (wellFormed.declaresClass_of_enclosingClass? isSelf) found⟩

section SelfCalls

variable {call receiver property : Node}

/-- A call on `this` or `super` leads to the nearest member of its class that is not static. -/
theorem calleeSymbol?_self (calls : call.selfAccess? = some (receiver, property)) :
    program.calleeSymbol? call =
      ((program.selfClass? (program.level (fullBudget - 1)) receiver).bind
        (program.classMember? (program.level (fullBudget - 1)) property.text false)).map .decl := by
  obtain ⟨callee, isCallee, isAccess, isReceiver, isProperty, self⟩ := Node.of_selfAccess? calls
  have asked : program.calleeSymbol? call =
      (program.read (program.level (fullBudget - 1)) callee.unwrap).symbol? := by
    rw [symbol?_read_unwrap, calleeSymbol?, isCallee, Option.bind_some]
    rfl
  exact asked.trans (symbol?_read_self isAccess isReceiver isProperty self)

/-- What a call on `this` or `super` leads to is a member, on the instance side, of the class around
its part of the class body or of a class that this class extends. -/
theorem WellFormed.hasMember_of_selfCall (wellFormed : program.WellFormed)
    (calls : call.selfAccess? = some (receiver, property)) {symbol : Symbol}
    (denotes : program.calleeSymbol? call = some symbol) :
    ∃ part owner member, receiver.classPart? = some part ∧
      program.enclosingClass? part = some owner ∧ symbol = .decl member ∧
        program.HasMember (program.level (fullBudget - 1)) owner property.text false member := by
  rw [calleeSymbol?_self calls] at denotes
  obtain ⟨member, look, rfl⟩ := Option.map_eq_some_iff.mp denotes
  obtain ⟨nearest, isSelf, isMember⟩ := Option.bind_eq_some_iff.mp look
  obtain ⟨owner, around, has⟩ := wellFormed.hasMember_of_selfClass?
    (wellFormed.wellKinded_level (fullBudget - 1)) isSelf isMember
  rw [enclosingClass?_eq_bind] at around
  obtain ⟨part, stands, ofPart⟩ := Option.bind_eq_some_iff.mp around
  exact ⟨part, owner, member, stands, ofPart, rfl, has⟩

theorem WellFormed.not_isStatic_of_selfCall (wellFormed : program.WellFormed)
    (calls : call.selfAccess? = some (receiver, property)) {member : Decl}
    (denotes : program.calleeSymbol? call = some (.decl member)) : ¬member.isStatic := by
  obtain ⟨-, -, found, -, -, same, -, -, -, -, -, isInstance⟩ :=
    wellFormed.hasMember_of_selfCall calls denotes
  cases same
  simp [isInstance]

end SelfCalls

/-- What a call of a member of `this` or `super` leads to. -/
structure CallsInstanceSide (program : Program) (call receiver : Node) (name : String) : Prop where
  /-- It leads to the nearest member with the name that is not static. -/
  callee : program.calleeSymbol? call =
    ((program.selfClass? (program.level (fullBudget - 1)) receiver).bind
      (program.classMember? (program.level (fullBudget - 1)) name false)).map .decl
  /-- What it leads to is a member of the class around it or of a class that this class extends. -/
  member : ∀ symbol, program.calleeSymbol? call = some symbol → ∃ part owner member,
    receiver.classPart? = some part ∧ program.enclosingClass? part = some owner ∧
      symbol = .decl member ∧
        program.HasMember (program.level (fullBudget - 1)) owner name false member
  /-- In a part of the class that is not static it leads to no static member. -/
  instanceSide : ∀ part, receiver.classPart? = some part → ¬part.isStatic →
    ∀ member, program.calleeSymbol? call = some (.decl member) → ¬member.isStatic
  /-- In a static part it leads to no member of the wrong side only when it leads nowhere. -/
  staticSide : ∀ part, receiver.classPart? = some part → part.isStatic →
    ((∀ member, program.calleeSymbol? call = some (.decl member) → member.isStatic) ↔
      program.calleeSymbol? call = none)

/-- **Calls on `this` and `super` lead to the instance side of the class, in every part of it.** -/
theorem selfCalls_reachInstances (settings : AnalysisSettings) (inputs : List Input)
    {call receiver property : Node} (calls : call.selfAccess? = some (receiver, property)) :
    (ofModel (Model.build settings inputs)).CallsInstanceSide call receiver property.text := by
  have wellFormed := wellFormed_ofModel (Model.numbered_build settings inputs)
  generalize ofModel (Model.build settings inputs) = program at wellFormed
  refine
    { callee := calleeSymbol?_self calls
      member := fun symbol denotes => wellFormed.hasMember_of_selfCall calls denotes
      instanceSide := fun part _ _ member denotes =>
        wellFormed.not_isStatic_of_selfCall calls denotes
      staticSide := fun part _ _ => ⟨fun allStatic => ?_, fun nothing member denotes => ?_⟩ }
  · apply Option.eq_none_iff_forall_ne_some.mpr
    intro symbol denotes
    obtain ⟨-, -, member, -, -, rfl, -⟩ := wellFormed.hasMember_of_selfCall calls denotes
    exact wellFormed.not_isStatic_of_selfCall calls denotes (allStatic member denotes)
  · cases nothing.symm.trans denotes

/-! ### A static method that calls on `this` -/

/-- A class with a static and another method of one name, and with two methods, the second of them
static, that call it on `this`. -/
def twoSided : Input where
  path := "a.ts"
  text := "class A\x7bstatic go()\x7b\x7dgo()\x7b\x7drun()\x7bthis.go()\x7d" ++
    "static run()\x7bthis.go()\x7d\x7d"
  tree := some <|
    .node ⟨.program, none, true, false, 0, 67⟩ [
      .node ⟨.classDeclaration, none, true, false, 0, 67⟩ [
        .node ⟨.typeIdentifier, some .name, true, false, 6, 7⟩ [],
        .node ⟨.classBody, some .body, true, false, 7, 67⟩ [
          .node ⟨.methodDefinition, none, true, false, 8, 21⟩ [
            .node ⟨.staticWord, none, false, false, 8, 14⟩ [],
            .node ⟨.propertyIdentifier, some .name, true, false, 15, 17⟩ [],
            .node ⟨.formalParameters, some .parameters, true, false, 17, 19⟩ [],
            .node ⟨.statementBlock, some .body, true, false, 19, 21⟩ []],
          .node ⟨.methodDefinition, none, true, false, 21, 27⟩ [
            .node ⟨.propertyIdentifier, some .name, true, false, 21, 23⟩ [],
            .node ⟨.formalParameters, some .parameters, true, false, 23, 25⟩ [],
            .node ⟨.statementBlock, some .body, true, false, 25, 27⟩ []],
          .node ⟨.methodDefinition, none, true, false, 27, 43⟩ [
            .node ⟨.propertyIdentifier, some .name, true, false, 27, 30⟩ [],
            .node ⟨.formalParameters, some .parameters, true, false, 30, 32⟩ [],
            .node ⟨.statementBlock, some .body, true, false, 32, 43⟩ [
              .node ⟨.other "expression_statement", none, true, false, 33, 42⟩ [
                .node ⟨.callExpression, none, true, false, 33, 42⟩ [
                  .node ⟨.memberExpression, some .function, true, false, 33, 40⟩ [
                    .node ⟨.thisExpression, some .object, true, false, 33, 37⟩ [],
                    .node ⟨.propertyIdentifier, some .property, true, false, 38, 40⟩ []],
                  .node ⟨.arguments, some .arguments, true, false, 40, 42⟩ []]]]],
          .node ⟨.methodDefinition, none, true, false, 43, 66⟩ [
            .node ⟨.staticWord, none, false, false, 43, 49⟩ [],
            .node ⟨.propertyIdentifier, some .name, true, false, 50, 53⟩ [],
            .node ⟨.formalParameters, some .parameters, true, false, 53, 55⟩ [],
            .node ⟨.statementBlock, some .body, true, false, 55, 66⟩ [
              .node ⟨.other "expression_statement", none, true, false, 56, 65⟩ [
                .node ⟨.callExpression, none, true, false, 56, 65⟩ [
                  .node ⟨.memberExpression, some .function, true, false, 56, 63⟩ [
                    .node ⟨.thisExpression, some .object, true, false, 56, 60⟩ [],
                    .node ⟨.propertyIdentifier, some .property, true, false, 61, 63⟩ []],
                  .node ⟨.arguments, some .arguments, true, false, 63, 65⟩ []]]]]]]]

/-- The call that a method of the class consists of which the first file begins with. -/
def callIn? (program : Program) (position : Nat) : Option Node := do
  let file ← program.model.files.head?
  let body ← (← file.root.firstNamed?).child? .body
  let block ← (← body.namedChildren[position]?).child? .body
  (← block.firstNamed?).firstNamed?

theorem hasNode_of_callIn? {program : Program} {position : Nat} {call : Node}
    (found : program.callIn? position = some call) : program.HasNode call := by
  obtain ⟨file, isFirst, found⟩ := Option.bind_eq_some_iff.mp found
  obtain ⟨owner, isOwner, found⟩ := Option.bind_eq_some_iff.mp found
  obtain ⟨body, isBody, found⟩ := Option.bind_eq_some_iff.mp found
  obtain ⟨method, isMethod, found⟩ := Option.bind_eq_some_iff.mp found
  obtain ⟨block, isBlock, found⟩ := Option.bind_eq_some_iff.mp found
  obtain ⟨statement, isStatement, isCall⟩ := Option.bind_eq_some_iff.mp found
  have root : program.HasNode file.root := ⟨file, List.mem_of_head? isFirst, .refl _⟩
  exact ((((root.of_firstNamed? isOwner).of_child? isBody).of_mem_namedChildren
    (List.mem_of_getElem? isMethod)).of_child? isBlock).of_firstNamed? isStatement
      |>.of_firstNamed? isCall

theorem calleeSymbol?_of_bind_decl? {call : Node} {member : Decl}
    (found : (program.calleeSymbol? call).bind Symbol.decl? = some member) :
    program.calleeSymbol? call = some (.decl member) := by
  obtain ⟨symbol, isSymbol, isDecl⟩ := Option.bind_eq_some_iff.mp found
  rw [isSymbol, symbol.eq_of_decl? isDecl]

/-- In the method that is not static the call leads to the method of the instances. -/
theorem selfCalls_reachInstances_twoSided :
    let program := ofModel (Model.build {} [twoSided])
    ∃ call receiver property part member, call.selfAccess? = some (receiver, property) ∧
      receiver.classPart? = some part ∧ ¬part.isStatic ∧
      program.CallsInstanceSide call receiver property.text ∧
      program.calleeSymbol? call = some (.decl member) ∧ ¬member.isStatic := by
  intro program
  have seen : (program.callIn? 2).any fun call => call.selfAccess?.any fun access =>
      (access.1.classPart?.any fun part => !part.isStatic) &&
        ((program.calleeSymbol? call).bind Symbol.decl?).isSome := by
    decide +kernel
  obtain ⟨call, -, onSelf⟩ := (Option.any_eq_true _ _).mp seen
  obtain ⟨⟨receiver, property⟩, calls, both⟩ := (Option.any_eq_true _ _).mp onSelf
  obtain ⟨hasPart, isDecl⟩ := (Bool.and_eq_true _ _).mp both
  obtain ⟨part, stands, notStatic⟩ := (Option.any_eq_true _ _).mp hasPart
  obtain ⟨member, isMember⟩ := Option.isSome_iff_exists.mp isDecl
  have denotes := calleeSymbol?_of_bind_decl? isMember
  have reaches := selfCalls_reachInstances {} [twoSided] calls
  have side : ¬part.isStatic := by simpa using notStatic
  exact ⟨call, receiver, property, part, member, calls, stands, side, reaches, denotes,
    reaches.instanceSide part stands side member denotes⟩

/-- **In a static method a call on `this` may lead to a member that is not static.** -/
theorem staticThis_callsInstance :
    let program := ofModel (Model.build {} [twoSided])
    ¬ ∀ call receiver property part, program.HasNode call →
      call.selfAccess? = some (receiver, property) → receiver.classPart? = some part →
        part.isStatic → ∀ member, program.calleeSymbol? call = some (.decl member) →
          member.isStatic := by
  intro program keepsSide
  have seen : (program.callIn? 3).any fun call => call.selfAccess?.any fun access =>
      (access.1.classPart?.any fun part => part.isStatic) &&
        ((program.calleeSymbol? call).bind Symbol.decl?).any fun member => !member.isStatic := by
    decide +kernel
  obtain ⟨call, found, onSelf⟩ := (Option.any_eq_true _ _).mp seen
  obtain ⟨⟨receiver, property⟩, calls, both⟩ := (Option.any_eq_true _ _).mp onSelf
  obtain ⟨hasPart, hasMember⟩ := (Bool.and_eq_true _ _).mp both
  obtain ⟨part, stands, isStatic⟩ := (Option.any_eq_true _ _).mp hasPart
  obtain ⟨member, isMember, isInstance⟩ := (Option.any_eq_true _ _).mp hasMember
  have sided := keepsSide call receiver property part (hasNode_of_callIn? found) calls stands
    isStatic member (calleeSymbol?_of_bind_decl? isMember)
  rw [sided] at isInstance
  cases isInstance

end Program

end CodeGraph
