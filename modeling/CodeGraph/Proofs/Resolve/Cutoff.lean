import CodeGraph.Proofs.Resolve.Termination

/-!
# What running out of budget may change

The same question may be asked at two depths. Asked deeper, it has less budget left, and more of
what it asks in turn is given up. Mostly an answer is then lost or stays the same. But three kinds
of questions choose between two answers: the type of a binding (its annotation or its value), the
type that an `as` expression asserts (or that of its operand), and the member that an element access
denotes (by the annotation of its receiver or by its value). When what counts first is lost there,
what counts second takes its place, and that may be something else.

## Main Definitions

* `LosesTo`: one answer is lost, or it is the other one.
* `Script.asked`, `Program.LeadsTo`: the questions that are asked on the way to an answer.
* `Question.deeper`, `Question.Kept`: a question asked some jumps deeper, and that its answer there
  is the one here unless it is lost.
* `Question.Supplanted`: what counts first is lost deeper down and something else takes its place.

## Main Statements

* `Program.Rooted.eq_of_same`: types that are told to be the same are the same.
* `Program.keyed_value_of_same`: a receiver whose value is of the annotated type has no other
  members.
* `Program.answer_binding`, `Program.answer_as`, `Program.answer_element`: how the questions that
  choose are answered.

## Design Notes

Only the questions that are really asked count, with the answers of the levels. A program may be
full of annotations that contradict the values beside them; what matters to an expression is what
its own question leads to.
-/

namespace CodeGraph

/-! ### Answers that are lost -/

/-- Answers of which one says that nothing is known. -/
class Losable (α : Type) where
  /-- The answer that says nothing. -/
  lost : α

instance {α : Type} : Losable (Option α) := ⟨none⟩

instance : Losable Ty := ⟨.unknown⟩

/-- The first answer is lost, or both are the same. -/
def LosesTo {α : Type} [Losable α] (less more : α) : Prop := less = Losable.lost ∨ less = more

/-- The second of two types counts only where nothing is known of the first. -/
theorem Ty.orElse_of_known {first : Ty} (known : first ≠ .unknown) (second : Ty) :
    first.orElse second = first := by
  cases first with
  | unknown => exact absurd rfl known
  | _ => rfl

namespace LosesTo

variable {α β : Type} [Losable α] [Losable β]

theorem refl (answer : α) : LosesTo answer answer := .inr rfl

theorem of_lost (more : α) : LosesTo Losable.lost more := .inl rfl

/-- What says nothing about a lost answer loses with it. -/
theorem apply {less more : α} (loses : LosesTo less more) {f : α → β}
    (strict : f Losable.lost = Losable.lost) : LosesTo (f less) (f more) := by
  rcases loses with rfl | rfl
  · exact .inl strict
  · exact .refl _

/-- A choice between two types loses, when each of them does. The last condition is the one that
matters: where the first type is lost and was known before, the second one must not be another
type. -/
theorem orElse {first second first' second' : Ty} (one : LosesTo first first')
    (other : first = .unknown → LosesTo second second')
    (free : first = .unknown → first' ≠ .unknown → LosesTo second first') :
    LosesTo (first.orElse second) (first'.orElse second') := by
  by_cases lost : first = .unknown
  · by_cases nothing : first' = .unknown
    · rw [lost, nothing]
      exact other lost
    · rw [lost, Ty.orElse_of_known nothing]
      exact free lost nothing
  · obtain rfl := one.resolve_left lost
    rw [Ty.orElse_of_known lost, Ty.orElse_of_known lost]
    exact .refl _

end LosesTo

/-! ### What is asked on the way -/

namespace Script

variable {α β : Type} {given : (question : Question) → question.Answer}

/-- The questions that are asked on the way to the result, with given answers. -/
def asked (given : (question : Question) → question.Answer) : Script α → List Question
  | done _ => []
  | ask question next => question :: (next (given question)).asked given

/-- A script keeps to a condition, when each question that it asks on the way meets it. -/
theorem asksOnly_iff {allowed : Question → Prop} {script : Script α} :
    script.AsksOnly given allowed ↔ ∀ question ∈ script.asked given, allowed question := by
  induction script with
  | done value => simp [AsksOnly, asked]
  | ask question next inductionHypothesis =>
    rw [asked, List.forall_mem_cons, ← inductionHypothesis]
    rfl

/-- One script after another asks what the first one asks and then what the second one makes of its
result. -/
theorem asked_bind (script : Script α) (next : α → Script β) :
    (script.bind next).asked given =
      script.asked given ++ (next (script.result given)).asked given := by
  induction script with
  | done value => rfl
  | ask question rest inductionHypothesis =>
    rw [bind, asked, asked, List.cons_append, inductionHypothesis]
    rfl

end Script

/-- A question leads to another one: that one is asked on the way to its answer. -/
def Program.LeadsTo (program : Program) : Question → Question → Prop :=
  Relation.ReflTransGen fun question next => next ∈ (program.script question).asked program.answer

/-! ### Asking deeper -/

namespace Question

/-- The same question, asked at another depth. -/
def moved (depth : Nat) : Question → Question
  | symbol expression _ => symbol expression depth
  | type preference expression _ => type preference expression depth
  | symbolType preference denoted _ => symbolType preference denoted depth
  | binding preference node _ => binding preference node depth
  | returned decl _ => returned decl depth
  | ascribed ascription _ => ascribed ascription depth
  | member name receiver _ => member name receiver depth
  | classMember name isStatic owner _ => classMember name isStatic owner depth
  | objectMember name object _ => objectMember name object depth
  | base decl _ => base decl depth
  | reference expression _ => reference expression depth

/-- The same question, asked some jumps deeper. -/
def deeper (gap : Nat) (question : Question) : Question := question.moved (gap + question.depth)

/-- What a question is answered some jumps deeper, it is answered here. References to classes are
left out; they decide nothing about symbols and types. -/
def Kept (program : Program) (gap : Nat) : Question → Prop
  | symbol expression depth =>
    LosesTo (program.answer (symbol expression (gap + depth)))
      (program.answer (symbol expression depth))
  | type preference expression depth =>
    LosesTo (program.answer (type preference expression (gap + depth)))
      (program.answer (type preference expression depth))
  | symbolType preference denoted depth =>
    LosesTo (program.answer (symbolType preference denoted (gap + depth)))
      (program.answer (symbolType preference denoted depth))
  | binding preference node depth =>
    LosesTo (program.answer (binding preference node (gap + depth)))
      (program.answer (binding preference node depth))
  | returned decl depth =>
    LosesTo (program.answer (returned decl (gap + depth))) (program.answer (returned decl depth))
  | ascribed ascription depth =>
    LosesTo (program.answer (ascribed ascription (gap + depth)))
      (program.answer (ascribed ascription depth))
  | member name receiver depth =>
    LosesTo (program.answer (member name receiver (gap + depth)))
      (program.answer (member name receiver depth))
  | classMember name isStatic owner depth =>
    LosesTo (program.answer (classMember name isStatic owner (gap + depth)))
      (program.answer (classMember name isStatic owner depth))
  | objectMember name object depth =>
    LosesTo (program.answer (objectMember name object (gap + depth)))
      (program.answer (objectMember name object depth))
  | base decl depth =>
    LosesTo (program.answer (base decl (gap + depth))) (program.answer (base decl depth))
  | reference .. => True

/-- Whether a question is about the program does not hang on the depth. -/
theorem inside_deeper {program : Program} {gap : Nat} {question : Question} :
    (question.deeper gap).Inside program ↔ question.Inside program := by
  cases question <;> rfl

/-- A question asked deep enough is asked some jumps deeper than another one. -/
theorem exists_deeper {gap : Nat} {question : Question} (deep : gap ≤ question.depth) :
    ∃ earlier : Question, earlier.deeper gap = question := by
  obtain ⟨depth, same⟩ := Nat.exists_eq_add_of_le deep
  refine ⟨question.moved depth, ?_⟩
  cases question <;> exact congrArg _ same.symm

end Question

/-! ### Choices -/

namespace Program

/-- The types that count first and second for what a node binds. -/
def sides (below : Level) : Preference → Node → Ty × Ty
  | .declared, node => (declaredType below node, valueType below .declared node)
  | .value, node => (valueType below .value node, declaredType below node)

/-- The type that an `as` expression asserts, by what stands behind its operand. -/
def assertedType (below : Level) (rest : List Node) : Ty :=
  (rest.head?.map below.ascribed).getD .unknown

/-- What a key denotes on the type of a receiver, before links are followed. -/
def keyed (program : Program) (preference : Preference) (object : Node) (key : String)
    (depth : Nat) : Option Symbol :=
  program.answer (.member key (program.answer (.type preference object depth)) depth)

end Program

/-- A choice is supplanted: what counts first is known some jumps earlier, but is lost here, and
what counts second is something else. -/
inductive Question.Supplanted (program : Program) (gap : Nat) : Question → Prop
  /-- The annotation of a binding is lost, or its value when values count first. -/
  | binding {preference : Preference} {node : Node} {depth : Nat}
      (lost : (Program.sides (program.atDepth (depth + 1)) preference node).1 = .unknown)
      (known : (Program.sides (program.atDepth (depth - gap + 1)) preference node).1 ≠ .unknown)
      (another : ¬ LosesTo (Program.sides (program.atDepth (depth + 1)) preference node).2
        (Program.sides (program.atDepth (depth - gap + 1)) preference node).1) :
      Supplanted program gap (.binding preference node depth)
  /-- The asserted type of an `as` expression is lost, and the operand is of another type. -/
  | asserted {expression operand : Node} {rest : List Node} {depth : Nat}
      (isAs : expression.kind = .asExpression)
      (children : expression.namedChildren = operand :: rest)
      (lost : Program.assertedType (program.atDepth depth) rest = .unknown)
      (known : Program.assertedType (program.atDepth (depth - gap)) rest ≠ .unknown)
      (another : ¬ LosesTo ((program.atDepth depth).type .declared operand)
        (Program.assertedType (program.atDepth (depth - gap)) rest)) :
      Supplanted program gap (.type .declared expression depth)
  /-- The member that an element access has by the annotation of the receiver is lost, and the value
  of the receiver leads to another one. -/
  | element {expression object : Node} {key : String} {depth : Nat}
      (isAccess : expression.unwrap.kind = .subscriptExpression)
      (isObject : expression.unwrap.child? .object = some object)
      (isKey : (expression.unwrap.child? .index).bind program.literalKey? = some key)
      (lost : program.keyed .declared object key depth = none)
      (known : program.keyed .declared object key (depth - gap) ≠ none)
      (another : ¬ LosesTo ((program.keyed .value object key depth).bind program.resolveAlias?)
        ((program.keyed .declared object key (depth - gap)).bind program.resolveAlias?)) :
      Supplanted program gap (.symbol expression depth)

namespace Program

variable {program : Program} {gap : Nat}

/-! ### Types that are the same -/

/-- Files of the program with one number are one file. -/
theorem source_eq_of_id_eq (numbered : program.model.Numbered) {a b : SourceFile}
    (hasA : program.HasFile a) (hasB : program.HasFile b) (same : a.id = b.id) : a = b := by
  obtain ⟨fileA, memA, rfl⟩ := hasA
  obtain ⟨fileB, memB, rfl⟩ := hasB
  have foundA := getElem?_of_numbered numbered memA
  rw [same, getElem?_of_numbered numbered memB] at foundA
  rw [Option.some.inj foundA]

/-- Nodes of the program at one place are one node. -/
theorem node_eq_of_same (numbered : program.model.Numbered) {a b : Node}
    (hasA : program.HasNode a) (hasB : program.HasNode b) (same : a.same b) : a = b := by
  rw [Node.same, Bool.and_eq_true, decide_eq_true_eq, decide_eq_true_eq] at same
  exact eq_of_place_eq numbered hasA hasB (Prod.ext same.1 same.2)

/-- Types that are told to be the same are the same, so that nothing is lost when the second one of
them is not looked at. -/
theorem Rooted.eq_of_same (rooted : program.Rooted) (numbered : program.model.Numbered) {a b : Ty}
    (kindA : a.WellKinded program) (kindB : b.WellKinded program) (placedA : a.Placed program)
    (placedB : b.Placed program) (same : a.same b) : a = b := by
  fun_cases Ty.same a b with
  | case1 declA declB | case2 declA declB =>
    have sameId : declA.id = declB.id := of_decide_eq_true same
    rw [rooted.eq_of_id_eq kindA.declared kindB.declared sameId]
  | case3 fileA fileB =>
    rw [source_eq_of_id_eq numbered kindA kindB (of_decide_eq_true same)]
  | case4 nodeA nodeB => rw [node_eq_of_same numbered placedA placedB same]
  | case5 => rfl
  | case6 =>
    rw [Ty.same] at same
    · cases same
    all_goals assumption

/-! ### How the questions that choose are answered -/

/-- The type of a binding is that of the side that counts first, unless nothing is known of it. -/
theorem answer_binding (preference : Preference) (node : Node) {depth : Nat}
    (near : depth ≤ depthLimit) :
    program.answer (.binding preference node depth) =
      (sides (program.atDepth (depth + 1)) preference node).1.orElse
        (sides (program.atDepth (depth + 1)) preference node).2 := by
  rw [answer, atDepth_of_le near]
  cases preference <;> rfl

/-- The type of an `as` expression is the asserted one, unless nothing is known of it. -/
theorem answer_as {expression operand : Node} {rest : List Node} {depth : Nat}
    (near : depth ≤ depthLimit) (isAs : expression.kind = .asExpression)
    (children : expression.namedChildren = operand :: rest) :
    program.answer (.type .declared expression depth) =
      (assertedType (program.atDepth depth) rest).orElse
        ((program.atDepth depth).type .declared operand) := by
  rw [← result_script, script, upToLimit, if_neg (Nat.not_lt_of_le near)]
  simp only [typeScript, isAs, children]
  change (firstKnown (askAscribed rest.head? depth)
    (askType .declared (some operand) depth)).result program.answer = _
  rw [result_firstKnown, result_askAscribed, result_askType]
  rfl

/-- How to tell what an element access denotes. -/
def elementScript (program : Program) (object : Node) (key : String) (depth : Nat) :
    Script (Option Symbol) :=
  .ask (.type .declared object depth) fun declared =>
  .ask (.member key declared depth) fun found =>
  match found with
  | some symbol => .done (program.resolveAlias? symbol)
  | none =>
    .ask (.type .value object depth) fun valued =>
    if valued.same declared then .done none
    else .ask (.member key valued depth) fun found => .done (found.bind program.resolveAlias?)

/-- An element access with a literal key is told in this way; with any other key it denotes
nothing. -/
theorem symbolScript_element {expression object : Node} {key : String}
    (isAccess : expression.kind = .subscriptExpression)
    (isObject : expression.child? .object = some object)
    (isKey : (expression.child? .index).bind program.literalKey? = some key) (depth : Nat) :
    program.symbolScript expression depth = program.elementScript object key depth := by
  simp only [symbolScript, isAccess, isObject, isKey, elementScript]
  congr
  funext declared
  congr
  funext found
  cases found <;> rfl

/-- A value of the same type as the annotation leads to the same member, so it need not be asked
for. -/
theorem keyed_value_of_same (rooted : program.Rooted) (numbered : program.model.Numbered)
    {object : Node} (within : program.HasNode object) (key : String) {depth : Nat}
    (same : (program.answer (.type .value object depth)).same
      (program.answer (.type .declared object depth))) :
    program.keyed .value object key depth = program.keyed .declared object key depth := by
  have kinded := (rooted.wellKinded_level (fullBudget - depth)).type
  have placed := (rooted.placed_level (fullBudget - depth)).type
  have alike : program.answer (.type .value object depth) =
      program.answer (.type .declared object depth) :=
    rooted.eq_of_same numbered (kinded .value object) (kinded .declared object)
      (placed .value object within) (placed .declared object within) same
  rw [keyed, keyed, alike]

/-- An element access denotes what its key denotes by the annotation of the receiver, else by its
value. -/
theorem result_elementScript (rooted : program.Rooted) (numbered : program.model.Numbered)
    {object : Node} (within : program.HasNode object) (key : String) (depth : Nat) :
    (program.elementScript object key depth).result program.answer =
      ((program.keyed .declared object key depth).or
        (program.keyed .value object key depth)).bind program.resolveAlias? := by
  rw [elementScript, Script.result_ask, Script.result_ask]
  cases declared : program.keyed .declared object key depth with
  | some symbol =>
    rw [keyed] at declared
    rw [declared]
    rfl
  | none =>
    rw [Option.none_or]
    have missing := declared
    rw [keyed] at missing
    rw [missing]
    dsimp only [Script.result_ask]
    split
    · next same =>
      rw [keyed_value_of_same rooted numbered within key same, declared]
      rfl
    · rfl

/-- The same, as the answer to the question. -/
theorem answer_element (rooted : program.Rooted) (numbered : program.model.Numbered)
    {expression object : Node} {key : String} {depth : Nat} (near : depth ≤ depthLimit)
    (within : program.HasNode expression)
    (isAccess : expression.unwrap.kind = .subscriptExpression)
    (isObject : expression.unwrap.child? .object = some object)
    (isKey : (expression.unwrap.child? .index).bind program.literalKey? = some key) :
    program.answer (.symbol expression depth) =
      ((program.keyed .declared object key depth).or
        (program.keyed .value object key depth)).bind program.resolveAlias? := by
  have inside := within.of_within ((Node.within_of_child? isObject).trans expression.unwrap_within)
  rw [← result_script, script, upToLimit, if_neg (Nat.not_lt_of_le near),
    symbolScript_element isAccess isObject isKey, result_elementScript rooted numbered inside key]

end Program

end CodeGraph
