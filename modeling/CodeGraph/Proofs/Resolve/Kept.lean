import CodeGraph.Proofs.Resolve.Cutoff

/-!
# Answers that are kept

Two runs of one question are compared, one of which is asked some jumps deeper. Script by script:
when what the deeper script asks is kept, its result is kept, unless a choice is supplanted in it.
The rank of questions falls from each to those it asks, so it all holds of every question, when no
choice is supplanted in a question that it leads to.

## Main Definitions

* `Script.Settled`: all questions that a script asks are kept.
* `Program.Keeps`: the result of a script is that of another one, unless it is lost.

## Main Statements

* `Program.keeps_firstKnown`: a choice is kept, unless it is supplanted.
* `Program.keeps_symbolScript`, `Program.keeps_typeScript`, `Program.keeps_bindingScript` and
  others: what each kind of question makes of kept answers is kept.
* `Program.kept_of_leadsTo`: a question is kept, when no choice is supplanted on the way.
-/

namespace CodeGraph

/-- Every question that a script asks is kept. -/
def Script.Settled {α : Type} (program : Program) (gap : Nat) (script : Script α) : Prop :=
  ∀ question : Question, question.deeper gap ∈ script.asked program.answer →
    question.Kept program gap

namespace Script.Settled

variable {program : Program} {gap : Nat} {α β : Type}

/-- The first question that is asked is kept. -/
theorem head (question : Question) {next : (question.deeper gap).Answer → Script α}
    (settled : (ask (question.deeper gap) next).Settled program gap) : question.Kept program gap :=
  settled question (.head _)

/-- What is asked after the first answer is kept. -/
theorem tail {question : Question} {next : question.Answer → Script α}
    (settled : (ask question next).Settled program gap) :
    (next (program.answer question)).Settled program gap :=
  fun other asked => settled other (.tail _ asked)

/-- What is asked by the first of two scripts is kept, whatever follows. -/
theorem left {script : Script α} {next : α → Script β}
    (settled : (script.bind next).Settled program gap) : script.Settled program gap :=
  fun question asked => settled question (asked_bind script next ▸ List.mem_append_left _ asked)

/-- What is asked after the first of two scripts is kept. -/
theorem right {script : Script α} {next : α → Script β}
    (settled : (script.bind next).Settled program gap) :
    (next (script.result program.answer)).Settled program gap :=
  fun question asked => settled question (asked_bind script next ▸ List.mem_append_right _ asked)

end Script.Settled

namespace Program

variable {program : Program} {gap : Nat}

/-- The result of a script is the result of another one, unless it is lost. -/
def Keeps {α : Type} [Losable α] (program : Program) (deep here : Script α) : Prop :=
  LosesTo (deep.result program.answer) (here.result program.answer)

/-! ### Small scripts -/

/-- An annotation that is missing says as little deeper down. -/
theorem keeps_askAscribed {ascription : Option Node} (depth : Nat)
    (settled : (askAscribed ascription (gap + depth)).Settled program gap) :
    program.Keeps (askAscribed ascription (gap + depth)) (askAscribed ascription depth) := by
  cases ascription with
  | none => exact .refl _
  | some node => exact settled.head (.ascribed node depth)

theorem keeps_askType {preference : Preference} {expression : Option Node} (depth : Nat)
    (settled : (askType preference expression (gap + depth)).Settled program gap) :
    program.Keeps (askType preference expression (gap + depth))
      (askType preference expression depth) := by
  cases expression with
  | none => exact .refl _
  | some node => exact settled.head (.type preference node depth)

/-- A question that is refused past the limit is refused deeper first. -/
theorem keeps_upToLimit {α : Type} [Losable α] {deep here : Script α} {depth : Nat}
    (settled : (upToLimit (gap + depth) Losable.lost deep).Settled program gap)
    (keeps : deep.Settled program gap → program.Keeps deep here) :
    program.Keeps (upToLimit (gap + depth) Losable.lost deep)
      (upToLimit depth Losable.lost here) := by
  rcases Nat.lt_or_ge depthLimit (gap + depth) with far | near
  · rw [upToLimit, if_pos far]
    exact .of_lost _
  · have nearHere : ¬ depthLimit < depth := by omega
    rw [upToLimit, if_neg (Nat.not_lt_of_le near)] at settled ⊢
    rw [upToLimit, if_neg nearHere]
    exact keeps settled

/-! ### Questions without a choice -/

/-- What type a symbol has is one question about the node or the declaration that it stands for. -/
theorem keeps_symbolTypeScript {preference : Preference} {symbol : Symbol} {depth : Nat}
    (settled : (program.symbolTypeScript preference symbol (gap + depth)).Settled program gap) :
    program.Keeps (program.symbolTypeScript preference symbol (gap + depth))
      (program.symbolTypeScript preference symbol depth) := by
  cases symbol with
  | module file => exact .refl _
  | imported link =>
    rw [symbolTypeScript] at settled ⊢
    rw [symbolTypeScript]
    split at settled
    · exact .refl _
    · exact .refl _
    · next resolved _ _ =>
      exact settled.head (.symbolType preference resolved (depth + 1))
  | decl decl =>
    rw [symbolTypeScript] at settled ⊢
    rw [symbolTypeScript]
    split at settled
    · exact .refl _
    · exact settled.head (.binding preference decl.node depth)
    · exact settled.head (.binding preference decl.node depth)
    · exact settled.head (.returned decl depth)
    · exact .refl _
  | binder node => exact settled.head (.binding preference node depth)

/-- An annotation loses what the annotations inside it lose; which of them is asked for does not
depend on the depth. -/
theorem keeps_ascriptionScript {ascription : Node} {depth : Nat}
    (settled : (program.ascriptionScript ascription (gap + depth)).Settled program gap) :
    program.Keeps (program.ascriptionScript ascription (gap + depth))
      (program.ascriptionScript ascription depth) := by
  rw [ascriptionScript] at settled ⊢
  rw [ascriptionScript]
  split at settled
  · exact .refl _
  · split at settled
    · exact .refl _
    · exact .refl _
    · split at settled
      · exact .refl _
      · split at settled
        · next isPromise =>
          rw [if_pos isPromise, if_pos isPromise]
          exact keeps_askAscribed (depth + 1) settled
        · next isOther =>
          rw [if_neg isOther, if_neg isOther]
          exact keeps_askAscribed (depth + 1) settled
    · exact .refl _
    · split at settled
      · exact keeps_askAscribed (depth + 1) settled
      · exact .refl _
    · exact keeps_askAscribed (depth + 1) settled
    · exact keeps_askAscribed (depth + 1) settled
    · exact .refl _

/-- A member found deeper is found on the same class of the chain; the chain may only be cut off
sooner. -/
theorem keeps_chainScript {name : String} {isStatic : Bool} {depth classes : Nat}
    {visited : List DeclId} {owner : Decl}
    (settled : (program.chainScript name isStatic (gap + depth) classes visited owner).Settled
      program gap) :
    program.Keeps (program.chainScript name isStatic (gap + depth) classes visited owner)
      (program.chainScript name isStatic depth classes visited owner) := by
  induction classes generalizing visited owner with
  | zero => exact .refl _
  | succ classes inductionHypothesis =>
    rw [chainScript] at settled ⊢
    rw [chainScript]
    by_cases visits : owner.id ∈ visited
    · rw [if_pos visits, if_pos visits]
      exact .refl none
    · rw [if_neg visits] at settled
      rw [if_neg visits, if_neg visits]
      split at settled
      · exact .refl _
      · have base : LosesTo (program.answer (.base owner (gap + depth + 1)))
            (program.answer (.base owner (depth + 1))) :=
          settled.head (.base owner (depth + 1))
        have rest := settled.tail
        simp only [Keeps, Script.result_ask]
        rcases base with lost | same
        · rw [lost]
          exact .of_lost _
        · rw [← same]
          split at rest
          · next base _ => exact inductionHypothesis rest
          · exact .of_lost _

/-- Where a member is looked for depends on the receiver alone. -/
theorem keeps_memberScript {name : String} {receiver : Ty} {depth : Nat}
    (settled : (program.memberScript name receiver (gap + depth)).Settled program gap) :
    program.Keeps (program.memberScript name receiver (gap + depth))
      (program.memberScript name receiver depth) := by
  cases receiver with
  | instanceOf owner =>
    exact (settled.head (.classMember name false owner depth)).apply rfl
  | classItself owner =>
    exact (settled.head (.classMember name true owner depth)).apply rfl
  | module file => exact .refl _
  | object node => exact settled.head (.objectMember name node depth)
  | unknown => exact .refl _

theorem keeps_objectScript {name : String} {object : Node} {depth : Nat}
    (settled : (program.objectScript name object (gap + depth)).Settled program gap) :
    program.Keeps (program.objectScript name object (gap + depth))
      (program.objectScript name object depth) := by
  rw [objectScript] at settled ⊢
  rw [objectScript]
  split at settled
  · exact .refl _
  · next entry _ =>
    split at settled
    · next isPair =>
      simp only [if_pos isPair]
      split at settled
      · next value _ => exact settled.head (.symbol value (depth + 1))
      · exact .refl _
    · next isShorthand =>
      simp only [if_neg isShorthand]
      exact .refl _

/-- A base class is known at every smaller depth, as the expression that names it is. -/
theorem keeps_baseScript {decl : Decl} {depth : Nat}
    (settled : (baseScript decl (gap + depth)).Settled program gap) :
    program.Keeps (baseScript decl (gap + depth)) (baseScript decl depth) := by
  rw [baseScript] at settled ⊢
  rw [baseScript]
  split at settled
  · exact .refl _
  · next expression _ =>
    have denotes : LosesTo (program.answer (.symbol expression (gap + depth + 1)))
        (program.answer (.symbol expression (depth + 1))) :=
      settled.head (.symbol expression (depth + 1))
    simp only [Keeps, Script.result_ask]
    rcases denotes with lost | same
    · rw [lost]
      exact .of_lost _
    · rw [← same]
      split <;> exact .refl _

/-- A name has the type of what it denotes, so the type is lost with the symbol. -/
theorem keeps_denotedTypeScript {preference : Preference} {expression : Node} {depth : Nat}
    (settled : (denotedTypeScript preference expression (gap + depth)).Settled program gap) :
    program.Keeps (denotedTypeScript preference expression (gap + depth))
      (denotedTypeScript preference expression depth) := by
  have denotes := settled.head (.symbol expression depth)
  have rest := settled.tail
  simp only [Keeps, denotedTypeScript, Script.result_ask]
  rcases denotes with lost | same
  · rw [lost]
    exact .of_lost _
  · rw [← same]
    split at rest
    · next symbol _ => exact rest.head (.symbolType preference symbol (depth + 1))
    · exact .refl _

/-! ### Questions with a choice -/

/-- A choice between two types is kept, unless the first one is lost and the second one is another
type. -/
theorem keeps_firstKnown {first first' second second' : Script Ty}
    (settled : (firstKnown first second).Settled program gap)
    (one : first.Settled program gap → program.Keeps first first')
    (other : second.Settled program gap → program.Keeps second second')
    (free : first.result program.answer = .unknown → first'.result program.answer ≠ .unknown →
      LosesTo (second.result program.answer) (first'.result program.answer)) :
    program.Keeps (firstKnown first second) (firstKnown first' second') := by
  rw [Keeps, result_firstKnown, result_firstKnown]
  refine (one settled.left).orElse (fun lost => other ?_) free
  have rest := settled.right
  rw [lost] at rest
  exact rest

/-- The choice between the annotation and the value of a binding. -/
theorem keeps_bindingScript {preference : Preference} {node : Node} {depth : Nat}
    (settled : (bindingScript preference node (gap + depth)).Settled program gap)
    (free : ¬ Question.Supplanted program gap (.binding preference node (gap + depth))) :
    program.Keeps (bindingScript preference node (gap + depth))
      (bindingScript preference node depth) := by
  have replaced : (sides (program.atDepth (gap + depth + 1)) preference node).1 = .unknown →
      (sides (program.atDepth (depth + 1)) preference node).1 ≠ .unknown →
      LosesTo (sides (program.atDepth (gap + depth + 1)) preference node).2
        (sides (program.atDepth (depth + 1)) preference node).1 := by
    intro lost known
    by_contra another
    refine free (.binding lost ?_ ?_)
    · rwa [Nat.add_sub_cancel_left]
    · rwa [Nat.add_sub_cancel_left]
  cases preference with
  | declared =>
    refine keeps_firstKnown settled (keeps_askAscribed (depth + 1))
      (keeps_askType (depth + 1)) ?_
    simp only [result_askAscribed, result_askType]
    exact replaced
  | value =>
    refine keeps_firstKnown settled (keeps_askType (depth + 1))
      (keeps_askAscribed (depth + 1)) ?_
    simp only [result_askAscribed, result_askType]
    exact replaced

/-- The choice between the asserted type and the operand of an `as` expression. -/
theorem keeps_asScript {expression operand : Node} {rest : List Node} {depth : Nat}
    (isAs : expression.kind = .asExpression) (children : expression.namedChildren = operand :: rest)
    (settled : (firstKnown (askAscribed rest.head? (gap + depth))
      (askType .declared (some operand) (gap + depth))).Settled program gap)
    (free : ¬ Question.Supplanted program gap (.type .declared expression (gap + depth))) :
    program.Keeps
      (firstKnown (askAscribed rest.head? (gap + depth))
        (askType .declared (some operand) (gap + depth)))
      (firstKnown (askAscribed rest.head? depth) (askType .declared (some operand) depth)) := by
  refine keeps_firstKnown settled (keeps_askAscribed _) (keeps_askType _) fun lost known => ?_
  rw [result_askAscribed] at lost known ⊢
  by_contra another
  refine free (.asserted isAs children lost ?_ ?_)
  · rwa [Nat.add_sub_cancel_left]
  · rwa [Nat.add_sub_cancel_left]

/-- The type of an expression: a choice is made in `as` expressions only. -/
theorem keeps_typeScript {preference : Preference} {expression : Node} {depth : Nat}
    (settled : (program.typeScript preference expression (gap + depth)).Settled program gap)
    (free : ¬ Question.Supplanted program gap (.type preference expression (gap + depth))) :
    program.Keeps (program.typeScript preference expression (gap + depth))
      (program.typeScript preference expression depth) := by
  have denoted : (denotedTypeScript preference expression (gap + depth)).Settled program gap →
      program.Keeps (denotedTypeScript preference expression (gap + depth))
        (denotedTypeScript preference expression depth) := keeps_denotedTypeScript
  have inner : (askType preference expression.firstNamed? (gap + depth)).Settled program gap →
      program.Keeps (askType preference expression.firstNamed? (gap + depth))
        (askType preference expression.firstNamed? depth) := keeps_askType _
  rw [typeScript] at settled ⊢
  rw [typeScript]
  split at settled
  · exact .refl _
  · split at settled
    · next owner _ =>
      exact (settled.head (.base owner (depth + 1))).apply
        (f := fun base => ((base.map Ty.instanceOf).getD .unknown)) rfl
    · exact .refl _
  · exact denoted settled
  · exact denoted settled
  · exact denoted settled
  · split at settled
    · next function _ =>
      have callee := settled.head (.symbol function depth)
      have rest := settled.tail
      simp only [Keeps, Script.result_ask]
      rcases callee with lost | same
      · rw [lost]
        exact .of_lost _
      · rw [← same]
        split at rest
        · next decl _ => exact rest.head (.returned decl (depth + 1))
        · exact .refl _
    · exact .refl _
  · have constructed := keeps_askType _ settled.left
    simp only [Keeps, Script.result_bind]
    rcases constructed with lost | same
    · rw [lost]
      exact .of_lost _
    · rw [same]
      split <;> exact .refl _
  · exact inner settled
  · exact inner settled
  · exact inner settled
  · exact inner settled
  · split at settled
    · exact .refl _
    · next isAs _ operand rest children =>
      cases preference with
      | declared => exact keeps_asScript isAs children settled free
      | value =>
        simp only [Keeps, Script.result_bind]
        exact keeps_askType _ settled.right
  · exact .refl _
  · exact .refl _

/-- What a key denotes is kept, when the type of the receiver is and the member on it. -/
theorem losesTo_keyed {preference : Preference} {object : Node} {key : String} {depth : Nat}
    (received : LosesTo (program.answer (.type preference object (gap + depth)))
      (program.answer (.type preference object depth)))
    (found : (Question.member key (program.answer (.type preference object (gap + depth)))
      depth).Kept program gap) :
    LosesTo (program.keyed preference object key (gap + depth))
      (program.keyed preference object key depth) := by
  rcases received with lost | same
  · rw [keyed, lost, answer]
    split <;> exact .of_lost _
  · rw [same] at found
    rw [keyed, keyed, same]
    exact found

/-- What is known of the questions that an element access asks, when they are kept. -/
theorem losesTo_of_settled_elementScript (rooted : program.Rooted)
    (numbered : program.model.Numbered) {object : Node} (within : program.HasNode object)
    {key : String} {depth : Nat}
    (settled : (program.elementScript object key (gap + depth)).Settled program gap) :
    LosesTo (program.keyed .declared object key (gap + depth))
        (program.keyed .declared object key depth) ∧
      (program.keyed .declared object key (gap + depth) = none →
        LosesTo (program.keyed .value object key (gap + depth))
          (program.keyed .value object key depth)) := by
  have declared : (Question.type .declared object depth).Kept program gap := settled.head _
  have found : (Question.member key (program.answer (.type .declared object (gap + depth)))
    depth).Kept program gap := settled.tail.head _
  refine ⟨losesTo_keyed declared found, fun missing => ?_⟩
  have rest := settled.tail.tail
  have lost := missing
  rw [keyed] at lost
  rw [lost] at rest
  have valued : (Question.type .value object depth).Kept program gap := rest.head _
  have last := rest.tail
  by_cases same : (program.answer (.type .value object (gap + depth))).same
      (program.answer (.type .declared object (gap + depth)))
  · rw [keyed_value_of_same rooted numbered within key same, missing]
    exact .of_lost _
  · rw [if_neg same] at last
    have foundByValue : (Question.member key (program.answer (.type .value object (gap + depth)))
      depth).Kept program gap := last.head _
    exact losesTo_keyed valued foundByValue

/-- The choice between the annotation and the value of the receiver of an element access. -/
theorem keeps_elementScript (rooted : program.Rooted) (numbered : program.model.Numbered)
    {expression object : Node} {key : String} {depth : Nat} (within : program.HasNode object)
    (isAccess : expression.unwrap.kind = .subscriptExpression)
    (isObject : expression.unwrap.child? .object = some object)
    (isKey : (expression.unwrap.child? .index).bind program.literalKey? = some key)
    (settled : (program.elementScript object key (gap + depth)).Settled program gap)
    (free : ¬ Question.Supplanted program gap (.symbol expression (gap + depth))) :
    program.Keeps (program.elementScript object key (gap + depth))
      (program.elementScript object key depth) := by
  obtain ⟨first, second⟩ := losesTo_of_settled_elementScript rooted numbered within settled
  rw [Keeps, result_elementScript rooted numbered within key,
    result_elementScript rooted numbered within key]
  cases lost : program.keyed .declared object key (gap + depth) with
  | some symbol =>
    rw [lost] at first
    obtain missing | same := first
    · cases missing
    · rw [← same, Option.some_or, Option.some_or]
      exact .refl _
  | none =>
    cases known : program.keyed .declared object key depth with
    | some symbol =>
      rw [Option.none_or, Option.some_or]
      by_contra another
      refine free (.element isAccess isObject isKey lost ?_ ?_)
      · simp [known]
      · rwa [Nat.add_sub_cancel_left, known]
    | none =>
      rw [Option.none_or, Option.none_or]
      exact (second lost).apply (f := (Option.bind · program.resolveAlias?)) rfl

/-- The symbol of an expression: a choice is made in element accesses only. -/
theorem keeps_symbolScript (rooted : program.Rooted) (numbered : program.model.Numbered)
    {expression : Node} {depth : Nat} (within : program.HasNode expression)
    (settled : (program.symbolScript expression.unwrap (gap + depth)).Settled program gap)
    (free : ¬ Question.Supplanted program gap (.symbol expression (gap + depth))) :
    program.Keeps (program.symbolScript expression.unwrap (gap + depth))
      (program.symbolScript expression.unwrap depth) := by
  by_cases isElement : ∃ object key, expression.unwrap.kind = .subscriptExpression ∧
      expression.unwrap.child? .object = some object ∧
      (expression.unwrap.child? .index).bind program.literalKey? = some key
  · obtain ⟨object, key, isAccess, isObject, isKey⟩ := isElement
    have inside :=
      within.of_within ((Node.within_of_child? isObject).trans expression.unwrap_within)
    rw [symbolScript_element isAccess isObject isKey] at settled ⊢
    rw [symbolScript_element isAccess isObject isKey]
    exact keeps_elementScript rooted numbered inside isAccess isObject isKey settled free
  rw [symbolScript] at settled ⊢
  rw [symbolScript]
  split at settled
  · exact .refl _
  · split at settled
    · next object property isObject isProperty =>
      have received : (Question.type .declared object depth).Kept program gap := settled.head _
      have found : (Question.member property.text
        (program.answer (.type .declared object (gap + depth))) depth).Kept program gap :=
        settled.tail.head _
      exact (losesTo_keyed received found).apply (f := (Option.bind · program.resolveAlias?)) rfl
    · exact .refl _
  · next isAccess =>
    split at settled
    · next object key isObject isKey =>
      exact absurd ⟨object, key, isAccess, isObject, isKey⟩ isElement
    · exact .refl _
  · exact .refl _

/-! ### Questions -/

/-- A question is kept, when what it asks is kept and no choice is supplanted in it. This is the
step of the induction below, with one case for each kind of question. -/
theorem kept_of_settled (rooted : program.Rooted) (numbered : program.model.Numbered)
    {question : Question} (inside : question.Inside program)
    (settled : (program.script (question.deeper gap)).Settled program gap)
    (free : ¬ (question.deeper gap).Supplanted program gap) : question.Kept program gap := by
  cases question with
  | symbol expression depth =>
    rw [Question.Kept, ← result_script, ← result_script]
    exact keeps_upToLimit settled fun settled =>
      keeps_symbolScript rooted numbered inside settled free
  | type preference expression depth =>
    rw [Question.Kept, ← result_script, ← result_script]
    exact keeps_upToLimit settled fun settled => keeps_typeScript settled free
  | symbolType preference symbol depth =>
    rw [Question.Kept, ← result_script, ← result_script]
    exact keeps_symbolTypeScript settled
  | binding preference node depth =>
    rw [Question.Kept, ← result_script, ← result_script]
    exact keeps_upToLimit settled fun settled => keeps_bindingScript settled free
  | returned decl depth =>
    rw [Question.Kept, ← result_script, ← result_script]
    exact keeps_askAscribed (depth + 1) settled
  | ascribed ascription depth =>
    rw [Question.Kept, ← result_script, ← result_script]
    exact keeps_upToLimit settled keeps_ascriptionScript
  | member name receiver depth =>
    rw [Question.Kept, ← result_script, ← result_script]
    exact keeps_upToLimit settled keeps_memberScript
  | classMember name isStatic owner depth =>
    rw [Question.Kept, ← result_script, ← result_script]
    exact keeps_chainScript settled
  | objectMember name object depth =>
    rw [Question.Kept, ← result_script, ← result_script]
    exact keeps_objectScript settled
  | base decl depth =>
    rw [Question.Kept, ← result_script, ← result_script]
    exact keeps_upToLimit settled keeps_baseScript
  | reference expression depth => trivial

/-- A question is kept, when no choice is supplanted in any question that it leads to. The rank
falls from question to question, so the questions that are asked are kept by induction. -/
theorem kept_of_leadsTo (rooted : program.Rooted) (numbered : program.model.Numbered)
    {question : Question} (inside : question.Inside program)
    (free : ∀ next, program.LeadsTo (question.deeper gap) next → ¬ next.Supplanted program gap) :
    question.Kept program gap := by
  induction question using (InvImage.wf (fun question : Question => (question.deeper gap).rank)
    wellFounded_lt).induction with
  | _ question inductionHypothesis =>
    refine kept_of_settled rooted numbered inside (fun next asked => ?_) (free _ .refl)
    have asks : program.Asks program.answer (question.deeper gap) (next.deeper gap) :=
      Script.asksOnly_iff.mp (asksOnly_script program program.answer _) _ asked
    refine inductionHypothesis next asks.rank_lt ?_ fun later leads =>
      free later (.head asked leads)
    exact Question.inside_deeper.mp
      (rooted.inside_of_asks asks (Question.inside_deeper.mpr inside))

end Program

end CodeGraph
