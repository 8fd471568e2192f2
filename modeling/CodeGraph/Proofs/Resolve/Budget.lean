import CodeGraph.Proofs.Resolve.Kept

/-!
# What is lost when the budget runs out

With less budget left, less is known: annotations are given up sooner, and so are values and base
classes. Mostly this loses answers and changes none. But a binding whose annotation is given up goes
by its value, an `as` expression goes by its operand, and an element access whose annotated receiver
has lost an inherited member goes by the value of the receiver. There an expression may denote
something else than with more budget.

These are the only ways. What an expression denotes at some depth, it denotes at every smaller
depth, unless such a choice is supplanted in a question that its own question leads to; and all
answers on the way are kept exactly when none of them is supplanted.

## Main Definitions

* `Program.checkLeadsTo`: whether a check passes for all questions that a question leads to,
  computed.
* `Program.LosesOnly`: less budget changes no symbol of a program.

## Main Statements

* `Program.not_kept_of_supplanted`: a choice that is supplanted is answered otherwise.
* `Program.forall_kept_iff`: all answers on the way are kept exactly when no choice is supplanted.
* `Program.not_supplanted_of_named`: a name as an annotation is never supplanted.
* `Program.lessBudget_losesOnly`: less budget only loses symbols, unless a choice is supplanted on
  the way.
* `Program.lessBudget_changesSymbols`: where one is, less budget may give another symbol.
-/

namespace CodeGraph

namespace Program

variable {program : Program} {gap : Nat}

/-! ### Choices that are supplanted -/

/-- Past the limit no side of a binding is known. -/
theorem losesTo_exhausted {less : Level} (far : less = .exhausted) (preference : Preference)
    (node : Node) (more : Ty) : LosesTo (sides less preference node).2 more := by
  subst far
  cases preference with
  | declared =>
    rw [sides, valueType]
    cases node.child? .value <;> exact .of_lost _
  | value =>
    rw [sides, declaredType]
    cases node.child? .type <;> exact .of_lost _

/-- Past the limit no key denotes anything. -/
theorem keyed_of_lt {preference : Preference} {object : Node} {key : String} {depth : Nat}
    (far : depthLimit < depth) : program.keyed preference object key depth = none :=
  if_pos far

/-- A question in which a choice is supplanted is answered otherwise some jumps earlier. -/
theorem not_kept_of_supplanted (rooted : program.Rooted) (numbered : program.model.Numbered)
    {question : Question} (inside : question.Inside program)
    (supplanted : (question.deeper gap).Supplanted program gap) : ¬ question.Kept program gap := by
  intro kept
  cases question with
  | binding preference node depth =>
    change Question.Supplanted program gap (.binding preference node (gap + depth)) at supplanted
    obtain ⟨lost, known, another⟩ := supplanted
    rw [Nat.add_sub_cancel_left] at known another
    rcases Nat.lt_or_ge depthLimit (gap + depth) with far | near
    · exact another (losesTo_exhausted (atDepth_of_lt (Nat.lt_succ_of_lt far)) _ _ _)
    · rw [Question.Kept, answer_binding _ _ near, answer_binding _ _ (by omega), lost,
        Ty.orElse_of_known known] at kept
      exact another kept
  | type preference expression depth =>
    change Question.Supplanted program gap (.type preference expression (gap + depth)) at supplanted
    obtain _ | ⟨isAs, children, lost, known, another⟩ := supplanted
    rw [Nat.add_sub_cancel_left] at known another
    rcases Nat.lt_or_ge depthLimit (gap + depth) with far | near
    · rw [atDepth_of_lt far] at another
      exact another (.of_lost _)
    · rw [Question.Kept, answer_as near isAs children, answer_as (by omega) isAs children, lost,
        Ty.orElse_of_known known] at kept
      exact another kept
  | symbol expression depth =>
    change Question.Supplanted program gap (.symbol expression (gap + depth)) at supplanted
    obtain _ | _ | ⟨isAccess, isObject, isKey, lost, known, another⟩ := supplanted
    rw [Nat.add_sub_cancel_left] at known another
    rcases Nat.lt_or_ge depthLimit (gap + depth) with far | near
    · rw [keyed_of_lt far] at another
      exact another (.of_lost _)
    · rw [Question.Kept, answer_element rooted numbered near inside isAccess isObject isKey,
        answer_element rooted numbered (by omega) inside isAccess isObject isKey, lost,
        Option.none_or] at kept
      obtain ⟨symbol, found⟩ := Option.ne_none_iff_exists'.mp known
      rw [found] at another kept
      exact another kept
  | _ => cases supplanted

/-- No question is asked at a smaller depth than the question it is asked for. -/
theorem Asks.depth_le {given : (question : Question) → question.Answer} {question next : Question}
    (asks : program.Asks given question next) : question.depth ≤ next.depth := by
  cases asks <;> simp only [Question.depth] <;> omega

theorem LeadsTo.depth_le {question next : Question} (leads : program.LeadsTo question next) :
    question.depth ≤ next.depth := by
  induction leads with
  | refl => exact Nat.le_refl _
  | @tail middle next _ asked inductionHypothesis =>
    have asks := Script.asksOnly_iff.mp (asksOnly_script program program.answer middle) next asked
    exact Nat.le_trans inductionHypothesis asks.depth_le

theorem LeadsTo.inside (rooted : program.Rooted) {question next : Question}
    (leads : program.LeadsTo question next) (inside : question.Inside program) :
    next.Inside program := by
  induction leads with
  | refl => exact inside
  | @tail middle next _ asked inductionHypothesis =>
    have asks := Script.asksOnly_iff.mp (asksOnly_script program program.answer middle) next asked
    exact rooted.inside_of_asks asks inductionHypothesis

/-- All answers on the way are kept exactly when no choice on the way is supplanted. -/
theorem forall_kept_iff (rooted : program.Rooted) (numbered : program.model.Numbered)
    {question : Question} (inside : question.Inside program) :
    (∀ next : Question, program.LeadsTo (question.deeper gap) (next.deeper gap) →
        next.Kept program gap) ↔
      ∀ next, program.LeadsTo (question.deeper gap) next → ¬ next.Supplanted program gap := by
  have insideDeeper : (question.deeper gap).Inside program := Question.inside_deeper.mpr inside
  constructor
  · intro kept next leads supplanted
    have deep : gap ≤ next.depth := by
      refine Nat.le_trans ?_ leads.depth_le
      cases question <;> exact Nat.le_add_right _ _
    obtain ⟨earlier, rfl⟩ := Question.exists_deeper deep
    exact not_kept_of_supplanted rooted numbered
      (Question.inside_deeper.mp (leads.inside rooted insideDeeper)) supplanted (kept earlier leads)
  · intro free next leads
    exact kept_of_leadsTo rooted numbered
      (Question.inside_deeper.mp (leads.inside rooted insideDeeper))
      fun later further => free later (leads.trans further)

/-- A name as an annotation is never supplanted, whatever the value is: it costs no further jump, so
it is lost only where the value is lost as well. -/
theorem not_supplanted_of_named {node ascription : Node} {depth : Nat}
    (isType : node.child? .type = some ascription)
    (named : ascription.ascribedType?.any fun type => type.kind = .typeIdentifier) :
    ¬ (Question.binding .declared node depth).Supplanted program gap := by
  rintro ⟨lost, known, another⟩
  rcases Nat.lt_or_ge depthLimit (depth + 1) with far | near
  · exact another (losesTo_exhausted (atDepth_of_lt far) _ _ _)
  · have same : ∀ below, program.ascriptionStep below ascription =
        program.ascriptionStep .exhausted ascription := by
      intro below
      obtain ⟨type, isNamed, kind⟩ := Option.any_eq_true _ _ |>.mp named
      rw [ascriptionStep, ascriptionStep, isNamed]
      simp only [of_decide_eq_true kind]
    simp only [sides, declaredType, isType, Option.map_some, Option.getD_some] at lost known
    rw [atDepth_of_le near] at lost
    rw [atDepth_of_le (by omega)] at known
    exact known ((same _).trans ((same _).symm.trans lost))

/-! ### The whole program -/

/-- **Less budget only loses answers, unless a choice is supplanted on the way.** Whatever an
expression denotes at some depth, it denotes at every smaller depth. The condition is on the
questions that this one expression leads to and not on the rest of the program. -/
theorem lessBudget_losesOnly (settings : AnalysisSettings) (inputs : List Input) :
    let program := ofModel (Model.build settings inputs)
    ∀ expression, program.HasNode expression → ∀ depth deeper, depth ≤ deeper →
      (∀ question, program.LeadsTo (.symbol expression deeper) question →
        ¬ question.Supplanted program (deeper - depth)) →
      ∀ symbol, (program.atDepth deeper).symbol? expression = some symbol →
        (program.atDepth depth).symbol? expression = some symbol := by
  intro program expression inside depth deeper le free symbol found
  have numbered := Model.numbered_build settings inputs
  have rooted : program.Rooted := rooted_ofModel numbered
  obtain ⟨gap, rfl⟩ := Nat.exists_eq_add_of_le' le
  rw [Nat.add_sub_cancel] at free
  have kept : (Question.symbol expression depth).Kept program gap :=
    kept_of_leadsTo rooted numbered inside free
  rcases kept with lost | same
  · rw [answer, found] at lost
    cases lost
  · exact same.symm.trans found

end Program

/-! ### Checking a question -/

theorem Ty.isUnknown_iff {type : Ty} : type.isUnknown = true ↔ type = .unknown := by
  cases type <;> simp [isUnknown]

theorem Ty.isUnknown_unknown : Ty.unknown.isUnknown = true := rfl

/-- Whether what counts first in a question is known, or was not known some jumps earlier either. -/
def Question.firstKept (program : Program) (gap : Nat) : Question → Bool
  | binding preference node depth =>
    !(Program.sides (program.atDepth (depth + 1)) preference node).1.isUnknown ||
      (Program.sides (program.atDepth (depth - gap + 1)) preference node).1.isUnknown
  | type .declared expression depth =>
    expression.kind ≠ .asExpression ||
      !(Program.assertedType (program.atDepth depth) expression.namedChildren.tail).isUnknown ||
      (Program.assertedType (program.atDepth (depth - gap)) expression.namedChildren.tail).isUnknown
  | symbol expression depth =>
    match expression.unwrap.child? .object,
      (expression.unwrap.child? .index).bind program.literalKey? with
    | some object, some key =>
      (program.keyed .declared object key depth).isSome ||
        (program.keyed .declared object key (depth - gap)).isNone
    | _, _ => true
  | _ => true

theorem Question.not_supplanted_of_firstKept {program : Program} {gap : Nat} {question : Question}
    (kept : question.firstKept program gap) : ¬ question.Supplanted program gap := by
  rintro (⟨lost, known, -⟩ | ⟨isAs, children, lost, known, -⟩ |
    ⟨-, isObject, isKey, lost, known, -⟩)
  · simp [firstKept, lost, known, Ty.isUnknown_iff, Ty.isUnknown_unknown] at kept
  · simp [firstKept, isAs, children, lost, known, Ty.isUnknown_iff, Ty.isUnknown_unknown] at kept
  · simp [firstKept, isObject, isKey, lost, known] at kept

namespace Program

/-- Whether a check passes for a question and for all questions that it leads to, going only so many
questions deep. -/
def checkLeadsTo (program : Program) (check : Question → Bool) : (fuel : Nat) → Question → Bool
  | 0, _ => false
  | fuel + 1, question =>
    check question &&
      ((program.script question).asked program.answer).all (program.checkLeadsTo check fuel)

theorem check_of_leadsTo {program : Program} {check : Question → Bool} {fuel : Nat}
    {question next : Question} (passes : program.checkLeadsTo check fuel question)
    (leads : program.LeadsTo question next) : check next := by
  induction leads using Relation.ReflTransGen.head_induction_on generalizing fuel with
  | refl =>
    cases fuel with
    | zero => cases passes
    | succ fuel => exact (Bool.and_eq_true_iff.mp passes).1
  | head asked _ inductionHypothesis =>
    cases fuel with
    | zero => cases passes
    | succ fuel =>
      exact inductionHypothesis
        (List.all_eq_true.mp (Bool.and_eq_true_iff.mp passes).2 _ asked)

/-- The expression that the last statement of the first file consists of. -/
def lastExpression? (program : Program) : Option Node := do
  let file ← program.model.files.head?
  let statement ← file.root.namedChildren.getLast?
  statement.firstNamed?

theorem hasNode_of_lastExpression? {program : Program} {expression : Node}
    (found : program.lastExpression? = some expression) : program.HasNode expression := by
  obtain ⟨file, isFirst, rest⟩ := Option.bind_eq_some_iff.mp found
  obtain ⟨statement, isLast, isFirstPart⟩ := Option.bind_eq_some_iff.mp rest
  exact ⟨file, List.mem_of_head? isFirst, (Node.within_of_firstNamed? isFirstPart).trans
    (Node.within_of_mem_namedChildren (List.mem_of_getLast? isLast))⟩

/-! ### Programs -/

/-- The tree of a class of one letter with a method of one letter, `class A{m(){}}`, from a position
on. -/
def methodClass (start : Nat) : Tree :=
  .node ⟨.classDeclaration, none, true, false, start, start + 14⟩ [
    .node ⟨.typeIdentifier, some .name, true, false, start + 6, start + 7⟩ [],
    .node ⟨.classBody, some .body, true, false, start + 7, start + 14⟩ [
      .node ⟨.methodDefinition, none, true, false, start + 8, start + 13⟩ [
        .node ⟨.propertyIdentifier, some .name, true, false, start + 8, start + 9⟩ [],
        .node ⟨.formalParameters, some .parameters, true, false, start + 9, start + 11⟩ [],
        .node ⟨.statementBlock, some .body, true, false, start + 11, start + 13⟩ []]]]

/-- The tree of a variable of one letter with an annotation and an instance of a class as its value,
`let x:A=new B;`, from a position on. -/
def annotatedInstance (start : Nat) : Tree :=
  .node ⟨.lexicalDeclaration, none, true, false, start, start + 14⟩ [
    .node ⟨.variableDeclarator, none, true, false, start + 4, start + 13⟩ [
      .node ⟨.identifier, some .name, true, false, start + 4, start + 5⟩ [],
      .node ⟨.typeAscription, some .type, true, false, start + 5, start + 7⟩ [
        .node ⟨.typeIdentifier, none, true, false, start + 6, start + 7⟩ []],
      .node ⟨.newExpression, some .value, true, false, start + 8, start + 13⟩ [
        .node ⟨.identifier, some .constructor, true, false, start + 12, start + 13⟩ []]]]

/-- The tree of an element access with a text of one letter as its key, `x["m"]`, from a position
on. -/
def elementAccess (start : Nat) : Tree :=
  .node ⟨.other "expression_statement", none, true, false, start, start + 6⟩ [
    .node ⟨.subscriptExpression, none, true, false, start, start + 6⟩ [
      .node ⟨.identifier, some .object, true, false, start, start + 1⟩ [],
      .node ⟨.string, some .index, true, false, start + 2, start + 5⟩ []]]

/-- A variable with a class as its annotation and an instance of another class as its value, of
which only the second one has the method that an element access asks for. -/
def foundByValue : Input where
  path := "a.ts"
  text := "class A\x7b\x7dclass B\x7bm()\x7b\x7d\x7dlet x:A=new B;x[\"m\"]"
  tree := some <|
    .node ⟨.program, none, true, false, 0, 43⟩ [
      .node ⟨.classDeclaration, none, true, false, 0, 9⟩ [
        .node ⟨.typeIdentifier, some .name, true, false, 6, 7⟩ [],
        .node ⟨.classBody, some .body, true, false, 7, 9⟩ []],
      methodClass 9, annotatedInstance 23, elementAccess 37]

/-- The access denotes the method of the value's class at depth 22, though the annotation says
another class, and so it does at depth 0: nothing is supplanted on the way. -/
theorem lessBudget_losesOnly_foundByValue :
    let program := ofModel (Model.build {} [foundByValue])
    ∃ expression symbol, program.HasNode expression ∧
      (∀ question, program.LeadsTo (.symbol expression 22) question →
        ¬ question.Supplanted program 22) ∧
      (program.atDepth 22).symbol? expression = some symbol ∧
        (program.atDepth 0).symbol? expression = some symbol := by
  intro program
  have deep : program.lastExpression?.any fun expression =>
      ((program.atDepth 22).symbol? expression).isSome &&
        program.checkLeadsTo (Question.firstKept program 22) 20 (.symbol expression 22) := by
    decide +kernel
  obtain ⟨expression, found, passes⟩ := (Option.any_eq_true _ _).mp deep
  obtain ⟨isSome, checked⟩ := Bool.and_eq_true_iff.mp passes
  obtain ⟨symbol, denotes⟩ := Option.isSome_iff_exists.mp isSome
  have inside := hasNode_of_lastExpression? found
  have free : ∀ question, program.LeadsTo (.symbol expression 22) question →
      ¬ question.Supplanted program 22 := fun question leads =>
    Question.not_supplanted_of_firstKept (check_of_leadsTo checked leads)
  exact ⟨expression, symbol, inside, free, denotes,
    lessBudget_losesOnly {} [foundByValue] expression inside 0 22 (by decide) free symbol denotes⟩

/-! ### Where a choice is supplanted -/

/-- Two classes, a variable with the first one in brackets as its annotation and an instance of the
second one as its value, and an access to a method of the variable. -/
def annotatedApart : Input where
  path := "a.ts"
  text := "class A\x7bm()\x7b\x7d\x7dclass B\x7bm()\x7b\x7d\x7dlet x:(A)=new B;x.m"
  tree := some <|
    .node ⟨.program, none, true, false, 0, 47⟩ [
      methodClass 0, methodClass 14,
      .node ⟨.lexicalDeclaration, none, true, false, 28, 44⟩ [
        .node ⟨.variableDeclarator, none, true, false, 32, 43⟩ [
          .node ⟨.identifier, some .name, true, false, 32, 33⟩ [],
          .node ⟨.typeAscription, some .type, true, false, 33, 37⟩ [
            .node ⟨.parenthesizedType, none, true, false, 34, 37⟩ [
              .node ⟨.typeIdentifier, none, true, false, 35, 36⟩ []]],
          .node ⟨.newExpression, some .value, true, false, 38, 43⟩ [
            .node ⟨.identifier, some .constructor, true, false, 42, 43⟩ []]]],
      .node ⟨.other "expression_statement", none, true, false, 44, 47⟩ [
        .node ⟨.memberExpression, none, true, false, 44, 47⟩ [
          .node ⟨.identifier, some .object, true, false, 44, 45⟩ [],
          .node ⟨.propertyIdentifier, some .property, true, false, 46, 47⟩ []]]]

/-- A class that extends an entry of an object, a variable with this class as its annotation and an
instance of another class as its value, and an element access to a method that the first class
inherits and the second one has. -/
def inheritedApart : Input where
  path := "a.ts"
  text := "class C\x7bm()\x7b\x7d\x7dconst o=\x7bC:C\x7d;class A extends o.C\x7b\x7d" ++
    "class B\x7bm()\x7b\x7d\x7dlet x:A=new B;x[\"m\"]"
  tree := some <|
    .node ⟨.program, none, true, false, 0, 83⟩ [
      methodClass 0,
      .node ⟨.lexicalDeclaration, none, true, false, 14, 28⟩ [
        .node ⟨.variableDeclarator, none, true, false, 20, 27⟩ [
          .node ⟨.identifier, some .name, true, false, 20, 21⟩ [],
          .node ⟨.object, some .value, true, false, 22, 27⟩ [
            .node ⟨.pair, none, true, false, 23, 26⟩ [
              .node ⟨.propertyIdentifier, some .key, true, false, 23, 24⟩ [],
              .node ⟨.identifier, some .value, true, false, 25, 26⟩ []]]]],
      .node ⟨.classDeclaration, none, true, false, 28, 49⟩ [
        .node ⟨.typeIdentifier, some .name, true, false, 34, 35⟩ [],
        .node ⟨.classHeritage, none, true, false, 36, 47⟩ [
          .node ⟨.extendsClause, none, true, false, 36, 47⟩ [
            .node ⟨.memberExpression, some .value, true, false, 44, 47⟩ [
              .node ⟨.identifier, some .object, true, false, 44, 45⟩ [],
              .node ⟨.propertyIdentifier, some .property, true, false, 46, 47⟩ []]]],
        .node ⟨.classBody, some .body, true, false, 47, 49⟩ []],
      methodClass 49, annotatedInstance 63, elementAccess 77]

/-- Less budget loses symbols and changes none, for all expressions of a program. -/
def LosesOnly (program : Program) : Prop :=
  ∀ expression, program.HasNode expression → ∀ depth deeper, depth ≤ deeper → ∀ symbol,
    (program.atDepth deeper).symbol? expression = some symbol →
      (program.atDepth depth).symbol? expression = some symbol

/-- The number of the declaration that a symbol stands for. -/
def declId? : Symbol → Option DeclId
  | .decl declared => some declared.id
  | _ => none

/-- Whether the last expression of the first file denotes one declaration at a depth and another one
deeper down. -/
def changesSymbol (program : Program) (depth deeper : Nat) : Bool :=
  program.lastExpression?.any fun expression =>
    ((program.atDepth deeper).symbol? expression).any fun symbol =>
      ((program.atDepth depth).symbol? expression).bind declId? ≠ declId? symbol

theorem not_losesOnly_of_changesSymbol {program : Program} {depth deeper : Nat}
    (le : depth ≤ deeper) (changes : program.changesSymbol depth deeper) : ¬ program.LosesOnly := by
  intro onlyLost
  obtain ⟨expression, found, rest⟩ := (Option.any_eq_true _ _).mp changes
  obtain ⟨symbol, denotes, another⟩ := (Option.any_eq_true _ _).mp rest
  have same := onlyLost expression (hasNode_of_lastExpression? found) depth deeper le symbol denotes
  rw [same] at another
  exact of_decide_eq_true another rfl

/-- In both programs the access denotes a method of the annotated class at depth 20 and one of the
value's class at depth 22. In the first one the annotation is lost on the way down, in the second
one the base class from which the annotated class has the method. -/
theorem lessBudget_changesSymbols :
    ¬ (ofModel (Model.build {} [annotatedApart])).LosesOnly ∧
      ¬ (ofModel (Model.build {} [inheritedApart])).LosesOnly := by
  have byAnnotation : (ofModel (Model.build {} [annotatedApart])).changesSymbol 20 22 := by
    decide +kernel
  have byBaseClass : (ofModel (Model.build {} [inheritedApart])).changesSymbol 20 22 := by
    decide +kernel
  exact ⟨not_losesOnly_of_changesSymbol (by decide) byAnnotation,
    not_losesOnly_of_changesSymbol (by decide) byBaseClass⟩

end Program

end CodeGraph
