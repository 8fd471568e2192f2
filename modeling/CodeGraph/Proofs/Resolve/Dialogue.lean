import CodeGraph.Proofs.Resolve.Inside
import CodeGraph.Proofs.Resolve.Reading

/-!
# Answering by asking further questions

To answer a question about an expression, further questions are asked: about its parts, about what
its symbol is bound to, about the classes that a class extends. Here each way of answering is
written out as a script, which says what to ask next and what to make of the answer. A script goes
only as far as its own question; that the dialogue comes to an end is a matter of its own.

Every question is asked at a depth, the number of jumps that led to it. Some questions are refused
past the limit; others leave this to the questions they ask in turn.

## Main Definitions

* `Question`, `Question.Answer`: the questions, and what an answer to each of them is.
* `Script`: what to ask, one question after the other, before there is a result.
* `Script.result`, `Script.AsksOnly`: the result for given answers, and what is asked on the way.
* `Program.script`: how each question is answered.
* `Program.answer`: the answer to each question by the levels of answers.

## Main Statements

* `Program.result_script`: scripts whose questions are answered by the levels of answers give the
  answers of the levels.
-/

namespace CodeGraph

/-- A question about a program, asked at a depth. -/
inductive Question where
  /-- What does an expression denote? -/
  | symbol (expression : Node) (depth : Nat)
  /-- Of which type is an expression? -/
  | type (preference : Preference) (expression : Node) (depth : Nat)
  /-- Of which type is what a symbol denotes? -/
  | symbolType (preference : Preference) (symbol : Symbol) (depth : Nat)
  /-- Of which type is what a node binds? -/
  | binding (preference : Preference) (node : Node) (depth : Nat)
  /-- Of which type is what a declaration returns? -/
  | returned (decl : Decl) (depth : Nat)
  /-- Which type does an annotation name? -/
  | ascribed (ascription : Node) (depth : Nat)
  /-- What does a name denote on a receiver? -/
  | member (name : String) (receiver : Ty) (depth : Nat)
  /-- Which member of a class, its own or inherited, has a name? -/
  | classMember (name : String) (isStatic : Bool) (owner : Decl) (depth : Nat)
  /-- What does the entry of an object literal under a name denote? -/
  | objectMember (name : String) (object : Node) (depth : Nat)
  /-- Which class does a class extend? -/
  | base (decl : Decl) (depth : Nat)
  /-- Which class does an expression refer to? -/
  | reference (expression : Node) (depth : Nat)

/-- What an answer to a question is. -/
@[reducible] def Question.Answer : Question → Type
  | symbol .. | member .. | objectMember .. => Option Symbol
  | type .. | symbolType .. | binding .. | returned .. | ascribed .. => Ty
  | classMember .. | base .. | reference .. => Option Decl

/-! ### Scripts -/

/-- What to ask, one question after the other, before there is a result. -/
inductive Script (α : Type) where
  /-- There is nothing to ask. -/
  | done (result : α)
  /-- The answer to a question says how to go on. -/
  | ask (question : Question) (next : question.Answer → Script α)

namespace Script

variable {α β : Type}

/-- Goes on with another script when there is a result. -/
def bind : Script α → (α → Script β) → Script β
  | done result, next => next result
  | ask question rest, next => ask question fun answer => (rest answer).bind next

/-- The result when all questions get the given answers. -/
def result (given : (question : Question) → question.Answer) : Script α → α
  | done result => result
  | ask question next => (next (given question)).result given

/-- With the given answers, only questions of some kind are asked. -/
def AsksOnly (given : (question : Question) → question.Answer) (allowed : Question → Prop) :
    Script α → Prop
  | done _ => True
  | ask question next => allowed question ∧ (next (given question)).AsksOnly given allowed

/-- The result when questions may stay unanswered; then there is none. -/
def perform (answer? : (question : Question) → Option question.Answer) : Script α → Option α
  | done result => some result
  | ask question next => (answer? question).bind fun answer => (next answer).perform answer?

variable {given : (question : Question) → question.Answer} {allowed : Question → Prop}

@[simp] theorem result_done (value : α) : (done value).result given = value := rfl

@[simp] theorem result_ask (question : Question) (next : question.Answer → Script α) :
    (ask question next).result given = (next (given question)).result given := rfl

@[simp] theorem result_bind (script : Script α) (next : α → Script β) :
    (script.bind next).result given = (next (script.result given)).result given := by
  induction script with
  | done value => rfl
  | ask question rest inductionHypothesis => exact inductionHypothesis (given question)

/-- One script after another asks nothing else, when neither of them does. -/
theorem asksOnly_bind {script : Script α} {next : α → Script β}
    (first : script.AsksOnly given allowed)
    (second : (next (script.result given)).AsksOnly given allowed) :
    (script.bind next).AsksOnly given allowed := by
  induction script with
  | done value => exact second
  | ask question rest inductionHypothesis =>
    exact ⟨first.1, inductionHypothesis (given question) first.2 second⟩

/-- Only the questions that are asked have to be answered. -/
theorem perform_eq_result {answer? : (question : Question) → Option question.Answer}
    {script : Script α}
    (answered : script.AsksOnly given fun question => answer? question = some (given question)) :
    script.perform answer? = some (script.result given) := by
  induction script with
  | done value => rfl
  | ask question next inductionHypothesis =>
    rw [perform, answered.1, Option.bind_some]
    exact inductionHypothesis (given question) answered.2

/-- A script that keeps to a condition keeps to every weaker one. -/
theorem AsksOnly.imp {script : Script α} {wider : Question → Prop}
    (asks : script.AsksOnly given allowed) (weaker : ∀ question, allowed question → wider question) :
    script.AsksOnly given wider := by
  induction script with
  | done value => trivial
  | ask question next inductionHypothesis =>
    exact ⟨weaker question asks.1, inductionHypothesis (given question) asks.2⟩

end Script

namespace Program

/-! ### Depths -/

/-- The greatest depth at which a question is answered. -/
def depthLimit : Nat := 24

/-- The answers at a depth: each jump that led there has cost one unit of the budget. -/
def atDepth (program : Program) (depth : Nat) : Level := program.level (fullBudget - depth)

variable {program : Program}

/-- Up to the limit, the answers at a depth are made from those one jump deeper. -/
theorem atDepth_of_le {depth : Nat} (near : depth ≤ depthLimit) :
    program.atDepth depth = program.levelStep (program.atDepth (depth + 1)) := by
  have budget : fullBudget - depth = fullBudget - (depth + 1) + 1 := by
    rw [fullBudget]
    rw [depthLimit] at near
    omega
  rw [atDepth, budget]
  rfl

/-- Past the limit nothing is known. -/
theorem atDepth_of_lt {depth : Nat} (far : depthLimit < depth) :
    program.atDepth depth = .exhausted := by
  have budget : fullBudget - depth = 0 := Nat.sub_eq_zero_of_le far
  rw [atDepth, budget]
  rfl

/-- Refuses a question past the limit. -/
def upToLimit {α : Type} (depth : Nat) (refused : α) (script : Script α) : Script α :=
  if depthLimit < depth then .done refused else script

/-! ### How questions are answered -/

/-- Asks for the type that an annotation names, when there is one. -/
def askAscribed (ascription : Option Node) (depth : Nat) : Script Ty :=
  match ascription with
  | some ascription => .ask (.ascribed ascription depth) .done
  | none => .done .unknown

/-- Asks for the type of an expression, when there is one. -/
def askType (preference : Preference) (expression : Option Node) (depth : Nat) : Script Ty :=
  match expression with
  | some expression => .ask (.type preference expression depth) .done
  | none => .done .unknown

/-- Asks which class an expression refers to, when there is one. -/
def askReference (expression : Option Node) (depth : Nat) : Script (Option Decl) :=
  match expression with
  | some expression => .ask (.reference expression depth) .done
  | none => .done none

/-- A type by a first script, unless it stays unknown, else by a second one. -/
def firstKnown (first second : Script Ty) : Script Ty :=
  first.bind fun type => if type.isUnknown then second else .done type

/-- How to tell what an expression without wrappers denotes. -/
def symbolScript (program : Program) (expression : Node) (depth : Nat) : Script (Option Symbol) :=
  match expression.kind with
  | .identifier => .done ((program.resolveIdentifier? expression).bind program.resolveAlias?)
  | .memberExpression =>
    match expression.child? .object, expression.child? .property with
    | some object, some property =>
      .ask (.type .declared object depth) fun receiver =>
      .ask (.member property.text receiver depth) fun found =>
      .done (found.bind program.resolveAlias?)
    | _, _ => .done none
  | .subscriptExpression =>
    match expression.child? .object, (expression.child? .index).bind program.literalKey? with
    | some object, some key =>
      .ask (.type .declared object depth) fun declared =>
      .ask (.member key declared depth) fun found =>
      match found with
      | some symbol => .done (program.resolveAlias? symbol)
      | none =>
        .ask (.type .value object depth) fun valued =>
        if valued.same declared then .done none
        else .ask (.member key valued depth) fun found => .done (found.bind program.resolveAlias?)
    | _, _ => .done none
  | _ => .done none

/-- How to tell the type of an expression by what it denotes. -/
def denotedTypeScript (preference : Preference) (expression : Node) (depth : Nat) : Script Ty :=
  .ask (.symbol expression depth) fun found =>
  match found with
  | some symbol => .ask (.symbolType preference symbol (depth + 1)) .done
  | none => .done .unknown

/-- How to tell the type of an expression. -/
def typeScript (program : Program) (preference : Preference) (expression : Node) (depth : Nat) :
    Script Ty :=
  match expression.kind with
  | .thisExpression =>
    .done (((program.enclosingClass? expression).map .instanceOf).getD .unknown)
  | .superExpression =>
    match program.enclosingClass? expression with
    | some owner =>
      .ask (.base owner (depth + 1)) fun base => .done ((base.map .instanceOf).getD .unknown)
    | none => .done .unknown
  | .identifier | .memberExpression | .subscriptExpression =>
    denotedTypeScript preference expression depth
  | .callExpression =>
    match expression.child? .function with
    | some function =>
      .ask (.symbol function depth) fun callee =>
      match callee with
      | some (.decl decl) => .ask (.returned decl (depth + 1)) .done
      | _ => .done .unknown
    | none => .done .unknown
  | .newExpression =>
    (askType preference (expression.child? .constructor) depth).bind fun constructed =>
    match constructed with
    | .classItself decl => .done (.instanceOf decl)
    | _ => .done .unknown
  | .parenthesizedExpression | .nonNullExpression | .satisfiesExpression | .awaitExpression =>
    askType preference expression.firstNamed? depth
  | .asExpression =>
    match expression.namedChildren with
    | [] => .done .unknown
    | inner :: rest =>
      -- The asserted type is asked for even when it does not count.
      (askAscribed rest.head? depth).bind fun asserted =>
      match preference with
      | .declared =>
        if asserted.isUnknown then askType .declared (some inner) depth else .done asserted
      | .value => askType .value (some inner) depth
  | .object => .done (.object expression)
  | _ => .done .unknown

/-- How to tell the type of what a symbol denotes. -/
def symbolTypeScript (program : Program) (preference : Preference) (symbol : Symbol) (depth : Nat) :
    Script Ty :=
  match symbol with
  | .module file => .done (.module file)
  | .imported link =>
    match program.resolveAlias? (.imported link) with
    | none | some (.imported _) => .done .unknown
    | some resolved => .ask (.symbolType preference resolved (depth + 1)) .done
  | .decl decl =>
    match decl.kind with
    | .classType => .done (.classItself decl)
    | .variable | .property => .ask (.binding preference decl.node depth) .done
    | .accessor => .ask (.returned decl depth) .done
    | _ => .done .unknown
  | .binder node => .ask (.binding preference node depth) .done

/-- How to tell the type of what a node binds. -/
def bindingScript (preference : Preference) (node : Node) (depth : Nat) : Script Ty :=
  let annotated := askAscribed (node.child? .type) (depth + 1)
  let initialized := askType preference (node.child? .value) (depth + 1)
  match preference with
  | .declared => firstKnown annotated initialized
  | .value => firstKnown initialized annotated

/-- How to tell which type an annotation names. -/
def ascriptionScript (program : Program) (ascription : Node) (depth : Nat) : Script Ty :=
  match ascription.ascribedType? with
  | none => .done .unknown
  | some node =>
    match node.kind with
    | .typeIdentifier | .identifier =>
      .done (program.namedType (program.lookup? node node.text))
    | .genericType =>
      match node.child? .name with
      | none => .done .unknown
      | some name =>
        if promiseTypes.contains name.text then
          askAscribed ((node.child? .typeArguments).bind Node.firstNamed?) (depth + 1)
        else askAscribed (some name) (depth + 1)
    | .nestedTypeIdentifier => .done (program.nestedType node)
    | .unionType =>
      match node.unionMembers.filter fun member =>
        !emptyTypes.contains (Text.trim member.text) with
      | [only] => askAscribed (some only) (depth + 1)
      | _ => .done .unknown
    | .parenthesizedType | .readonlyType => askAscribed node.firstNamed? (depth + 1)
    | _ => .done .unknown

/-- How to find a member up the chain of base classes. -/
def chainScript (program : Program) (name : String) (isStatic : Bool) (depth : Nat) :
    (classes : Nat) → (visited : List DeclId) → Decl → Script (Option Decl)
  | 0, _, _ => .done none
  | classes + 1, visited, owner =>
    if owner.id ∈ visited then .done none
    else
      match (program.membersOf owner.id).find? fun member =>
        member.name = name && member.isStatic = isStatic with
      | some member => .done (some member)
      | none =>
        .ask (.base owner (depth + 1)) fun base =>
        match base with
        | some base => chainScript program name isStatic depth classes (owner.id :: visited) base
        | none => .done none

/-- How to tell what a name denotes on a receiver. -/
def memberScript (program : Program) (name : String) (receiver : Ty) (depth : Nat) :
    Script (Option Symbol) :=
  match receiver with
  | .instanceOf owner =>
    .ask (.classMember name false owner depth) fun found => .done (found.map .decl)
  | .classItself owner =>
    .ask (.classMember name true owner depth) fun found => .done (found.map .decl)
  | .module file => .done (program.exportSymbol? file name)
  | .object node => .ask (.objectMember name node depth) .done
  | .unknown => .done none

/-- How to tell what an entry of an object literal denotes. -/
def objectScript (program : Program) (name : String) (object : Node) (depth : Nat) :
    Script (Option Symbol) :=
  match object.namedChildren.find? (isEntryOf name) with
  | none => .done none
  | some entry =>
    if entry.kind = .pair then
      match entry.child? .value with
      | some value => .ask (.symbol value (depth + 1)) .done
      | none => .done none
    else .done ((program.lookup? entry name).bind program.resolveAlias?)

/-- How to tell which class a class extends. -/
def baseScript (decl : Decl) (depth : Nat) : Script (Option Decl) :=
  match baseExpression? decl with
  | none => .done none
  | some expression =>
    .ask (.symbol expression (depth + 1)) fun found =>
    match found with
    | some (.decl base) =>
      .done (if base.isClass ∧ base.id ≠ decl.id then some base else none)
    | _ => .done none

/-- How to find the first class that one of several expressions refers to. -/
def firstReferenceScript (depth : Nat) : List Node → Script (Option Decl)
  | [] => .done none
  | expression :: rest =>
    (askReference (some expression) depth).bind fun found =>
    match found with
    | some decl => .done (some decl)
    | none => firstReferenceScript depth rest

/-- How to tell which class a call in metadata refers to. -/
def calledScript (call : Node) (depth : Nat) : Script (Option Decl) :=
  match call.child? .function with
  | none => .done none
  | some function =>
    if calleeName? function.unwrap = some "forwardRef" then
      match (call.child? .arguments).bind Node.firstNamed? with
      | none => .done none
      | some argument =>
        askReference (if argument.kind = .arrowFunction then argument.arrowResult?
          else some argument) (depth + 1)
    else if function.unwrap.kind = .memberExpression then
      askReference (function.unwrap.child? .object) (depth + 1)
    else .done none

/-- How to tell which class an expression without wrappers refers to. -/
def referenceScript (expression : Node) (depth : Nat) : Script (Option Decl) :=
  match expression.kind with
  | .callExpression => calledScript expression depth
  | .object =>
    (firstReferenceScript (depth + 1) (valuesUnder ["useClass", "useExisting"] expression)).bind
      fun used =>
      match used with
      | some decl => .done (some decl)
      | none => askReference (valuesUnder ["provide"] expression).getLast? (depth + 1)
  | _ =>
    .ask (.symbol expression (depth + 1)) fun found =>
    match found with
    | some (.decl decl) => .done (if decl.isClass then some decl else none)
    | _ => .done none

/-- How each question is answered. The types of symbols and of results and the members of classes
and objects are not refused past the limit; all they ask is. -/
def script (program : Program) : (question : Question) → Script question.Answer
  | .symbol expression depth =>
    upToLimit depth none (program.symbolScript expression.unwrap depth)
  | .type preference expression depth =>
    upToLimit depth .unknown (program.typeScript preference expression depth)
  | .symbolType preference symbol depth => program.symbolTypeScript preference symbol depth
  | .binding preference node depth => upToLimit depth .unknown (bindingScript preference node depth)
  | .returned decl depth =>
    askAscribed (decl.functionNode?.bind fun function => function.child? .returnType) (depth + 1)
  | .ascribed ascription depth =>
    upToLimit depth .unknown (program.ascriptionScript ascription depth)
  | .member name receiver depth => upToLimit depth none (program.memberScript name receiver depth)
  | .classMember name isStatic owner depth =>
    program.chainScript name isStatic depth chainLimit [] owner
  | .objectMember name object depth => program.objectScript name object depth
  | .base decl depth => upToLimit depth none (baseScript decl depth)
  | .reference expression depth => upToLimit depth none (referenceScript expression.unwrap depth)

/-! ### The answers of the levels -/

/-- The answer to each question by the levels of answers. -/
def answer (program : Program) : (question : Question) → question.Answer
  | .symbol expression depth => (program.atDepth depth).symbol? expression
  | .type preference expression depth => (program.atDepth depth).type preference expression
  | .symbolType preference (.imported link) depth =>
    ((program.resolveAlias? (.imported link)).map
      (symbolType (program.atDepth (depth + 1)) preference)).getD .unknown
  | .symbolType preference symbol depth => symbolType (program.atDepth depth) preference symbol
  | .binding preference node depth => (program.atDepth depth).binding preference node
  | .returned decl depth => (program.atDepth depth).returned decl
  | .ascribed ascription depth => (program.atDepth depth).ascribed ascription
  | .member name receiver depth =>
    if depthLimit < depth then none
    else program.member? (program.atDepth (depth + 1)) name receiver
  | .classMember name isStatic owner depth =>
    program.classMember? (program.atDepth (depth + 1)) name isStatic owner
  | .objectMember name object depth =>
    program.objectMember? (program.atDepth (depth + 1)) name object
  | .base decl depth => (program.atDepth depth).base? decl
  | .reference expression depth => (program.atDepth depth).reference? expression

/-! ### Results of small scripts -/

@[simp] theorem result_askAscribed (ascription : Option Node) (depth : Nat) :
    (askAscribed ascription depth).result program.answer =
      (ascription.map (program.atDepth depth).ascribed).getD .unknown := by
  cases ascription <;> rfl

@[simp] theorem result_askType (preference : Preference) (expression : Option Node) (depth : Nat) :
    (askType preference expression depth).result program.answer =
      (expression.map ((program.atDepth depth).type preference)).getD .unknown := by
  cases expression <;> rfl

@[simp] theorem result_askReference (expression : Option Node) (depth : Nat) :
    (askReference expression depth).result program.answer =
      expression.bind (program.atDepth depth).reference? := by
  cases expression <;> rfl

@[simp] theorem result_firstKnown {given : (question : Question) → question.Answer}
    (first second : Script Ty) :
    (firstKnown first second).result given =
      (first.result given).orElse (second.result given) := by
  rw [firstKnown, Script.result_bind, Ty.orElse]
  split <;> rfl

/-! ### Scripts give the answers of the levels -/

section

variable {depth : Nat}

/-- What is asked at a depth is read off the level one jump deeper. -/
theorem answer_symbol (near : depth ≤ depthLimit) (expression : Node) :
    program.answer (.symbol expression depth) =
      (program.read (program.atDepth (depth + 1)) expression).symbol? := by
  rw [answer, atDepth_of_le near]
  rfl

theorem answer_type (near : depth ≤ depthLimit) (preference : Preference) (expression : Node) :
    program.answer (.type preference expression depth) =
      (program.read (program.atDepth (depth + 1)) expression).type preference := by
  rw [answer, atDepth_of_le near]
  rfl

theorem answer_ascribed (near : depth ≤ depthLimit) (ascription : Node) :
    program.answer (.ascribed ascription depth) =
      program.ascriptionStep (program.atDepth (depth + 1)) ascription := by
  rw [answer, atDepth_of_le near]
  rfl

theorem answer_member (near : depth ≤ depthLimit) (name : String) (receiver : Ty) :
    program.answer (.member name receiver depth) =
      program.member? (program.atDepth (depth + 1)) name receiver :=
  if_neg (Nat.not_lt_of_le near)

/-- The type of a symbol that is no import is asked as the model asks for it. -/
theorem answer_symbolType (preference : Preference) {symbol : Symbol}
    (isEnd : ∀ link, symbol ≠ .imported link) :
    program.answer (.symbolType preference symbol depth) =
      symbolType (program.atDepth depth) preference symbol := by
  cases symbol with
  | imported link => exact absurd rfl (isEnd link)
  | decl declared => rfl
  | module file => rfl
  | binder node => rfl

/-- The script for symbols does what the model does, form by form. -/
theorem result_symbolScript (near : depth ≤ depthLimit) {expression : Node}
    (bare : expression.kind.isWrapper → expression.firstNamed? = none) :
    (program.symbolScript expression depth).result program.answer =
      (program.read (program.atDepth (depth + 1)) expression).symbol? := by
  rw [symbolScript]
  fun_cases read program (program.atDepth (depth + 1)) expression with
  | case1 kind => simp only [kind]; rfl
  | case2 kind object property isObject isProperty smaller =>
    simp only [kind, isObject, isProperty, Script.result_ask, Script.result_done,
      answer_member near, answer_type near]
    rfl
  | case4 kind object key isObject isKey smaller =>
    simp only [kind, isObject, isKey, Script.result_ask, answer_member near, answer_type near,
      readingOf, elementSymbol?]
    -- The value is asked for only when the annotation does not lead to a member.
    cases program.member? (program.atDepth (depth + 1)) key
      ((program.read (program.atDepth (depth + 1)) object).type .declared) with
    | some symbol => rfl
    | none =>
      simp only [Script.result_ask, answer_type near]
      split
      · rfl
      · simp only [Script.result_ask, Script.result_done, answer_member near, answer_type near]
  | case6 kind inner found | case8 kind inner found | case10 kind inner found =>
    rw [bare (by rw [kind]; rfl)] at found
    cases found
  | case23 => simp only; rfl
  | case3 kind | case5 kind | case7 kind | case9 kind | case11 kind | case12 kind | case13 kind
  | case14 kind | case15 kind | case16 kind | case17 kind | case18 kind | case19 kind
  | case20 kind | case21 kind | case22 kind => simp only [kind]; rfl

/-- A name or an access has the type of what it denotes. -/
theorem result_denotedTypeScript (near : depth ≤ depthLimit) (preference : Preference)
    {expression : Node}
    (denotes : expression.kind = .identifier ∨ expression.kind = .memberExpression ∨
      expression.kind = .subscriptExpression) :
    (denotedTypeScript preference expression depth).result program.answer =
      (program.read (program.atDepth (depth + 1)) expression).type preference := by
  obtain ⟨symbol, reads⟩ := exists_read_eq_readingOf (program.atDepth (depth + 1)) denotes
  rw [denotedTypeScript, Script.result_ask, answer_symbol near, reads]
  unfold readingOf
  dsimp only
  cases found : symbol.bind program.resolveAlias? with
  | none => rfl
  | some result =>
    obtain ⟨start, -, follows⟩ := Option.bind_eq_some_iff.mp found
    exact answer_symbolType preference (ne_imported_of_resolveAlias? follows)

/-- The script for types does what the model does, form by form. -/
theorem result_typeScript (near : depth ≤ depthLimit) (preference : Preference)
    (expression : Node) :
    (program.typeScript preference expression depth).result program.answer =
      (program.read (program.atDepth (depth + 1)) expression).type preference := by
  rw [typeScript]
  by_cases denotes : expression.kind = .identifier ∨ expression.kind = .memberExpression ∨
      expression.kind = .subscriptExpression
  · rcases denotes with kind | kind | kind
    · simp only [kind]
      exact result_denotedTypeScript near preference (.inl kind)
    · simp only [kind]
      exact result_denotedTypeScript near preference (.inr (.inl kind))
    · simp only [kind]
      exact result_denotedTypeScript near preference (.inr (.inr kind))
  · have type : ∀ preference inner, (program.atDepth depth).type preference inner =
        (program.read (program.atDepth (depth + 1)) inner).type preference :=
      answer_type near
    have ascribed : (program.atDepth depth).ascribed =
        program.ascriptionStep (program.atDepth (depth + 1)) :=
      funext (answer_ascribed near)
    fun_cases read program (program.atDepth (depth + 1)) expression with
    | case1 kind => exact absurd (.inl kind) denotes
    | case2 kind | case3 kind => exact absurd (.inr (.inl kind)) denotes
    | case4 kind | case5 kind => exact absurd (.inr (.inr kind)) denotes
    | case6 kind inner found | case8 kind inner found | case10 kind inner found =>
      simp only [kind, found, result_askType, Option.map_some, Option.getD_some, type]
    | case12 kind inner found =>
      simp only [kind, found, result_askType, Option.map_some, Option.getD_some, type]
      rfl
    | case14 kind function found =>
      simp only [kind, found, Script.result_ask, answer_symbol near]
      rcases (program.read (program.atDepth (depth + 1)) function).symbol? with
        _ | _ | _ | _ | _ <;> rfl
    | case16 kind constructor found =>
      simp only [kind, found, Script.result_bind, result_askType, Option.map_some,
        Option.getD_some, type, Reading.ofType]
      cases (program.read (program.atDepth (depth + 1)) constructor).type preference <;> rfl
    | case19 kind inner rest children =>
      simp only [kind, children, Script.result_bind, result_askAscribed, ascribed]
      cases preference with
      | declared =>
        simp only [Reading.ofType, Ty.orElse]
        split
        · simp only [result_askType, Option.map_some, Option.getD_some, type]
        · rfl
      | value =>
        simp only [result_askType, Option.map_some, Option.getD_some, type]
        rfl
    | case20 kind => simp only [kind]; rfl
    | case21 kind =>
      simp only [kind]
      cases program.enclosingClass? expression <;> rfl
    | case22 kind => simp only [kind]; rfl
    | case7 kind missing | case9 kind missing | case11 kind missing | case13 kind missing
    | case15 kind missing | case17 kind missing | case18 kind missing =>
      simp only [kind, missing]
      rfl
    | case23 =>
      simp only
      rfl

/-- The script follows the links of an import a second time, which leads nowhere else. -/
theorem result_symbolTypeScript (preference : Preference) (symbol : Symbol) :
    (program.symbolTypeScript preference symbol depth).result program.answer =
      program.answer (.symbolType preference symbol depth) := by
  cases symbol with
  | module file => rfl
  | binder node => rfl
  | imported link =>
    rw [symbolTypeScript, answer]
    cases found : program.resolveAlias? (.imported link) with
    | none => rfl
    | some result =>
      have isEnd := ne_imported_of_resolveAlias? found
      cases result with
      | imported next => exact absurd rfl (isEnd next)
      | decl declared => rfl
      | module file => rfl
      | binder node => rfl
  | decl declared =>
    rw [symbolTypeScript, answer_symbolType preference (fun _ other => by cases other), symbolType]
    cases declared.kind <;> rfl

/-- The script for annotations does what the model does, form by form. -/
theorem result_ascriptionScript (ascription : Node) :
    (program.ascriptionScript ascription depth).result program.answer =
      program.ascriptionStep (program.atDepth (depth + 1)) ascription := by
  -- Only the level is unfolded before the split: each kind then decides the script as well.
  rw [ascriptionStep]
  cases ascribed : ascription.ascribedType? with
  | none => simp only [ascriptionScript, ascribed]; rfl
  | some node =>
    dsimp only
    split
    · next kind => simp only [ascriptionScript, ascribed, kind]; rfl
    · next kind => simp only [ascriptionScript, ascribed, kind]; rfl
    · next kind =>
      simp only [ascriptionScript, ascribed, kind, genericType]
      cases node.child? .name with
      | none => rfl
      | some name =>
        dsimp only
        split
        · rw [result_askAscribed]
          cases (node.child? .typeArguments).bind Node.firstNamed? <;> rfl
        · rfl
    · next kind => simp only [ascriptionScript, ascribed, kind]; rfl
    · next kind =>
      simp only [ascriptionScript, ascribed, kind]
      generalize node.unionMembers.filter _ = members
      rcases members with _ | ⟨only, _ | _⟩ <;> rfl
    · next kind =>
      simp only [ascriptionScript, ascribed, kind, result_askAscribed]
      cases node.firstNamed? <;> rfl
    · next kind =>
      simp only [ascriptionScript, ascribed, kind, result_askAscribed]
      cases node.firstNamed? <;> rfl
    · simp only [ascriptionScript, ascribed]
      rfl

/-- The script goes up the same chain of classes. -/
theorem result_chainScript (name : String) (isStatic : Bool) (classes : Nat)
    (visited : List DeclId) (owner : Decl) :
    (program.chainScript name isStatic depth classes visited owner).result program.answer =
      program.memberUpTo? (program.atDepth (depth + 1)) name isStatic classes visited owner := by
  induction classes generalizing visited owner with
  | zero => rfl
  | succ classes inductionHypothesis =>
    rw [chainScript, memberUpTo?]
    split
    · rfl
    · cases (program.membersOf owner.id).find? fun member =>
        member.name = name && member.isStatic = isStatic with
      | some member => rfl
      | none =>
        simp only [Script.result_ask, answer]
        cases (program.atDepth (depth + 1)).base? owner with
        | none => rfl
        | some base => exact inductionHypothesis (owner.id :: visited) base

theorem result_objectScript (name : String) (object : Node) :
    (program.objectScript name object depth).result program.answer =
      program.objectMember? (program.atDepth (depth + 1)) name object := by
  rw [objectScript, objectMember?]
  cases object.namedChildren.find? (isEntryOf name) with
  | none => rfl
  | some entry =>
    simp only [Option.bind_eq_bind, Option.bind_some]
    split
    · cases entry.child? .value <;> rfl
    · rfl

theorem result_baseScript (decl : Decl) :
    (baseScript decl depth).result program.answer =
      baseStep? (program.atDepth (depth + 1)) decl := by
  rw [baseScript, baseStep?]
  cases baseExpression? decl with
  | none => rfl
  | some expression =>
    simp only [Option.bind_eq_bind, Option.bind_some, Script.result_ask, answer]
    rcases (program.atDepth (depth + 1)).symbol? expression with _ | _ | _ | _ | _ <;> rfl

theorem result_firstReferenceScript (expressions : List Node) :
    (firstReferenceScript depth expressions).result program.answer =
      expressions.findSome? (program.atDepth depth).reference? := by
  induction expressions with
  | nil => rfl
  | cons expression rest inductionHypothesis =>
    rw [firstReferenceScript, Script.result_bind, result_askReference, Option.bind_some,
      List.findSome?_cons]
    cases (program.atDepth depth).reference? expression with
    | none => exact inductionHypothesis
    | some decl => rfl

theorem result_calledScript (call : Node) :
    (calledScript call depth).result program.answer =
      calledClass? (program.atDepth (depth + 1)) call := by
  rw [calledScript, calledClass?]
  cases call.child? .function with
  | none => rfl
  | some function =>
    simp only [Option.bind_eq_bind, Option.bind_some]
    split
    · cases (call.child? .arguments).bind Node.firstNamed? with
      | none => rfl
      | some argument =>
        simp only [result_askReference, Option.bind_some]
        split <;> rfl
    · split
      · exact result_askReference _ _
      · rfl

/-- The script for references does what the model does. -/
theorem result_referenceScript (expression : Node) :
    (referenceScript expression.unwrap depth).result program.answer =
      classStep? (program.atDepth (depth + 1)) expression := by
  rw [classStep?]
  split
  · next kind =>
    simp only [referenceScript, kind]
    exact result_calledScript expression.unwrap
  · next kind =>
    simp only [referenceScript, kind]
    rw [Script.result_bind, result_firstReferenceScript, providedClass?]
    cases (valuesUnder ["useClass", "useExisting"] expression.unwrap).findSome?
      (program.atDepth (depth + 1)).reference? with
    | none => exact result_askReference _ _
    | some decl => rfl
  · simp only [referenceScript, Script.result_ask, answer]
    rcases (program.atDepth (depth + 1)).symbol? expression.unwrap with _ | _ | _ | _ | _ <;> rfl

end

/-- A question that is refused past the limit is answered at once there, and by one more step
elsewhere. -/
theorem result_upToLimit_eq {α : Type} {depth : Nat} {refused expected : α} {script : Script α}
    (far : depthLimit < depth → refused = expected)
    (near : depth ≤ depthLimit → script.result program.answer = expected) :
    (upToLimit depth refused script).result program.answer = expected := by
  rw [upToLimit]
  split
  · next isFar => exact far isFar
  · next isNear => exact near (Nat.le_of_not_lt isNear)

/-- When the levels answer what scripts ask, scripts give the answers of the levels. -/
theorem result_script (program : Program) (question : Question) :
    (program.script question).result program.answer = program.answer question := by
  cases question with
  | symbol expression depth =>
    refine result_upToLimit_eq (fun far => ?_) fun near => ?_
    · rw [answer, atDepth_of_lt far]
      rfl
    · rw [answer_symbol near, result_symbolScript near expression.firstNamed?_unwrap,
        symbol?_read_unwrap]
  | type preference expression depth =>
    refine result_upToLimit_eq (fun far => ?_) fun near => ?_
    · rw [answer, atDepth_of_lt far]
      rfl
    · rw [answer_type near, result_typeScript near]
  | symbolType preference symbol depth => exact result_symbolTypeScript preference symbol
  | binding preference node depth =>
    refine result_upToLimit_eq (fun far => ?_) fun near => ?_
    · rw [answer, atDepth_of_lt far]
      rfl
    · rw [answer, atDepth_of_le near]
      cases preference <;>
        simp only [bindingScript, result_firstKnown, result_askAscribed, result_askType] <;> rfl
  | returned decl depth =>
    rw [script, result_askAscribed, answer]
    rcases Nat.lt_or_ge depthLimit depth with far | near
    · rw [atDepth_of_lt far, atDepth_of_lt (Nat.lt_succ_of_lt far)]
      cases decl.functionNode?.bind fun function => function.child? .returnType <;> rfl
    · rw [atDepth_of_le near]
      change _ = returnedStep (program.atDepth (depth + 1)) decl
      rw [returnedStep]
      cases decl.functionNode?.bind fun function => function.child? .returnType <;> rfl
  | ascribed ascription depth =>
    refine result_upToLimit_eq (fun far => ?_) fun near => ?_
    · rw [answer, atDepth_of_lt far]
      rfl
    · rw [answer_ascribed near, result_ascriptionScript]
  | member name receiver depth =>
    refine result_upToLimit_eq (fun far => ?_) fun near => ?_
    · rw [answer, if_pos far]
    · rw [answer_member near]
      cases receiver <;> rfl
  | classMember name isStatic owner depth =>
    exact result_chainScript name isStatic chainLimit [] owner
  | objectMember name object depth => exact result_objectScript name object
  | base decl depth =>
    refine result_upToLimit_eq (fun far => ?_) fun near => ?_
    · rw [answer, atDepth_of_lt far]
      rfl
    · rw [answer, atDepth_of_le near, result_baseScript]
      rfl
  | reference expression depth =>
    refine result_upToLimit_eq (fun far => ?_) fun near => ?_
    · rw [answer, atDepth_of_lt far]
      rfl
    · rw [answer, atDepth_of_le near, result_referenceScript]
      rfl

end Program

end CodeGraph
