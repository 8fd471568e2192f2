import CodeGraph.Proofs.Resolve.Kinds

/-!
# What is read off each kind of expression

One equation for each kind of expression that something is read off, so that other proofs need not
open the definition.

## Main Statements

* `Program.read_member`, `Program.read_element`, `Program.read_call`, `Program.read_new`,
  `Program.read_as` and others: what is read off an expression of a kind with the parts it needs.
* `Program.read_member_of_missing`, `Program.read_element_of_missing`: nothing is read off an access
  without its parts.
* `Program.type_readingOf`: the type of a name is that of a symbol which is no import.
* `Program.read_of_wrapper`, `Program.symbol?_read_unwrap`: wrappers are read as what stands inside.
-/

namespace CodeGraph

/-- A wrapper is left only when nothing stands inside it. -/
theorem Node.firstNamed?_unwrap (node : Node) (wraps : node.unwrap.kind.isWrapper) :
    node.unwrap.firstNamed? = none := by
  fun_induction unwrap node with
  | case1 node isWrapper inner found smaller inductionHypothesis => exact inductionHypothesis wraps
  | case2 node isWrapper missing => exact missing
  | case3 node plain => exact absurd wraps plain

namespace Program

variable {program : Program} {below : Level} {node : Node}

/-- What `symbolType` says of an import is never heard: all links of a name are followed before its
type is asked for, and they lead to no import. Anything that agrees with it on other symbols would
do. -/
theorem type_readingOf {preference : Preference} {typed : Symbol → Ty}
    (agrees : ∀ symbol, (∀ link, symbol ≠ .imported link) →
      typed symbol = symbolType below preference symbol) (symbol : Option Symbol) :
    (program.readingOf below symbol).type preference =
      ((symbol.bind program.resolveAlias?).map typed).getD .unknown := by
  rw [readingOf]
  cases found : symbol.bind program.resolveAlias? with
  | none => rfl
  | some result =>
    obtain ⟨start, -, follows⟩ := Option.bind_eq_some_iff.mp found
    exact (agrees result (ne_imported_of_resolveAlias? follows)).symm

/-- A name is read as what it is bound to. -/
theorem read_identifier (kind : node.kind = .identifier) :
    program.read below node = program.readingOf below (program.resolveIdentifier? node) := by
  rw [read]
  simp only [kind]

/-- An access is read as the member of its object, by the annotated type. -/
theorem read_member (kind : node.kind = .memberExpression) {object property : Node}
    (isObject : node.child? .object = some object)
    (isProperty : node.child? .property = some property) :
    program.read below node = program.readingOf below
      (program.member? below property.text ((program.read below object).type .declared)) := by
  rw [read]
  simp only [kind]
  split <;> simp_all

/-- An element access is read as the member under its key. -/
theorem read_element (kind : node.kind = .subscriptExpression) {object : Node} {key : String}
    (isObject : node.child? .object = some object)
    (isKey : (node.child? .index).bind program.literalKey? = some key) :
    program.read below node = program.readingOf below
      (program.elementSymbol? below key (program.read below object)) := by
  rw [read]
  simp only [kind]
  split <;> simp_all

theorem read_member_of_missing (kind : node.kind = .memberExpression)
    (missing : ∀ object property, node.child? .object = some object →
      node.child? .property = some property → False) : program.read below node = .unknown := by
  rw [read]
  simp only [kind]

theorem read_element_of_missing (kind : node.kind = .subscriptExpression)
    (missing : ∀ object key, node.child? .object = some object →
      (node.child? .index).bind program.literalKey? = some key → False) :
    program.read below node = .unknown := by
  rw [read]
  simp only [kind]

theorem read_await (kind : node.kind = .awaitExpression) {inner : Node}
    (found : node.firstNamed? = some inner) :
    program.read below node = .ofType (program.read below inner).type := by
  rw [read]
  simp only [kind]
  split <;> simp_all

/-- A call denotes nothing; its type is the declared result of what it calls. -/
theorem read_call (kind : node.kind = .callExpression) {function : Node}
    (found : node.child? .function = some function) :
    program.read below node = .ofType fun _ =>
      match (program.read below function).symbol? with
      | some (.decl decl) => below.returned decl
      | _ => .unknown := by
  rw [read]
  simp only [kind]
  split
  · next other isOther =>
    obtain rfl := Option.some.inj (isOther.symm.trans found)
    rfl
  · next missing => cases missing.symm.trans found

/-- An instance is of the class that is constructed. -/
theorem read_new (kind : node.kind = .newExpression) {constructor : Node}
    (found : node.child? .constructor = some constructor) :
    program.read below node = .ofType fun preference =>
      match (program.read below constructor).type preference with
      | .classItself decl => .instanceOf decl
      | _ => .unknown := by
  rw [read]
  simp only [kind]
  split
  · next other isOther =>
    obtain rfl := Option.some.inj (isOther.symm.trans found)
    rfl
  · next missing => cases missing.symm.trans found

/-- The asserted type counts first, unless values do. -/
theorem read_as (kind : node.kind = .asExpression) {operand : Node} {rest : List Node}
    (children : node.namedChildren = operand :: rest) :
    program.read below node = .ofType fun preference =>
      match preference with
      | .declared =>
        ((rest.head?.map (program.ascriptionStep below)).getD .unknown).orElse
          ((program.read below operand).type .declared)
      | .value => (program.read below operand).type .value := by
  rw [read]
  simp only [kind]
  split
  · next missing => cases missing.symm.trans children
  · next other others isList =>
    obtain ⟨rfl, rfl⟩ := List.cons.inj (isList.symm.trans children)
    rfl

theorem read_this (kind : node.kind = .thisExpression) :
    program.read below node = .ofType fun _ =>
      ((program.enclosingClass? node).map .instanceOf).getD .unknown := by
  rw [read]
  simp only [kind]

theorem read_super (kind : node.kind = .superExpression) :
    program.read below node = .ofType fun _ =>
      (((program.enclosingClass? node).bind below.base?).map .instanceOf).getD .unknown := by
  rw [read]
  simp only [kind]

theorem read_object (kind : node.kind = .object) :
    program.read below node = .ofType fun _ => .object node := by
  rw [read]
  simp only [kind]

/-! ### Names and accesses -/

/-- Names and accesses are read as what a symbol says. -/
theorem exists_read_eq_readingOf (below : Level) {expression : Node}
    (denotes : expression.kind = .identifier ∨ expression.kind = .memberExpression ∨
      expression.kind = .subscriptExpression) :
    ∃ symbol, program.read below expression = program.readingOf below symbol := by
  fun_cases read program below expression with
  | case1 => exact ⟨_, rfl⟩
  | case2 => exact ⟨_, rfl⟩
  | case4 => exact ⟨_, rfl⟩
  | case3 | case5 => exact ⟨none, rfl⟩
  | _ => simp_all

/-! ### Wrappers -/

/-- A wrapper is read as what stands inside it. -/
theorem read_of_wrapper {below : Level} {node inner : Node} (wraps : node.kind.isWrapper)
    (found : node.firstNamed? = some inner) :
    program.read below node = program.read below inner := by
  unfold Kind.isWrapper at wraps
  split at wraps
  · next kind =>
    rw [read]
    simp only [kind]
    split <;> simp_all
  · next kind =>
    rw [read]
    simp only [kind]
    split <;> simp_all
  · next kind =>
    rw [read]
    simp only [kind]
    split <;> simp_all
  · cases wraps

/-- Taking wrappers off does not change what an expression denotes. -/
theorem symbol?_read_unwrap (below : Level) (node : Node) :
    (program.read below node.unwrap).symbol? = (program.read below node).symbol? := by
  fun_induction Node.unwrap node with
  | case1 node wraps inner found smaller inductionHypothesis =>
    rw [inductionHypothesis, read_of_wrapper wraps found]
  | case2 node wraps missing => rfl
  | case3 node plain => rfl

end Program

end CodeGraph
