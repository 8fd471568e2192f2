import CodeGraph.Proofs.Resolve.Dialogue
import Mathlib.Data.Prod.Lex

/-!
# Every question is answered

Programs refer to themselves in circles: imports, initial values, base classes and annotations may
all lead back to where they started. Answering ends nevertheless, since every question asked on the
way has a lower rank than the question it is asked for. A rank has three parts, the first one
counting most: the jumps that are left, the height of the expression that is looked at, and a
position that orders the questions about one expression.

When answering may go only so many questions deep, all depths above a bound give one and the same
answer, that of the levels of answers. The bound is made of the limit of jumps and the height of the
trees.

## Main Definitions

* `Node.height`, `Program.height`: the height of a node and of the trees of a program.
* `Program.Asks`: what each question may ask.
* `Question.rank`: what gets lower from question to question.
* `Program.run`: answers a question, going only so many questions deep.
* `Program.AnswersEverything`: all questions about a program are answered.

## Main Statements

* `Program.asksOnly_script`: scripts ask nothing else than what `Program.Asks` says.
* `Program.Asks.rank_lt`: every question asked has a lower rank.
* `Program.run_eq_answer`: above the bound the answer is that of the levels.
* `Program.questions_answered`: every program answers all questions.
-/

namespace CodeGraph

/-! ### Heights -/

namespace Tree

mutual

/-- The height of a tree: the most steps that lead down from its root. -/
def height : Tree → Nat
  | node _ children => levels children

/-- How many levels of nodes several trees have. -/
def levels : List Tree → Nat
  | [] => 0
  | tree :: trees => max (tree.height + 1) (levels trees)

end

/-- A tree is lower than the levels that the list it is in takes. -/
theorem height_lt_levels {tree : Tree} {trees : List Tree} (present : tree ∈ trees) :
    tree.height < levels trees := by
  induction trees with
  | nil => cases present
  | cons first rest inductionHypothesis =>
    rw [levels]
    rcases List.mem_cons.mp present with rfl | later
    · omega
    · have := inductionHypothesis later
      omega

theorem height_lt_of_mem_children {tree child : Tree} (below : child ∈ tree.children) :
    child.height < tree.height := by
  cases tree
  rw [height]
  exact height_lt_levels below

end Tree

namespace Node

/-- The height of the tree below a node. -/
def height (node : Node) : Nat := node.focus.height

theorem height_lt_of_mem_children {node child : Node} (below : child ∈ node.children) :
    child.height < node.height := by
  simp only [children, List.mem_map] at below
  obtain ⟨⟨tree, index⟩, present, rfl⟩ := below
  exact Tree.height_lt_of_mem_children (List.fst_mem_of_mem_zipIdx present)

/-- What stands in a node is no higher than the node. -/
theorem Within.height_le {inner outer : Node} (within : inner.Within outer) :
    inner.height ≤ outer.height := by
  induction within with
  | refl node => exact Nat.le_refl _
  | down child above inductionHypothesis =>
    exact Nat.le_of_lt (Nat.lt_of_lt_of_le (height_lt_of_mem_children child) inductionHypothesis)

/-- A node lies below another one and is not that one. -/
def Below (inner outer : Node) : Prop :=
  ∃ middle : Node, inner ∈ middle.children ∧ middle.Within outer

/-- What stands properly below a node is lower. Questions about parts are settled by this. -/
theorem Below.height_lt {inner outer : Node} (below : inner.Below outer) :
    inner.height < outer.height := by
  obtain ⟨middle, child, within⟩ := below
  exact Nat.lt_of_lt_of_le (height_lt_of_mem_children child) within.height_le

theorem Below.within {inner outer : Node} (below : inner.Below outer) : inner.Within outer := by
  obtain ⟨middle, child, within⟩ := below
  exact .down child within

theorem below_of_child? {node child : Node} {field : Field}
    (found : node.child? field = some child) : child.Below node :=
  ⟨node, mem_children_of_child? found, .refl node⟩

theorem below_of_mem_namedChildren {node child : Node} (present : child ∈ node.namedChildren) :
    child.Below node :=
  ⟨node, (List.mem_filter.mp present).1, .refl node⟩

end Node

/-- The height of the highest tree of a program. -/
def Program.height (program : Program) : Nat :=
  (program.model.files.map fun file => file.root.height).foldr max 0

/-- No node is higher than the program. -/
theorem Program.HasNode.height_le {program : Program} {node : Node} (inside : program.HasNode node) :
    node.height ≤ program.height := by
  obtain ⟨file, present, within⟩ := inside
  refine Nat.le_trans within.height_le ?_
  rw [Program.height]
  generalize program.model.files = files at present
  induction files with
  | nil => cases present
  | cons first rest inductionHypothesis =>
    rw [List.map_cons, List.foldr_cons]
    rcases List.mem_cons.mp present with rfl | later
    · exact Nat.le_max_left _ _
    · exact Nat.le_trans (inductionHypothesis later) (Nat.le_max_right _ _)

namespace Program

variable {program : Program}

/-! ### What is asked -/

/-- What each question may ask, when questions get the given answers. Questions that are refused
past the limit ask nothing there. -/
inductive Asks (program : Program) (given : (question : Question) → question.Answer) :
    Question → Question → Prop
  /-- The symbol of an access hangs on the type of its object. -/
  | receiver {expression object : Node} {depth : Nat} (near : depth ≤ depthLimit)
      (preference : Preference) (below : object.Below expression) :
      Asks program given (.symbol expression depth) (.type preference object depth)
  /-- It is a member of that type. -/
  | access {expression object : Node} {depth : Nat} (near : depth ≤ depthLimit) (name : String)
      (preference : Preference) (below : object.Below expression) :
      Asks program given (.symbol expression depth)
        (.member name (given (.type preference object depth)) depth)
  /-- The type of an expression hangs on what it or a part of it denotes. -/
  | denoted {expression part : Node} {depth : Nat} (near : depth ≤ depthLimit)
      (preference : Preference) (within : part.Within expression) :
      Asks program given (.type preference expression depth) (.symbol part depth)
  /-- It is the type of the symbol. -/
  | typed {expression : Node} {depth : Nat} (near : depth ≤ depthLimit) (preference : Preference)
      {symbol : Symbol} (denotes : given (.symbol expression depth) = some symbol) :
      Asks program given (.type preference expression depth)
        (.symbolType preference symbol (depth + 1))
  /-- The type of a call is what the callee returns. -/
  | called {expression function : Node} {depth : Nat} (near : depth ≤ depthLimit)
      (preference : Preference) (within : function.Within expression) {decl : Decl}
      (denotes : given (.symbol function depth) = some (.decl decl)) :
      Asks program given (.type preference expression depth) (.returned decl (depth + 1))
  /-- The type of other expressions is that of a part. -/
  | part {expression inner : Node} {depth : Nat} (near : depth ≤ depthLimit)
      (preference : Preference) (below : inner.Below expression) :
      Asks program given (.type preference expression depth) (.type preference inner depth)
  /-- The type of an `as` expression is the asserted one. -/
  | asserted {expression ascription : Node} {depth : Nat} (near : depth ≤ depthLimit)
      (preference : Preference) :
      Asks program given (.type preference expression depth) (.ascribed ascription depth)
  /-- The type of `super` is the class that the class around it extends. -/
  | super {expression : Node} {depth : Nat} (near : depth ≤ depthLimit) (preference : Preference)
      {owner : Decl} (encloses : program.enclosingClass? expression = some owner) :
      Asks program given (.type preference expression depth) (.base owner (depth + 1))
  /-- An import has the type of what it stands for. -/
  | followed {link : ImportLink} {depth : Nat} (preference : Preference) {symbol : Symbol}
      (follows : program.resolveAlias? (.imported link) = some symbol)
      (isEnd : ∀ next, symbol ≠ .imported next) :
      Asks program given (.symbolType preference (.imported link) depth)
        (.symbolType preference symbol (depth + 1))
  /-- A variable or field has the type of what its node binds. -/
  | declared {decl : Decl} {depth : Nat} (preference : Preference) :
      Asks program given (.symbolType preference (.decl decl) depth)
        (.binding preference decl.node depth)
  /-- So has a name bound inside a function. -/
  | bound {node : Node} {depth : Nat} (preference : Preference) :
      Asks program given (.symbolType preference (.binder node) depth)
        (.binding preference node depth)
  /-- An accessor has the type that it returns. -/
  | accessor {decl : Decl} {depth : Nat} (preference : Preference) :
      Asks program given (.symbolType preference (.decl decl) depth) (.returned decl depth)
  /-- The type of a binding hangs on its annotation. -/
  | annotated {node ascription : Node} {depth : Nat} (near : depth ≤ depthLimit)
      (preference : Preference) :
      Asks program given (.binding preference node depth) (.ascribed ascription (depth + 1))
  /-- It hangs on its value. -/
  | initialized {node value : Node} {depth : Nat} (near : depth ≤ depthLimit)
      (preference : Preference) (within : value.Within node) :
      Asks program given (.binding preference node depth) (.type preference value (depth + 1))
  /-- What a declaration returns hangs on its annotation. -/
  | returns {decl : Decl} {ascription : Node} {depth : Nat} :
      Asks program given (.returned decl depth) (.ascribed ascription (depth + 1))
  /-- An annotation stands for another one inside it. -/
  | inner {outer ascription : Node} {depth : Nat} (near : depth ≤ depthLimit) :
      Asks program given (.ascribed outer depth) (.ascribed ascription (depth + 1))
  /-- Members of an instance are members of its class. -/
  | ofInstance {owner : Decl} {depth : Nat} (near : depth ≤ depthLimit) (name : String) :
      Asks program given (.member name (.instanceOf owner) depth)
        (.classMember name false owner depth)
  /-- Members of a class itself are its static ones. -/
  | ofClass {owner : Decl} {depth : Nat} (near : depth ≤ depthLimit) (name : String) :
      Asks program given (.member name (.classItself owner) depth)
        (.classMember name true owner depth)
  /-- Members of an object literal are its entries. -/
  | ofObject {object : Node} {depth : Nat} (near : depth ≤ depthLimit) (name : String) :
      Asks program given (.member name (.object object) depth) (.objectMember name object depth)
  /-- A member of a class may be inherited along the chain of base classes. -/
  | inherited {owner holder : Decl} {depth : Nat} (name : String) (isStatic : Bool)
      (chain : Relation.ReflTransGen
        (fun derived base => given (.base derived (depth + 1)) = some base) owner holder) :
      Asks program given (.classMember name isStatic owner depth) (.base holder (depth + 1))
  /-- An entry denotes what its value denotes. -/
  | entry {object value : Node} {depth : Nat} (name : String) (within : value.Within object) :
      Asks program given (.objectMember name object depth) (.symbol value (depth + 1))
  /-- The class that a class extends is what the expression after `extends` denotes. -/
  | extended {decl : Decl} {expression : Node} {depth : Nat} (near : depth ≤ depthLimit)
      (within : expression.Within decl.node) :
      Asks program given (.base decl depth) (.symbol expression (depth + 1))
  /-- An expression may refer to the class that a part of it refers to. -/
  | mentioned {expression part : Node} {depth : Nat} (near : depth ≤ depthLimit)
      (within : part.Within expression) :
      Asks program given (.reference expression depth) (.reference part (depth + 1))
  /-- It may denote a class. -/
  | named {expression part : Node} {depth : Nat} (near : depth ≤ depthLimit)
      (within : part.Within expression) :
      Asks program given (.reference expression depth) (.symbol part (depth + 1))

section

variable {given : (question : Question) → question.Answer} {allowed : Question → Prop}

/-- Past the limit nothing is asked, so only scripts below it have to be looked at. -/
theorem asksOnly_upToLimit {α : Type} {depth : Nat} {refused : α} {script : Script α}
    (asks : depth ≤ depthLimit → script.AsksOnly given allowed) :
    (upToLimit depth refused script).AsksOnly given allowed := by
  rw [upToLimit]
  split
  · trivial
  · next near => exact asks (Nat.le_of_not_lt near)

theorem asksOnly_askAscribed {ascription : Option Node} {depth : Nat}
    (asks : ∀ node, ascription = some node → allowed (.ascribed node depth)) :
    (askAscribed ascription depth).AsksOnly given allowed := by
  cases ascription with
  | none => trivial
  | some node => exact ⟨asks node rfl, trivial⟩

theorem asksOnly_askType {preference : Preference} {expression : Option Node} {depth : Nat}
    (asks : ∀ node, expression = some node → allowed (.type preference node depth)) :
    (askType preference expression depth).AsksOnly given allowed := by
  cases expression with
  | none => trivial
  | some node => exact ⟨asks node rfl, trivial⟩

theorem asksOnly_askReference {expression : Option Node} {depth : Nat}
    (asks : ∀ node, expression = some node → allowed (.reference node depth)) :
    (askReference expression depth).AsksOnly given allowed := by
  cases expression with
  | none => trivial
  | some node => exact ⟨asks node rfl, trivial⟩

/-- A choice asks what its two sides ask. -/
theorem asksOnly_firstKnown {first second : Script Ty} (one : first.AsksOnly given allowed)
    (other : second.AsksOnly given allowed) : (firstKnown first second).AsksOnly given allowed := by
  refine Script.asksOnly_bind one ?_
  split
  · exact other
  · trivial

/-- The symbol of an expression asks about the object of an access and for one member. -/
theorem asksOnly_symbolScript {expression : Node} {depth : Nat} (near : depth ≤ depthLimit) :
    (program.symbolScript expression.unwrap depth).AsksOnly given
      (program.Asks given (.symbol expression depth)) := by
  have below : ∀ object, expression.unwrap.child? .object = some object →
      object.Below expression :=
    fun object found => ⟨_, Node.mem_children_of_child? found, expression.unwrap_within⟩
  rw [symbolScript]
  split
  · trivial
  · split
    · next object property isObject isProperty =>
      have inside := below object isObject
      exact ⟨.receiver near .declared inside, .access near property.text .declared inside, trivial⟩
    · trivial
  · split
    · next object key isObject isKey =>
      have inside := below object isObject
      refine ⟨.receiver near .declared inside, .access near key .declared inside, ?_⟩
      dsimp only
      split
      · trivial
      · refine ⟨.receiver near .value inside, ?_⟩
        dsimp only
        split
        · trivial
        · exact ⟨.access near key .value inside, trivial⟩
    · trivial
  · trivial

theorem asksOnly_denotedTypeScript {preference : Preference} {expression : Node} {depth : Nat}
    (near : depth ≤ depthLimit) :
    (denotedTypeScript preference expression depth).AsksOnly given
      (program.Asks given (.type preference expression depth)) := by
  refine ⟨.denoted near preference (.refl expression), ?_⟩
  dsimp only
  split
  · next symbol denotes => exact ⟨.typed near preference denotes, trivial⟩
  · trivial

/-- The type of an expression asks about its parts at the same depth, and about declarations one
jump deeper. -/
theorem asksOnly_typeScript {preference : Preference} {expression : Node} {depth : Nat}
    (near : depth ≤ depthLimit) :
    (program.typeScript preference expression depth).AsksOnly given
      (program.Asks given (.type preference expression depth)) := by
  have first : (askType preference expression.firstNamed? depth).AsksOnly given
      (program.Asks given (.type preference expression depth)) :=
    asksOnly_askType fun inner found =>
      .part near preference (Node.below_of_mem_namedChildren (List.mem_of_head? found))
  rw [typeScript]
  split
  · trivial
  · split
    · next owner encloses => exact ⟨.super near preference encloses, trivial⟩
    · trivial
  · exact asksOnly_denotedTypeScript near
  · exact asksOnly_denotedTypeScript near
  · exact asksOnly_denotedTypeScript near
  · split
    · next function found =>
      have within := Node.within_of_child? found
      refine ⟨.denoted near preference within, ?_⟩
      dsimp only
      split
      · next decl denotes => exact ⟨.called near preference within denotes, trivial⟩
      · trivial
    · trivial
  · refine Script.asksOnly_bind ?_ ?_
    · exact asksOnly_askType fun inner found =>
        .part near preference (Node.below_of_child? found)
    · split <;> trivial
  · exact first
  · exact first
  · exact first
  · exact first
  · split
    · trivial
    · next inner rest children =>
      have operand : ∀ node, some inner = some node →
          program.Asks given (.type preference expression depth) (.type preference node depth) := by
        rintro node ⟨⟩
        exact .part near preference (Node.below_of_mem_namedChildren (by simp [children]))
      refine Script.asksOnly_bind (asksOnly_askAscribed fun _ _ => .asserted near preference) ?_
      cases preference with
      | declared =>
        dsimp only
        split
        · exact asksOnly_askType operand
        · trivial
      | value => exact asksOnly_askType operand
  · trivial
  · trivial

/-- The type of a symbol asks for what a node binds or a declaration returns. -/
theorem asksOnly_symbolTypeScript {preference : Preference} {symbol : Symbol} {depth : Nat} :
    (program.symbolTypeScript preference symbol depth).AsksOnly given
      (program.Asks given (.symbolType preference symbol depth)) := by
  cases symbol with
  | module file => trivial
  | imported link =>
    rw [symbolTypeScript]
    split
    · trivial
    · trivial
    · next resolved isEnd follows => exact ⟨.followed preference follows isEnd, trivial⟩
  | decl decl =>
    rw [symbolTypeScript]
    split
    · trivial
    · exact ⟨.declared preference, trivial⟩
    · exact ⟨.declared preference, trivial⟩
    · exact ⟨.accessor preference, trivial⟩
    · trivial
  | binder node => exact ⟨.bound preference, trivial⟩

/-- A binding asks for its annotation and its value, one jump deeper. -/
theorem asksOnly_bindingScript {preference : Preference} {node : Node} {depth : Nat}
    (near : depth ≤ depthLimit) :
    (bindingScript preference node depth).AsksOnly given
      (program.Asks given (.binding preference node depth)) := by
  have annotated : (askAscribed (node.child? .type) (depth + 1)).AsksOnly given
      (program.Asks given (.binding preference node depth)) :=
    asksOnly_askAscribed fun _ _ => .annotated near preference
  have initialized : (askType preference (node.child? .value) (depth + 1)).AsksOnly given
      (program.Asks given (.binding preference node depth)) :=
    asksOnly_askType fun _ found => .initialized near preference (Node.within_of_child? found)
  cases preference with
  | declared => exact asksOnly_firstKnown annotated initialized
  | value => exact asksOnly_firstKnown initialized annotated

/-- An annotation asks about the annotations inside it, one jump deeper. -/
theorem asksOnly_ascriptionScript {ascription : Node} {depth : Nat} (near : depth ≤ depthLimit) :
    (program.ascriptionScript ascription depth).AsksOnly given
      (program.Asks given (.ascribed ascription depth)) := by
  have ask : ∀ part, (askAscribed part (depth + 1)).AsksOnly given
      (program.Asks given (.ascribed ascription depth)) :=
    fun part => asksOnly_askAscribed fun _ _ => .inner near
  rw [ascriptionScript]
  split
  · trivial
  · split
    · trivial
    · trivial
    · split
      · trivial
      · split
        · exact ask _
        · exact ask _
    · trivial
    · split
      · exact ask _
      · trivial
    · exact ask _
    · exact ask _
    · trivial

/-- A search through classes asks for base classes only, each time about a class that the chain has
reached. -/
theorem asksOnly_chainScript {name : String} {isStatic : Bool} {depth classes : Nat}
    {visited : List DeclId} {owner holder : Decl}
    (chain : Relation.ReflTransGen
      (fun derived base => given (.base derived (depth + 1)) = some base) owner holder) :
    (program.chainScript name isStatic depth classes visited holder).AsksOnly given
      (program.Asks given (.classMember name isStatic owner depth)) := by
  induction classes generalizing visited holder with
  | zero => trivial
  | succ classes inductionHypothesis =>
    rw [chainScript]
    split
    · trivial
    · split
      · trivial
      · refine ⟨.inherited name isStatic chain, ?_⟩
        dsimp only
        split
        · next base extends_ => exact inductionHypothesis (chain.tail extends_)
        · trivial

/-- A member is asked of the class or the object that the receiver stands for. -/
theorem asksOnly_memberScript {name : String} {receiver : Ty} {depth : Nat}
    (near : depth ≤ depthLimit) :
    (program.memberScript name receiver depth).AsksOnly given
      (program.Asks given (.member name receiver depth)) := by
  cases receiver with
  | instanceOf owner => exact ⟨.ofInstance near name, trivial⟩
  | classItself owner => exact ⟨.ofClass near name, trivial⟩
  | module file => trivial
  | object node => exact ⟨.ofObject near name, trivial⟩
  | unknown => trivial

/-- An entry of an object asks for its value, one jump deeper. -/
theorem asksOnly_objectScript {name : String} {object : Node} {depth : Nat} :
    (program.objectScript name object depth).AsksOnly given
      (program.Asks given (.objectMember name object depth)) := by
  rw [objectScript]
  split
  · trivial
  · next entry found =>
    have within := Node.within_of_mem_namedChildren (List.mem_of_find?_eq_some found)
    split
    · split
      · next value isValue =>
        exact ⟨.entry name ((Node.within_of_child? isValue).trans within), trivial⟩
      · trivial
    · trivial

/-- A base class asks what the expression behind `extends` denotes. -/
theorem asksOnly_baseScript {decl : Decl} {depth : Nat} (near : depth ≤ depthLimit) :
    (baseScript decl depth).AsksOnly given (program.Asks given (.base decl depth)) := by
  rw [baseScript]
  split
  · trivial
  · next expression found =>
    refine ⟨.extended near (within_of_baseExpression? found), ?_⟩
    dsimp only
    split <;> trivial

/-- A call in metadata asks about a part of the expression it is in. -/
theorem asksOnly_calledScript {expression call : Node} {depth : Nat} (near : depth ≤ depthLimit)
    (within : call.Within expression) :
    (calledScript call depth).AsksOnly given (program.Asks given (.reference expression depth)) := by
  rw [calledScript]
  split
  · trivial
  · next function isFunction =>
    split
    · split
      · trivial
      · next argument isArgument =>
        obtain ⟨list, isList, isFirst⟩ := Option.bind_eq_some_iff.mp isArgument
        have inCall := (Node.within_of_firstNamed? isFirst).trans (Node.within_of_child? isList)
        refine asksOnly_askReference fun target found => .mentioned near ?_
        split at found
        · exact ((within_of_arrowResult? found).trans inCall).trans within
        · cases found
          exact inCall.trans within
    · split
      · refine asksOnly_askReference fun object isObject => .mentioned near ?_
        exact (((Node.within_of_child? isObject).trans function.unwrap_within).trans
          (Node.within_of_child? isFunction)).trans within
      · trivial

/-- Each of some expressions is asked about, at most once. -/
theorem asksOnly_firstReferenceScript {depth : Nat} {expressions : List Node}
    (asks : ∀ expression ∈ expressions, allowed (.reference expression depth)) :
    (firstReferenceScript depth expressions).AsksOnly given allowed := by
  induction expressions with
  | nil => trivial
  | cons expression rest inductionHypothesis =>
    obtain ⟨first, others⟩ := List.forall_mem_cons.mp asks
    refine Script.asksOnly_bind (asksOnly_askReference ?_) ?_
    · rintro node ⟨⟩
      exact first
    · split
      · trivial
      · exact inductionHypothesis others

/-- A reference to a class asks about parts of the expression only. -/
theorem asksOnly_referenceScript {expression : Node} {depth : Nat} (near : depth ≤ depthLimit) :
    (referenceScript expression.unwrap depth).AsksOnly given
      (program.Asks given (.reference expression depth)) := by
  have within := expression.unwrap_within
  rw [referenceScript]
  split
  · exact asksOnly_calledScript near within
  · refine Script.asksOnly_bind (asksOnly_firstReferenceScript fun value present => ?_) ?_
    · exact .mentioned near ((within_of_mem_valuesUnder present).trans within)
    · split
      · trivial
      · refine asksOnly_askReference fun value isLast => .mentioned near ?_
        exact (within_of_mem_valuesUnder (List.mem_of_getLast? isLast)).trans within
  · refine ⟨.named near within, ?_⟩
    dsimp only
    split <;> trivial

/-- Scripts ask nothing else than what the relation says, whatever answers they get. -/
theorem asksOnly_script (program : Program) (given : (question : Question) → question.Answer)
    (question : Question) :
    (program.script question).AsksOnly given (program.Asks given question) := by
  cases question with
  | symbol expression depth => exact asksOnly_upToLimit asksOnly_symbolScript
  | type preference expression depth => exact asksOnly_upToLimit asksOnly_typeScript
  | symbolType preference symbol depth => exact asksOnly_symbolTypeScript
  | binding preference node depth => exact asksOnly_upToLimit asksOnly_bindingScript
  | returned decl depth => exact asksOnly_askAscribed fun _ _ => .returns
  | ascribed ascription depth => exact asksOnly_upToLimit asksOnly_ascriptionScript
  | member name receiver depth => exact asksOnly_upToLimit asksOnly_memberScript
  | classMember name isStatic owner depth => exact asksOnly_chainScript .refl
  | objectMember name object depth => exact asksOnly_objectScript
  | base decl depth => exact asksOnly_upToLimit asksOnly_baseScript
  | reference expression depth => exact asksOnly_upToLimit asksOnly_referenceScript

end

end Program

/-! ### Ranks -/

namespace Question

/-- The depth at which a question is asked. -/
def depth : Question → Nat
  | symbol _ depth | type _ _ depth | symbolType _ _ depth | binding _ _ depth | returned _ depth
  | ascribed _ depth | member _ _ depth | classMember _ _ _ depth | objectMember _ _ depth
  | base _ depth | reference _ depth => depth

/-- The jumps that are left. -/
def jumps (question : Question) : Nat := Program.fullBudget - question.depth

/-- The height of the expression that a question goes down into. A question that is refused goes
nowhere. -/
def height : Question → Nat
  | symbol expression depth | type _ expression depth =>
    if Program.depthLimit < depth then 0 else expression.height
  | _ => 0

/-- The position among the questions that are asked for each other without a jump and without going
down. -/
@[simp]
def position : Question → Nat
  | ascribed .. | binding .. | base .. | reference .. => 0
  | symbol .. | returned .. | classMember .. => 1
  | symbolType _ (.imported _) _ | member .. => 3
  | type .. | symbolType .. | objectMember .. => 2

/-- The rank of a question: the jumps that are left count most, then the height of the expression,
then the position. -/
def rank (question : Question) : ℕ ×ₗ ℕ ×ₗ ℕ :=
  toLex (question.jumps, toLex (question.height, question.position))

/-- Ranks are compared by jumps first, then by height, then by the position of the question in its
kind. -/
theorem rank_lt_iff {a b : Question} :
    a.rank < b.rank ↔ a.jumps < b.jumps ∨ a.jumps = b.jumps ∧
      (a.height < b.height ∨ a.height = b.height ∧ a.position < b.position) := by
  rw [rank, rank, Prod.Lex.toLex_lt_toLex, Prod.Lex.toLex_lt_toLex]

theorem rank_lt_of_jumps {a b : Question} (fewer : a.jumps < b.jumps) : a.rank < b.rank :=
  rank_lt_iff.mpr (.inl fewer)

theorem rank_lt_of_height {a b : Question} (jumps : a.jumps ≤ b.jumps)
    (lower : a.height < b.height) : a.rank < b.rank := by
  rw [rank_lt_iff]
  omega

theorem rank_lt_of_position {a b : Question} (jumps : a.jumps ≤ b.jumps)
    (height : a.height ≤ b.height) (before : a.position < b.position) : a.rank < b.rank := by
  rw [rank_lt_iff]
  omega

/-- A question asked after a jump has fewer jumps left. -/
theorem jumps_lt_of_depth {a b : Question} (near : b.depth ≤ Program.depthLimit)
    (deeper : a.depth = b.depth + 1) : a.jumps < b.jumps := by
  have limit : Program.fullBudget = Program.depthLimit + 1 := rfl
  rw [jumps, jumps]
  omega

/-- One jump deeper there is one jump less to go. -/
theorem jumps_succ_le {a b : Question} (deeper : a.depth = b.depth + 1) : a.jumps ≤ b.jumps := by
  rw [jumps, jumps]
  omega

theorem height_symbol {expression : Node} {depth : Nat} (near : depth ≤ Program.depthLimit) :
    (symbol expression depth).height = expression.height :=
  if_neg (Nat.not_lt_of_le near)

theorem height_type {preference : Preference} {expression : Node} {depth : Nat}
    (near : depth ≤ Program.depthLimit) :
    (type preference expression depth).height = expression.height :=
  if_neg (Nat.not_lt_of_le near)

theorem position_lt (question : Question) : question.position < 4 := by
  unfold position
  split <;> decide

/-- One number for a rank, when heights stay below a bound. -/
def weight (bound : Nat) (question : Question) : Nat :=
  question.jumps * (4 * (bound + 1)) + question.height * 4 + question.position

/-- A lower rank is a smaller number. -/
theorem weight_lt_of_rank_lt {bound : Nat} {a b : Question} (low : a.height ≤ bound)
    (lower : a.rank < b.rank) : a.weight bound < b.weight bound := by
  have smallA := a.position_lt
  have small : a.height * 4 + a.position < 4 * (bound + 1) := by omega
  rcases rank_lt_iff.mp lower with fewer | ⟨same, shorter⟩
  · have jumps : (a.jumps + 1) * (4 * (bound + 1)) ≤ b.jumps * (4 * (bound + 1)) :=
      Nat.mul_le_mul_right _ fewer
    rw [Nat.add_mul, Nat.one_mul] at jumps
    simp only [weight]
    omega
  · simp only [weight, same]
    omega

end Question

namespace Program

variable {program : Program}

/-- Every question asked has a lower rank. -/
theorem Asks.rank_lt {given : (question : Question) → question.Answer} {question next : Question}
    (asks : program.Asks given question next) : next.rank < question.rank := by
  cases asks with
  -- Going down into an expression.
  | receiver near preference below =>
    refine Question.rank_lt_of_height (Nat.le_refl _) ?_
    rw [Question.height_symbol near, Question.height_type near]
    exact below.height_lt
  | access near name preference below =>
    refine Question.rank_lt_of_height (Nat.le_refl _) ?_
    rw [Question.height_symbol near]
    exact Nat.zero_lt_of_lt below.height_lt
  | part near preference below =>
    refine Question.rank_lt_of_height (Nat.le_refl _) ?_
    rw [Question.height_type near, Question.height_type near]
    exact below.height_lt
  -- Asking something else at the same place.
  | denoted near preference within =>
    refine Question.rank_lt_of_position (Nat.le_refl _) ?_ (by simp)
    rw [Question.height_symbol near, Question.height_type near]
    exact within.height_le
  | asserted near preference =>
    exact Question.rank_lt_of_position (Nat.le_refl _) (Nat.zero_le _) (by simp)
  | declared | bound | accessor | ofInstance | ofClass | ofObject =>
    exact Question.rank_lt_of_position (Nat.le_refl _) (Nat.le_refl _) (by simp)
  -- Jumps that are not refused past the limit.
  | returns | inherited =>
    exact Question.rank_lt_of_position (Question.jumps_succ_le rfl) (Nat.le_refl _) (by simp)
  | @followed _ _ _ symbol _ isEnd =>
    refine Question.rank_lt_of_position (Question.jumps_succ_le rfl) (Nat.le_refl _) ?_
    cases symbol with
    | imported next => exact absurd rfl (isEnd next)
    | decl _ => simp
    | module _ => simp
    | binder _ => simp
  | @entry _ _ depth _ _ =>
    rcases Nat.lt_or_ge depthLimit depth with far | near
    · refine Question.rank_lt_of_position (Question.jumps_succ_le rfl) ?_ (by simp)
      exact Nat.le_of_eq (if_pos (Nat.lt_succ_of_lt far))
    · exact Question.rank_lt_of_jumps (Question.jumps_lt_of_depth near rfl)
  -- All other jumps.
  | typed near | called near | super near | annotated near | initialized near | inner near
  | extended near | mentioned near | named near =>
    exact Question.rank_lt_of_jumps (Question.jumps_lt_of_depth near rfl)

/-! ### Questions about the program -/

end Program

/-- A question about what belongs to the program. -/
def Question.Inside (program : Program) : Question → Prop
  | symbol node _ | type _ node _ | binding _ node _ | objectMember _ node _ | reference node _ =>
    program.HasNode node
  | symbolType _ denoted _ => denoted.Known program ∧ denoted.Placed program
  | member _ receiver _ => receiver.WellKinded program ∧ receiver.Placed program
  | classMember _ _ decl _ | base decl _ => decl ∈ program.index.decls
  | returned .. | ascribed .. => True

/-- A question about the program is about nothing higher than the program. -/
theorem Question.Inside.height_le {program : Program} {question : Question}
    (inside : question.Inside program) : question.height ≤ program.height := by
  cases question with
  | symbol expression depth =>
    rw [Question.height]
    split
    · exact Nat.zero_le _
    · exact Program.HasNode.height_le inside
  | type preference expression depth =>
    rw [Question.height]
    split
    · exact Nat.zero_le _
    · exact Program.HasNode.height_le inside
  | _ => exact Nat.zero_le _

namespace Program

variable {program : Program}

/-- Classes on the chain of base classes are declared by the program. -/
theorem WellFormed.mem_decls_of_chain (wellFormed : program.WellFormed) {depth : Nat}
    {owner holder : Decl} (declared : owner ∈ program.index.decls)
    (chain : Relation.ReflTransGen
      (fun derived base => program.answer (.base derived depth) = some base) owner holder) :
    holder ∈ program.index.decls := by
  induction chain with
  | refl => exact declared
  | tail path extends_ inductionHypothesis =>
    exact ((wellFormed.wellKinded_level _).base _ _ extends_).1.declared

/-- Questions about the program ask questions about the program, when they get the answers of the
levels. -/
theorem Rooted.inside_of_asks (rooted : program.Rooted) {question next : Question}
    (asks : program.Asks program.answer question next) (inside : question.Inside program) :
    next.Inside program := by
  have kinded : ∀ depth, (program.atDepth depth).WellKinded program :=
    fun depth => rooted.wellKinded_level (fullBudget - depth)
  have placed : ∀ depth, (program.atDepth depth).Placed program :=
    fun depth => rooted.placed_level (fullBudget - depth)
  cases asks with
  | receiver near preference below => exact HasNode.of_within inside below.within
  | @access _ object depth near name preference below =>
    exact ⟨(kinded depth).type preference object,
      (placed depth).type preference object (HasNode.of_within inside below.within)⟩
  | denoted near preference within => exact HasNode.of_within inside within
  | @typed expression depth _ _ symbol denotes =>
    exact ⟨((kinded depth).symbol expression symbol denotes).known,
      (placed depth).symbol expression inside symbol denotes⟩
  | part near preference below => exact HasNode.of_within inside below.within
  | super near preference encloses =>
    exact (rooted.declaresClass_of_enclosingClass? encloses).declared
  | followed preference follows isEnd =>
    exact ⟨(rooted.resolved_of_resolveAlias? inside.1 follows).known,
      placed_of_resolveAlias? inside.2 follows⟩
  | @declared decl depth preference => exact rooted.declNode decl inside.1
  | bound preference => exact inside.2
  | initialized near preference within => exact HasNode.of_within inside within
  | ofInstance near name => exact inside.1.declared
  | ofClass near name => exact inside.1.declared
  | ofObject near name => exact inside.2
  | inherited name isStatic chain => exact rooted.mem_decls_of_chain inside chain
  | entry name within => exact HasNode.of_within inside within
  | @extended decl _ _ near within => exact (rooted.declNode decl inside).of_within within
  | mentioned near within => exact HasNode.of_within inside within
  | named near within => exact HasNode.of_within inside within
  | called | asserted | accessor | annotated | returns | inner => trivial

/-! ### Answering only so deep -/

/-- Answers a question, going only so many questions deep. -/
def run (program : Program) : (fuel : Nat) → (question : Question) → Option question.Answer
  | 0, _ => none
  | fuel + 1, question => (program.script question).perform (program.run fuel)

/-- As deep as questions ever lead: made of the jumps that can be left, the height of the trees and
the number of positions. -/
def questionBound (program : Program) : Nat := (fullBudget + 1) * (4 * (program.height + 1))

/-- The weights of questions about a program are bounded by a number that is known before. This is
the bound on the fuel. -/
theorem weight_lt_questionBound {question : Question} (inside : question.Inside program) :
    question.weight program.height < program.questionBound := by
  have jumps : question.jumps * (4 * (program.height + 1)) ≤
      fullBudget * (4 * (program.height + 1)) :=
    Nat.mul_le_mul_right _ (Nat.sub_le _ _)
  have low := inside.height_le
  have small := question.position_lt
  rw [Question.weight, questionBound, Nat.add_mul, Nat.one_mul]
  omega

/-- What may go deeper than the rank of a question says, is answered as the levels answer. -/
theorem Rooted.run_eq_answer (rooted : program.Rooted) {fuel : Nat} {question : Question}
    (inside : question.Inside program) (deep : question.weight program.height < fuel) :
    program.run fuel question = some (program.answer question) := by
  induction fuel generalizing question with
  | zero => exact absurd deep (Nat.not_lt_zero _)
  | succ fuel inductionHypothesis =>
    have answered : (program.script question).AsksOnly program.answer fun next =>
        program.run fuel next = some (program.answer next) := by
      refine (asksOnly_script program program.answer question).imp fun next asks => ?_
      have nextInside := rooted.inside_of_asks asks inside
      have lighter := Question.weight_lt_of_rank_lt nextInside.height_le asks.rank_lt
      exact inductionHypothesis nextInside (by omega)
    rw [run, Script.perform_eq_result answered, result_script]

/-! ### The whole program -/

/-- All questions about a program are answered. -/
structure AnswersEverything (program : Program) : Prop where
  /-- Whatever answers are given, a question asks only questions of lower rank. -/
  decreases : ∀ given question, (program.script question).AsksOnly given fun next =>
    next.rank < question.rank
  /-- Going deeper than the bound, a question gets one and the same answer. -/
  answered : ∀ question, question.Inside program → ∀ fuel, program.questionBound ≤ fuel →
    program.run fuel question = some (program.answer question)
  /-- What an expression denotes is found. -/
  symbol : ∀ expression, program.HasNode expression → ∀ fuel, program.questionBound ≤ fuel →
    program.run fuel (.symbol expression 0) = some (program.expressionSymbol? expression)
  /-- The type that an annotation names is found. -/
  ascribed : ∀ ascription fuel, program.questionBound ≤ fuel →
    program.run fuel (.ascribed ascription 0) = some (program.ascribedType ascription)
  /-- The type of what a declaration returns is found. -/
  returned : ∀ decl fuel, program.questionBound ≤ fuel →
    program.run fuel (.returned decl 0) = some (program.returnType decl)
  /-- The class that a class extends is found. -/
  base : ∀ decl ∈ program.index.decls, ∀ fuel, program.questionBound ≤ fuel →
    program.run fuel (.base decl 0) = some (program.baseClass? decl)
  /-- The class that an expression refers to is found. -/
  reference : ∀ expression, program.HasNode expression → ∀ fuel, program.questionBound ≤ fuel →
    program.run fuel (.reference expression 0) = some (program.classReference? expression)

/-- **Every program answers all questions.** However a program refers to itself, each question asked
has a lower rank than the one it is asked for, so that answering ends. -/
theorem questions_answered (settings : AnalysisSettings) (inputs : List Input) :
    (ofModel (Model.build settings inputs)).AnswersEverything := by
  have rooted := rooted_ofModel (Model.numbered_build settings inputs)
  generalize ofModel (Model.build settings inputs) = program at rooted
  have answered : ∀ question, question.Inside program → ∀ fuel, program.questionBound ≤ fuel →
      program.run fuel question = some (program.answer question) :=
    fun question inside fuel deep => rooted.run_eq_answer inside
      (Nat.lt_of_lt_of_le (weight_lt_questionBound inside) deep)
  exact {
    decreases := fun given question =>
      (asksOnly_script program given question).imp fun next asks => asks.rank_lt
    answered := answered
    symbol := fun expression inside => answered (.symbol expression 0) inside
    ascribed := fun ascription => answered (.ascribed ascription 0) trivial
    returned := fun decl => answered (.returned decl 0) trivial
    base := fun decl declared => answered (.base decl 0) declared
    reference := fun expression inside => answered (.reference expression 0) inside }

end Program

end CodeGraph
