import CodeGraph.Proofs.Comment.Tree
import CodeGraph.Proofs.Resolve.Inside

/-!
# What is read off a node without comments

Names, literals, parameters, decorators and the nodes by which names are bound are read off a node
through its named children and its fields, so they are the same when the comments are gone.

## Main Statements

* `Node.unwrap_pruned`, `Node.memberName?_pruned`, `Node.parameters_pruned`,
  `Node.decorators_pruned`: the parts of a node.
* `Node.binder?_pruned`, `Node.binderIn?_pruned`: the nodes by which names are bound.
* `Decl.functionNode?_pruned`: the function that a declaration declares.
-/

namespace CodeGraph

/-! ### Lists through a change of their members -/

section Lists

variable {α β γ δ : Type} {change : α → β} {result : γ → δ} {items : List α}

/-- The first answer among changed items is the changed first answer, when each item answers so. -/
theorem findSome?_map_of {f : α → Option γ} {g : β → Option δ}
    (commutes : ∀ item ∈ items, g (change item) = (f item).map result) :
    (items.map change).findSome? g = (items.findSome? f).map result := by
  induction items with
  | nil => rfl
  | cons item rest inductionHypothesis =>
    have later := inductionHypothesis fun other present =>
      commutes other (List.mem_cons_of_mem item present)
    rw [List.map_cons, List.findSome?_cons, List.findSome?_cons, later,
      commutes item List.mem_cons_self]
    cases f item <;> rfl

/-- The first changed item that passes is the first one that passes, changed. -/
theorem find?_map_of {p : α → Bool} {q : β → Bool}
    (commutes : ∀ item ∈ items, q (change item) = p item) :
    (items.map change).find? q = (items.find? p).map change := by
  rw [← List.head?_filter, List.filter_map, List.head?_map, ← List.head?_filter]
  exact congrArg (fun chosen => (List.head? chosen).map change) (List.filter_congr commutes)

/-- The answers of changed items are the changed answers. -/
theorem filterMap_map_of {f : α → Option γ} {g : β → Option δ}
    (commutes : ∀ item ∈ items, g (change item) = (f item).map result) :
    (items.map change).filterMap g = (items.filterMap f).map result := by
  rw [List.filterMap_map, List.map_filterMap]
  exact List.filterMap_congr commutes

/-- Reading on from a changed answer gives the same, when each item is read the same. -/
theorem bind_map_of {answer : Option α} {f : α → Option γ} {g : β → Option γ}
    (commutes : ∀ item ∈ answer, g (change item) = f item) :
    (answer.map change).bind g = answer.bind f := by
  cases answer with
  | none => rfl
  | some item => exact commutes item rfl

/-- The lists that changed items give are the changed lists. -/
theorem flatMap_map_of {f : α → List γ} {g : β → List δ}
    (commutes : ∀ item ∈ items, g (change item) = (f item).map result) :
    (items.map change).flatMap g = (items.flatMap f).map result := by
  rw [List.flatMap_map, List.map_flatMap]
  exact List.flatMap_congr commutes

end Lists

namespace Node

variable (node : Node)

/-! ### Literals and names -/

/-- One wrapper less. -/
theorem unwrap_eq : node.unwrap =
    if node.kind.isWrapper then (node.firstNamed?.map unwrap).getD node else node := by
  rw [unwrap]
  split
  · split <;> simp_all
  · rfl

/-- Wrappers are taken off the same, since a comment is never what stands inside one. -/
@[simp]
theorem unwrap_pruned : node.pruned.unwrap = node.unwrap.pruned := by
  fun_induction unwrap node with
  | case1 node wraps inner found smaller inductionHypothesis =>
    rw [unwrap_eq, kind_pruned, if_pos wraps, firstNamed?_pruned, found]
    exact inductionHypothesis
  | case2 node wraps missing =>
    rw [unwrap_eq, kind_pruned, if_pos wraps, firstNamed?_pruned, missing]
    rfl
  | case3 node plain => rw [unwrap_eq, kind_pruned, if_neg plain]

@[simp]
theorem literal?_pruned : node.pruned.literal? = node.literal? := by
  unfold literal?
  simp

/-- Names of members are read off single nodes and their texts, which are left as they are. -/
@[simp]
theorem memberName?_pruned : node.pruned.memberName? = node.memberName? := by
  unfold memberName?
  rw [kind_pruned, text_pruned, literal?_pruned, firstNamed?_pruned,
    bind_map_of fun inner _ => inner.literal?_pruned]

/-! ### Parameters -/

@[simp]
theorem isAsync_pruned : node.pruned.isAsync = node.isAsync :=
  node.hasChild_pruned (by decide)

@[simp]
theorem isStatic_pruned : node.pruned.isStatic = node.isStatic :=
  node.hasChild_pruned (by decide)

/-- The parameters are named children, of which only comments are left out. -/
@[simp]
theorem parameters_pruned : node.pruned.parameters = node.parameters.map pruned := by
  unfold parameters
  rw [child?_pruned, child?_pruned]
  cases node.child? .parameters with
  | none => cases node.child? .parameter <;> rfl
  | some list => exact list.namedChildren_pruned

@[simp]
theorem parameterPattern?_pruned :
    node.pruned.parameterPattern? = node.parameterPattern?.map pruned := by
  unfold parameterPattern?
  rw [kind_pruned]
  split <;> simp

/-- The type text of a parameter is part of a signature, so identifiers rest on this. -/
@[simp]
theorem parameterType_pruned : node.pruned.parameterType = node.parameterType := by
  unfold parameterType
  rw [child?_pruned, Option.bind_map]
  cases node.child? .type with
  | none => rfl
  | some ascription =>
    simp only [Option.bind_some, Function.comp_apply, firstNamed?_pruned]
    cases ascription.firstNamed? <;> simp

@[simp]
theorem ascribedType?_pruned : node.pruned.ascribedType? = node.ascribedType?.map pruned := by
  unfold ascribedType?
  rw [kind_pruned]
  split <;> simp

@[simp]
theorem isConstDeclarator_pruned : node.pruned.isConstDeclarator = node.isConstDeclarator := by
  unfold isConstDeclarator
  rw [parent?_pruned]
  cases node.parent? <;> simp

/-! ### Decorators -/

@[simp]
theorem ownDecorators_pruned : node.pruned.ownDecorators = node.ownDecorators.map pruned := by
  rw [ownDecorators, children_pruned]
  exact filter_left _ _ (fun child => by simp)
    fun child bare => by simp [kind_of_isBareComment bare]

/-- Decorators stand at a node or at the export around it; both are left. -/
@[simp]
theorem decorators_pruned : node.pruned.decorators = node.decorators.map pruned := by
  unfold decorators
  rw [parent?_pruned, ownDecorators_pruned, List.map_append]
  cases node.parent? with
  | none => rfl
  | some parent => by_cases exported : parent.kind = .exportStatement <;> simp [exported]

/-- How the name of a call is read, unfolded once. The definition recurses along the size of nodes,
which pruning changes. -/
theorem calledName?_eq : node.calledName? =
    match node.kind with
    | .identifier => some node.text
    | .memberExpression => (node.child? .property).map text
    | .callExpression => (node.child? .function).bind calledName?
    | .parenthesizedExpression => node.firstNamed?.bind calledName?
    | _ => none := by
  fun_cases calledName? node <;> simp_all

/-- By the recursion of the definition: what is called is a part that is left. -/
@[simp]
theorem calledName?_pruned : node.pruned.calledName? = node.calledName? := by
  fun_induction calledName? node with
  | case1 node kind => rw [calledName?_eq, kind_pruned, kind]; simp
  | case2 node kind => rw [calledName?_eq, kind_pruned, kind]; simp [Function.comp_def]
  | case3 node kind function found smaller inductionHypothesis =>
    rw [calledName?_eq, kind_pruned, kind]
    simpa [found] using inductionHypothesis
  | case4 node kind missing => rw [calledName?_eq, kind_pruned, kind]; simp [missing]
  | case5 node kind inner found smaller inductionHypothesis =>
    rw [calledName?_eq, kind_pruned, kind]
    simpa [found] using inductionHypothesis
  | case6 node kind missing => rw [calledName?_eq, kind_pruned, kind]; simp [missing]
  | case7 node => rw [calledName?_eq, kind_pruned]; split <;> simp_all

@[simp]
theorem decoratorName?_pruned : node.pruned.decoratorName? = node.decoratorName? := by
  rw [decoratorName?, firstNamed?_pruned]
  exact bind_map_of fun called _ => called.calledName?_pruned

@[simp]
theorem decoratorArguments_pruned :
    node.pruned.decoratorArguments = node.decoratorArguments.map pruned := by
  unfold decoratorArguments
  rw [firstNamed?_pruned]
  cases node.firstNamed? with
  | none => rfl
  | some call =>
    by_cases isCall : call.kind = .callExpression
    · cases found : call.child? .arguments <;> simp [isCall, found]
    · simp [isCall]

/-- Roles are read off these names, so roles are the same. -/
@[simp]
theorem decoratorNames_pruned : node.pruned.decoratorNames = node.decoratorNames := by
  simp [decoratorNames, List.filterMap_map]

/-! ### The same place -/

/-- The way up from an inner node goes through the outer one. -/
theorem Within.trail {a b : Node} (within : a.Within b) : b.trail <:+ a.trail := by
  induction within with
  | refl node => exact List.suffix_rfl
  | @down inner middle outer child above inductionHypothesis =>
    simp only [children, List.mem_map] at child
    obtain ⟨entry, -, rfl⟩ := child
    exact inductionHypothesis.trans (List.suffix_cons _ _)

/-- A node is at the place of a node around it when it is as far from the root. -/
theorem same_of_suffix {a b : Node} (source : a.source = b.source)
    (suffix : b.trail <:+ a.trail) : a.same b = decide (a.trail.length = b.trail.length) := by
  have address : b.address <:+ a.address := suffix.map Step.index
  have addressLength : ∀ node : Node, node.address.length = node.trail.length :=
    fun node => List.length_map _
  rw [same, source, decide_eq_true rfl, Bool.true_and, decide_eq_decide]
  constructor
  · intro equal
    rw [← addressLength, ← addressLength, equal]
  · intro equal
    rw [← addressLength, ← addressLength] at equal
    exact (address.eq_of_length equal.symm).symm

/-- Taking comments away does not move a node to the place of a node around it. -/
theorem same_pruned_of_within {a b : Node} (within : a.Within b) :
    a.pruned.same b.pruned = a.same b := by
  have suffix : b.pruned.trail <:+ a.pruned.trail := within.trail.map Step.pruned
  have source : a.pruned.source = b.pruned.source := within.source
  rw [same_of_suffix within.source within.trail, same_of_suffix source suffix]
  simp [pruned]

/-! ### Patterns -/

/-- The first bound identifier of a pattern is left, and no comment is bound. -/
@[simp]
theorem binder?_pruned (name : String) (pattern : Node) :
    pattern.pruned.binder? name = (pattern.binder? name).map pruned := by
  induction pattern using binder?.induct name with
  | case1 pattern kind named | case3 pattern kind named =>
    rw [binder?_eq, binder?_eq name pattern, kind_pruned, kind]
    simp [named]
  | case2 pattern kind other | case4 pattern kind other =>
    rw [binder?_eq, binder?_eq name pattern, kind_pruned, kind]
    simp [other]
  | case5 pattern kind inductionHypothesis | case6 pattern kind inductionHypothesis =>
    rw [binder?_eq, binder?_eq name pattern, kind_pruned, kind, namedChildren_pruned]
    exact findSome?_map_of fun part present => inductionHypothesis ⟨part, present⟩
  | case7 pattern kind inner found smaller inductionHypothesis
  | case9 pattern kind inner found smaller inductionHypothesis
  | case11 pattern kind inner found smaller inductionHypothesis
  | case13 pattern kind inner found smaller inductionHypothesis =>
    rw [binder?_eq, binder?_eq name pattern, kind_pruned, kind]
    simpa [found] using inductionHypothesis
  | case8 pattern kind missing | case10 pattern kind missing | case12 pattern kind missing
  | case14 pattern kind missing =>
    rw [binder?_eq, binder?_eq name pattern, kind_pruned, kind]
    simp [missing]
  | case15 pattern =>
    rw [binder?_eq, binder?_eq name pattern, kind_pruned]
    split <;> simp_all

/-! ### Binders -/

variable (name : String)

@[simp]
theorem declaratorBinder?_pruned :
    node.pruned.declaratorBinder? name = (node.declaratorBinder? name).map pruned := by
  unfold declaratorBinder?
  rw [child?_pruned]
  cases node.child? .name with
  | none => rfl
  | some pattern =>
    cases found : pattern.binder? name with
    | none => simp [found]
    | some identifier =>
      have unmoved := same_pruned_of_within (within_of_binder? found)
      by_cases whole : identifier.same pattern <;> simp [found, unmoved, whole]

/-- What a statement binds hangs on its kind and its declarators. -/
@[simp]
theorem statementBinder?_pruned :
    node.pruned.statementBinder? name = (node.statementBinder? name).map pruned := by
  have declarators : (node.namedChildren.map pruned).findSome? (declaratorBinder? name) =
      (node.namedChildren.findSome? (declaratorBinder? name)).map pruned :=
    findSome?_map_of fun child _ => declaratorBinder?_pruned child name
  unfold statementBinder?
  rw [kind_pruned, child?_pruned, namedChildren_pruned]
  split
  case h_1 | h_2 | h_3 =>
    cases node.child? .name with
    | none => rfl
    | some own => by_cases same : own.text = name <;> simp [same]
  case h_4 | h_5 => exact declarators
  case h_6 => rfl

/-- Comments among the statements of a block bind nothing. -/
@[simp]
theorem blockBinder?_pruned :
    node.pruned.blockBinder? name = (node.blockBinder? name).map pruned := by
  have statements : (node.namedChildren.map pruned).findSome? (statementBinder? name) =
      (node.namedChildren.findSome? (statementBinder? name)).map pruned :=
    findSome?_map_of fun child _ => statementBinder?_pruned child name
  have part : ∀ field, ((node.child? field).map pruned).bind (binder? name) =
      ((node.child? field).bind (binder? name)).map pruned := by
    intro field
    cases node.child? field <;> simp
  have initial : ((node.child? .initializer).map pruned).bind (statementBinder? name) =
      ((node.child? .initializer).bind (statementBinder? name)).map pruned := by
    cases node.child? .initializer <;> simp
  unfold blockBinder?
  rw [kind_pruned, child?_pruned, child?_pruned, child?_pruned, namedChildren_pruned]
  split
  · exact statements
  · exact statements
  · exact statements
  · exact statements
  · exact initial
  · exact part .left
  · exact part .parameter
  · rfl

/-- A parameter binds what its pattern binds. -/
@[simp]
theorem parameterBinder?_pruned :
    node.pruned.parameterBinder? name = (node.parameterBinder? name).map pruned := by
  unfold parameterBinder?
  rw [parameterPattern?_pruned]
  cases node.parameterPattern? with
  | none => rfl
  | some pattern =>
    cases found : pattern.binder? name with
    | none => simp [found]
    | some identifier =>
      have unmoved := same_pruned_of_within (within_of_binder? found)
      by_cases whole : identifier.same pattern <;> simp [found, unmoved, whole]

@[simp]
theorem ownNameBinder?_pruned :
    node.pruned.ownNameBinder? name = (node.ownNameBinder? name).map pruned := by
  have own : (node.pruned.child? .name).map text = (node.child? .name).map text := by
    cases found : node.child? .name <;> simp [found]
  unfold ownNameBinder?
  rw [kind_pruned, own]
  split <;> rfl

/-- A function binds its parameters and, as an expression, its own name. -/
@[simp]
theorem functionBinder?_pruned :
    node.pruned.functionBinder? name = (node.functionBinder? name).map pruned := by
  have given : (node.parameters.map pruned).findSome? (parameterBinder? name) =
      (node.parameters.findSome? (parameterBinder? name)).map pruned :=
    findSome?_map_of fun parameter _ => parameterBinder?_pruned parameter name
  unfold functionBinder?
  rw [kind_pruned, parameters_pruned, given, ownNameBinder?_pruned]
  split
  · cases node.parameters.findSome? (parameterBinder? name) <;> rfl
  · rfl

/-- The node by which a function or block binds a name. -/
@[simp]
theorem binderIn?_pruned : node.pruned.binderIn? name = (node.binderIn? name).map pruned := by
  rw [binderIn?, functionBinder?_pruned, blockBinder?_pruned, binderIn?]
  cases node.functionBinder? name <;> rfl

/-- The scopes around a place are ancestors, and no ancestor is a comment. -/
@[simp]
theorem enclosing_pruned : node.pruned.enclosing = node.enclosing.map pruned := by
  rw [enclosing, ancestors_pruned, List.takeWhile_map, enclosing]
  simp [Function.comp_def]

end Node

/-! ### Declarations -/

namespace Decl

/-- A declaration in the tree that is left. -/
def pruned (decl : Decl) : Decl := { decl with node := decl.node.pruned }

variable (decl : Decl)

@[simp]
theorem id_pruned : decl.pruned.id = decl.id := rfl

@[simp]
theorem kind_pruned : decl.pruned.kind = decl.kind := rfl

@[simp]
theorem name_pruned : decl.pruned.name = decl.name := rfl

@[simp]
theorem node_pruned : decl.pruned.node = decl.node.pruned := rfl

@[simp]
theorem container_pruned : decl.pruned.container = decl.container := rfl

@[simp]
theorem isStatic_pruned : decl.pruned.isStatic = decl.isStatic := rfl

@[simp]
theorem file_pruned : decl.pruned.file = decl.file := rfl

@[simp]
theorem isClass_pruned : decl.pruned.isClass = decl.isClass := rfl

/-- The function that a declaration declares. -/
@[simp]
theorem functionNode?_pruned :
    decl.pruned.functionNode? = decl.functionNode?.map Node.pruned := by
  have valued : ((decl.node.pruned.child? .value).map Node.unwrap).filter
        (fun value => value.kind.isFunctionValue) =
      (((decl.node.child? .value).map Node.unwrap).filter
        fun value => value.kind.isFunctionValue).map Node.pruned := by
    cases found : decl.node.child? .value with
    | none => simp [found]
    | some value =>
      by_cases function : value.unwrap.kind.isFunctionValue <;>
        simp [found, function, Option.filter]
  unfold functionNode? value?
  rw [kind_pruned, node_pruned]
  split
  · rfl
  · rfl
  · rfl
  · exact valued
  · exact valued
  · rfl
  · rfl
  · rfl

end Decl

end CodeGraph
