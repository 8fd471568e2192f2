import CodeGraph.Calls.Graph
import CodeGraph.Proofs.Assembly
import CodeGraph.Proofs.Resolve.Reading

/-!
# Names are bound lexically

Functions and blocks introduce names: a function those of its parameters and, when it is an
expression, its own; a block those of the functions, classes and variables that it declares; the
head of a loop and a catch clause those of their patterns. A name denotes at a place what the
innermost scope around the place that introduces it says, and only when there is none what the file
says.

Here the names that a scope introduces are listed, in the order in which they count, while a search
only ever asks for one name. A call by a name that a scope around the call introduces leads to no
declaration of a file, so it makes no edge.

## Main Definitions

* `Node.bound`: the identifiers that a pattern binds.
* `Introduction`, `Node.introductions`: the names that a function or block introduces.
* `Node.Binds`: a function or block introduces a name.
* `Node.CallsBound`: a call by a name that a scope around the call introduces.
* `Program.LexicallyScoped`: what names denote, and that calls by introduced names make no edge.

## Main Statements

* `Node.binder?_eq_find?`: a pattern is searched for the first identifier with a name.
* `Node.binderIn?_eq_first?`: a scope is searched for the first introduction of a name.
* `Program.lookup?_of_innermost`, `Program.lookup?_of_unbound`: what a name denotes.
* `Program.calleeSymbol?_of_callsBound`: what a call by an introduced name calls.
* `Program.siteEdge?_of_callsBound`: such a call makes no edge.
* `Program.names_lexicallyScoped`: every program is lexically scoped.
-/

namespace CodeGraph

/-- When each item is searched for the first of the things it lists, several items are searched for
the first of the things they list together. -/
theorem findSome?_eq_find?_flatMap {α β γ : Type} {items : List α} {search : α → Option γ}
    {listed : α → List β} {wanted : β → Bool} (result : β → γ)
    (each : ∀ item ∈ items, search item = ((listed item).find? wanted).map result) :
    items.findSome? search = ((items.flatMap listed).find? wanted).map result := by
  induction items with
  | nil => rfl
  | cons item rest inductionHypothesis =>
    have later := inductionHypothesis fun other present =>
      each other (List.mem_cons_of_mem item present)
    rw [List.findSome?_cons, each item List.mem_cons_self, later, List.flatMap_cons,
      List.find?_append, Option.map_or]
    cases (listed item).find? wanted <;> rfl

/-- The same for a part that may be missing. -/
theorem bind_eq_find?_flatMap {α β γ : Type} {part : Option α} {search : α → Option γ}
    {listed : α → List β} {wanted : β → Bool} (result : β → γ)
    (each : ∀ item, search item = ((listed item).find? wanted).map result) :
    part.bind search = ((part.toList.flatMap listed).find? wanted).map result := by
  cases part with
  | none => rfl
  | some item => rw [Option.bind_some, each, Option.toList_some, List.flatMap_singleton]

namespace Node

/-! ### What patterns bind -/

/-- Whether a node is a name that a pattern binds. -/
def isBoundName (node : Node) : Bool :=
  node.kind = .identifier || node.kind = .shorthandPropertyIdentifierPattern

/-- The parts of a pattern that bind names: those of an object or array pattern, the value of a
pair, what stands on the left of a default, and what stands behind the dots of a rest. Keys and
defaults bind nothing. -/
def bindingParts (pattern : Node) : List Node :=
  match pattern.kind with
  | .objectPattern | .arrayPattern => pattern.namedChildren
  | .pairPattern => (pattern.child? .value).toList
  | .assignmentPattern | .objectAssignmentPattern => (pattern.child? .left).toList
  | .restPattern => pattern.firstNamed?.toList
  | _ => []

/-- The parts of a pattern that may bind are smaller than the pattern. -/
theorem size_lt_of_mem_bindingParts {pattern part : Node} (present : part ∈ pattern.bindingParts) :
    part.size < pattern.size := by
  rw [bindingParts] at present
  split at present
  case h_1 | h_2 => exact size_lt_of_mem_namedChildren present
  case h_3 | h_4 | h_5 => exact size_lt_of_child? (Option.mem_toList.mp present)
  case h_6 => exact size_lt_of_firstNamed? (Option.mem_toList.mp present)
  case h_7 => cases present

/-- The identifiers that a pattern binds, in source order. -/
def bound (pattern : Node) : List Node :=
  if pattern.isBoundName then [pattern]
  else pattern.bindingParts.attach.flatMap fun part =>
    have := size_lt_of_mem_bindingParts part.property
    bound part.val
termination_by pattern.size

/-- The bound identifiers of a pattern, unfolded once. -/
theorem bound_eq (pattern : Node) :
    pattern.bound =
      if pattern.isBoundName then [pattern] else pattern.bindingParts.flatMap bound := by
  rw [bound]
  split
  · rfl
  · rw [List.flatMap_subtype (g := bound) (by simp), List.unattach_attach]

/-- A pattern that is no name is searched part by part. -/
theorem binder?_eq_findSome? (name : String) {pattern : Node} (compound : ¬pattern.isBoundName) :
    pattern.binder? name = pattern.bindingParts.findSome? (binder? name) := by
  have optional (part : Option Node) : part.bind (binder? name) =
      part.toList.findSome? (binder? name) := by
    cases part <;> simp
  rw [binder?_eq, bindingParts]
  split <;> simp_all [isBoundName]

/-- A pattern is searched for the first identifier with a name. -/
theorem binder?_eq_find? (name : String) (pattern : Node) :
    pattern.binder? name = pattern.bound.find? fun identifier => identifier.text = name := by
  induction pattern using bound.induct with
  | case1 pattern isName =>
    rw [bound_eq, if_pos isName, binder?_eq]
    split <;> simp_all [isBoundName]
  | case2 pattern compound inductionHypothesis =>
    have parts := findSome?_eq_find?_flatMap id fun part present =>
      (inductionHypothesis ⟨part, present⟩).trans Option.map_id_apply.symm
    rw [bound_eq, if_neg compound, binder?_eq_findSome? name compound, parts, Option.map_id_apply]

end Node

/-! ### What scopes introduce -/

/-- A name that a scope introduces. -/
structure Introduction where
  /-- The identifier that spells the name. -/
  identifier : Node
  /-- The node that stands for what the name denotes. -/
  binder : Node

namespace Introduction

/-- Whether an introduction is one of a name. -/
def spells (name : String) (introduction : Introduction) : Bool :=
  introduction.identifier.text = name

/-- What the first introduction of a name says that it denotes. -/
def first? (name : String) (introductions : List Introduction) : Option Node :=
  (introductions.find? (spells name)).map binder

/-- Earlier introductions win. -/
theorem first?_append (name : String) (earlier later : List Introduction) :
    first? name (earlier ++ later) = (first? name earlier <|> first? name later) := by
  rw [first?, List.find?_append, Option.map_or, Option.or_eq_orElse]
  rfl

theorem first?_eq_none_iff {name : String} {introductions : List Introduction} :
    first? name introductions = none ↔
      ∀ introduction ∈ introductions, introduction.identifier.text ≠ name := by
  simp [first?, spells]

end Introduction

namespace Node

open Introduction (first? first?_append spells)

/-- The name of a declaration, which denotes the declaration. -/
def declared (declaration : Node) : List Introduction :=
  (declaration.child? .name).toList.map fun own => ⟨own, declaration⟩

/-- The names in a pattern, each of which denotes its identifier. -/
def introduced (pattern : Node) : List Introduction :=
  pattern.bound.map fun identifier => ⟨identifier, identifier⟩

/-- The names in the pattern of a parameter or declarator. When the whole pattern is a name, the
name denotes the parameter or declarator, so that its type and value are at hand. -/
def introducedBy (holder pattern : Node) : List Introduction :=
  pattern.bound.map fun identifier =>
    ⟨identifier, if identifier.same pattern then holder else identifier⟩

/-- The names that a parameter introduces. -/
def parameterNames (parameter : Node) : List Introduction :=
  parameter.parameterPattern?.toList.flatMap parameter.introducedBy

/-- The names that a function introduces: those of its parameters, then, in a function expression,
its own. -/
def functionNames (function : Node) : List Introduction :=
  if function.kind.isFunctionLike then
    function.parameters.flatMap parameterNames ++
      if function.kind.isFunctionExpression then function.declared else []
  else []

/-- The names that a declarator introduces. -/
def declaratorNames (declarator : Node) : List Introduction :=
  (declarator.child? .name).toList.flatMap declarator.introducedBy

/-- The names that a statement introduces into the block around it. -/
def statementNames (statement : Node) : List Introduction :=
  match statement.kind with
  | .functionDeclaration | .generatorFunctionDeclaration | .classDeclaration => statement.declared
  | .lexicalDeclaration | .variableDeclaration => statement.namedChildren.flatMap declaratorNames
  | _ => []

/-- The names that a block, a loop head or a catch clause introduces. -/
def blockNames (scope : Node) : List Introduction :=
  match scope.kind with
  | .statementBlock | .switchCase | .switchDefault | .classStaticBlock =>
    scope.namedChildren.flatMap statementNames
  | .forStatement => (scope.child? .initializer).toList.flatMap statementNames
  | .forInStatement => (scope.child? .left).toList.flatMap introduced
  | .catchClause => (scope.child? .parameter).toList.flatMap introduced
  | _ => []

/-- The names that a function or block introduces, in the order in which they count. -/
def introductions (scope : Node) : List Introduction := scope.functionNames ++ scope.blockNames

/-- A function or block introduces a name. -/
def Binds (scope : Node) (name : String) : Prop :=
  ∃ introduction ∈ scope.introductions, introduction.identifier.text = name

/-! ### Searches find the first introduction -/

/-- A declaration is found by its own name only. -/
theorem first?_declared (name : String) (declaration : Node) :
    first? name declaration.declared =
      if (declaration.child? .name).map text = some name then some declaration else none := by
  cases own : declaration.child? .name <;> simp [first?, declared, spells, own]

/-- The search through a pattern is the first of the list of what it introduces. -/
theorem binder?_eq_first? (name : String) (pattern : Node) :
    pattern.binder? name = first? name pattern.introduced := by
  rw [binder?_eq_find?, first?, introduced, List.find?_map, Option.map_map]
  exact Option.map_id_apply.symm

theorem bind_binder?_eq_first? (name : String) (holder pattern : Node) :
    ((pattern.binder? name).bind fun identifier =>
      some (if identifier.same pattern then holder else identifier)) =
      first? name (holder.introducedBy pattern) := by
  rw [binder?_eq_find?, first?, introducedBy, List.find?_map, Option.map_map]
  exact Option.map_eq_bind.symm

theorem parameterBinder?_eq_first? (name : String) (parameter : Node) :
    parameter.parameterBinder? name = first? name parameter.parameterNames :=
  bind_eq_find?_flatMap Introduction.binder (bind_binder?_eq_first? name parameter)

theorem declaratorBinder?_eq_first? (name : String) (declarator : Node) :
    declarator.declaratorBinder? name = first? name declarator.declaratorNames :=
  bind_eq_find?_flatMap Introduction.binder (bind_binder?_eq_first? name declarator)

theorem statementBinder?_eq_first? (name : String) (statement : Node) :
    statement.statementBinder? name = first? name statement.statementNames := by
  unfold statementBinder?
  split
  case h_1 kind | h_2 kind | h_3 kind =>
    simp only [statementNames, kind, first?_declared]
    cases statement.child? .name <;> simp
  case h_4 kind | h_5 kind =>
    simp only [statementNames, kind]
    exact findSome?_eq_find?_flatMap Introduction.binder fun declarator _ =>
      declaratorBinder?_eq_first? name declarator
  case h_6 => simp_all [first?, statementNames]

theorem ownNameBinder?_eq_first? (name : String) (function : Node) :
    function.ownNameBinder? name =
      first? name (if function.kind.isFunctionExpression then function.declared else []) := by
  unfold ownNameBinder?
  by_cases expression : function.kind.isFunctionExpression
  · rw [if_pos expression, first?_declared]
    simp only [expression, true_and]
  · rw [if_neg expression, if_neg (fun both => expression both.1)]
    rfl

/-- The same for a function: its parameters come before its own name. -/
theorem functionBinder?_eq_first? (name : String) (function : Node) :
    function.functionBinder? name = first? name function.functionNames := by
  unfold functionBinder? functionNames
  split
  case isTrue =>
    have parameters : function.parameters.findSome? (parameterBinder? name) =
        first? name (function.parameters.flatMap parameterNames) :=
      findSome?_eq_find?_flatMap Introduction.binder fun parameter _ =>
        parameterBinder?_eq_first? name parameter
    rw [first?_append, ← parameters, ← ownNameBinder?_eq_first?]
  case isFalse => rfl

/-- The same for a block: its statements in order. -/
theorem blockBinder?_eq_first? (name : String) (scope : Node) :
    scope.blockBinder? name = first? name scope.blockNames := by
  unfold blockBinder?
  split
  case h_1 kind | h_2 kind | h_3 kind | h_4 kind =>
    simp only [blockNames, kind]
    exact findSome?_eq_find?_flatMap Introduction.binder fun statement _ =>
      statementBinder?_eq_first? name statement
  case h_5 kind =>
    simp only [blockNames, kind]
    exact bind_eq_find?_flatMap Introduction.binder (statementBinder?_eq_first? name)
  case h_6 kind | h_7 kind =>
    simp only [blockNames, kind]
    exact bind_eq_find?_flatMap Introduction.binder (binder?_eq_first? name)
  case h_8 => simp_all [first?, blockNames]

/-- A scope is searched for the first introduction of a name. -/
theorem binderIn?_eq_first? (name : String) (scope : Node) :
    scope.binderIn? name = first? name scope.introductions := by
  rw [binderIn?, introductions, first?_append, functionBinder?_eq_first?, blockBinder?_eq_first?]

/-- A scope is passed over exactly when it does not introduce the name. -/
theorem binderIn?_eq_none_iff {name : String} {scope : Node} :
    scope.binderIn? name = none ↔ ¬scope.Binds name := by
  rw [binderIn?_eq_first?, Introduction.first?_eq_none_iff, Binds]
  simp

/-- A search along scopes fails exactly when none of them introduces the name. -/
theorem findSome?_binderIn?_eq_none_iff {name : String} {scopes : List Node} :
    scopes.findSome? (binderIn? name) = none ↔ ∀ scope ∈ scopes, ¬scope.Binds name := by
  simp only [List.findSome?_eq_none_iff, binderIn?_eq_none_iff]

/-- A call by a name that a function or block around the call introduces. -/
def CallsBound (call : Node) : Prop :=
  ∃ callee, call.child? .function = some callee ∧ callee.unwrap.kind = .identifier ∧
    ∃ scope ∈ callee.unwrap.enclosing, scope.Binds callee.unwrap.text

end Node

namespace Program

variable (program : Program)

/-! ### What names denote -/

/-- The innermost scope that introduces a name says what it denotes. -/
theorem lookup?_of_innermost {place scope : Node} {name : String} {inner outer : List Node}
    (around : place.enclosing = inner ++ scope :: outer)
    (nearer : ∀ other ∈ inner, ¬other.Binds name) (binds : scope.Binds name) :
    ∃ introduction, scope.introductions.find? (Introduction.spells name) = some introduction ∧
      program.lookup? place name = some (.binder introduction.binder) := by
  have silent := Node.findSome?_binderIn?_eq_none_iff.mpr nearer
  obtain ⟨binder, found⟩ : ∃ binder, scope.binderIn? name = some binder :=
    Option.ne_none_iff_exists'.mp fun missing => Node.binderIn?_eq_none_iff.mp missing binds
  have first := found
  rw [Node.binderIn?_eq_first?, Introduction.first?, Option.map_eq_some_iff] at first
  obtain ⟨introduction, isFirst, rfl⟩ := first
  refine ⟨introduction, isFirst, ?_⟩
  rw [lookup?, around, List.findSome?_append, silent, Option.none_or, List.findSome?_cons, found]

/-- A name that no scope around a place introduces denotes what the file says. -/
theorem lookup?_of_unbound {place : Node} {name : String}
    (unbound : ∀ scope ∈ place.enclosing, ¬scope.Binds name) :
    program.lookup? place name =
      (Keyed.get? (program.scopeOf place.source).bindings name).map Binding.symbol := by
  rw [lookup?, Node.findSome?_binderIn?_eq_none_iff.mpr unbound]

/-- A name that a scope around a place introduces never denotes what the file says. -/
theorem exists_lookup?_eq_binder {place scope : Node} {name : String}
    (around : scope ∈ place.enclosing) (binds : scope.Binds name) :
    ∃ binder, program.lookup? place name = some (.binder binder) := by
  obtain ⟨binder, found⟩ :
      ∃ binder, place.enclosing.findSome? (Node.binderIn? name) = some binder :=
    Option.ne_none_iff_exists'.mp fun missing =>
      Node.findSome?_binderIn?_eq_none_iff.mp missing scope around binds
  exact ⟨binder, by rw [lookup?, found]⟩

/-! ### What calls by introduced names call -/

/-- A call by an introduced name calls what a function or block binds, never a declaration of a
file. -/
theorem calleeSymbol?_of_callsBound {call : Node} (bound : call.CallsBound) :
    ∃ binder, program.calleeSymbol? call = some (.binder binder) := by
  obtain ⟨callee, isCallee, identifier, scope, around, binds⟩ := bound
  obtain ⟨binder, found⟩ := program.exists_lookup?_eq_binder around binds
  refine ⟨binder, ?_⟩
  have asked : program.calleeSymbol? call =
      (program.read (program.level (fullBudget - 1)) callee).symbol? := by
    rw [calleeSymbol?, isCallee, Option.bind_some]
    rfl
  -- No link is left to follow: what is bound inside a function stands for itself.
  rw [asked, ← symbol?_read_unwrap, read_identifier identifier, resolveIdentifier?, found]
  rfl

/-- A call of a name that is bound around it has no edge. -/
theorem siteEdge?_of_callsBound (collected : Collected) {site : CallSite}
    (bound : site.call.CallsBound) : program.siteEdge? collected site = none := by
  obtain ⟨binder, symbol⟩ := program.calleeSymbol?_of_callsBound bound
  simp only [siteEdge?, callee?, symbol]

/-- Names denote what the innermost scope around them says that introduces them, before what the
file says, and the call graph follows them. -/
structure LexicallyScoped : Prop where
  /-- A name denotes what it is first introduced as by the innermost scope that introduces it. -/
  innermost : ∀ (place scope : Node) (name : String) (inner outer : List Node),
    place.enclosing = inner ++ scope :: outer → (∀ other ∈ inner, ¬other.Binds name) →
      scope.Binds name →
        ∃ introduction, scope.introductions.find? (Introduction.spells name) = some introduction ∧
          program.lookup? place name = some (.binder introduction.binder)
  /-- A name that no scope introduces denotes what the file says. -/
  outermost : ∀ (place : Node) (name : String), (∀ scope ∈ place.enclosing, ¬scope.Binds name) →
    program.lookup? place name =
      (Keyed.get? (program.scopeOf place.source).bindings name).map Binding.symbol
  /-- What the file says counts for no other name. -/
  file : ∀ (place : Node) (name : String) (binding : Binding),
    program.lookup? place name = some binding.symbol →
      ∀ scope ∈ place.enclosing, ¬scope.Binds name
  /-- A call by an introduced name has no edge. -/
  silent : ∀ (collected : Collected) (site : CallSite), site.call.CallsBound →
    program.siteEdge? collected site = none
  /-- Every edge of a call graph is that of a call by no introduced name. -/
  edges : ∀ (conventions : Conventions) (files : List SourceFile),
    ∀ edge ∈ (program.callGraph conventions files).edges,
      ∃ site ∈ (program.collect conventions files).sites, ¬site.call.CallsBound ∧
        program.siteEdge? (program.collect conventions files) site = some edge

/-- Every program is lexically scoped. -/
theorem names_lexicallyScoped (program : Program) : program.LexicallyScoped where
  innermost _ _ _ _ _ around nearer binds := program.lookup?_of_innermost around nearer binds
  outermost _ _ unbound := program.lookup?_of_unbound unbound
  file place name binding isBinding scope around binds := by
    obtain ⟨binder, found⟩ := program.exists_lookup?_eq_binder around binds
    rw [isBinding] at found
    cases binding <;> cases found
  silent collected _ bound := program.siteEdge?_of_callsBound collected bound
  edges conventions files edge present := by
    obtain ⟨site, isSite, found⟩ :=
      List.mem_filterMap.mp (Graph.mem_of_mem_edges_assemble present)
    refine ⟨site, isSite, fun bound => ?_, found⟩
    rw [program.siteEdge?_of_callsBound _ bound] at found
    cases found

end Program

end CodeGraph
