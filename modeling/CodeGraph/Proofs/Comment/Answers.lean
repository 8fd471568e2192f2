import CodeGraph.Proofs.Comment.Place
import CodeGraph.Proofs.Resolve.Reading

/-!
# Answers about files without comments

What an expression denotes, what its type is, which class a class extends and which class a piece of
metadata refers to are the same when the comments are gone.

The answers for a budget are made from the answers for the budget less one, so the proof goes by
induction on the budget. One step is the work: each kind of expression and annotation is read the
same when the level below answers the same.

## Main Definitions

* `Reading.pruned`: what is read off an expression in the trees that are left.
* `Level.Prunes`: one level answers about the trees that are left what another one answers about the
  program.

## Main Statements

* `Program.ascriptionStep_pruned`: the types that annotations name.
* `Program.member?_pruned`: what a name denotes on a receiver.
* `Program.Prunable.read_pruned`: what is read off an expression.
* `Program.Prunable.prunes_level`: the answers for every budget.
-/

namespace CodeGraph

/-- What is read off an expression in the trees that are left. -/
def Reading.pruned (reading : Reading) : Reading where
  symbol? := reading.symbol?.map Symbol.pruned
  type preference := (reading.type preference).pruned

@[simp]
theorem Reading.symbol?_pruned (reading : Reading) :
    reading.pruned.symbol? = reading.symbol?.map Symbol.pruned := rfl

@[simp]
theorem Reading.type_pruned (reading : Reading) (preference : Preference) :
    reading.pruned.type preference = (reading.type preference).pruned := rfl

/-- Asked about what is left of a node or declaration of the program, a level gives what is left of
the answer of another one. Annotations and return types are asked for anywhere. -/
structure Level.Prunes (program : Program) (level bare : Level) : Prop where
  /-- What expressions denote. -/
  symbol : ∀ node, program.HasNode node →
    bare.symbol? node.pruned = (level.symbol? node).map Symbol.pruned
  /-- The types of expressions. -/
  type : ∀ preference node, program.HasNode node →
    bare.type preference node.pruned = (level.type preference node).pruned
  /-- The types that annotations name. -/
  ascribed : ∀ node, bare.ascribed node.pruned = (level.ascribed node).pruned
  /-- The types of bindings. -/
  binding : ∀ preference node, program.HasNode node →
    bare.binding preference node.pruned = (level.binding preference node).pruned
  /-- The declared types of results. -/
  returned : ∀ decl, bare.returned decl.pruned = (level.returned decl).pruned
  /-- The classes that classes extend. -/
  base : ∀ decl ∈ program.index.decls,
    bare.base? decl.pruned = (level.base? decl).map Decl.pruned
  /-- The classes that expressions refer to. -/
  reference : ∀ node, program.HasNode node →
    bare.reference? node.pruned = (level.reference? node).map Decl.pruned

/-- Where nothing is known, nothing is known of what is left. -/
theorem Level.prunes_exhausted (program : Program) : Level.exhausted.Prunes program .exhausted where
  symbol _ _ := rfl
  type _ _ _ := rfl
  ascribed _ := rfl
  binding _ _ _ := rfl
  returned _ := rfl
  base _ _ := rfl
  reference _ _ := rfl

/-! ### Nodes that annotations and references lead to -/

/-- The members of a union, unfolded once; the definition recurses along sizes. -/
theorem Node.unionMembers_eq (node : Node) : node.unionMembers = node.namedChildren.flatMap
    fun member => if member.kind = .unionType then member.unionMembers else [member] := by
  rw [unionMembers, List.flatMap]
  exact congrArg List.flatten (List.attach_map_val (f := fun member =>
    if member.kind = .unionType then unionMembers member else [member]))

/-- The members of a union are named children, however deep. -/
@[simp]
theorem Node.unionMembers_pruned (node : Node) :
    node.pruned.unionMembers = node.unionMembers.map pruned := by
  induction node using unionMembers.induct with
  | case1 node inductionHypothesis =>
    rw [unionMembers_eq, unionMembers_eq node, namedChildren_pruned]
    refine flatMap_map_of fun member present => ?_
    rw [kind_pruned]
    split
    · exact inductionHypothesis ⟨member, present⟩
    · rfl

/-- The result of an arrow function is its body, or what the first `return` of its body returns. -/
@[simp]
theorem Node.arrowResult?_pruned (arrow : Node) :
    arrow.pruned.arrowResult? = arrow.arrowResult?.map pruned := by
  unfold arrowResult?
  rw [child?_pruned]
  cases arrow.child? .body with
  | none => rfl
  | some body =>
    have returns : (body.namedChildren.map pruned).find?
          (fun statement => statement.kind = .returnStatement) =
        (body.namedChildren.find? fun statement =>
          statement.kind = .returnStatement).map pruned :=
      find?_map_of fun statement _ => by rw [kind_pruned]
    simp only [Option.map_some, Option.bind_eq_bind, Option.bind_some, kind_pruned,
      namedChildren_pruned, returns]
    split
    · cases body.namedChildren.find? fun statement => statement.kind = .returnStatement <;> simp
    · rfl

namespace Program

variable {program : Program} {below bare : Level}

/-! ### Annotations -/

@[simp]
theorem instanceType_pruned (symbol : Symbol) :
    instanceType symbol.pruned = (instanceType symbol).pruned := by
  cases symbol with
  | decl declared => by_cases isClass : declared.isClass <;>
      simp [Symbol.pruned, instanceType, isClass, Ty.pruned]
  | imported link => rfl
  | module file => rfl
  | binder node => rfl

/-- A name gives the instance type of the same class. -/
@[simp]
theorem namedType_pruned (symbol : Option Symbol) :
    program.pruned.namedType (symbol.map Symbol.pruned) = (program.namedType symbol).pruned := by
  unfold namedType
  rw [bind_resolveAlias?_pruned]
  cases symbol.bind program.resolveAlias? <;> simp

/-- A qualified name gives the type of the same export. -/
theorem nestedType_pruned (node : Node) :
    program.pruned.nestedType node.pruned = (program.nestedType node).pruned := by
  unfold nestedType
  simp only [Node.child?_pruned]
  cases node.child? .module with
  | none => rfl
  | some qualifier =>
    cases node.child? .name with
    | none => rfl
    | some name =>
      simp only [Option.map_some, Node.kind_pruned, Node.text_pruned, resolveIdentifier?_pruned,
        bind_resolveAlias?_pruned]
      split
      · cases (program.resolveIdentifier? qualifier).bind program.resolveAlias? with
        | none => rfl
        | some symbol => cases symbol <;> simp [Symbol.pruned]
      · rfl

section Ascribed

variable (ascribed : ∀ node, bare.ascribed node.pruned = (below.ascribed node).pruned)

include ascribed

/-- A generic type gives the type of its name, and a promise that of its argument. -/
theorem genericType_pruned (node : Node) :
    genericType bare node.pruned = (genericType below node).pruned := by
  unfold genericType
  simp only [Node.child?_pruned]
  cases node.child? .name with
  | none => rfl
  | some name =>
    simp only [Option.map_some, Node.text_pruned]
    split
    · cases node.child? .typeArguments with
      | none => rfl
      | some arguments => cases found : arguments.firstNamed? <;> simp [found, ascribed]
    · exact ascribed name

/-- The type that an annotation names. -/
theorem ascriptionStep_pruned (ascription : Node) :
    program.pruned.ascriptionStep bare ascription.pruned =
      (program.ascriptionStep below ascription).pruned := by
  unfold ascriptionStep
  rw [Node.ascribedType?_pruned]
  cases ascription.ascribedType? with
  | none => rfl
  | some node =>
    have members : (node.pruned.unionMembers.filter fun member =>
          !emptyTypes.contains (Text.trim member.text)) =
        (node.unionMembers.filter fun member =>
          !emptyTypes.contains (Text.trim member.text)).map Node.pruned := by
      rw [Node.unionMembers_pruned, List.filter_map]
      simp [Function.comp_def]
    simp only [Option.map_some, Node.kind_pruned, Node.text_pruned, lookup?_pruned,
      namedType_pruned, members]
    split
    case h_1 | h_2 => rfl
    case h_3 => exact genericType_pruned ascribed node
    case h_4 => exact nestedType_pruned node
    case h_5 =>
      generalize node.unionMembers.filter _ = counted
      rcases counted with _ | ⟨only, _ | _⟩
      · rfl
      · exact ascribed only
      · rfl
    case h_6 | h_7 =>
      rw [Node.firstNamed?_pruned]
      cases node.firstNamed? with
      | none => rfl
      | some inner => exact ascribed inner
    case h_8 => rfl

/-- The declared type of what a declaration returns. -/
theorem returnedStep_pruned (decl : Decl) :
    returnedStep bare decl.pruned = (returnedStep below decl).pruned := by
  unfold returnedStep
  rw [Decl.functionNode?_pruned]
  cases decl.functionNode? with
  | none => rfl
  | some function => cases found : function.child? .returnType <;> simp [found, ascribed]

end Ascribed

/-! ### Bindings -/

/-- The type of what a node of the program binds. -/
theorem bindingStep_pruned (prunes : below.Prunes program bare) (preference : Preference)
    {node : Node} (has : program.HasNode node) :
    bindingStep bare preference node.pruned = (bindingStep below preference node).pruned := by
  have declared : declaredType bare node.pruned = (declaredType below node).pruned := by
    unfold declaredType
    cases found : node.child? .type <;> simp [found, prunes.ascribed]
  have valued : ∀ preference,
      valueType bare preference node.pruned = (valueType below preference node).pruned := by
    intro preference
    unfold valueType
    rw [Node.child?_pruned]
    cases found : node.child? .value with
    | none => rfl
    | some value => exact prunes.type preference value (has.of_child? found)
  cases preference <;> simp [bindingStep, declared, valued]

/-! ### Members -/

@[simp]
theorem pairKey?_pruned (pair : Node) : pairKey? pair.pruned = pairKey? pair := by
  rw [pairKey?, Node.child?_pruned]
  exact bind_map_of fun key _ => key.memberName?_pruned

@[simp]
theorem isEntryOf_pruned (name : String) (entry : Node) :
    isEntryOf name entry.pruned = isEntryOf name entry := by
  simp [isEntryOf]

/-- A member of a class, searched up the chain of base classes. -/
theorem memberUpTo?_pruned (prunes : below.Prunes program bare)
    (kinded : below.WellKinded program) (name : String) (isStatic : Bool) (classes : Nat)
    (visited : List DeclId) {owner : Decl} (declared : owner ∈ program.index.decls) :
    program.pruned.memberUpTo? bare name isStatic classes visited owner.pruned =
      (program.memberUpTo? below name isStatic classes visited owner).map Decl.pruned := by
  induction classes generalizing visited owner with
  | zero => rfl
  | succ classes inductionHypothesis =>
    have own : (program.pruned.membersOf owner.id).find?
          (fun member => member.name = name && member.isStatic = isStatic) =
        ((program.membersOf owner.id).find? fun member =>
          member.name = name && member.isStatic = isStatic).map Decl.pruned := by
      rw [membersOf_pruned]
      exact find?_map_of fun _ _ => rfl
    rw [memberUpTo?, memberUpTo?, Decl.id_pruned, own, prunes.base owner declared]
    split
    · rfl
    · cases (program.membersOf owner.id).find? fun member =>
          member.name = name && member.isStatic = isStatic with
      | some member => rfl
      | none =>
        cases extended : below.base? owner with
        | none => rfl
        | some base =>
          exact inductionHypothesis (owner.id :: visited)
            (kinded.base owner base extended).1.declared

/-- What the first entry of an object under a name denotes. -/
theorem objectMember?_pruned (prunes : below.Prunes program bare) (name : String) {object : Node}
    (has : program.HasNode object) :
    program.pruned.objectMember? bare name object.pruned =
      (program.objectMember? below name object).map Symbol.pruned := by
  have entries : (object.namedChildren.map Node.pruned).find? (isEntryOf name) =
      (object.namedChildren.find? (isEntryOf name)).map Node.pruned :=
    find?_map_of fun entry _ => isEntryOf_pruned name entry
  unfold objectMember?
  rw [Node.namedChildren_pruned, entries]
  cases found : object.namedChildren.find? (isEntryOf name) with
  | none => rfl
  | some entry =>
    have hasEntry := has.of_mem_namedChildren (List.mem_of_find?_eq_some found)
    simp only [Option.map_some, Option.bind_eq_bind, Option.bind_some, Node.kind_pruned,
      Node.child?_pruned, lookup?_pruned, bind_resolveAlias?_pruned]
    split
    · cases isValue : entry.child? .value with
      | none => rfl
      | some value => exact prunes.symbol value (hasEntry.of_child? isValue)
    · rfl

/-- What a name denotes on a receiver. -/
theorem member?_pruned (prunes : below.Prunes program bare) (kinded : below.WellKinded program)
    (name : String) {receiver : Ty} (received : receiver.WellKinded program)
    (placed : receiver.Placed program) :
    program.pruned.member? bare name receiver.pruned =
      (program.member? below name receiver).map Symbol.pruned := by
  have ofClass : ∀ isStatic {owner : Decl}, owner ∈ program.index.decls →
      (program.pruned.classMember? bare name isStatic owner.pruned).map Symbol.decl =
        ((program.classMember? below name isStatic owner).map Symbol.decl).map Symbol.pruned := by
    intro isStatic owner declared
    rw [classMember?, memberUpTo?_pruned prunes kinded name isStatic chainLimit [] declared,
      classMember?, Option.map_map, Option.map_map]
    rfl
  cases receiver with
  | instanceOf owner => exact ofClass false received.declared
  | classItself owner => exact ofClass true received.declared
  | module file => exact exportSymbol?_pruned program file name
  | object node => exact objectMember?_pruned prunes name placed
  | unknown => rfl

/-! ### References to classes -/

/-- The expression behind `extends` is left. -/
theorem baseExpression?_pruned (decl : Decl) :
    baseExpression? decl.pruned = (baseExpression? decl).map Node.pruned := by
  have heritage : (decl.node.namedChildren.map Node.pruned).find?
        (fun child => child.kind = .classHeritage) =
      (decl.node.namedChildren.find? fun child => child.kind = .classHeritage).map Node.pruned :=
    find?_map_of fun child _ => by rw [Node.kind_pruned]
  unfold baseExpression?
  rw [Decl.node_pruned, Node.namedChildren_pruned, heritage]
  cases decl.node.namedChildren.find? fun child => child.kind = .classHeritage with
  | none => rfl
  | some heritage =>
    simp only [Option.map_some, Option.bind_eq_bind, Option.bind_some, Node.namedChildren_pruned]
    refine findSome?_map_of fun clause _ => ?_
    rw [Node.kind_pruned]
    split <;> simp

@[simp]
theorem calleeName?_pruned (callee : Node) : calleeName? callee.pruned = calleeName? callee := by
  simp [calleeName?, Function.comp_def]

/-- The class that a call in metadata refers to. -/
theorem calledClass?_pruned (prunes : below.Prunes program bare) {call : Node}
    (has : program.HasNode call) :
    calledClass? bare call.pruned = (calledClass? below call).map Decl.pruned := by
  unfold calledClass?
  simp only [Node.child?_pruned]
  cases isFunction : call.child? .function with
  | none => rfl
  | some function =>
    have hasCallee := (has.of_child? isFunction).of_within (Node.unwrap_within function)
    simp only [Option.map_some, Option.bind_eq_bind, Option.bind_some, Node.unwrap_pruned,
      calleeName?_pruned, Node.kind_pruned, Node.child?_pruned]
    split
    · cases isList : call.child? .arguments with
      | none => rfl
      | some arguments =>
        simp only [Option.map_some, Option.bind_some, Node.firstNamed?_pruned]
        cases isArgument : arguments.firstNamed? with
        | none => rfl
        | some argument =>
          have hasArgument := (has.of_child? isList).of_firstNamed? isArgument
          simp only [Option.map_some, Option.bind_some, Node.kind_pruned, Node.arrowResult?_pruned]
          split
          · cases isResult : argument.arrowResult? with
            | none => rfl
            | some result =>
              exact prunes.reference result (hasArgument.of_within (within_of_arrowResult? isResult))
          · exact prunes.reference argument hasArgument
    · split
      · cases isObject : function.unwrap.child? .object with
        | none => rfl
        | some object => exact prunes.reference object (hasCallee.of_child? isObject)
      · rfl

/-- The values under some keys of an object, in order. -/
theorem valuesUnder_pruned (keys : List String) (object : Node) :
    valuesUnder keys object.pruned = (valuesUnder keys object).map Node.pruned := by
  unfold valuesUnder
  rw [Node.namedChildren_pruned]
  refine filterMap_map_of fun entry _ => ?_
  rw [Node.kind_pruned, pairKey?_pruned, Node.child?_pruned]
  split <;> rfl

/-- The class that a provider object refers to. -/
theorem providedClass?_pruned (prunes : below.Prunes program bare) {object : Node}
    (has : program.HasNode object) :
    providedClass? bare object.pruned = (providedClass? below object).map Decl.pruned := by
  have used : ((valuesUnder ["useClass", "useExisting"] object).map Node.pruned).findSome?
        bare.reference? =
      ((valuesUnder ["useClass", "useExisting"] object).findSome? below.reference?).map
        Decl.pruned :=
    findSome?_map_of fun value present =>
      prunes.reference value (has.of_within (within_of_mem_valuesUnder present))
  unfold providedClass?
  rw [valuesUnder_pruned, used, valuesUnder_pruned, List.getLast?_map]
  cases (valuesUnder ["useClass", "useExisting"] object).findSome? below.reference? with
  | some decl => rfl
  | none =>
    cases isLast : (valuesUnder ["provide"] object).getLast? with
    | none => rfl
    | some value =>
      exact prunes.reference value
        (has.of_within (within_of_mem_valuesUnder (List.mem_of_getLast? isLast)))

/-- The class that an expression of the program refers to. -/
theorem classStep?_pruned (prunes : below.Prunes program bare) {expression : Node}
    (has : program.HasNode expression) :
    classStep? bare expression.pruned = (classStep? below expression).map Decl.pruned := by
  have hasInner := has.of_within (Node.unwrap_within expression)
  unfold classStep?
  simp only [Node.unwrap_pruned, Node.kind_pruned]
  split
  · exact calledClass?_pruned prunes hasInner
  · exact providedClass?_pruned prunes hasInner
  · rw [prunes.symbol _ hasInner]
    cases below.symbol? expression.unwrap with
    | none => rfl
    | some symbol =>
      cases symbol with
      | decl declared => by_cases isClass : declared.isClass <;> simp [Symbol.pruned, isClass]
      | _ => rfl

namespace Prunable

/-! ### Expressions -/

/-- What a symbol denotes has the same type, when its node is a node of the program. -/
theorem symbolType_pruned (prunable : program.Prunable) (prunes : below.Prunes program bare)
    (preference : Preference) {symbol : Symbol} (resolved : symbol.Resolved program)
    (placed : symbol.Placed program) :
    symbolType bare preference symbol.pruned = (symbolType below preference symbol).pruned := by
  cases symbol with
  | module file => rfl
  | binder node => exact prunes.binding preference node placed
  | imported link => rfl
  | decl declared =>
    have standsAt := prunable.declNode declared resolved.known
    rw [Symbol.pruned, symbolType, symbolType, Decl.kind_pruned]
    split
    · rfl
    · exact prunes.binding preference _ standsAt
    · exact prunes.binding preference _ standsAt
    · exact prunes.returned declared
    · rfl

/-- A name that denotes the same has the same type. -/
theorem readingOf_pruned (prunable : program.Prunable) (prunes : below.Prunes program bare)
    {symbol : Option Symbol} (known : ∀ start, symbol = some start → start.Known program)
    (placed : ∀ start, symbol = some start → start.Placed program) :
    program.pruned.readingOf bare (symbol.map Symbol.pruned) =
      (program.readingOf below symbol).pruned := by
  unfold readingOf Reading.pruned
  rw [bind_resolveAlias?_pruned]
  cases found : symbol.bind program.resolveAlias? with
  | none => rfl
  | some result =>
    refine congrArg (Reading.mk _) (funext fun preference => ?_)
    exact prunable.symbolType_pruned prunes preference
      (prunable.resolved_of_bind known found) (placed_of_bind placed found)

/-- An element access asks twice, and compares two types on the way. That comparison is the reason
for the condition on places: types are told apart by the places of their nodes. -/
theorem elementSymbol?_pruned (prunable : program.Prunable) (prunes : below.Prunes program bare)
    (kinded : below.WellKinded program) (key : String) {receiver : Reading}
    (received : receiver.WellKinded program) (placed : receiver.Placed program) :
    program.pruned.elementSymbol? bare key receiver.pruned =
      (program.elementSymbol? below key receiver).map Symbol.pruned := by
  have member : ∀ preference,
      program.pruned.member? bare key (receiver.pruned.type preference) =
        (program.member? below key (receiver.type preference)).map Symbol.pruned :=
    fun preference => member?_pruned prunes kinded key (received.type preference)
      (placed.type preference)
  have same : (receiver.pruned.type .value).same (receiver.pruned.type .declared) =
      (receiver.type .value).same (receiver.type .declared) :=
    prunable.same_pruned (placed.type .value) (placed.type .declared) (received.type .value)
      (received.type .declared)
  simp only [elementSymbol?, member, same]
  cases program.member? below key (receiver.type .declared) with
  | some symbol => rfl
  | none =>
    dsimp only [Option.map_none]
    split <;> rfl

/-! ### Forms of expressions -/

section Forms

variable {node : Node}

/-- A key is read the same, with and without comments. -/
theorem indexKey_pruned (node : Node) :
    (node.pruned.child? .index).bind program.pruned.literalKey? =
      (node.child? .index).bind program.literalKey? := by
  rw [Node.child?_pruned]
  exact bind_map_of fun index _ => literalKey?_pruned program index

/-- A name is looked up from its place, and the scopes around it are left. -/
theorem read_identifier_pruned (prunable : program.Prunable) (prunes : below.Prunes program bare)
    (has : program.HasNode node) (kind : node.kind = .identifier) :
    program.pruned.read bare node.pruned = (program.read below node).pruned := by
  rw [read_identifier (node.kind_pruned.trans kind), read_identifier kind,
    resolveIdentifier?_pruned]
  exact prunable.readingOf_pruned prunes (fun _ found => prunable.known_of_lookup? found)
    fun _ found => placed_of_lookup? has found

/-- An access, when its object is read the same. -/
theorem read_member_pruned (prunable : program.Prunable) (prunes : below.Prunes program bare)
    (kinded : below.WellKinded program) (inside : below.Placed program)
    (has : program.HasNode node) (kind : node.kind = .memberExpression) {object property : Node}
    (isObject : node.child? .object = some object)
    (isProperty : node.child? .property = some property)
    (receiver : program.pruned.read bare object.pruned = (program.read below object).pruned) :
    program.pruned.read bare node.pruned = (program.read below node).pruned := by
  have received := (prunable.wellKinded_read kinded object).type .declared
  have placed := (prunable.placed_read kinded inside (has.of_child? isObject)).type .declared
  rw [read_member (node.kind_pruned.trans kind) (Node.child?_left isObject)
      (Node.child?_left isProperty), read_member kind isObject isProperty, receiver,
    Node.text_pruned, Reading.type_pruned,
    member?_pruned prunes kinded property.text received placed]
  exact prunable.readingOf_pruned prunes
    (fun _ found => prunable.known_of_member? kinded received found)
    fun _ found => Rooted.placed_of_member? inside placed found

/-- An element access, when its object is read the same. -/
theorem read_element_pruned (prunable : program.Prunable) (prunes : below.Prunes program bare)
    (kinded : below.WellKinded program) (inside : below.Placed program)
    (has : program.HasNode node) (kind : node.kind = .subscriptExpression) {object : Node}
    {key : String} (isObject : node.child? .object = some object)
    (isKey : (node.child? .index).bind program.literalKey? = some key)
    (receiver : program.pruned.read bare object.pruned = (program.read below object).pruned) :
    program.pruned.read bare node.pruned = (program.read below node).pruned := by
  have received := prunable.wellKinded_read kinded object
  have placed := prunable.placed_read kinded inside (has.of_child? isObject)
  rw [read_element (node.kind_pruned.trans kind) (Node.child?_left isObject)
      ((indexKey_pruned node).trans isKey), read_element kind isObject isKey, receiver,
    prunable.elementSymbol?_pruned prunes kinded key received placed]
  exact prunable.readingOf_pruned prunes
    (fun _ found => prunable.known_of_elementSymbol? kinded received found)
    fun _ found => Rooted.placed_of_elementSymbol? inside placed found

/-- A call has the declared result of what it calls. -/
theorem read_call_pruned (prunes : below.Prunes program bare)
    (kind : node.kind = .callExpression) {function : Node}
    (found : node.child? .function = some function)
    (callee : program.pruned.read bare function.pruned = (program.read below function).pruned) :
    program.pruned.read bare node.pruned = (program.read below node).pruned := by
  rw [read_call (node.kind_pruned.trans kind) (Node.child?_left found), read_call kind found,
    callee, Reading.symbol?_pruned]
  refine congrArg Reading.ofType (funext fun _ => ?_)
  cases (program.read below function).symbol? with
  | none => rfl
  | some symbol =>
    cases symbol with
    | decl declared => exact prunes.returned declared
    | _ => rfl

/-- An instance is of the class that its constructor denotes. -/
theorem read_new_pruned (kind : node.kind = .newExpression) {constructor : Node}
    (found : node.child? .constructor = some constructor)
    (constructed : program.pruned.read bare constructor.pruned =
      (program.read below constructor).pruned) :
    program.pruned.read bare node.pruned = (program.read below node).pruned := by
  rw [read_new (node.kind_pruned.trans kind) (Node.child?_left found), read_new kind found,
    constructed]
  refine congrArg Reading.ofType (funext fun preference => ?_)
  rw [Reading.type_pruned]
  dsimp only [Reading.ofType]
  cases (program.read below constructor).type preference <;> rfl

/-- An `as` expression has the asserted type, or that of its operand. -/
theorem read_as_pruned (prunes : below.Prunes program bare) (kind : node.kind = .asExpression)
    {operand : Node} {rest : List Node} (children : node.namedChildren = operand :: rest)
    (valued : program.pruned.read bare operand.pruned = (program.read below operand).pruned) :
    program.pruned.read bare node.pruned = (program.read below node).pruned := by
  have childrenLeft : node.pruned.namedChildren = operand.pruned :: rest.map Node.pruned := by
    rw [Node.namedChildren_pruned, children, List.map_cons]
  rw [read_as (node.kind_pruned.trans kind) childrenLeft, read_as kind children, valued]
  refine congrArg Reading.ofType (funext fun preference => ?_)
  cases preference with
  | declared =>
    dsimp only [Reading.ofType]
    cases rest with
    | nil => simp
    | cons ascription others => simp [ascriptionStep_pruned prunes.ascribed]
  | value => rfl

/-- The class around a place is found by going up. -/
theorem read_this_pruned (prunable : program.Prunable) (has : program.HasNode node)
    (kind : node.kind = .thisExpression) :
    program.pruned.read bare node.pruned = (program.read below node).pruned := by
  rw [read_this (node.kind_pruned.trans kind), read_this kind, prunable.enclosingClass?_pruned has]
  refine congrArg Reading.ofType (funext fun _ => ?_)
  cases program.enclosingClass? node <;> rfl

/-- And its base class by the level below. -/
theorem read_super_pruned (prunable : program.Prunable) (prunes : below.Prunes program bare)
    (has : program.HasNode node) (kind : node.kind = .superExpression) :
    program.pruned.read bare node.pruned = (program.read below node).pruned := by
  rw [read_super (node.kind_pruned.trans kind), read_super kind,
    prunable.enclosingClass?_pruned has]
  refine congrArg Reading.ofType (funext fun _ => ?_)
  cases around : program.enclosingClass? node with
  | none => rfl
  | some decl =>
    have declared := (prunable.declaresClass_of_enclosingClass? around).declared
    simp only [Option.map_some, Option.bind_some, prunes.base decl declared]
    cases below.base? decl <;> rfl

/-- An access without an object or a property has neither when the comments are gone. -/
theorem read_member_pruned_of_missing (kind : node.kind = .memberExpression)
    (missing : ∀ object property, node.child? .object = some object →
      node.child? .property = some property → False) :
    program.pruned.read bare node.pruned = (program.read below node).pruned := by
  rw [read_member_of_missing kind missing,
    read_member_of_missing (node.kind_pruned.trans kind) fun object property => ?_]
  · rfl
  · rw [Node.child?_pruned, Node.child?_pruned, Option.map_eq_some_iff, Option.map_eq_some_iff]
    rintro ⟨original, isObject, -⟩ ⟨named, isProperty, -⟩
    exact missing original named isObject isProperty

/-- An element access without an object or a literal key has neither when the comments are gone. -/
theorem read_element_pruned_of_missing (kind : node.kind = .subscriptExpression)
    (missing : ∀ object key, node.child? .object = some object →
      (node.child? .index).bind program.literalKey? = some key → False) :
    program.pruned.read bare node.pruned = (program.read below node).pruned := by
  rw [read_element_of_missing kind missing,
    read_element_of_missing (node.kind_pruned.trans kind) fun object key => ?_]
  · rfl
  · rw [Node.child?_pruned, Option.map_eq_some_iff, indexKey_pruned]
    rintro ⟨original, isObject, -⟩ isKey
    exact missing original key isObject isKey

end Forms

/-- What is read off an expression of the program, form by form. -/
theorem read_pruned (prunable : program.Prunable) (prunes : below.Prunes program bare)
    (kinded : below.WellKinded program) (inside : below.Placed program) {node : Node}
    (has : program.HasNode node) :
    program.pruned.read bare node.pruned = (program.read below node).pruned := by
  induction node using read.induct program with
  | case1 node kind => exact prunable.read_identifier_pruned prunes has kind
  | case2 node kind object property isObject isProperty _ inductionHypothesis =>
    exact prunable.read_member_pruned prunes kinded inside has kind isObject isProperty
      (inductionHypothesis (has.of_child? isObject))
  | case3 node kind missing => exact read_member_pruned_of_missing kind missing
  | case4 node kind object key isObject isKey _ inductionHypothesis =>
    exact prunable.read_element_pruned prunes kinded inside has kind isObject isKey
      (inductionHypothesis (has.of_child? isObject))
  | case5 node kind missing => exact read_element_pruned_of_missing kind missing
  | case6 node kind inner found _ inductionHypothesis
  | case8 node kind inner found _ inductionHypothesis
  | case10 node kind inner found _ inductionHypothesis =>
    have wraps : node.kind.isWrapper := by rw [kind]; rfl
    rw [read_of_wrapper (node.kind_pruned ▸ wraps) (Node.firstNamed?_left found),
      read_of_wrapper wraps found]
    exact inductionHypothesis (has.of_firstNamed? found)
  | case12 node kind inner found _ inductionHypothesis =>
    rw [read_await (node.kind_pruned.trans kind) (Node.firstNamed?_left found),
      read_await kind found, inductionHypothesis (has.of_firstNamed? found)]
    rfl
  | case14 node kind function found _ inductionHypothesis =>
    exact read_call_pruned prunes kind found (inductionHypothesis (has.of_child? found))
  | case16 node kind constructor found _ inductionHypothesis =>
    exact read_new_pruned kind found (inductionHypothesis (has.of_child? found))
  | case19 node kind operand rest children _ inductionHypothesis =>
    have hasOperand := has.of_mem_namedChildren (children ▸ List.mem_cons_self)
    exact read_as_pruned prunes kind children (inductionHypothesis hasOperand)
  | case20 node kind => exact prunable.read_this_pruned has kind
  | case21 node kind => exact prunable.read_super_pruned prunes has kind
  | case22 node kind => rw [read_object (node.kind_pruned.trans kind), read_object kind]; rfl
  -- The only part that these kinds need is missing, so nothing is read.
  | case7 node kind missing | case9 node kind missing | case11 node kind missing
  | case13 node kind missing | case15 node kind missing | case17 node kind missing
  | case18 node kind missing =>
    have nothing : program.read below node = .unknown := by
      rw [read]
      simp only [kind]
      split <;> simp_all
    have nothingLeft : program.pruned.read bare node.pruned = .unknown := by
      rw [read]
      simp only [Node.kind_pruned, kind]
      split <;> simp_all
    rw [nothing, nothingLeft]
    rfl
  | case23 node =>
    rw [read, read, Node.kind_pruned]
    split <;> simp_all
    rfl

/-- The class that a class of the program extends. -/
theorem baseStep?_pruned (prunable : program.Prunable) (prunes : below.Prunes program bare)
    {decl : Decl} (declared : decl ∈ program.index.decls) :
    baseStep? bare decl.pruned = (baseStep? below decl).map Decl.pruned := by
  unfold baseStep?
  rw [baseExpression?_pruned]
  cases found : baseExpression? decl with
  | none => rfl
  | some expression =>
    have has := (prunable.declNode decl declared).of_within (within_of_baseExpression? found)
    simp only [Option.map_some, Option.bind_eq_bind, Option.bind_some, prunes.symbol expression has]
    cases below.symbol? expression with
    | none => rfl
    | some symbol =>
      cases symbol with
      | decl base =>
        by_cases other : base.isClass ∧ base.id ≠ decl.id <;> simp [Symbol.pruned, other]
      | _ => rfl

/-! ### All budgets -/

/-- One unit of budget more keeps the answers the same. -/
theorem prunes_levelStep (prunable : program.Prunable) (prunes : below.Prunes program bare)
    (kinded : below.WellKinded program) (inside : below.Placed program) :
    (program.levelStep below).Prunes program (program.pruned.levelStep bare) where
  symbol _ has := congrArg Reading.symbol? (prunable.read_pruned prunes kinded inside has)
  type preference _ has := congrArg (fun reading => Reading.type reading preference)
    (prunable.read_pruned prunes kinded inside has)
  ascribed := ascriptionStep_pruned prunes.ascribed
  binding preference _ has := bindingStep_pruned prunes preference has
  returned := returnedStep_pruned prunes.ascribed
  base _ declared := prunable.baseStep?_pruned prunes declared
  reference _ has := classStep?_pruned prunes has

/-- The answers for every budget are the same when the comments are gone. -/
theorem prunes_level (prunable : program.Prunable) (budget : Nat) :
    (program.level budget).Prunes program (program.pruned.level budget) := by
  induction budget with
  | zero => exact Level.prunes_exhausted program
  | succ budget inductionHypothesis =>
    exact prunable.prunes_levelStep inductionHypothesis (prunable.wellKinded_level budget)
      (prunable.placed_level budget)

end Prunable

end Program

end CodeGraph
