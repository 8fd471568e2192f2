import CodeGraph.Proofs.Resolve.Kinds

/-!
# Answers stay inside the program

Asked about a node of a program, the answers lead to nodes of the program only: declarations stand
at nodes of its trees, names are bound by nodes around the place where they are used, and object
literals are found by going down or through bindings. So what holds of all nodes of a program, like
a bound on their heights, holds of every node that a question leads to.

## Main Definitions

* `Program.HasNode`: a node of one of the trees of the program.
* `Program.Rooted`: a well-formed program whose declarations stand at its nodes.
* `Symbol.Placed`, `Ty.Placed`, `Level.Placed`: answers that lead to nodes of the program.

## Main Statements

* `Program.rooted_ofModel`: the program of numbered files is rooted.
* `Program.placed_of_lookup?`: what binds a name is a node of the program.
* `Program.Rooted.placed_level`: the answers for every budget lead to nodes of the program.
-/

namespace CodeGraph

namespace Node

/-! ### Nodes around a node -/

theorem ancestors_of_mem_children {node child : Node} (below : child ∈ node.children) :
    child.ancestors = node :: node.ancestors := by
  simp only [children, List.mem_map] at below
  obtain ⟨entry, -, rfl⟩ := below
  rfl

/-- The nodes above a node of a tree belong to the tree. -/
theorem within_of_mem_ancestors {source : SourceFile} {tree : Tree} {node above : Node}
    (within : node.Within (root source tree)) (present : above ∈ node.ancestors) :
    above.Within (root source tree) := by
  generalize isRoot : root source tree = top at within
  induction within with
  | refl node =>
    subst isRoot
    cases present
  | down child middle inductionHypothesis =>
    rw [ancestors_of_mem_children child] at present
    rcases List.mem_cons.mp present with rfl | higher
    · exact isRoot ▸ middle
    · exact inductionHypothesis higher isRoot

/-! ### Binders -/

/-- The identifier by which a pattern binds a name lies in the pattern. -/
theorem within_of_binder? {name : String} {pattern identifier : Node}
    (binds : pattern.binder? name = some identifier) : identifier.Within pattern := by
  fun_induction binder? name pattern with
  | case1 | case3 => cases binds; exact .refl _
  | case5 pattern isObject inductionHypothesis | case6 pattern isArray inductionHypothesis =>
    obtain ⟨part, -, inPart⟩ := List.exists_of_findSome?_eq_some binds
    exact (inductionHypothesis part inPart).trans (within_of_mem_namedChildren part.property)
  | case7 pattern isPair value found smaller inductionHypothesis
  | case9 pattern isDefault value found smaller inductionHypothesis
  | case11 pattern isDefault value found smaller inductionHypothesis =>
    exact (inductionHypothesis binds).trans (within_of_child? found)
  | case13 pattern isRest rest found smaller inductionHypothesis =>
    exact (inductionHypothesis binds).trans (within_of_firstNamed? found)
  | case2 | case4 | case8 | case10 | case12 | case14 | case15 => cases binds

/-- A declarator binds itself or an identifier inside it. -/
theorem within_of_declaratorBinder? {name : String} {declarator binder : Node}
    (binds : declarator.declaratorBinder? name = some binder) : binder.Within declarator := by
  obtain ⟨pattern, found, rest⟩ := Option.bind_eq_some_iff.mp binds
  obtain ⟨identifier, inPattern, result⟩ := Option.bind_eq_some_iff.mp rest
  cases result
  split
  · exact .refl declarator
  · exact (within_of_binder? inPattern).trans (within_of_child? found)

/-- What a statement binds stands in the statement. -/
theorem within_of_statementBinder? {name : String} {statement binder : Node}
    (binds : statement.statementBinder? name = some binder) : binder.Within statement := by
  revert binds
  fun_cases statementBinder? name statement with
  | case1 | case4 | case7 =>
    rintro ⟨⟩
    exact .refl statement
  | case10 | case11 =>
    intro found
    obtain ⟨declarator, below, inside⟩ := List.exists_of_findSome?_eq_some found
    exact (within_of_declaratorBinder? inside).trans (within_of_mem_namedChildren below)
  | case2 | case3 | case5 | case6 | case8 | case9 | case12 => nofun

/-- What a block binds stands in the block. So binders are nodes of the program. -/
theorem within_of_blockBinder? {name : String} {scope binder : Node}
    (binds : scope.blockBinder? name = some binder) : binder.Within scope := by
  have statements : scope.namedChildren.findSome? (statementBinder? name) = some binder →
      binder.Within scope := by
    intro found
    obtain ⟨statement, below, inside⟩ := List.exists_of_findSome?_eq_some found
    exact (within_of_statementBinder? inside).trans (within_of_mem_namedChildren below)
  have part : ∀ field, (scope.child? field).bind (binder? name) = some binder →
      binder.Within scope := by
    intro field found
    obtain ⟨pattern, below, inside⟩ := Option.bind_eq_some_iff.mp found
    exact (within_of_binder? inside).trans (within_of_child? below)
  rw [blockBinder?] at binds
  split at binds
  · exact statements binds
  · exact statements binds
  · exact statements binds
  · exact statements binds
  · obtain ⟨statement, below, inside⟩ := Option.bind_eq_some_iff.mp binds
    exact (within_of_statementBinder? inside).trans (within_of_child? below)
  · exact part .left binds
  · exact part .parameter binds
  · cases binds

theorem within_of_parameterPattern? {parameter pattern : Node}
    (found : parameter.parameterPattern? = some pattern) : pattern.Within parameter := by
  rw [parameterPattern?] at found
  split at found
  · exact within_of_child? found
  · exact within_of_child? found
  · exact within_of_child? found
  · cases found; exact .refl parameter

/-- What a parameter binds stands in the parameter. -/
theorem within_of_parameterBinder? {name : String} {parameter binder : Node}
    (binds : parameter.parameterBinder? name = some binder) : binder.Within parameter := by
  obtain ⟨pattern, found, rest⟩ := Option.bind_eq_some_iff.mp binds
  obtain ⟨identifier, inPattern, result⟩ := Option.bind_eq_some_iff.mp rest
  cases result
  split
  · exact .refl parameter
  · exact (within_of_binder? inPattern).trans (within_of_parameterPattern? found)

/-- The node by which a function or block binds a name lies in the function or block. -/
theorem within_of_binderIn? {name : String} {scope binder : Node}
    (binds : scope.binderIn? name = some binder) : binder.Within scope := by
  rw [binderIn?, Option.orElse_eq_orElse, Option.orElse_eq_or, Option.or_eq_some_iff] at binds
  rcases binds with function | ⟨-, block⟩
  · rw [functionBinder?] at function
    split at function
    · rw [Option.orElse_eq_orElse, Option.orElse_eq_or, Option.or_eq_some_iff] at function
      rcases function with parameter | ⟨-, own⟩
      · obtain ⟨given, present, inside⟩ := List.exists_of_findSome?_eq_some parameter
        exact (within_of_parameterBinder? inside).trans
          ((scatters_parameters scope).within given present)
      · rw [ownNameBinder?] at own
        split at own
        · cases own; exact .refl scope
        · cases own
    · cases function
  · exact within_of_blockBinder? block

end Node

/-! ### Nodes of a program -/

/-- A node of one of the trees of the program. -/
def Program.HasNode (program : Program) (node : Node) : Prop :=
  ∃ file ∈ program.model.files, node.Within file.root

/-- A symbol that is bound by a node of the program, when a node binds it. -/
def Symbol.Placed (program : Program) : Symbol → Prop
  | .binder node => program.HasNode node
  | _ => True

/-- A type that is given by a node of the program, when it is the type of an object literal. -/
def Ty.Placed (program : Program) : Ty → Prop
  | .object node => program.HasNode node
  | _ => True

/-- Of two types, the one that counts is one of them. -/
theorem Ty.Placed.orElse {program : Program} {first second : Ty} (one : first.Placed program)
    (other : second.Placed program) : (first.orElse second).Placed program := by
  rw [Ty.orElse]
  split
  · exact other
  · exact one

/-- A type of instances of a class, as far as it is known. -/
def Ty.IsInstance : Ty → Prop
  | .instanceOf _ | .unknown => True
  | _ => False

/-- Instances and unknown types hold no node. -/
theorem Ty.IsInstance.placed {program : Program} {type : Ty} (isInstance : type.IsInstance) :
    type.Placed program := by
  cases type with
  | object node => cases isInstance
  | _ => trivial

/-- The symbol and the types of a reading lead to nodes of the program. -/
structure Reading.Placed (program : Program) (reading : Reading) : Prop where
  /-- The symbol is bound by a node of the program, when a node binds it. -/
  symbol : ∀ symbol, reading.symbol? = some symbol → symbol.Placed program
  /-- Object literals are nodes of the program. -/
  type : ∀ preference, (reading.type preference).Placed program

/-- Asked about nodes of the program, a level leads to nodes of the program. Annotations name
instances, whatever is asked. -/
structure Level.Placed (program : Program) (level : Level) : Prop where
  /-- What expressions denote is bound by nodes of the program. -/
  symbol : ∀ node, program.HasNode node → ∀ symbol, level.symbol? node = some symbol →
    symbol.Placed program
  /-- Types of expressions are given by nodes of the program. -/
  type : ∀ preference node, program.HasNode node → (level.type preference node).Placed program
  /-- Types of bindings are given by nodes of the program. -/
  binding : ∀ preference node, program.HasNode node →
    (level.binding preference node).Placed program
  /-- Annotations name instances. -/
  ascribed : ∀ node, (level.ascribed node).IsInstance
  /-- Return annotations name instances. -/
  returned : ∀ decl, (level.returned decl).IsInstance

namespace Reading

variable {program : Program}

theorem placed_unknown : Reading.unknown.Placed program where
  symbol _ found := by cases found
  type _ := trivial

theorem placed_ofType {type : Preference → Ty}
    (placed : ∀ preference, (type preference).Placed program) :
    (Reading.ofType type).Placed program where
  symbol _ found := by cases found
  type := placed

end Reading

theorem Level.placed_exhausted (program : Program) : Level.exhausted.Placed program where
  symbol _ _ _ found := by cases found
  type _ _ _ := trivial
  binding _ _ _ := trivial
  ascribed _ := trivial
  returned _ := trivial

namespace Program

variable {program : Program}

namespace HasNode

variable {node : Node}

/-- What stands in a node of the program is a node of the program. -/
theorem of_within {outer : Node} (inside : program.HasNode outer) (within : node.Within outer) :
    program.HasNode node := by
  obtain ⟨file, present, below⟩ := inside
  exact ⟨file, present, within.trans below⟩

theorem of_child? {parent : Node} (inside : program.HasNode parent) {field : Field}
    (found : parent.child? field = some node) : program.HasNode node :=
  inside.of_within (Node.within_of_child? found)

theorem of_firstNamed? {parent : Node} (inside : program.HasNode parent)
    (found : parent.firstNamed? = some node) : program.HasNode node :=
  inside.of_within (Node.within_of_firstNamed? found)

theorem of_mem_namedChildren {parent : Node} (inside : program.HasNode parent)
    (below : node ∈ parent.namedChildren) : program.HasNode node :=
  inside.of_within (Node.within_of_mem_namedChildren below)

/-- The nodes around a node of the program are nodes of the program. -/
theorem of_mem_ancestors {lower : Node} (inside : program.HasNode lower)
    (above : node ∈ lower.ancestors) : program.HasNode node := by
  obtain ⟨file, present, below⟩ := inside
  exact ⟨file, present, Node.within_of_mem_ancestors below above⟩

end HasNode

/-- Nodes of files with one number are nodes of one tree. -/
theorem exists_root_of_id_eq (numbered : program.model.Numbered) {a b : Node}
    (hasA : program.HasNode a) (hasB : program.HasNode b) (same : a.source.id = b.source.id) :
    ∃ source tree, a.Within (Node.root source tree) ∧ b.Within (Node.root source tree) := by
  obtain ⟨fileA, memA, inA⟩ := hasA
  obtain ⟨fileB, memB, inB⟩ := hasB
  have sameId : fileA.source.id = fileB.source.id := by
    rw [inA.source, inB.source] at same
    exact same
  have found : ∀ file ∈ program.model.files,
      program.model.files[file.source.id.val]? = some file :=
    fun _ present => getElem?_of_numbered numbered present
  have foundA := found fileA memA
  rw [sameId, found fileB memB] at foundA
  cases foundA
  exact ⟨_, _, inA, inB⟩

/-- The place tells a node apart from all other nodes of the program. -/
theorem eq_of_place_eq (numbered : program.model.Numbered) {a b : Node}
    (hasA : program.HasNode a) (hasB : program.HasNode b) (same : a.place = b.place) : a = b := by
  obtain ⟨source, tree, inA, inB⟩ := exists_root_of_id_eq numbered hasA hasB (Prod.ext_iff.mp same).1
  exact inA.eq_of_address_eq inB (Prod.ext_iff.mp same).2

/-! ### Names -/

/-- What binds a name at a node of the program is a node of the program. -/
theorem placed_of_lookup? {place : Node} (inside : program.HasNode place) {name : String}
    {symbol : Symbol} (found : program.lookup? place name = some symbol) :
    symbol.Placed program := by
  rw [lookup?] at found
  split at found
  · next binder binds =>
    cases found
    obtain ⟨scope, around, inScope⟩ := List.exists_of_findSome?_eq_some binds
    have above : scope ∈ place.ancestors := (List.takeWhile_sublist _).subset around
    exact (inside.of_mem_ancestors above).of_within (Node.within_of_binderIn? inScope)
  · obtain ⟨binding, -, rfl⟩ := Option.map_eq_some_iff.mp found
    cases binding <;> trivial

/-- An export stands for a declaration, an import or a file, and for no place. -/
theorem placed_of_targetSymbol? {scope : FileScope} {target : ExportTarget} {symbol : Symbol}
    (found : targetSymbol? scope target = some symbol) : symbol.Placed program := by
  cases target with
  | name name =>
    obtain ⟨binding, -, rfl⟩ := Option.map_eq_some_iff.mp found
    cases binding <;> trivial
  | decl declared => cases found; trivial
  | reexport link => cases found; trivial

/-- No export is bound by a node inside a function. -/
theorem placed_of_exportSymbol? {file : SourceFile} {name : String} {symbol : Symbol}
    (found : program.exportSymbol? file name = some symbol) : symbol.Placed program := by
  rw [exportSymbol?] at found
  generalize [file] = pending at found
  generalize program.model.files.map (fun file => file.source.id) = unvisited at found
  fun_induction searchExport? program name unvisited pending with
  | case1 unvisited => cases found
  | case2 unvisited file pending fresh smaller target exported result denotes =>
    cases found
    exact placed_of_targetSymbol? denotes
  | case3 unvisited file pending fresh smaller target exported unbound inductionHypothesis =>
    exact inductionHypothesis found
  | case4 unvisited file pending fresh smaller missing isDefault inductionHypothesis =>
    exact inductionHypothesis found
  | case5 unvisited file pending fresh smaller missing isNamed inductionHypothesis =>
    exact inductionHypothesis found
  | case6 unvisited file pending visited inductionHypothesis =>
    exact inductionHypothesis found

/-- A link leads to what another file exports, which holds no node. -/
theorem placed_of_follow? {link : ImportLink} {symbol : Symbol}
    (found : program.follow? link = some symbol) : symbol.Placed program := by
  obtain ⟨target, -, result⟩ := Option.bind_eq_some_iff.mp found
  split at result
  · cases result; trivial
  · exact placed_of_exportSymbol? result
  · exact placed_of_exportSymbol? result

/-- Following links keeps a symbol, or ends at one that holds no node. -/
theorem placed_of_resolveAlias? {symbol result : Symbol} (placed : symbol.Placed program)
    (found : program.resolveAlias? symbol = some result) : result.Placed program := by
  rw [resolveAlias?] at found
  generalize aliasLimit = looks at found
  induction looks generalizing symbol with
  | zero => cases found
  | succ looks inductionHypothesis =>
    cases symbol with
    | imported link =>
      obtain ⟨next, follows, rest⟩ := Option.bind_eq_some_iff.mp found
      exact inductionHypothesis (placed_of_follow? follows) rest
    | decl declared => cases found; exact placed
    | module file => cases found; exact placed
    | binder node => cases found; exact placed

theorem placed_of_bind {symbol : Option Symbol}
    (placed : ∀ start, symbol = some start → start.Placed program) {result : Symbol}
    (found : symbol.bind program.resolveAlias? = some result) : result.Placed program := by
  obtain ⟨start, isStart, follows⟩ := Option.bind_eq_some_iff.mp found
  exact placed_of_resolveAlias? (placed start isStart) follows

/-! ### Types of annotations -/

/-- A name in an annotation gives an instance of a class, or nothing. -/
theorem isInstance_namedType (symbol : Option Symbol) :
    (program.namedType symbol).IsInstance := by
  rw [namedType]
  split
  · next result _ =>
    cases result with
    | decl declared =>
      rw [instanceType]
      split <;> trivial
    | imported link => trivial
    | module file => trivial
    | binder node => trivial
  · trivial

/-- Annotations name instances of classes. -/
theorem isInstance_ascriptionStep {below : Level}
    (instances : ∀ node, (below.ascribed node).IsInstance) (ascription : Node) :
    (program.ascriptionStep below ascription).IsInstance := by
  rw [ascriptionStep]
  split
  · trivial
  · next node _ =>
    split
    · exact isInstance_namedType _
    · exact isInstance_namedType _
    · rw [genericType]
      split
      · trivial
      · split
        · split
          · exact instances _
          · trivial
        · exact instances _
    · rw [nestedType]
      split
      · split
        · split
          · exact isInstance_namedType _
          · trivial
        · trivial
      · trivial
    · split
      · exact instances _
      · trivial
    · split
      · exact instances _
      · trivial
    · split
      · exact instances _
      · trivial
    · trivial

/-- Annotations give instances of classes, or nothing, at every budget. -/
theorem isInstance_ascribed (budget : Nat) (ascription : Node) :
    ((program.level budget).ascribed ascription).IsInstance := by
  induction budget generalizing ascription with
  | zero => trivial
  | succ budget inductionHypothesis => exact isInstance_ascriptionStep inductionHypothesis ascription

theorem isInstance_returned (budget : Nat) (decl : Decl) :
    ((program.level budget).returned decl).IsInstance := by
  cases budget with
  | zero => trivial
  | succ budget =>
    change (returnedStep (program.level budget) decl).IsInstance
    rw [returnedStep]
    split
    · exact isInstance_ascribed budget _
    · trivial

/-! ### Declarations -/

/-- The expression that a class extends lies in the class. -/
theorem within_of_baseExpression? {decl : Decl} {expression : Node}
    (found : baseExpression? decl = some expression) : expression.Within decl.node := by
  obtain ⟨heritage, isHeritage, rest⟩ := Option.bind_eq_some_iff.mp found
  have above := Node.within_of_mem_namedChildren (List.mem_of_find?_eq_some isHeritage)
  obtain ⟨clause, below, result⟩ := List.exists_of_findSome?_eq_some rest
  have inside := (Node.within_of_mem_namedChildren below).trans above
  split at result
  · exact (Node.within_of_child? result).trans inside
  · cases result
  · cases result
    exact inside

theorem within_of_arrowResult? {arrow result : Node} (found : arrow.arrowResult? = some result) :
    result.Within arrow := by
  obtain ⟨body, isBody, rest⟩ := Option.bind_eq_some_iff.mp found
  have inside := Node.within_of_child? isBody
  split at rest
  · obtain ⟨statement, isReturn, returned⟩ := Option.bind_eq_some_iff.mp rest
    exact ((Node.within_of_firstNamed? returned).trans
      (Node.within_of_mem_namedChildren (List.mem_of_find?_eq_some isReturn))).trans inside
  · cases rest
    exact inside

theorem within_of_mem_valuesUnder {keys : List String} {object value : Node}
    (present : value ∈ valuesUnder keys object) : value.Within object := by
  obtain ⟨entry, below, found⟩ := List.mem_filterMap.mp present
  split at found
  · exact (Node.within_of_child? found).trans (Node.within_of_mem_namedChildren below)
  · cases found

/-- A well-formed program whose declarations stand at its nodes. -/
structure Rooted (program : Program) : Prop extends program.WellFormed where
  /-- Every declaration stands at a node of the program. -/
  declNode : ∀ decl ∈ program.index.decls, program.HasNode decl.node

/-- The program of numbered files is rooted. -/
theorem rooted_ofModel {model : Model} (numbered : model.Numbered) : (ofModel model).Rooted where
  toWellFormed := wellFormed_ofModel numbered
  declNode decl present := by
    have declaring : decl.node ∈ model.files.flatMap ModelFile.declaring :=
      (Index.indexes_build numbered.nodup_ids).nodes ▸ List.mem_map_of_mem present
    obtain ⟨file, memFile, inside⟩ := List.mem_flatMap.mp declaring
    exact ⟨file, memFile, (Node.declares_fileItems file.root).covers.within _ inside⟩

namespace Rooted

/-! ### Symbols and types of expressions -/

/-- The type of a symbol holds a node of the program, when the symbol does. -/
theorem placed_symbolType (rooted : program.Rooted) {below : Level} (inside : below.Placed program)
    (preference : Preference) {symbol : Symbol} (resolved : symbol.Resolved program)
    (placed : symbol.Placed program) : (symbolType below preference symbol).Placed program := by
  cases symbol with
  | module file => trivial
  | binder node => exact inside.binding preference node placed
  | imported link => trivial
  | decl declared =>
    have standsAt := rooted.declNode declared resolved.known
    rw [symbolType]
    split
    · trivial
    · exact inside.binding preference _ standsAt
    · exact inside.binding preference _ standsAt
    · exact (inside.returned declared).placed
    · trivial

/-- What a name denotes and its type stay in the program. -/
theorem placed_readingOf (rooted : program.Rooted) {below : Level} (inside : below.Placed program)
    {symbol : Option Symbol} (known : ∀ start, symbol = some start → start.Known program)
    (placed : ∀ start, symbol = some start → start.Placed program) :
    (program.readingOf below symbol).Placed program := by
  refine ⟨fun result found => placed_of_bind placed found, fun preference => ?_⟩
  unfold readingOf
  dsimp only
  split
  · next result found =>
    exact rooted.placed_symbolType inside preference (rooted.resolved_of_bind known found)
      (placed_of_bind placed found)
  · trivial

/-- An entry of an object leads to what its value denotes, or to what its own name is bound to. -/
theorem placed_of_objectMember? {below : Level} (inside : below.Placed program) {name : String}
    {object : Node} (within : program.HasNode object) {symbol : Symbol}
    (found : program.objectMember? below name object = some symbol) : symbol.Placed program := by
  obtain ⟨entry, look, result⟩ := Option.bind_eq_some_iff.mp found
  have entryInside := within.of_mem_namedChildren (List.mem_of_find?_eq_some look)
  split at result
  · obtain ⟨value, isValue, denotes⟩ := Option.bind_eq_some_iff.mp result
    exact inside.symbol value (entryInside.of_child? isValue) symbol denotes
  · exact placed_of_bind (fun _ bound => placed_of_lookup? entryInside bound) result

/-- What a name denotes on a receiver is bound by a node of the program. -/
theorem placed_of_member? {below : Level} (inside : below.Placed program) {name : String}
    {receiver : Ty} (placed : receiver.Placed program) {symbol : Symbol}
    (found : program.member? below name receiver = some symbol) : symbol.Placed program := by
  cases receiver with
  | instanceOf owner =>
    obtain ⟨member, -, rfl⟩ := Option.map_eq_some_iff.mp found
    trivial
  | classItself owner =>
    obtain ⟨member, -, rfl⟩ := Option.map_eq_some_iff.mp found
    trivial
  | module file => exact placed_of_exportSymbol? found
  | object node => exact placed_of_objectMember? inside placed found
  | unknown => cases found

/-- An element access leads to a member by the annotation or by the value of its receiver. -/
theorem placed_of_elementSymbol? {below : Level} (inside : below.Placed program) {key : String}
    {receiver : Reading} (placed : receiver.Placed program) {symbol : Symbol}
    (found : program.elementSymbol? below key receiver = some symbol) :
    symbol.Placed program := by
  rw [elementSymbol?] at found
  split at found
  · next declared look =>
    cases found
    exact placed_of_member? inside (placed.type .declared) look
  · dsimp only at found
    split at found
    · cases found
    · exact placed_of_member? inside (placed.type .value) found

/-- What is read off a node of the program leads to nodes of the program, when the level below
does. -/
theorem placed_read (rooted : program.Rooted) {below : Level} (kinded : below.WellKinded program)
    (inside : below.Placed program) {node : Node} (within : program.HasNode node) :
    (program.read below node).Placed program := by
  fun_induction read program below node with
  | case1 node =>
    exact rooted.placed_readingOf inside (fun _ found => rooted.known_of_lookup? found)
      fun _ found => placed_of_lookup? within found
  | case2 node _ object property isObject _ _ inductionHypothesis =>
    have receiver := inductionHypothesis (within.of_child? isObject)
    exact rooted.placed_readingOf inside
      (fun _ found => rooted.known_of_member? kinded
        ((rooted.wellKinded_read kinded object).type .declared) found)
      fun _ found => placed_of_member? inside (receiver.type .declared) found
  | case4 node _ object key isObject _ _ inductionHypothesis =>
    have receiver := inductionHypothesis (within.of_child? isObject)
    exact rooted.placed_readingOf inside
      (fun _ found => rooted.known_of_elementSymbol? kinded
        (rooted.wellKinded_read kinded object) found)
      fun _ found => placed_of_elementSymbol? inside receiver found
  -- Wrappers are read as what stands inside them.
  | case6 node _ inner found _ inductionHypothesis
  | case8 node _ inner found _ inductionHypothesis
  | case10 node _ inner found _ inductionHypothesis =>
    exact inductionHypothesis (within.of_firstNamed? found)
  | case12 node _ inner found _ inductionHypothesis =>
    exact Reading.placed_ofType (inductionHypothesis (within.of_firstNamed? found)).type
  | case14 node _ function found _ inductionHypothesis =>
    refine Reading.placed_ofType fun _ => ?_
    split
    · exact (inside.returned _).placed
    · trivial
  | case16 node _ constructor found _ inductionHypothesis =>
    refine Reading.placed_ofType fun _ => ?_
    split <;> trivial
  | case19 node _ inner rest isList _ inductionHypothesis =>
    have operand := inductionHypothesis (within.of_mem_namedChildren (by simp [isList]))
    refine Reading.placed_ofType fun preference => ?_
    cases preference with
    | declared =>
      refine Ty.Placed.orElse ?_ (operand.type .declared)
      cases rest.head? with
      | none => trivial
      | some ascription => exact (isInstance_ascriptionStep inside.ascribed ascription).placed
    | value => exact operand.type .value
  | case20 node =>
    refine Reading.placed_ofType fun _ => ?_
    cases program.enclosingClass? node <;> trivial
  | case21 node =>
    refine Reading.placed_ofType fun _ => ?_
    cases (program.enclosingClass? node).bind below.base? <;> trivial
  | case22 node => exact Reading.placed_ofType fun _ => within
  | case3 | case5 | case7 | case9 | case11 | case13 | case15 | case17 | case18 | case23 =>
    exact Reading.placed_unknown

/-- The type of a binding is that of its annotation or of its value. -/
theorem placed_bindingStep {below : Level} (inside : below.Placed program)
    (preference : Preference) {node : Node} (within : program.HasNode node) :
    (bindingStep below preference node).Placed program := by
  have declared : (declaredType below node).Placed program := by
    rw [declaredType]
    cases node.child? .type with
    | none => trivial
    | some ascription => exact (inside.ascribed ascription).placed
  have valued : ∀ preference, (valueType below preference node).Placed program := by
    intro preference
    rw [valueType]
    cases found : node.child? .value with
    | none => trivial
    | some value => exact inside.type preference value (within.of_child? found)
  cases preference with
  | declared => exact declared.orElse (valued .declared)
  | value => exact (valued .value).orElse declared

/-! ### All budgets -/

/-- The answers for every budget lead to nodes of the program. -/
theorem placed_level (rooted : program.Rooted) (budget : Nat) :
    (program.level budget).Placed program := by
  induction budget with
  | zero => exact Level.placed_exhausted program
  | succ budget inductionHypothesis =>
    have kinded := rooted.wellKinded_level budget
    exact {
      symbol := fun _ within => (rooted.placed_read kinded inductionHypothesis within).symbol
      type := fun preference _ within =>
        (rooted.placed_read kinded inductionHypothesis within).type preference
      binding := fun preference _ within =>
        placed_bindingStep inductionHypothesis preference within
      ascribed := isInstance_ascribed (budget + 1)
      returned := isInstance_returned (budget + 1) }

end Rooted

end Program

end CodeGraph
