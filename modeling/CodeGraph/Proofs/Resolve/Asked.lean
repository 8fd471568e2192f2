import CodeGraph.Proofs.Callable
import CodeGraph.Proofs.Resolve.Inside

/-!
# Where questions are asked

The passes ask about calls in the bodies of callables, about the elements of module metadata and
about the parameters of constructors. All of these are nodes of the program, so what is known of the
answers about nodes of the program is known of every answer that a pass gets.

## Main Statements

* `Program.Rooted.hasNode_of_mem_sites`: the calls of collected callables.
* `Program.Rooted.hasNode_of_metadataObject?`, `Program.Rooted.hasNode_of_mem_metadata`: the
  metadata of a module and the elements of its lists.
* `Program.HasNode.of_mem_decorators`, `Program.HasNode.of_mem_decoratorArguments`: decorators and
  what is handed to them.
-/

namespace CodeGraph

/-- A walk that goes down visits nodes within those that it starts from. -/
theorem Descent.within_of_mem_walk (descent : Descent)
    (down : ∀ node, ∀ inner ∈ descent.below node, inner.Within node) {waiting : List Node}
    {node : Node} (visited : node ∈ descent.walk waiting) :
    ∃ start ∈ waiting, node.Within start := by
  fun_induction descent.walk waiting with
  | case1 => cases visited
  | case2 first waiting smaller inductionHypothesis =>
    rcases List.mem_cons.mp visited with rfl | later
    · exact ⟨node, List.mem_cons_self, .refl node⟩
    · obtain ⟨start, present, within⟩ := inductionHypothesis later
      rcases List.mem_append.mp present with lower | waits
      · exact ⟨first, List.mem_cons_self, within.trans (down first start lower)⟩
      · exact ⟨start, List.mem_cons_of_mem _ waits, within⟩

namespace Node

/-- The calls of a function lie in the function. -/
theorem within_of_mem_callSites {function call : Node} (present : call ∈ function.callSites) :
    call.Within function := by
  rw [callSites] at present
  split at present
  · next body isBody =>
    have visited := (List.mem_filter.mp present).1
    obtain ⟨start, only, within⟩ := namedDescent.within_of_mem_walk
      (fun _ _ lower => within_of_mem_children (List.mem_filter.mp lower).1) visited
    obtain rfl := List.mem_singleton.mp only
    exact within.trans (within_of_child? isBody)
  · cases present

theorem within_of_mem_decoratorArguments {decorator argument : Node}
    (present : argument ∈ decorator.decoratorArguments) : argument.Within decorator := by
  rw [decoratorArguments] at present
  split at present
  · next call isCall =>
    split at present
    · cases isList : call.child? .arguments with
      | none => simp [isList] at present
      | some list =>
        rw [isList] at present
        exact ((within_of_mem_namedChildren present).trans (within_of_child? isList)).trans
          (within_of_firstNamed? isCall)
    · cases present
  · cases present

/-- The elements of a list in metadata lie in it. -/
theorem within_of_mem_listElements {value element : Node}
    (present : element ∈ value.listElements) : element.Within value := by
  refine Within.trans ?_ (unwrap_within value)
  unfold listElements at present
  dsimp only at present
  split at present
  · exact within_of_mem_namedChildren (List.mem_filter.mp present).1
  · exact List.mem_singleton.mp present ▸ .refl _

theorem within_of_firstConstructor? {node constructor : Node}
    (found : node.firstConstructor? = some constructor) : constructor.Within node := by
  obtain ⟨body, isBody, isConstructor⟩ := Option.bind_eq_some_iff.mp found
  exact (within_of_mem_namedChildren (List.mem_of_find?_eq_some isConstructor)).trans
    (within_of_child? isBody)

end Node

/-- The function that a declaration declares lies in the declaration. -/
theorem Decl.within_of_functionNode? {decl : Decl} {function : Node}
    (found : decl.functionNode? = some function) : function.Within decl.node := by
  have valued : (decl.value?.map Node.unwrap).filter (fun value => value.kind.isFunctionValue) =
      some function → function.Within decl.node := by
    intro isFunction
    obtain ⟨unwrapped, -⟩ := Option.filter_eq_some_iff.mp isFunction
    obtain ⟨value, isValue, rfl⟩ := Option.map_eq_some_iff.mp unwrapped
    exact (Node.unwrap_within value).trans (Node.within_of_child? isValue)
  rw [functionNode?] at found
  split at found
  · cases found; exact .refl _
  · cases found; exact .refl _
  · cases found; exact .refl _
  · exact valued found
  · exact valued found
  all_goals cases found

namespace Program

variable {program : Program}

/-- The decorators of a node of the program are nodes of the program, though they may stand outside
the node. -/
theorem HasNode.of_mem_decorators {node decorator : Node} (has : program.HasNode node)
    (present : decorator ∈ node.decorators) : program.HasNode decorator := by
  rw [Node.decorators] at present
  rcases List.mem_append.mp present with before | own
  · split at before
    · next parent isParent =>
      split at before
      · have above : parent ∈ node.ancestors := by
          obtain ⟨source, focus, trail⟩ := node
          cases trail with
          | nil => cases isParent
          | cons step rest => cases isParent; exact List.mem_cons_self
        exact (has.of_mem_ancestors above).of_within
          (Node.within_of_mem_children (List.mem_filter.mp before).1)
      · cases before
    · cases before
  · exact has.of_within (Node.within_of_mem_children (List.mem_filter.mp own).1)

theorem HasNode.of_mem_decoratorArguments {decorator argument : Node}
    (has : program.HasNode decorator) (present : argument ∈ decorator.decoratorArguments) :
    program.HasNode argument :=
  has.of_within (Node.within_of_mem_decoratorArguments present)

namespace Rooted

/-! ### Call sites -/

/-- The callables of a top-level declaration have their bodies in the program. -/
theorem hasNode_of_mem_callableDrafts (rooted : program.Rooted) {conventions : Conventions}
    {decl : Decl} (declared : decl ∈ program.index.decls) {draft : CallableDraft}
    (drafted : draft ∈ program.callableDrafts conventions decl) :
    program.HasNode draft.function := by
  have ofDraft : ∀ {className role} {owner : Decl}, owner ∈ program.index.decls →
      callableDraft? className role owner = some draft → program.HasNode draft.function := by
    intro className role owner present found
    obtain ⟨function, isFunction, rest⟩ := Option.bind_eq_some_iff.mp found
    obtain ⟨kind, -, result⟩ := Option.bind_eq_some_iff.mp rest
    cases result
    exact (rooted.declNode owner present).of_within (Decl.within_of_functionNode? isFunction)
  unfold callableDrafts at drafted
  split at drafted
  · exact ofDraft declared (Option.mem_toList.mp drafted)
  · exact ofDraft declared (Option.mem_toList.mp drafted)
  · obtain ⟨member, memMember, found⟩ := List.mem_filterMap.mp drafted
    split at found
    · exact ofDraft (rooted.mem_membersOf_iff.mp memMember).1 found
    · cases found
  · cases drafted

/-- The calls of collected callables are nodes of the program. -/
theorem hasNode_of_mem_sites (rooted : program.Rooted) {conventions : Conventions}
    {files : List SourceFile} {site : CallSite}
    (present : site ∈ (program.collect conventions files).sites) : program.HasNode site.call := by
  obtain ⟨caller, memCaller, made⟩ := List.mem_flatMap.mp present
  obtain ⟨call, inBody, rfl⟩ := List.mem_map.mp made
  have drafted : caller.draft ∈ program.draftsOf conventions files := by
    rw [← drafts_collect]
    exact List.mem_map_of_mem memCaller
  obtain ⟨decl, memDecl, ofDecl⟩ := List.mem_flatMap.mp drafted
  obtain ⟨file, -, inFile⟩ := List.mem_flatMap.mp memDecl
  exact (rooted.hasNode_of_mem_callableDrafts (rooted.mem_of_topLevel inFile) ofDecl).of_within
    (Node.within_of_mem_callSites inBody)

/-! ### Metadata -/

/-- The metadata of a class of the program is a node of the program. -/
theorem hasNode_of_metadataObject? (rooted : program.Rooted) {conventions : Conventions}
    {decl : Decl} (declared : decl ∈ program.index.decls) {object : Node}
    (found : metadataObject? conventions decl = some object) : program.HasNode object := by
  obtain ⟨decorator, isDecorator, rest⟩ := Option.bind_eq_some_iff.mp found
  obtain ⟨argument, isArgument, result⟩ := Option.bind_eq_some_iff.mp rest
  have hasDecorator := (rooted.declNode decl declared).of_mem_decorators
    (List.mem_of_find?_eq_some isDecorator)
  have hasArgument := hasDecorator.of_mem_decoratorArguments (List.mem_of_head? isArgument)
  dsimp only at result
  split at result
  · cases result
    exact hasArgument.of_within (Node.unwrap_within argument)
  · cases result

/-- The declarator of a variable of the program is a node of the program. -/
theorem hasNode_of_variableNode? (rooted : program.Rooted) {symbol : Symbol} {declarator : Node}
    (known : symbol.Known program) (placed : symbol.Placed program)
    (found : variableNode? symbol = some declarator) : program.HasNode declarator := by
  cases symbol with
  | decl declared =>
    rw [variableNode?] at found
    split at found
    · cases found
      exact rooted.declNode declared known
    · cases found
  | binder node =>
    rw [variableNode?] at found
    split at found
    · cases found
      exact placed
    · cases found
  | imported link => cases found
  | module file => cases found

/-- The elements that an entry of the metadata adds to a list are nodes of the program. -/
theorem hasNode_of_mem_metadata (rooted : program.Rooted) {entry : Node}
    (has : program.HasNode entry) {listed : MetadataKey × List Node}
    (found : program.metadataEntry? entry = some listed) {element : Node}
    (present : element ∈ listed.2) : program.HasNode element := by
  unfold metadataEntry? at found
  split at found
  · obtain ⟨key, -, rest⟩ := Option.bind_eq_some_iff.mp found
    obtain ⟨value, isValue, result⟩ := Option.bind_eq_some_iff.mp rest
    cases result
    exact (has.of_child? isValue).of_within (Node.within_of_mem_listElements present)
  · obtain ⟨key, -, result⟩ := Option.bind_eq_some_iff.mp found
    cases result
    dsimp only at present
    rw [shorthandElements] at present
    split at present
    · next declarator isDeclarator =>
      obtain ⟨symbol, resolved, isVariable⟩ := Option.bind_eq_some_iff.mp isDeclarator
      have known := (rooted.resolved_of_bind
        (fun _ look => rooted.known_of_lookup? look) resolved).known
      have placed := placed_of_bind (fun _ look => placed_of_lookup? has look) resolved
      have hasDeclarator := rooted.hasNode_of_variableNode? known placed isVariable
      cases isValue : declarator.child? .value with
      | none => simp [isValue] at present
      | some value =>
        rw [isValue] at present
        exact (hasDeclarator.of_child? isValue).of_within (Node.within_of_mem_listElements present)
    · cases present
  · cases found

/-- The parameters of the constructor of a class of the program are nodes of the program. -/
theorem hasNode_of_mem_parameters (rooted : program.Rooted) {decl : Decl}
    (declared : decl ∈ program.index.decls) {constructor parameter : Node}
    (found : decl.node.firstConstructor? = some constructor)
    (present : parameter ∈ constructor.parameters) : program.HasNode parameter :=
  ((rooted.declNode decl declared).of_within (Node.within_of_firstConstructor? found)).of_within
    ((Node.scatters_parameters constructor).within parameter present)

end Rooted

end Program

end CodeGraph
