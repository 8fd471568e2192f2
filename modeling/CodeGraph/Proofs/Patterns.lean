import CodeGraph.Proofs.Scope
import CodeGraph.Proofs.SourceOrder

/-!
# What patterns bind

A pattern binds the identifiers in those of its parts that bind. The search for a name goes through
the parts in the order of the source, so it finds the first identifier with the name, and it finds
one whenever there is one. Keys and defaults are no such parts: however deep they lie in a pattern,
nothing in them is bound.

## Main Definitions

* `Node.BoundIn`: the identifiers that a pattern binds, by the rules for each form of pattern.
* `Node.FindsFirstBound`: the search for a name finds the first identifier that is bound.

## Main Statements

* `Node.mem_bound_iff`: the identifiers that are listed are those that are bound.
* `Node.lists_bound`: they are listed in the order of the source.
* `Node.BoundIn.mem_bindingParts`: the way down to a bound identifier leads through binding parts.
* `Node.patterns_bindFirst`: every search for a name in a pattern finds the first.
-/

namespace CodeGraph.Node

variable {identifier part pattern : Node}

/-! ### Rules of binding -/

/-- An identifier is bound in a pattern. -/
inductive BoundIn : Node → Node → Prop
  /-- An identifier binds itself. -/
  | identifier {node : Node} (isName : node.kind = .identifier) : BoundIn node node
  /-- So does one that stands for a property of its name. -/
  | shorthand {node : Node} (isName : node.kind = .shorthandPropertyIdentifierPattern) :
    BoundIn node node
  /-- An object or array pattern binds what its elements bind. -/
  | element {identifier part pattern : Node}
      (compound : pattern.kind = .objectPattern ∨ pattern.kind = .arrayPattern)
      (isElement : part ∈ pattern.namedChildren) (bound : BoundIn identifier part) :
    BoundIn identifier pattern
  /-- A pair binds what its value binds. -/
  | value {identifier part pattern : Node} (isPair : pattern.kind = .pairPattern)
      (isValue : pattern.child? .value = some part) (bound : BoundIn identifier part) :
    BoundIn identifier pattern
  /-- A pattern with a default binds what stands on its left. -/
  | target {identifier part pattern : Node}
      (hasDefault : pattern.kind = .assignmentPattern ∨ pattern.kind = .objectAssignmentPattern)
      (onLeft : pattern.child? .left = some part) (bound : BoundIn identifier part) :
    BoundIn identifier pattern
  /-- A rest binds what stands behind the dots. -/
  | rest {identifier part pattern : Node} (isRest : pattern.kind = .restPattern)
      (isFirst : pattern.firstNamed? = some part) (bound : BoundIn identifier part) :
    BoundIn identifier pattern

/-- What a binding part binds, the pattern binds. -/
theorem BoundIn.of_mem_bindingParts (isPart : part ∈ pattern.bindingParts)
    (bound : identifier.BoundIn part) : identifier.BoundIn pattern := by
  rw [bindingParts] at isPart
  split at isPart
  case h_1 kind => exact .element (.inl kind) isPart bound
  case h_2 kind => exact .element (.inr kind) isPart bound
  case h_3 kind => exact .value kind (Option.mem_toList.mp isPart) bound
  case h_4 kind => exact .target (.inl kind) (Option.mem_toList.mp isPart) bound
  case h_5 kind => exact .target (.inr kind) (Option.mem_toList.mp isPart) bound
  case h_6 kind => exact .rest kind (Option.mem_toList.mp isPart) bound
  case h_7 => cases isPart

/-- A pattern with parts that bind is no name. -/
theorem not_isBoundName_of_mem_bindingParts (isPart : part ∈ pattern.bindingParts) :
    ¬pattern.isBoundName := by
  intro isName
  rw [isBoundName, Bool.or_eq_true, decide_eq_true_eq, decide_eq_true_eq] at isName
  rcases isName with kind | kind <;> simp [bindingParts, kind] at isPart

theorem mem_bound_of_mem_bindingParts (isPart : part ∈ pattern.bindingParts)
    (listed : identifier ∈ part.bound) : identifier ∈ pattern.bound := by
  rw [bound_eq, if_neg (not_isBoundName_of_mem_bindingParts isPart)]
  exact List.mem_flatMap.mpr ⟨part, isPart, listed⟩

/-- The identifiers that are listed for a pattern are those that are bound in it. -/
theorem mem_bound_iff : identifier ∈ pattern.bound ↔ identifier.BoundIn pattern := by
  constructor
  · intro listed
    induction pattern using bound.induct with
    | case1 pattern isName =>
      rw [bound_eq, if_pos isName, List.mem_singleton] at listed
      subst listed
      rw [isBoundName, Bool.or_eq_true, decide_eq_true_eq, decide_eq_true_eq] at isName
      rcases isName with kind | kind
      · exact .identifier kind
      · exact .shorthand kind
    | case2 pattern compound inductionHypothesis =>
      rw [bound_eq, if_neg compound, List.mem_flatMap] at listed
      obtain ⟨part, isPart, inPart⟩ := listed
      exact .of_mem_bindingParts isPart (inductionHypothesis ⟨part, isPart⟩ inPart)
  · intro bound
    induction bound with
    | identifier kind => simp [bound_eq, isBoundName, kind]
    | shorthand kind => simp [bound_eq, isBoundName, kind]
    | element compound isElement _ inductionHypothesis =>
      refine mem_bound_of_mem_bindingParts ?_ inductionHypothesis
      rcases compound with kind | kind <;> simpa [bindingParts, kind] using isElement
    | value isPair isValue _ inductionHypothesis =>
      refine mem_bound_of_mem_bindingParts ?_ inductionHypothesis
      simp [bindingParts, isPair, isValue]
    | target hasDefault onLeft _ inductionHypothesis =>
      refine mem_bound_of_mem_bindingParts ?_ inductionHypothesis
      rcases hasDefault with kind | kind <;> simp [bindingParts, kind, onLeft]
    | rest isRest isFirst _ inductionHypothesis =>
      refine mem_bound_of_mem_bindingParts ?_ inductionHypothesis
      simp [bindingParts, isRest, isFirst]

/-! ### The order of bound identifiers -/

/-- The parts that bind are children, in order. -/
theorem bindingParts_sublist (pattern : Node) : pattern.bindingParts.Sublist pattern.children := by
  have single : ∀ {found : Option Node}, (∀ child, found = some child → child ∈ pattern.children) →
      found.toList.Sublist pattern.children := by
    intro found isChild
    cases found with
    | none => exact List.nil_sublist _
    | some child => exact List.singleton_sublist.mpr (isChild child rfl)
  rw [bindingParts]
  split
  case h_1 | h_2 => exact List.filter_sublist
  case h_3 | h_4 | h_5 => exact single fun _ => mem_children_of_child?
  case h_6 => exact single fun _ found => (List.mem_filter.mp (List.mem_of_head? found)).1
  case h_7 => exact List.nil_sublist _

/-- The identifiers that a pattern binds are listed in the order of the source. -/
theorem lists_bound (pattern : Node) : pattern.Lists pattern.bound := by
  induction pattern using bound.induct with
  | case1 pattern isName =>
    rw [bound_eq, if_pos isName]
    exact Lists.self pattern
  | case2 pattern compound inductionHypothesis =>
    rw [bound_eq, if_neg compound]
    exact Lists.flatMap_children (bindingParts_sublist pattern) fun part isPart =>
      inductionHypothesis ⟨part, isPart⟩

/-! ### Parts that bind nothing -/

/-- The way down to a bound identifier leads through parts that bind. -/
theorem BoundIn.mem_bindingParts {holder : Node} (isBound : identifier.BoundIn pattern)
    (inside : holder.Within pattern) (below : part ∈ holder.children)
    (within : identifier.Within part) : part ∈ holder.bindingParts := by
  rw [← mem_bound_iff] at isBound
  induction pattern using bound.induct with
  | case1 pattern isName =>
    rw [bound_eq, if_pos isName, List.mem_singleton] at isBound
    -- A name has no way down to itself.
    obtain ⟨index, longer⟩ := address_of_mem_children below
    have down := within.address.length_le
    have up := inside.address.length_le
    rw [longer, List.length_cons, isBound] at down
    omega
  | case2 pattern compound inductionHypothesis =>
    rw [bound_eq, if_neg compound, List.mem_flatMap] at isBound
    obtain ⟨through, isPart, inPart⟩ := isBound
    have isChild : through ∈ pattern.children := (bindingParts_sublist pattern).subset isPart
    have withinPart : identifier.Within through := (lists_bound through).within identifier inPart
    rcases inside.eq_or_exists_child with rfl | ⟨child, memChild, further⟩
    · rwa [eq_of_within_children below isChild within withinPart]
    · have downward : identifier.Within child :=
        (within.trans (within_of_mem_children below)).trans further
      rw [eq_of_within_children memChild isChild downward withinPart] at further
      exact inductionHypothesis ⟨through, isPart⟩ inPart further

/-- What is found under a field stands under the field. -/
theorem field_of_child? {holder : Node} {field : Field} (found : holder.child? field = some part) :
    part.label.field = some field := by
  simpa using List.find?_some found

/-! ### Searching a pattern -/

/-- The search for a name in a pattern finds the first identifier of that name that is bound. -/
structure FindsFirstBound (pattern : Node) (name : String) : Prop where
  /-- What is found is bound, has the name, and comes before all others of the name. -/
  found : ∀ identifier : Node, pattern.binder? name = some identifier ↔
    identifier.BoundIn pattern ∧ identifier.text = name ∧
      ∀ other : Node, other.BoundIn pattern → other.text = name →
        other = identifier ∨ identifier.Precedes other
  /-- Nothing is found when nothing that is bound has the name. -/
  missing : pattern.binder? name = none ↔
    ∀ identifier : Node, identifier.BoundIn pattern → identifier.text ≠ name
  /-- Nothing in the key of a pair is bound, however deep the pair lies in the pattern. -/
  keys : ∀ pair part identifier : Node, pair.Within pattern → pair.kind = .pairPattern →
    part ∈ pair.children → part.label.field ≠ some .value → identifier.Within part →
      ¬identifier.BoundIn pattern
  /-- Nothing in a default is bound, however deep the default lies in the pattern. -/
  defaults : ∀ holder part identifier : Node, holder.Within pattern →
    holder.kind = .assignmentPattern ∨ holder.kind = .objectAssignmentPattern →
      part ∈ holder.children → part.label.field ≠ some .left → identifier.Within part →
        ¬identifier.BoundIn pattern

/-- **Every search for a name in a pattern finds the first identifier that is bound.** -/
theorem patterns_bindFirst (pattern : Node) (name : String) : pattern.FindsFirstBound name where
  found identifier := by
    rw [binder?_eq_find?, find?_eq_some_iff_of_pairwise (fun _ _ => Precedes.asymm)
      (lists_bound pattern).ascend]
    simp only [mem_bound_iff, decide_eq_true_eq]
  missing := by
    rw [binder?_eq_find?, List.find?_eq_none]
    simp only [mem_bound_iff, decide_eq_true_eq, ne_eq]
  keys pair part identifier inside isPair below aside within bound := by
    have isPart := bound.mem_bindingParts inside below within
    simp only [bindingParts, isPair] at isPart
    exact aside (field_of_child? (Option.mem_toList.mp isPart))
  defaults holder part identifier inside hasDefault below aside within bound := by
    have isPart := bound.mem_bindingParts inside below within
    rcases hasDefault with kind | kind
    all_goals
      simp only [bindingParts, kind] at isPart
      exact aside (field_of_child? (Option.mem_toList.mp isPart))

end CodeGraph.Node
