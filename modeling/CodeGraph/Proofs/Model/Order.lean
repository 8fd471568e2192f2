import CodeGraph.Analysis
import CodeGraph.Proofs.Keyed
import Mathlib.Data.List.Nodup
import Mathlib.Data.Prod.Lex
import Mathlib.Data.String.Basic

/-!
# The inputs that are kept

Inputs are sorted by normalized path and by spelling, and of the inputs of one path the first is
kept. Which one that is can be told without sorting: no spelling of its path is smaller, and no
input before it has the same spelling. The kept inputs ascend by path, and there is only one list
that holds just them and ascends. So the order in which inputs are given counts only among inputs
of the same spelling.

## Main Definitions

* `Input.rank`: what inputs are sorted by.
* `Input.Stands`: an input stands for its path.

## Main Statements

* `pairwise_orderInputs`: the kept inputs ascend strictly by path.
* `mem_orderInputs_iff`: exactly the inputs that stand for their paths are kept.
* `eq_orderInputs`: no other list ascends and holds the same inputs.
* `Analysis.givenOrder_immaterial`: no analysis depends on the order of inputs whose spellings are
  distinct.
-/

namespace CodeGraph

namespace Input

/-! ### The order of inputs -/

/-- What inputs are sorted by: the normalized path, then the spelling. -/
def rank (input : Input) : String ×ₗ String := toLex (input.normalized, input.path)

/-- The order of inputs is the order of their ranks, which is linear. -/
theorem le_iff_rank {a b : Input} : a.le b = true ↔ a.rank ≤ b.rank := by
  rw [rank, rank, Prod.Lex.toLex_le_toLex, Input.le, Bool.or_eq_true, Bool.and_eq_true,
    decide_eq_true_eq, decide_eq_true_eq, decide_eq_true_eq]

/-- It goes by normalized path first. -/
theorem normalized_le_of_rank_le {a b : Input} (before : a.rank ≤ b.rank) :
    a.normalized ≤ b.normalized := by
  rcases Prod.Lex.toLex_le_toLex.mp before with less | ⟨same, -⟩
  · exact le_of_lt less
  · exact le_of_eq same

/-- And by raw path where the normalized ones are the same. -/
theorem path_le_of_rank_le {a b : Input} (before : a.rank ≤ b.rank)
    (same : a.normalized = b.normalized) : a.path ≤ b.path := by
  rcases Prod.Lex.toLex_le_toLex.mp before with less | ⟨-, smaller⟩
  · exact absurd same (ne_of_lt less)
  · exact smaller

/-- What a stable sort needs to sort. -/
theorem le_transitive (a b c : Input) (first : a.le b = true) (second : b.le c = true) :
    a.le c = true :=
  le_iff_rank.mpr ((le_iff_rank.mp first).trans (le_iff_rank.mp second))

theorem le_or_le (a b : Input) : (a.le b || b.le a) = true := by
  rw [Bool.or_eq_true, le_iff_rank, le_iff_rank]
  exact le_total a.rank b.rank

end Input

/-! ### Sorting -/

/-- Sorted inputs ascend by rank. -/
theorem pairwise_sorted (given : List Input) :
    (given.mergeSort Input.le).Pairwise fun a b => a.rank ≤ b.rank :=
  (List.pairwise_mergeSort Input.le_transitive Input.le_or_le given).imp Input.le_iff_rank.mp

/-- Inputs that sort alike keep the order in which they were given. -/
theorem filter_sorted {given : List Input} {tied : Input → Bool}
    (alike : ∀ a b, tied a = true → tied b = true → a.le b = true) :
    (given.mergeSort Input.le).filter tied = given.filter tied := by
  have inOrder : (given.filter tied).Pairwise fun a b => a.le b = true :=
    List.pairwise_filter.mpr (List.pairwise_of_forall (alike · ·))
  have kept : (given.filter tied).Sublist (given.mergeSort Input.le) :=
    List.sublist_mergeSort Input.le_transitive Input.le_or_le inOrder List.filter_sublist
  have part : (given.filter tied).Sublist ((given.mergeSort Input.le).filter tied) := by
    simpa using kept.filter tied
  -- A part of a list that is as long as the list is the whole of it.
  have sameLength := ((List.mergeSort_perm given Input.le).filter tied).length_eq
  exact (part.eq_of_length sameLength.symm).symm

/-- Sorting does not change which input of a spelling comes first. -/
theorem find?_spelling_sorted (given : List Input) (spelling : String) :
    (given.mergeSort Input.le).find? (fun other => other.path = spelling) =
      given.find? fun other => other.path = spelling := by
  rw [← List.head?_filter, ← List.head?_filter, filter_sorted]
  intro a b spelledA spelledB
  have same : a.path = b.path := by
    rw [of_decide_eq_true spelledA, of_decide_eq_true spelledB]
  rw [Input.le_iff_rank, Input.rank, Input.rank, Input.normalized, Input.normalized, same]

/-! ### Dropping repetitions -/

/-- No path of a list is smaller than the path that came before the list. -/
def Follows (previous : Option String) (inputs : List Input) : Prop :=
  ∀ path ∈ previous, ∀ other ∈ inputs, path ≤ other.normalized

theorem Follows.tail {previous : Option String} {head : Input} {rest : List Input}
    (follows : Follows previous (head :: rest)) : Follows previous rest :=
  fun path isPrevious other present =>
    follows path isPrevious other (List.mem_cons_of_mem head present)

/-- What comes after the first of sorted inputs follows it. -/
theorem follows_head {head : Input} {rest : List Input}
    (below : ∀ other ∈ rest, head.normalized ≤ other.normalized) :
    Follows (some head.normalized) rest := by
  rintro path ⟨⟩ other present
  exact below other present

theorem follows_none (inputs : List Input) : Follows none inputs := by
  rintro path ⟨⟩

/-- In a sorted list the first input of each path is kept, unless its path came before. -/
theorem mem_dropRepeats_iff {inputs : List Input} {previous : Option String}
    (ascending : inputs.Pairwise fun a b => a.normalized ≤ b.normalized)
    (follows : Follows previous inputs) {input : Input} :
    input ∈ dropRepeats previous inputs ↔ previous ≠ some input.normalized ∧
      inputs.find? (fun other => other.normalized = input.normalized) = some input := by
  induction inputs generalizing previous with
  | nil => simp [dropRepeats]
  | cons head rest inductionHypothesis =>
    obtain ⟨below, ascendingRest⟩ := List.pairwise_cons.mp ascending
    rw [dropRepeats, List.find?_cons]
    split
    · next repeated =>
      rw [inductionHypothesis ascendingRest follows.tail, repeated]
      by_cases same : head.normalized = input.normalized
      · simp [same]
      · simp [same]
    · next fresh =>
      rw [List.mem_cons, inductionHypothesis ascendingRest (follows_head below)]
      by_cases same : head.normalized = input.normalized
      · simp [← same, fresh, eq_comm]
      · have notHead : input ≠ head := fun equal => same (congrArg Input.normalized equal.symm)
        simp only [notHead, same, Option.some.injEq, ne_eq, not_false_eq_true, true_and,
          false_or, decide_false, iff_and_self]
        -- A path that came before is not above the head, and the head is not above the rest.
        rintro found rfl
        have present := List.mem_of_find?_eq_some found
        have above := follows _ rfl head List.mem_cons_self
        exact same (le_antisymm (below input present) above)

/-- Dropping repetitions leaves paths that ascend strictly. -/
theorem pairwise_dropRepeats {inputs : List Input} {previous : Option String}
    (ascending : inputs.Pairwise fun a b => a.normalized ≤ b.normalized)
    (follows : Follows previous inputs) :
    (dropRepeats previous inputs).Pairwise fun a b => a.normalized < b.normalized := by
  induction inputs generalizing previous with
  | nil => exact List.Pairwise.nil
  | cons head rest inductionHypothesis =>
    obtain ⟨below, ascendingRest⟩ := List.pairwise_cons.mp ascending
    have afterHead := follows_head below
    rw [dropRepeats]
    split
    · exact inductionHypothesis ascendingRest follows.tail
    · refine List.pairwise_cons.mpr ⟨?_, inductionHypothesis ascendingRest afterHead⟩
      intro other kept
      obtain ⟨different, found⟩ := (mem_dropRepeats_iff ascendingRest afterHead).mp kept
      refine lt_of_le_of_ne (below other (List.mem_of_find?_eq_some found)) ?_
      intro same
      exact different (congrArg some same)

/-! ### The inputs that stand for their paths -/

/-- An input stands for its path: no spelling of the path is smaller than its own, and of the inputs
with its spelling it was given first. -/
structure Input.Stands (given : List Input) (input : Input) : Prop where
  /-- It is the first with its spelling. -/
  first : given.find? (fun other => other.path = input.path) = some input
  /-- No spelling of its path is smaller. -/
  smallest : ∀ other ∈ given, other.normalized = input.normalized → input.path ≤ other.path

/-- An input that stands is one of those given. -/
theorem Input.Stands.mem {given : List Input} {input : Input} (stands : input.Stands given) :
    input ∈ given :=
  List.mem_of_find?_eq_some stands.first

/-- One input stands for a path. -/
theorem Input.Stands.eq_of_normalized_eq {given : List Input} {a b : Input}
    (standsA : a.Stands given) (standsB : b.Stands given) (same : a.normalized = b.normalized) :
    a = b := by
  have spelled : a.path = b.path :=
    le_antisymm (standsA.smallest b standsB.mem same.symm) (standsB.smallest a standsA.mem same)
  have first := standsA.first
  rw [spelled, standsB.first] at first
  exact (Option.some.inj first).symm

variable {given : List Input}

theorem ascending_sorted (given : List Input) :
    (given.mergeSort Input.le).Pairwise fun a b => a.normalized ≤ b.normalized :=
  (pairwise_sorted given).imp Input.normalized_le_of_rank_le

/-- The kept inputs ascend strictly by path. -/
theorem pairwise_orderInputs (given : List Input) :
    (orderInputs given).Pairwise fun a b => a.normalized < b.normalized :=
  pairwise_dropRepeats (ascending_sorted given) (follows_none _)

/-- Of the inputs with one normalized path the first in order is kept. -/
theorem mem_orderInputs_iff_find? {input : Input} :
    input ∈ orderInputs given ↔
      (given.mergeSort Input.le).find? (fun other => other.normalized = input.normalized) =
        some input := by
  rw [orderInputs, mem_dropRepeats_iff (ascending_sorted given) (follows_none _)]
  simp

/-- So every kept input stands. -/
theorem stands_of_mem_orderInputs {input : Input} (kept : input ∈ orderInputs given) :
    input.Stands given := by
  obtain ⟨-, before, after, split, others⟩ :=
    List.find?_eq_some_iff_append.mp (mem_orderInputs_iff_find?.mp kept)
  have elsewhere : ∀ other ∈ before, other.normalized ≠ input.normalized := by
    intro other present
    simpa using others other present
  refine ⟨?_, fun other present same => ?_⟩
  · rw [← find?_spelling_sorted, List.find?_eq_some_iff_append]
    refine ⟨by simp, before, after, split, fun other present => ?_⟩
    have different : other.path ≠ input.path := fun spelled =>
      elsewhere other present (congrArg Path.normalize spelled)
    simp [different]
  · have ranked := pairwise_sorted given
    rw [← (List.mergeSort_perm given Input.le).mem_iff, split, List.mem_append,
      List.mem_cons] at present
    rw [split, List.pairwise_append, List.pairwise_cons] at ranked
    rcases present with earlier | rfl | later
    · exact absurd same (elsewhere other earlier)
    · exact le_refl _
    · exact Input.path_le_of_rank_le (ranked.2.1.1 other later) same.symm

/-- Every path that is given is the path of a kept input. -/
theorem exists_mem_orderInputs {input : Input} (present : input ∈ given) :
    ∃ kept ∈ orderInputs given, kept.normalized = input.normalized := by
  have look : ((given.mergeSort Input.le).find? fun other =>
      other.normalized = input.normalized).isSome := by
    rw [List.find?_isSome]
    exact ⟨input, List.mem_mergeSort.mpr present, by simp⟩
  obtain ⟨kept, found⟩ := Option.isSome_iff_exists.mp look
  have same : kept.normalized = input.normalized := by simpa using List.find?_some found
  refine ⟨kept, mem_orderInputs_iff_find?.mpr ?_, same⟩
  rw [same, found]

/-- Exactly the inputs that stand for their paths are kept. -/
theorem mem_orderInputs_iff {input : Input} : input ∈ orderInputs given ↔ input.Stands given := by
  refine ⟨stands_of_mem_orderInputs, fun stands => ?_⟩
  obtain ⟨kept, present, same⟩ := exists_mem_orderInputs stands.mem
  rw [stands.eq_of_normalized_eq (stands_of_mem_orderInputs present) same.symm]
  exact present

/-- What ascends strictly holds nothing twice. -/
theorem nodup_of_ascending {inputs : List Input}
    (ascending : inputs.Pairwise fun a b => a.normalized < b.normalized) : inputs.Nodup :=
  ascending.imp fun less same => absurd (congrArg Input.normalized same) (ne_of_lt less)

/-- There is one list of inputs that ascends strictly and holds the inputs that stand for their
paths. -/
theorem eq_orderInputs {inputs : List Input}
    (ascending : inputs.Pairwise fun a b => a.normalized < b.normalized)
    (same : ∀ input, input ∈ inputs ↔ input.Stands given) : inputs = orderInputs given := by
  have keptAscend := pairwise_orderInputs given
  refine List.Perm.eq_of_pairwise ?_ ascending keptAscend ?_
  · intro a b _ _ less greater
    exact absurd greater (lt_asymm less)
  · rw [List.perm_ext_iff_of_nodup (nodup_of_ascending ascending) (nodup_of_ascending keptAscend)]
    intro input
    rw [same, mem_orderInputs_iff]

/-! ### The order of giving -/

/-- Among inputs of distinct spellings only the spellings tell which one stands for a path. -/
theorem stands_iff_of_nodup (distinct : (given.map Input.path).Nodup) {input : Input} :
    input.Stands given ↔ input ∈ given ∧
      ∀ other ∈ given, other.normalized = input.normalized → input.path ≤ other.path := by
  constructor
  · intro stands
    exact ⟨stands.mem, stands.smallest⟩
  · rintro ⟨present, smallest⟩
    exact ⟨Keyed.find?_key_of_nodup distinct present, smallest⟩

/-- Inputs that ascend strictly by path are kept as they come. -/
theorem orderInputs_of_ascending
    (ascending : given.Pairwise fun a b => a.normalized < b.normalized) :
    orderInputs given = given := by
  have apart : (given.map Input.normalized).Nodup := List.pairwise_map.mpr (ascending.imp ne_of_lt)
  have distinct : (given.map Input.path).Nodup := by
    refine List.pairwise_map.mpr (ascending.imp ?_)
    exact fun less same => absurd (congrArg Path.normalize same) (ne_of_lt less)
  refine (eq_orderInputs ascending fun input => ?_).symm
  rw [stands_iff_of_nodup distinct]
  refine ⟨fun present => ⟨present, fun other memOther same => ?_⟩, And.left⟩
  rw [List.inj_on_of_nodup_map apart memOther present same]

/-- The order in which files are given does not matter. Distinct raw paths are load-bearing: two
inputs with one raw path are told apart by their order only. -/
theorem orderInputs_eq_of_perm {shuffled : List Input} (shuffle : given.Perm shuffled)
    (distinct : (given.map Input.path).Nodup) : orderInputs given = orderInputs shuffled := by
  have distinctShuffled : (shuffled.map Input.path).Nodup :=
    (shuffle.map Input.path).nodup_iff.mp distinct
  apply eq_orderInputs (pairwise_orderInputs given)
  intro input
  rw [mem_orderInputs_iff, stands_iff_of_nodup distinct, stands_iff_of_nodup distinctShuffled]
  simp only [shuffle.mem_iff]

/-- A model is made of the kept inputs. -/
theorem Model.build_congr (settings : AnalysisSettings) {other : List Input}
    (same : orderInputs given = orderInputs other) :
    Model.build settings given = Model.build settings other := by
  unfold Model.build
  rw [same]

/-- **The order in which inputs are given does not matter.** Inputs of distinct spellings make the
same model in every order, with the same numbers of files, the same root and the same faults, and
every analysis of them reports the same graph and the same faults. -/
theorem Analysis.givenOrder_immaterial (config : Config) {given shuffled : List Input}
    (shuffle : given.Perm shuffled) (distinct : (given.map Input.path).Nodup)
    (scope : List String) :
    Model.build config.analysis given = Model.build config.analysis shuffled ∧
      callGraph config given scope = callGraph config shuffled scope ∧
      wiring config given scope = wiring config shuffled scope ∧
      modules config given scope = modules config shuffled scope := by
  have sameModel : Model.build config.analysis given = Model.build config.analysis shuffled :=
    Model.build_congr config.analysis (orderInputs_eq_of_perm shuffle distinct)
  have sameRun : ∀ pass, run config given scope pass = run config shuffled scope pass := by
    intro pass
    unfold run
    rw [sameModel]
  exact ⟨sameModel, sameRun _, sameRun _, sameRun _⟩

/-- Three files without content, two of which are spellings of one path. -/
def spelledTwice : List Input :=
  ["b.ts", "lib/../a.ts", "./a.ts"].map fun path =>
    { path, text := "", tree := some (.node ⟨.program, none, true, false, 0, 0⟩ []) }

/-- Of the two spellings the same one is kept when the files are given from the last to the
first. -/
theorem Analysis.givenOrder_immaterial_spelledTwice :
    spelledTwice.Perm spelledTwice.reverse ∧ (spelledTwice.map Input.path).Nodup ∧
      Model.build {} spelledTwice = Model.build {} spelledTwice.reverse ∧
      callGraph {} spelledTwice ["a.ts"] = callGraph {} spelledTwice.reverse ["a.ts"] ∧
      wiring {} spelledTwice ["a.ts"] = wiring {} spelledTwice.reverse ["a.ts"] ∧
      modules {} spelledTwice ["a.ts"] = modules {} spelledTwice.reverse ["a.ts"] := by
  have shuffle : spelledTwice.Perm spelledTwice.reverse := (List.reverse_perm _).symm
  have distinct : (spelledTwice.map Input.path).Nodup := by decide
  exact ⟨shuffle, distinct, givenOrder_immaterial {} shuffle distinct ["a.ts"]⟩

end CodeGraph
