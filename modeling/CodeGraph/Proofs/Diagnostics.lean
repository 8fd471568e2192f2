import CodeGraph.Calls.Graph
import CodeGraph.Proofs.Keyed

/-!
# The counters of call sites balance

Every call site is counted once: as resolved or not, under the strategy of its call, and as
recursive when it leads back to its caller. A site that is resolved and not recursive gives an edge,
and no other site does. So the counters agree with each other and with the edges.

The counters are kept by one run over all sites. What they count is shown site by site: each counter
counts some of the sites met so far, and one more site changes both sides alike.

## Main Definitions

* `Diagnostics.Balanced`: the counters agree with each other.
* `Program.Counts`: what each counter counts, after some call sites.
* `Program.BalancedCalls`: the counters agree with the callables and with the edges.

## Main Statements

* `Diagnostics.Balanced.record`: counting one call keeps the balance.
* `Program.Counts.recordSite`, `Program.counts_foldl`: what is counted after one site and after a
  run.
* `Program.length_siteEdges`: each resolved site is recursive or gives an edge.
* `Program.callCounters_balanced`: the counters of every program balance.
-/

namespace CodeGraph

namespace Diagnostics

/-- How many calls of a strategy were resolved, and how many there are. -/
def ofStrategy (counters : Diagnostics) (strategy : CallStrategy) : Nat × Nat :=
  (Keyed.get? counters.byStrategy strategy).getD (0, 0)

/-- The counters agree with each other. -/
structure Balanced (counters : Diagnostics) : Prop where
  /-- A call is resolved or unresolved. -/
  parts : counters.resolved + counters.unresolved = counters.total
  /-- No strategy has two entries. -/
  strategies : (Keyed.keys counters.byStrategy).Nodup
  /-- The calls of all strategies are all calls. -/
  totals : (counters.byStrategy.map fun entry => entry.2.2).sum = counters.total
  /-- The resolved calls of all strategies are all resolved calls. -/
  hits : (counters.byStrategy.map fun entry => entry.2.1).sum = counters.resolved
  /-- No strategy has more resolved calls than calls. -/
  within : ∀ entry ∈ counters.byStrategy, entry.2.1 ≤ entry.2.2

variable {counters : Diagnostics}

/-! ### Counting one call -/

theorem byStrategy_record (counters : Diagnostics) (strategy : CallStrategy) (resolved : Bool) :
    (counters.record strategy resolved).byStrategy =
      Keyed.put counters.byStrategy strategy ((counters.ofStrategy strategy).1 + resolved.toNat,
        (counters.ofStrategy strategy).2 + 1) := rfl

theorem ofStrategy_record (counters : Diagnostics) (strategy asked : CallStrategy)
    (resolved : Bool) :
    (counters.record strategy resolved).ofStrategy asked =
      if strategy = asked then
        ((counters.ofStrategy asked).1 + resolved.toNat, (counters.ofStrategy asked).2 + 1)
      else counters.ofStrategy asked := by
  rw [ofStrategy, byStrategy_record, Keyed.get?_put]
  split
  · next same => rw [Option.getD_some, same]
  · rfl

/-- The sum over the strategies grows by what the entry of one strategy grows by. -/
theorem sum_record (weight : Nat × Nat → Nat) (weightless : weight (0, 0) = 0)
    (counters : Diagnostics) (strategy : CallStrategy) (resolved : Bool) :
    ((counters.record strategy resolved).byStrategy.map fun entry => weight entry.2).sum
        + weight (counters.ofStrategy strategy) =
      (counters.byStrategy.map fun entry => weight entry.2).sum
        + weight ((counters.ofStrategy strategy).1 + resolved.toNat,
            (counters.ofStrategy strategy).2 + 1) := by
  have old : ((Keyed.get? counters.byStrategy strategy).map weight).getD 0 =
      weight (counters.ofStrategy strategy) := by
    rw [ofStrategy]
    cases Keyed.get? counters.byStrategy strategy with
    | none => exact weightless.symm
    | some entry => rfl
  rw [byStrategy_record, ← old]
  exact Keyed.sum_put weight counters.byStrategy strategy _

theorem balanced_empty : ({} : Diagnostics).Balanced where
  parts := rfl
  strategies := List.nodup_nil
  totals := rfl
  hits := rfl
  within := by
    intro entry present
    cases present

theorem Balanced.ofStrategy_le (balanced : counters.Balanced) (strategy : CallStrategy) :
    (counters.ofStrategy strategy).1 ≤ (counters.ofStrategy strategy).2 := by
  rw [ofStrategy]
  cases look : Keyed.get? counters.byStrategy strategy with
  | none => exact Nat.le_refl 0
  | some entry => exact balanced.within _ (Keyed.mem_of_get?_eq_some look)

/-- Counting one call keeps the balance. -/
theorem Balanced.record (balanced : counters.Balanced) (strategy : CallStrategy)
    (resolved : Bool) : (counters.record strategy resolved).Balanced := by
  have parts := balanced.parts
  have totals := balanced.totals
  have hits := balanced.hits
  refine ⟨?_, Keyed.nodup_keys_put balanced.strategies _ _, ?_, ?_, ?_⟩
  · show counters.resolved + resolved.toNat + (counters.unresolved + (!resolved).toNat) =
      counters.total + 1
    cases resolved with
    | true => simp only [Bool.toNat_true, Bool.not_true, Bool.toNat_false]; omega
    | false => simp only [Bool.toNat_true, Bool.not_false, Bool.toNat_false]; omega
  · have grown := sum_record Prod.snd rfl counters strategy resolved
    show _ = counters.total + 1
    omega
  · have grown := sum_record Prod.fst rfl counters strategy resolved
    show _ = counters.resolved + resolved.toNat
    omega
  · intro entry present
    rcases Keyed.eq_or_mem_of_mem_put present with rfl | old
    · have le := balanced.ofStrategy_le strategy
      have one := Bool.toNat_le resolved
      show (counters.ofStrategy strategy).1 + resolved.toNat ≤ (counters.ofStrategy strategy).2 + 1
      omega
    · exact balanced.within entry old

/-- Counting a call as recursive does not touch the balance. -/
theorem Balanced.recordRecursive (balanced : counters.Balanced) :
    counters.recordRecursive.Balanced :=
  ⟨balanced.parts, balanced.strategies, balanced.totals, balanced.hits, balanced.within⟩

end Diagnostics

/-- Whether the call of a site has a strategy. -/
def CallSite.uses (strategy : CallStrategy) (site : CallSite) : Bool :=
  CallStrategy.ofCall site.call = strategy

namespace Program

open CallSite (uses)

variable {program : Program} {collected : Collected}

/-! ### Counting call sites -/

/-- Whether the call of a site leads to a collected callable. -/
def resolves (program : Program) (collected : Collected) (site : CallSite) : Bool :=
  (program.callee? collected site.call).isSome

/-- Whether the call of a site leads back to its caller. -/
def recurs (program : Program) (collected : Collected) (site : CallSite) : Bool :=
  (program.callee? collected site.call).any fun callee => callee.id = site.caller.id

/-- What each counter counts, after some call sites. -/
structure Counts (program : Program) (collected : Collected) (sites : List CallSite)
    (counters : Diagnostics) : Prop where
  /-- All calls. -/
  total : counters.total = sites.length
  /-- Calls that lead to a collected callable. -/
  resolved : counters.resolved = sites.countP (program.resolves collected)
  /-- Calls that lead back to their caller. -/
  recursive : counters.recursive = sites.countP (program.recurs collected)
  /-- The calls of each strategy, and those of them that lead to a collected callable. -/
  ofStrategy : ∀ strategy, counters.ofStrategy strategy =
    ((sites.filter (uses strategy)).countP (program.resolves collected),
      sites.countP (uses strategy))
  /-- The counters agree with each other. -/
  balanced : counters.Balanced

theorem recordSite_eq (program : Program) (collected : Collected) (counters : Diagnostics)
    (site : CallSite) :
    program.recordSite collected counters site =
      if program.recurs collected site then
        (counters.record (CallStrategy.ofCall site.call)
          (program.resolves collected site)).recordRecursive
      else counters.record (CallStrategy.ofCall site.call) (program.resolves collected site) := rfl

theorem counts_nil : program.Counts collected [] {} where
  total := rfl
  resolved := rfl
  recursive := rfl
  ofStrategy _ := rfl
  balanced := Diagnostics.balanced_empty

/-- One more site. -/
theorem Counts.recordSite {sites : List CallSite} {counters : Diagnostics}
    (counts : program.Counts collected sites counters) (site : CallSite) :
    program.Counts collected (sites ++ [site]) (program.recordSite collected counters site) := by
  have resolved : counters.resolved + (program.resolves collected site).toNat =
      (sites ++ [site]).countP (program.resolves collected) := by
    rw [List.countP_append, counts.resolved, List.countP_singleton]
    cases program.resolves collected site <;> rfl
  have recursive : counters.recursive + (program.recurs collected site).toNat =
      (sites ++ [site]).countP (program.recurs collected) := by
    rw [List.countP_append, counts.recursive, List.countP_singleton]
    cases program.recurs collected site <;> rfl
  have total : counters.total + 1 = (sites ++ [site]).length := by
    rw [counts.total, List.length_append, List.length_singleton]
  have ofStrategy : ∀ strategy,
      (counters.record (CallStrategy.ofCall site.call)
        (program.resolves collected site)).ofStrategy strategy =
          (((sites ++ [site]).filter (uses strategy)).countP (program.resolves collected),
            (sites ++ [site]).countP (uses strategy)) := by
    intro strategy
    rw [Diagnostics.ofStrategy_record, counts.ofStrategy, List.filter_append, List.countP_append,
      List.countP_append, List.countP_singleton]
    by_cases same : CallStrategy.ofCall site.call = strategy
    · have used : uses strategy site = true := decide_eq_true same
      rw [if_pos same, if_pos used, List.filter_cons_of_pos used, List.filter_nil,
        List.countP_singleton]
      cases program.resolves collected site <;> rfl
    · have unused : uses strategy site = false := decide_eq_false same
      rw [if_neg same, unused, List.filter_cons_of_neg (by simp [unused])]
      rfl
  have balanced := counts.balanced.record (CallStrategy.ofCall site.call)
    (program.resolves collected site)
  rw [recordSite_eq]
  -- The mark of a recursive call touches no other counter.
  split
  · next back =>
    rw [back] at recursive
    exact ⟨total, resolved, recursive, ofStrategy, balanced.recordRecursive⟩
  · next away =>
    rw [Bool.not_eq_true] at away
    rw [away] at recursive
    exact ⟨total, resolved, recursive, ofStrategy, balanced⟩

/-- Any run over sites. -/
theorem counts_foldl (program : Program) (collected : Collected) (sites : List CallSite) :
    program.Counts collected sites (sites.foldl (program.recordSite collected) {}) := by
  induction sites using List.reverseRecOn with
  | nil => exact counts_nil
  | append_singleton earlier last inductionHypothesis =>
    rw [List.foldl_append, List.foldl_cons, List.foldl_nil]
    exact inductionHypothesis.recordSite last

/-! ### Edges -/

/-- Each resolved site is recursive or gives an edge. -/
theorem length_siteEdges (program : Program) (collected : Collected) (sites : List CallSite) :
    (sites.filterMap (program.siteEdge? collected)).length
        + sites.countP (program.recurs collected) =
      sites.countP (program.resolves collected) := by
  induction sites with
  | nil => rfl
  | cons site sites inductionHypothesis =>
    rw [List.filterMap_cons, List.countP_cons, List.countP_cons, siteEdge?, recurs, resolves]
    cases program.callee? collected site.call with
    | none => exact inductionHypothesis
    | some callee =>
      by_cases same : callee.id = site.caller.id
      · simp only [same, if_true, Option.any_some, decide_true, Option.isSome_some]
        omega
      · simp only [same, if_false, Option.any_some, decide_false, Option.isSome_some, if_true,
          List.length_cons, Bool.false_eq_true]
        omega

/-! ### The counters of a program -/

/-- The counters of a run agree with the callables and with the edges that the run gives. -/
structure BalancedCalls (program : Program) (collected : Collected) (edges : List GraphEdge)
    (counters : Diagnostics) : Prop where
  /-- The calls of all callables are counted. -/
  total : counters.total =
    (collected.callables.map fun callable => callable.function.callSites.length).sum
  /-- The counters agree with each other. -/
  balanced : counters.Balanced
  /-- Recursive calls are resolved. -/
  recursive : counters.recursive ≤ counters.resolved
  /-- The other resolved calls are the edges. -/
  edges : edges.length = counters.resolved - counters.recursive
  /-- Each counter counts the sites that it is named for. -/
  counts : program.Counts collected collected.sites counters

theorem length_sites (collected : Collected) :
    collected.sites.length =
      (collected.callables.map fun callable => callable.function.callSites.length).sum := by
  rw [Collected.sites, List.length_flatMap]
  simp only [List.length_map]

/-- The counters of all call sites balance, for every program and all collected callables. -/
theorem callCounters_balanced (program : Program) (collected : Collected) :
    program.BalancedCalls collected (program.callEdges collected)
      (program.callDiagnostics collected) := by
  have counts : program.Counts collected collected.sites (program.callDiagnostics collected) :=
    counts_foldl program collected collected.sites
  have edges : (program.callEdges collected).length
      + (program.callDiagnostics collected).recursive =
        (program.callDiagnostics collected).resolved := by
    rw [counts.recursive, counts.resolved]
    exact length_siteEdges program collected collected.sites
  refine ⟨?_, counts.balanced, ?_, ?_, counts⟩
  · rw [counts.total, length_sites]
  · omega
  · omega

end Program

end CodeGraph
