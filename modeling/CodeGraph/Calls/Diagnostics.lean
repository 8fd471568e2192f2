import CodeGraph.Calls.Site

/-!
# How well calls are resolved

## Main Definitions

* `Diagnostics`: counters of resolved and unresolved calls.
* `Diagnostics.record`: counts one call.
* `Diagnostics.rate`: the share of calls that were resolved.
-/

namespace CodeGraph

/-- Counters of the calls of one run. -/
structure Diagnostics where
  /-- All calls. -/
  total : Nat := 0
  /-- Calls that lead to a collected callable. -/
  resolved : Nat := 0
  /-- Calls that do not. -/
  unresolved : Nat := 0
  /-- Calls of a callable by itself. -/
  recursive : Nat := 0
  /-- Resolved calls and all calls by strategy, for the strategies seen. -/
  byStrategy : Keyed.Table CallStrategy (Nat × Nat) := []

namespace Diagnostics

/-- Counts one call. -/
def record (counters : Diagnostics) (strategy : CallStrategy) (resolved : Bool) : Diagnostics :=
  let (hits, all) := (Keyed.get? counters.byStrategy strategy).getD (0, 0)
  { counters with
    total := counters.total + 1
    resolved := counters.resolved + resolved.toNat
    unresolved := counters.unresolved + (!resolved).toNat
    byStrategy := Keyed.put counters.byStrategy strategy (hits + resolved.toNat, all + 1) }

/-- Counts one call of a callable by itself, which was recorded already. -/
def recordRecursive (counters : Diagnostics) : Diagnostics :=
  { counters with recursive := counters.recursive + 1 }

/-- The share of calls that were resolved; zero when there is no call. -/
def rate (counters : Diagnostics) : Float :=
  if counters.total = 0 then 0 else counters.resolved.toFloat / counters.total.toFloat

end Diagnostics

end CodeGraph
