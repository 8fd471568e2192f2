import CodeGraph.Identity
import CodeGraph.Proofs.Keyed

/-!
# Identifiers are handed out once

An allocator never hands out an identifier that it knows, and knows every identifier that it handed
out. So a run of requests is answered by distinct identifiers, however the requests repeat and even
when one asks for the numbered form of another.

## Main Statements

* `Allocator.fresh_allocate`, `Allocator.keys_allocate`: what one request does.
* `Allocator.nodup_allocateAll`: a run of requests is answered by distinct identifiers.
* `Allocator.allocate_of_unknown`, `Allocator.allocate_of_free`: requests that need not be asked
  again.
-/

namespace CodeGraph.Allocator

/-- An identifier that is handed out was not known before. -/
theorem fresh_allocate (ids : Allocator) (base : String) :
    (ids.allocate base).1 ∉ Keyed.keys ids.seen := by
  fun_induction allocate ids base with
  | case1 ids base unseen =>
    intro present
    rw [← Keyed.isSome_get?_iff, unseen] at present
    cases present
  -- A clash only counts the base once more, which adds no identifier.
  | case2 ids base count seen clash _ inductionHypothesis =>
    rw [Keyed.keys_put_of_isSome ids.seen (by simp [seen])] at inductionHypothesis
    exact inductionHypothesis
  | case3 ids base count seen free =>
    rw [Keyed.isSome_get?_iff, Keyed.keys_put_of_isSome ids.seen (by simp [seen])] at free
    exact free

/-- After a request exactly the identifier that was handed out is known besides the old ones. -/
theorem keys_allocate (ids : Allocator) (base : String) :
    Keyed.keys (ids.allocate base).2.seen = Keyed.keys ids.seen ++ [(ids.allocate base).1] := by
  have fresh := fresh_allocate ids base
  fun_induction allocate ids base with
  | case1 ids base unseen => rw [Keyed.keys_put, if_neg fresh]
  | case2 ids base count seen clash _ inductionHypothesis =>
    have same : Keyed.keys (Keyed.put ids.seen base (count + 1)) = Keyed.keys ids.seen :=
      Keyed.keys_put_of_isSome ids.seen (by simp [seen])
    rw [same] at inductionHypothesis
    exact inductionHypothesis fresh
  | case3 ids base count seen free =>
    rw [Keyed.isSome_get?_iff] at free
    rw [Keyed.keys_put, if_neg free, Keyed.keys_put_of_isSome ids.seen (by simp [seen])]

theorem allocateAll_cons (ids : Allocator) (base : String) (bases : List String) :
    ids.allocateAll (base :: bases) =
      (ids.allocate base).1 :: (ids.allocate base).2.allocateAll bases := rfl

@[simp] theorem length_allocateAll (ids : Allocator) (bases : List String) :
    (ids.allocateAll bases).length = bases.length := by
  induction bases generalizing ids with
  | nil => rfl
  | cons base rest inductionHypothesis =>
    rw [allocateAll_cons, List.length_cons, List.length_cons, inductionHypothesis]

/-- No identifier of a run was known before. -/
theorem fresh_of_mem_allocateAll {ids : Allocator} {bases : List String} {id : String}
    (given : id ∈ ids.allocateAll bases) : id ∉ Keyed.keys ids.seen := by
  induction bases generalizing ids with
  | nil => cases given
  | cons base rest inductionHypothesis =>
    rw [allocateAll_cons] at given
    rcases List.mem_cons.mp given with rfl | later
    · exact fresh_allocate ids base
    · have fresh := inductionHypothesis later
      rw [keys_allocate, List.mem_append, not_or] at fresh
      exact fresh.1

/-- A run of requests is answered by distinct identifiers. -/
theorem nodup_allocateAll (ids : Allocator) (bases : List String) :
    (ids.allocateAll bases).Nodup := by
  induction bases generalizing ids with
  | nil => exact List.nodup_nil
  | cons base rest inductionHypothesis =>
    rw [allocateAll_cons, List.nodup_cons]
    refine ⟨fun again => fresh_of_mem_allocateAll again ?_, inductionHypothesis _⟩
    rw [keys_allocate]
    exact List.mem_append_right _ (List.mem_singleton_self _)

/-! ### Requests that are answered at once -/

/-- An identifier that is not known is handed out as it is. -/
theorem allocate_of_unknown {ids : Allocator} {base : String}
    (unknown : Keyed.get? ids.seen base = none) :
    ids.allocate base = (base, ⟨Keyed.put ids.seen base 1⟩) := by
  rw [allocate]
  split
  · rfl
  · next seen => cases unknown.symm.trans seen

/-- A known identifier gets its count as a number, when that form is free. -/
theorem allocate_of_free {ids : Allocator} {base : String} {count : Nat}
    (seen : Keyed.get? ids.seen base = some count)
    (free : Keyed.get? (Keyed.put ids.seen base (count + 1)) (numbered base count) = none) :
    ids.allocate base = (numbered base count,
      ⟨Keyed.put (Keyed.put ids.seen base (count + 1)) (numbered base count) 1⟩) := by
  rw [allocate]
  split
  · next unseen => cases seen.symm.trans unseen
  · next other seenToo =>
    obtain rfl : count = other := Option.some.inj (seen.symm.trans seenToo)
    rw [dif_neg (by simp [free])]

end CodeGraph.Allocator
