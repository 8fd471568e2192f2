import CodeGraph.Keyed
import Mathlib.Algebra.Ring.Nat
import Mathlib.Data.List.Dedup
import Mathlib.Data.List.Induction
import Mathlib.Data.List.Nodup

/-!
# What keyed lists hold

Putting keeps the last record of each key and keeping the first drops all later ones. Either way no
key occurs twice, no key is lost and nothing is made up. The two agree when records with one key are
equal, and then exactly the given records are left.

## Main Definitions

* `Keyed.latest`: the last record of each key, in the order in which the keys first come.
* `Keyed.Shelf.Holds`: what a shelf holds after some records were put.

## Main Statements

* `Keyed.nodup_foldl_upsert`: each key occurs once after any run of puts.
* `Keyed.nodup_keepFirst`, `Keyed.keepFirst_prefix`: what keeping the first record leaves.
* `Keyed.mem_keepFirst_iff`: all records are kept when keys determine records.
* `Keyed.keepFirst_map`: keeping the first does not depend on the form of records and keys.
* `Keyed.keepFirst_filter`: keeping the first does not depend on records of other keys.
* `Keyed.foldl_upsert_eq_keepFirst`: putting keeps the first record when keys determine records.
* `Keyed.mem_foldl_upsert_iff`: putting keeps the last record of each key.
* `Keyed.length_foldl_upsert_eq_iff`: putting loses nothing when all keys are distinct.
* `Keyed.foldl_upsert_eq_latest`: what a run of puts leaves, and in which order.
* `Keyed.latest_append`, `Keyed.latest_append_of_subset`: the latest records, and others after them.
* `Keyed.Shelf.Holds.put`: positions stay right, and a put is the same with positions as without.
* `Keyed.get?_put`: looking a table up after a put.
* `Keyed.sum_put`: the sum over a table after a put.
* `Keyed.get?_mapValues`, `Keyed.put_mapValues`: looking up and putting after all values changed.
-/

namespace CodeGraph.Keyed

section Records

variable {α κ : Type} [DecidableEq κ] {key : α → κ}

/-- Records with one key are equal. -/
def Determines (key : α → κ) (records : List α) : Prop :=
  ∀ a ∈ records, ∀ b ∈ records, key a = key b → a = b

omit [DecidableEq κ] in
/-- Fewer records determine no less. -/
theorem Determines.of_subset {records more : List α} (determined : Determines key more)
    (part : records ⊆ more) : Determines key records :=
  fun a memA b memB => determined a (part memA) b (part memB)

omit [DecidableEq κ] in
/-- Distinct keys determine records. -/
theorem determines_of_nodup {records : List α} (distinct : (records.map key).Nodup) :
    Determines key records :=
  fun _ memA _ memB same => List.inj_on_of_nodup_map distinct memA memB same

omit [DecidableEq κ] in
/-- Groups without repetitions stay without repetitions when they are joined, if a record tells the
key of its group. -/
theorem nodup_flatMap_of_group {β : Type} (key : α → κ) (groupKey : β → κ) {groups : List β}
    {members : β → List α} (distinct : (groups.map groupKey).Nodup)
    (each : ∀ group ∈ groups, (members group).Nodup)
    (told : ∀ group ∈ groups, ∀ record ∈ members group, key record = groupKey group) :
    (groups.flatMap members).Nodup := by
  rw [List.nodup_flatMap]
  refine ⟨each, ?_⟩
  have apart : groups.Pairwise fun a b => groupKey a ≠ groupKey b := List.pairwise_map.mp distinct
  refine apart.imp_of_mem ?_
  intro first second memFirst memSecond different record inFirst inSecond
  exact different ((told first memFirst record inFirst).symm.trans
    (told second memSecond record inSecond))

/-- A choice of groups is a choice of members when members tell whether their group is chosen. -/
theorem filter_flatMap_of_told {β : Type} {members : β → List α} {chosen : β → Bool}
    {keep : α → Bool} {groups : List β}
    (told : ∀ group ∈ groups, ∀ member ∈ members group, keep member = chosen group) :
    (groups.flatMap members).filter keep = (groups.filter chosen).flatMap members := by
  induction groups with
  | nil => rfl
  | cons group rest inductionHypothesis =>
    have later := inductionHypothesis fun other present =>
      told other (List.mem_cons_of_mem _ present)
    rw [List.flatMap_cons, List.filter_append, later]
    by_cases isChosen : chosen group = true
    · have all : (members group).filter keep = members group :=
        List.filter_eq_self.mpr fun member present =>
          (told group List.mem_cons_self member present).trans isChosen
      rw [List.filter_cons_of_pos isChosen, List.flatMap_cons, all]
    · have none : (members group).filter keep = [] :=
        List.filter_eq_nil_iff.mpr fun member present =>
          told group List.mem_cons_self member present ▸ isChosen
      rw [List.filter_cons_of_neg isChosen, none, List.nil_append]

/-! ### Putting -/

theorem upsert_cons (old : α) (rest : List α) (new : α) :
    upsert key (old :: rest) new =
      if key old = key new then new :: rest else old :: upsert key rest new := rfl

/-- A put adds nothing but its record. -/
theorem eq_or_mem_of_mem_upsert {records : List α} {new record : α}
    (present : record ∈ upsert key records new) : record = new ∨ record ∈ records := by
  induction records with
  | nil => exact Or.inl (List.mem_singleton.mp present)
  | cons old rest inductionHypothesis =>
    rw [upsert_cons] at present
    split at present
    · rcases List.mem_cons.mp present with rfl | later
      · exact Or.inl rfl
      · exact Or.inr (List.mem_cons_of_mem _ later)
    · rcases List.mem_cons.mp present with rfl | later
      · exact Or.inr List.mem_cons_self
      · exact (inductionHypothesis later).imp_right (List.mem_cons_of_mem _)

/-- The keys after a put: a key that is there stays in its place, a new one comes last. -/
theorem map_key_upsert (records : List α) (new : α) :
    (upsert key records new).map key = (insertNew key records new).map key := by
  induction records with
  | nil => simp [upsert, insertNew]
  | cons old rest inductionHypothesis =>
    rw [upsert_cons]
    by_cases same : key old = key new
    · simp [insertNew, same]
    · have different : key new ≠ key old := fun equal => same equal.symm
      rw [if_neg same, List.map_cons, inductionHypothesis]
      by_cases later : key new ∈ rest.map key <;> simp [insertNew, later, different]

/-! ### Keeping the first -/

/-- A new record comes last, and only when its key is new. -/
theorem mem_insertNew_iff {kept : List α} {new record : α} :
    record ∈ insertNew key kept new ↔
      record ∈ kept ∨ record = new ∧ key new ∉ kept.map key := by
  rw [insertNew]
  split
  · next old => simp only [old, not_true, and_false, or_false]
  · next fresh =>
    simp only [List.mem_append, List.mem_singleton, fresh, not_false_eq_true, and_true]

/-- What was kept stays in front. So keeping the first record never moves one. -/
theorem prefix_insertNew (kept : List α) (new : α) : kept <+: insertNew key kept new := by
  rw [insertNew]
  split
  · exact List.prefix_rfl
  · exact List.prefix_append kept [new]

/-- The key of a given record is there afterwards, whether the record was kept or not. -/
theorem key_mem_insertNew (kept : List α) (new : α) :
    key new ∈ (insertNew key kept new).map key := by
  rw [insertNew]
  split
  · next old => exact old
  · simp

/-- A record is only added under a new key. -/
theorem nodup_insertNew {kept : List α} (distinct : (kept.map key).Nodup) (new : α) :
    ((insertNew key kept new).map key).Nodup := by
  rw [insertNew]
  split
  · exact distinct
  · next fresh =>
    rw [List.map_append, List.map_singleton, List.nodup_append]
    refine ⟨distinct, List.nodup_singleton _, ?_⟩
    rintro old present _ last rfl
    exact fresh (List.mem_singleton.mp last ▸ present)

/-- A run keeps what was kept before it in front. -/
theorem prefix_foldl_insertNew (kept news : List α) : kept <+: news.foldl (insertNew key) kept := by
  induction news generalizing kept with
  | nil => exact List.prefix_rfl
  | cons new rest inductionHypothesis =>
    exact (prefix_insertNew kept new).trans (inductionHypothesis _)

/-- A run makes nothing up. -/
theorem mem_of_mem_foldl_insertNew {kept news : List α} {record : α}
    (present : record ∈ news.foldl (insertNew key) kept) : record ∈ kept ∨ record ∈ news := by
  induction news generalizing kept with
  | nil => exact Or.inl present
  | cons new rest inductionHypothesis =>
    rcases inductionHypothesis present with earlier | later
    · rcases mem_insertNew_iff.mp earlier with old | ⟨rfl, -⟩
      · exact Or.inl old
      · exact Or.inr List.mem_cons_self
    · exact Or.inr (List.mem_cons_of_mem _ later)

/-- No run puts a key twice. -/
theorem nodup_foldl_insertNew {kept : List α} (distinct : (kept.map key).Nodup) (news : List α) :
    ((news.foldl (insertNew key) kept).map key).Nodup := by
  induction news generalizing kept with
  | nil => exact distinct
  | cons new rest inductionHypothesis => exact inductionHypothesis (nodup_insertNew distinct new)

/-- No run loses a key. -/
theorem key_mem_foldl_insertNew {kept news : List α} {record : α} (given : record ∈ news) :
    key record ∈ (news.foldl (insertNew key) kept).map key := by
  induction news generalizing kept with
  | nil => cases given
  | cons new rest inductionHypothesis =>
    rcases List.mem_cons.mp given with rfl | later
    · have stays : insertNew key kept record ⊆ rest.foldl (insertNew key) _ :=
        (prefix_foldl_insertNew _ rest).subset
      exact List.map_subset key stays (key_mem_insertNew kept record)
    · exact inductionHypothesis later

/-- Keeping the first record of each key adds nothing. -/
theorem mem_of_mem_keepFirst {records : List α} {record : α}
    (present : record ∈ keepFirst key records) : record ∈ records :=
  (mem_of_mem_foldl_insertNew present).resolve_left List.not_mem_nil

/-- Each key is kept once. -/
theorem nodup_keepFirst (records : List α) : ((keepFirst key records).map key).Nodup :=
  nodup_foldl_insertNew (by simp) records

/-- What is kept of the first records does not depend on those that follow. -/
theorem keepFirst_prefix (records more : List α) :
    keepFirst key records <+: keepFirst key (records ++ more) := by
  rw [keepFirst, keepFirst, List.foldl_append]
  exact prefix_foldl_insertNew _ more

/-- All records are kept when keys determine records. -/
theorem mem_keepFirst_iff {records : List α} (determined : Determines key records) {record : α} :
    record ∈ keepFirst key records ↔ record ∈ records := by
  refine ⟨mem_of_mem_keepFirst, fun given => ?_⟩
  have keyKept : key record ∈ (keepFirst key records).map key := key_mem_foldl_insertNew given
  obtain ⟨kept, present, same⟩ := List.mem_map.mp keyKept
  have whole := determined kept (mem_of_mem_keepFirst present) record given same
  exact whole ▸ present

/-- One record more is added at the end or dropped. This is the step of inductions from the end of a
list. -/
theorem keepFirst_concat (records : List α) (last : α) :
    keepFirst key (records ++ [last]) = insertNew key (keepFirst key records) last := by
  rw [keepFirst, List.foldl_append, ← keepFirst, List.foldl_cons, List.foldl_nil]

/-- Records with distinct keys are kept as they come. -/
theorem keepFirst_of_nodup {records : List α} (distinct : (records.map key).Nodup) :
    keepFirst key records = records := by
  induction records using List.reverseRecOn with
  | nil => rfl
  | append_singleton earlier last inductionHypothesis =>
    rw [List.map_append, List.nodup_append] at distinct
    have fresh : key last ∉ earlier.map key := fun present =>
      distinct.2.2 _ present _ (List.mem_singleton_self _) rfl
    rw [keepFirst_concat, inductionHypothesis distinct.1, insertNew, if_neg fresh]

/-- Keeping the first commutes with a change of the records that keeps keys apart. -/
theorem keepFirst_map {β ι : Type} [DecidableEq ι] {other : β → ι} {change : α → β}
    {records : List α}
    (apart : ∀ a ∈ records, ∀ b ∈ records, other (change a) = other (change b) ↔ key a = key b) :
    keepFirst other (records.map change) = (keepFirst key records).map change := by
  -- The fold runs from the front, so the last record is the one to take off.
  induction records using List.reverseRecOn with
  | nil => rfl
  | append_singleton earlier last inductionHypothesis =>
    have before : ∀ a ∈ earlier, ∀ b ∈ earlier,
        other (change a) = other (change b) ↔ key a = key b :=
      fun a memA b memB =>
        apart a (List.mem_append_left _ memA) b (List.mem_append_left _ memB)
    have seen : other (change last) ∈ ((keepFirst key earlier).map change).map other ↔
        key last ∈ (keepFirst key earlier).map key := by
      simp only [List.mem_map, exists_exists_and_eq_and]
      refine exists_congr fun record => and_congr_right fun kept => ?_
      exact apart record (List.mem_append_left _ (mem_of_mem_keepFirst kept)) last (by simp)
    rw [List.map_append, List.map_singleton, keepFirst_concat, keepFirst_concat,
      inductionHypothesis before, insertNew, insertNew]
    by_cases old : key last ∈ (keepFirst key earlier).map key
    · rw [if_pos old, if_pos (seen.mpr old)]
    · rw [if_neg old, if_neg fun present => old (seen.mp present), List.map_append,
        List.map_singleton]

/-- Keeping the first commutes with a choice of records that only looks at keys. -/
theorem keepFirst_filter {keep : α → Bool} {records : List α}
    (respects : ∀ a ∈ records, ∀ b ∈ records, key a = key b → keep a = keep b) :
    keepFirst key (records.filter keep) = (keepFirst key records).filter keep := by
  induction records using List.reverseRecOn with
  | nil => rfl
  | append_singleton earlier last inductionHypothesis =>
    have before := inductionHypothesis fun a memA b memB =>
      respects a (List.mem_append_left _ memA) b (List.mem_append_left _ memB)
    have alike : ∀ old ∈ keepFirst key earlier, key old = key last → keep old = keep last :=
      fun old present =>
        respects old (List.mem_append_left _ (mem_of_mem_keepFirst present)) last (by simp)
    rw [List.filter_append, keepFirst_concat]
    by_cases kept : keep last = true
    · -- The key of a kept record is found among all records when it is found among the kept ones.
      have seen : key last ∈ ((keepFirst key earlier).filter keep).map key ↔
          key last ∈ (keepFirst key earlier).map key := by
        simp only [List.mem_map, List.mem_filter]
        constructor
        · rintro ⟨old, ⟨present, -⟩, same⟩
          exact ⟨old, present, same⟩
        · rintro ⟨old, present, same⟩
          exact ⟨old, ⟨present, (alike old present same).trans kept⟩, same⟩
      rw [List.filter_cons_of_pos kept, List.filter_nil, keepFirst_concat, before, insertNew,
        insertNew]
      by_cases old : key last ∈ (keepFirst key earlier).map key
      · rw [if_pos old, if_pos (seen.mpr old)]
      · rw [if_neg old, if_neg fun present => old (seen.mp present), List.filter_append,
          List.filter_cons_of_pos kept, List.filter_nil]
    · rw [List.filter_cons_of_neg kept, List.filter_nil, List.append_nil, before, insertNew]
      split
      · rfl
      · rw [List.filter_append, List.filter_cons_of_neg kept, List.filter_nil, List.append_nil]

/-! ### Runs of puts -/

/-- Each key occurs once after any run of puts. -/
theorem nodup_foldl_upsert {records : List α} (distinct : (records.map key).Nodup)
    (news : List α) : ((news.foldl (upsert key) records).map key).Nodup := by
  induction news generalizing records with
  | nil => exact distinct
  | cons new rest inductionHypothesis =>
    refine inductionHypothesis ?_
    rw [map_key_upsert]
    exact nodup_insertNew distinct new

/-- A run of puts leaves nothing but what was there and what was put. -/
theorem mem_of_mem_foldl_upsert {records news : List α} {record : α}
    (present : record ∈ news.foldl (upsert key) records) : record ∈ records ∨ record ∈ news := by
  induction news generalizing records with
  | nil => exact Or.inl present
  | cons new rest inductionHypothesis =>
    rcases inductionHypothesis present with earlier | later
    · rcases eq_or_mem_of_mem_upsert earlier with rfl | old
      · exact Or.inr List.mem_cons_self
      · exact Or.inl old
    · exact Or.inr (List.mem_cons_of_mem _ later)

/-- A run of puts loses no key. -/
theorem key_mem_foldl_upsert {records news : List α} {asked : κ}
    (known : asked ∈ records.map key ∨ asked ∈ news.map key) :
    asked ∈ (news.foldl (upsert key) records).map key := by
  induction news generalizing records with
  | nil => exact known.resolve_right List.not_mem_nil
  | cons new rest inductionHypothesis =>
    refine inductionHypothesis ?_
    rw [map_key_upsert]
    rcases known with earlier | given
    · exact Or.inl (((prefix_insertNew records new).map key).subset earlier)
    · rcases List.mem_cons.mp given with rfl | later
      · exact Or.inl (key_mem_insertNew records new)
      · exact Or.inr later

/-- After a put there is its record, and what was there under other keys. -/
theorem mem_upsert_iff {records : List α} (distinct : (records.map key).Nodup) {new record : α} :
    record ∈ upsert key records new ↔
      record = new ∨ record ∈ records ∧ key record ≠ key new := by
  induction records with
  | nil => simp [upsert]
  | cons old rest inductionHypothesis =>
    rw [List.map_cons, List.nodup_cons] at distinct
    rw [upsert_cons]
    by_cases same : key old = key new
    · have others : ∀ other ∈ rest, key other ≠ key new := fun other present equal =>
        distinct.1 (same ▸ equal ▸ List.mem_map_of_mem present)
      rw [if_pos same, List.mem_cons, List.mem_cons]
      constructor
      · rintro (rfl | later)
        · exact Or.inl rfl
        · exact Or.inr ⟨Or.inr later, others record later⟩
      · rintro (rfl | ⟨rfl | later, different⟩)
        · exact Or.inl rfl
        · exact absurd same different
        · exact Or.inr later
    · rw [if_neg same, List.mem_cons, inductionHypothesis distinct.2, List.mem_cons]
      constructor
      · rintro (rfl | rfl | ⟨later, different⟩)
        · exact Or.inr ⟨Or.inl rfl, same⟩
        · exact Or.inl rfl
        · exact Or.inr ⟨Or.inr later, different⟩
      · rintro (rfl | ⟨rfl | later, different⟩)
        · exact Or.inr (Or.inl rfl)
        · exact Or.inl rfl
        · exact Or.inr (Or.inr ⟨later, different⟩)

/-- A run of puts leaves the last record of each key. -/
theorem mem_foldl_upsert_iff {news : List α} {record : α} :
    record ∈ news.foldl (upsert key) [] ↔
      (news.filter fun other => key other = key record).getLast? = some record := by
  induction news using List.reverseRecOn with
  | nil => simp
  | append_singleton earlier last inductionHypothesis =>
    have distinct : ((earlier.foldl (upsert key) []).map key).Nodup :=
      nodup_foldl_upsert (by simp) earlier
    rw [List.foldl_append, List.foldl_cons, List.foldl_nil, mem_upsert_iff distinct,
      inductionHypothesis, List.filter_append]
    by_cases same : key last = key record
    · rw [List.filter_cons_of_pos (by simpa using same), List.filter_nil,
        List.getLast?_concat, Option.some.injEq]
      constructor
      · rintro (rfl | ⟨-, different⟩)
        · rfl
        · exact absurd same.symm different
      · rintro rfl
        exact Or.inl rfl
    · rw [List.filter_cons_of_neg (by simpa using same), List.filter_nil, List.append_nil]
      constructor
      · rintro (rfl | ⟨found, -⟩)
        · exact absurd rfl same
        · exact found
      · exact fun found => Or.inr ⟨found, fun equal => same equal.symm⟩

/-- A run of puts leaves as many records as there are keys. -/
theorem length_foldl_upsert (news : List α) :
    (news.foldl (upsert key) []).length = (news.map key).dedup.length := by
  have keys : ((news.foldl (upsert key) []).map key).Perm (news.map key).dedup := by
    refine (List.perm_ext_iff_of_nodup (nodup_foldl_upsert (by simp) news)
      (List.nodup_dedup _)).mpr fun asked => ?_
    rw [List.mem_dedup]
    constructor
    · intro present
      obtain ⟨record, left, rfl⟩ := List.mem_map.mp present
      exact List.mem_map_of_mem ((mem_of_mem_foldl_upsert left).resolve_left List.not_mem_nil)
    · exact fun given => key_mem_foldl_upsert (Or.inr given)
  rw [← List.length_map key, keys.length_eq]

/-- A run of puts loses no record exactly when all keys are distinct. -/
theorem length_foldl_upsert_eq_iff {news : List α} :
    (news.foldl (upsert key) []).length = news.length ↔ (news.map key).Nodup := by
  rw [length_foldl_upsert, ← List.length_map key, ← List.dedup_eq_self]
  constructor
  · exact (List.dedup_sublist _).eq_of_length
  · exact congrArg List.length

/-- A put of what is there already changes nothing. -/
theorem upsert_eq_insertNew {records : List α} {new : α}
    (determined : ∀ old ∈ records, key old = key new → old = new) :
    upsert key records new = insertNew key records new := by
  induction records with
  | nil => rfl
  | cons old rest inductionHypothesis =>
    have later := inductionHypothesis fun record present =>
      determined record (List.mem_cons_of_mem old present)
    rw [upsert_cons, later]
    by_cases same : key old = key new
    -- The put replaces a record by itself.
    · obtain rfl := determined old List.mem_cons_self same
      simp [insertNew]
    · have different : key new ≠ key old := fun equal => same equal.symm
      by_cases present : key new ∈ rest.map key <;> simp [insertNew, same, different, present]

/-- Replacing a record by an equal one is the same as dropping the second one. -/
theorem foldl_upsert_eq_foldl_insertNew {records news : List α}
    (determined : Determines key (records ++ news)) :
    news.foldl (upsert key) records = news.foldl (insertNew key) records := by
  induction news generalizing records with
  | nil => rfl
  | cons new rest inductionHypothesis =>
    have step : upsert key records new = insertNew key records new :=
      upsert_eq_insertNew fun old present =>
        determined old (List.mem_append_left _ present) new (by simp)
    rw [List.foldl_cons, List.foldl_cons, step]
    refine inductionHypothesis (determined.of_subset fun record present => ?_)
    rcases List.mem_append.mp present with earlier | later
    · rcases mem_insertNew_iff.mp earlier with old | ⟨rfl, -⟩
      · exact List.mem_append_left _ old
      · simp
    · simp [later]

/-- Putting and keeping the first agree when keys determine records. -/
theorem foldl_upsert_eq_keepFirst {records : List α} (determined : Determines key records) :
    records.foldl (upsert key) [] = keepFirst key records :=
  foldl_upsert_eq_foldl_insertNew determined

/-! ### What a run of puts leaves -/

/-- The last record of each key, in the order in which the keys first come. -/
def latest (key : α → κ) (records : List α) : List α :=
  (records.map key).eraseDups.filterMap fun asked =>
    (records.filter fun record => key record = asked).getLast?

/-- One key more, at the end of a list without duplicates. -/
theorem eraseDups_concat (keys : List κ) (last : κ) :
    (keys ++ [last]).eraseDups =
      if last ∈ keys then keys.eraseDups else keys.eraseDups ++ [last] := by
  rw [List.eraseDups_append]
  by_cases old : last ∈ keys <;> simp [List.removeAll, List.eraseDups_cons, old]

/-- A run of puts leaves each key at the place of its first record. -/
theorem map_key_foldl_upsert (news : List α) :
    (news.foldl (upsert key) []).map key = (news.map key).eraseDups := by
  induction news using List.reverseRecOn with
  | nil => rfl
  | append_singleton earlier last inductionHypothesis =>
    rw [List.foldl_append, List.foldl_cons, List.foldl_nil, map_key_upsert, insertNew,
      inductionHypothesis, List.map_append, List.map_singleton, eraseDups_concat]
    by_cases old : key last ∈ earlier.map key
    · rw [if_pos old, if_pos (List.mem_eraseDups.mpr old), inductionHypothesis]
    · rw [if_neg old, if_neg fun present => old (List.mem_eraseDups.mp present), List.map_append,
        List.map_singleton, inductionHypothesis]

/-- A run of puts leaves the last record of each key at the place of the first. -/
theorem foldl_upsert_eq_latest (news : List α) : news.foldl (upsert key) [] = latest key news := by
  have last : ∀ record ∈ news.foldl (upsert key) [],
      some record = (news.filter fun other => key other = key record).getLast? :=
    fun record present => (mem_foldl_upsert_iff.mp present).symm
  calc news.foldl (upsert key) []
      = (news.foldl (upsert key) []).filterMap some := List.filterMap_some.symm
    _ = (news.foldl (upsert key) []).filterMap fun record =>
          (news.filter fun other => key other = key record).getLast? := List.filterMap_congr last
    _ = latest key news := by rw [latest, ← map_key_foldl_upsert, List.filterMap_map]; rfl

/-- One record more is put. This is how a run of puts comes to the latest records. -/
theorem latest_concat (records : List α) (last : α) :
    latest key (records ++ [last]) = upsert key (latest key records) last := by
  rw [← foldl_upsert_eq_latest, List.foldl_append, foldl_upsert_eq_latest, List.foldl_cons,
    List.foldl_nil]

/-- Each key occurs once among the latest records. -/
theorem nodup_latest (records : List α) : ((latest key records).map key).Nodup := by
  rw [← foldl_upsert_eq_latest]
  exact nodup_foldl_upsert (by simp) records

/-- The latest records are among those given. -/
theorem mem_of_mem_latest {records : List α} {record : α} (present : record ∈ latest key records) :
    record ∈ records := by
  rw [← foldl_upsert_eq_latest] at present
  exact (mem_of_mem_foldl_upsert present).resolve_left List.not_mem_nil

/-- Records with distinct keys are the latest ones, as they come. -/
theorem latest_of_nodup {records : List α} (distinct : (records.map key).Nodup) :
    latest key records = records := by
  rw [← foldl_upsert_eq_latest, foldl_upsert_eq_keepFirst (determines_of_nodup distinct),
    keepFirst_of_nodup distinct]

/-- The first records may be replaced by the latest of them. -/
theorem latest_append (records more : List α) :
    latest key (latest key records ++ more) = latest key (records ++ more) := by
  have again : latest key (latest key records) = latest key records :=
    latest_of_nodup (nodup_latest records)
  rw [← foldl_upsert_eq_latest, List.foldl_append, foldl_upsert_eq_latest, again,
    ← foldl_upsert_eq_latest, ← List.foldl_append, foldl_upsert_eq_latest]

/-- Records that come again change nothing. -/
theorem latest_append_of_subset {records news : List α} (distinct : (records.map key).Nodup)
    (known : news ⊆ records) : latest key (records ++ news) = records := by
  rw [← foldl_upsert_eq_latest, List.foldl_append, foldl_upsert_eq_latest, latest_of_nodup distinct]
  induction news with
  | nil => rfl
  | cons new rest inductionHypothesis =>
    obtain ⟨present, knownRest⟩ := List.cons_subset.mp known
    have step : upsert key records new = records := by
      rw [upsert_eq_insertNew fun old memOld same =>
          determines_of_nodup distinct old memOld new present same,
        insertNew, if_pos (List.mem_map_of_mem present)]
    rw [List.foldl_cons, step, inductionHypothesis knownRest]

/-! ### Searching -/

/-- Where each key occurs once, a search for the key of a record finds the record. -/
theorem find?_key_of_nodup {records : List α} (distinct : (records.map key).Nodup) {record : α}
    (present : record ∈ records) :
    records.find? (fun other => key other = key record) = some record := by
  cases look : records.find? fun other => key other = key record with
  | none =>
    have missing := List.find?_eq_none.mp look record present
    simp at missing
  | some other =>
    have same : key other = key record := by simpa using List.find?_some look
    rw [List.inj_on_of_nodup_map distinct (List.mem_of_find?_eq_some look) present same]

end Records

/-! ### Tables -/

section Table

variable {κ α : Type} [DecidableEq κ]

/-- A put is seen under its own key and nowhere else. -/
theorem get?_put (table : Table κ α) (key : κ) (value : α) (asked : κ) :
    get? (put table key value) asked = if key = asked then some value else get? table asked := by
  induction table with
  | nil => exact get?_cons (key, value) [] asked
  | cons entry rest inductionHypothesis =>
    rw [put_cons]
    by_cases same : entry.1 = key
    · rw [if_pos same, get?_cons, get?_cons, same]
      split <;> rfl
    · rw [if_neg same, get?_cons, get?_cons, inductionHypothesis]
      by_cases here : entry.1 = asked
      · have other : key ≠ asked := fun equal => same (here.trans equal.symm)
        rw [if_pos here, if_neg other, if_pos here]
      · rw [if_neg here, if_neg here]

/-- A key is found when it is among the keys. -/
theorem isSome_get?_iff {table : Table κ α} {key : κ} :
    (get? table key).isSome ↔ key ∈ keys table := by
  refine ⟨mem_keys_of_isSome table, fun present => ?_⟩
  obtain ⟨entry, memEntry, same⟩ := List.mem_map.mp present
  rw [get?, Option.isSome_map, List.find?_isSome]
  exact ⟨entry, memEntry, by simpa using same⟩

/-- A key that is there stays in its place, a new one comes last. -/
theorem keys_put (table : Table κ α) (key : κ) (value : α) :
    keys (put table key value) =
      if key ∈ keys table then keys table else keys table ++ [key] := by
  rw [keys, put, map_key_upsert, insertNew]
  by_cases old : key ∈ keys table
  · rw [if_pos old, if_pos (by exact old), keys]
  · rw [if_neg old, if_neg (by exact old), List.map_append, List.map_singleton, keys]

/-- What is found is an entry. -/
theorem mem_of_get?_eq_some {table : Table κ α} {key : κ} {value : α}
    (found : get? table key = some value) : (key, value) ∈ table := by
  rw [get?, Option.map_eq_some_iff] at found
  obtain ⟨entry, look, rfl⟩ := found
  have same : entry.1 = key := by simpa using List.find?_some look
  exact same ▸ List.mem_of_find?_eq_some look

theorem eq_or_mem_of_mem_put {table : Table κ α} {key : κ} {value : α} {entry : κ × α}
    (present : entry ∈ put table key value) : entry = (key, value) ∨ entry ∈ table :=
  eq_or_mem_of_mem_upsert present

/-- A put keeps the keys distinct. -/
theorem nodup_keys_put {table : Table κ α} (distinct : (keys table).Nodup) (key : κ) (value : α) :
    (keys (put table key value)).Nodup := by
  rw [keys, put, map_key_upsert]
  exact nodup_insertNew distinct (key, value)

/-- A put adds to the sum over a table what the new value weighs, and takes from it what the old one
did. -/
theorem sum_put (weight : α → Nat) (table : Table κ α) (key : κ) (value : α) :
    ((put table key value).map fun entry => weight entry.2).sum
        + ((get? table key).map weight).getD 0 =
      (table.map fun entry => weight entry.2).sum + weight value := by
  induction table with
  | nil => simp [put, Keyed.upsert, get?]
  | cons entry rest inductionHypothesis =>
    rw [put_cons, get?_cons]
    by_cases same : entry.1 = key
    · rw [if_pos same, if_pos same, List.map_cons, List.map_cons, List.sum_cons, List.sum_cons,
        Option.map_some, Option.getD_some]
      show weight value + _ + weight entry.2 = weight entry.2 + _ + weight value
      omega
    · rw [if_neg same, if_neg same, List.map_cons, List.map_cons, List.sum_cons, List.sum_cons]
      omega

/-! ### Changing the values -/

variable {β : Type} (change : α → β) (table : Table κ α) (key : κ)

omit [DecidableEq κ] in
/-- A table with each value changed. -/
def mapValues : Table κ β := table.map fun entry => (entry.1, change entry.2)

/-- Looking up after all values changed gives the changed value. -/
theorem get?_mapValues : get? (mapValues change table) key = (get? table key).map change := by
  rw [get?, mapValues, List.find?_map, Option.map_map, get?, Option.map_map]
  rfl

/-- Putting a changed value is the same as changing all values after the put. So a table of changed
values can be built in step with the table. -/
theorem put_mapValues (value : α) :
    put (mapValues change table) key (change value) = mapValues change (put table key value) := by
  induction table with
  | nil => rfl
  | cons entry rest inductionHypothesis =>
    rw [mapValues, List.map_cons, put_cons, put_cons]
    split
    · rfl
    · exact congrArg _ inductionHypothesis

end Table

/-! ### Positions -/

section Shelf

variable {α κ : Type} [DecidableEq κ] {key : α → κ}

/-- A put replaces the record at the position of its key. -/
theorem upsert_eq_set {records : List α} {new : α} {position : Nat}
    (distinct : (records.map key).Nodup)
    (found : (records.map key)[position]? = some (key new)) :
    upsert key records new = records.set position new := by
  induction records generalizing position with
  | nil => cases found
  | cons old rest inductionHypothesis =>
    rw [List.map_cons, List.nodup_cons] at distinct
    rw [upsert_cons]
    cases position with
    | zero =>
      rw [List.map_cons, List.getElem?_cons_zero, Option.some.injEq] at found
      rw [if_pos found, List.set_cons_zero]
    | succ position =>
      rw [List.map_cons, List.getElem?_cons_succ] at found
      have different : key old ≠ key new := fun same =>
        distinct.1 (same ▸ List.mem_of_getElem? found)
      rw [if_neg different, inductionHypothesis distinct.2 found, List.set_cons_succ]

/-- A put under a new key comes last. -/
theorem upsert_eq_append {records : List α} {new : α} (fresh : key new ∉ records.map key) :
    upsert key records new = records ++ [new] := by
  have determined : ∀ old ∈ records, key old = key new → old = new := fun old present same =>
    absurd (same ▸ List.mem_map_of_mem present) fresh
  rw [upsert_eq_insertNew determined, insertNew, if_neg fresh]

/-- What a shelf holds after some records were put: the last record of each key at the place of the
first, and for each key the position of the one record with this key. -/
structure Shelf.Holds (key : α → κ) (shelf : Shelf α κ) (given : List α) : Prop where
  /-- The records are the latest ones. -/
  records : shelf.records = latest key given
  /-- A key is found at a position exactly when the record there has the key. -/
  positions : ∀ asked position, get? shelf.positions asked = some position ↔
    (shelf.records.map key)[position]? = some asked

/-- An empty shelf holds what was put before the first put. -/
theorem Shelf.holds_empty : ({} : Shelf α κ).Holds key [] where
  records := rfl
  positions asked position := by simp [get?]

/-- One put. -/
theorem Shelf.Holds.put {shelf : Shelf α κ} {given : List α} (holds : shelf.Holds key given)
    (new : α) : (shelf.put key new).Holds key (given ++ [new]) := by
  have distinct : (shelf.records.map key).Nodup := holds.records ▸ nodup_latest given
  rw [Shelf.put]
  cases look : get? shelf.positions (key new) with
  | some position =>
    have found := (holds.positions (key new) position).mp look
    -- The record is replaced by one with the same key, so no key moves.
    have keys : (shelf.records.set position new).map key = shelf.records.map key := by
      obtain ⟨bound, there⟩ := List.getElem?_eq_some_iff.mp found
      rw [List.map_set, ← there, List.set_getElem_self]
    refine ⟨?_, fun asked other => ?_⟩
    · rw [latest_concat, ← holds.records, upsert_eq_set distinct found]
    · rw [keys]
      exact holds.positions asked other
  | none =>
    have fresh : key new ∉ shelf.records.map key := by
      intro present
      obtain ⟨position, found⟩ := List.mem_iff_getElem?.mp present
      rw [(holds.positions (key new) position).mpr found] at look
      cases look
    refine ⟨?_, fun asked position => ?_⟩
    · rw [latest_concat, ← holds.records, upsert_eq_append fresh]
    · rw [get?_put, List.map_append, List.map_singleton, List.getElem?_append, List.length_map]
      by_cases same : key new = asked
      · subst same
        rw [if_pos rfl, Option.some.injEq]
        constructor
        · rintro rfl
          simp
        · intro found
          split at found
          · exact absurd (List.mem_of_getElem? found) fresh
          · have := (List.getElem?_eq_some_iff.mp found).1
            simp at this
            omega
      · rw [if_neg same, holds.positions asked position]
        constructor
        · intro found
          have bound := (List.getElem?_eq_some_iff.mp found).1
          rw [List.length_map] at bound
          rwa [if_pos bound]
        · intro found
          split at found
          · exact found
          · exact absurd (List.mem_singleton.mp (List.mem_of_getElem? found)).symm same

end Shelf

end CodeGraph.Keyed
