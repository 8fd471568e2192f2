import CodeGraph.Proofs.Identity
import CodeGraph.Proofs.Text

/-!
# Numbers behind identifiers

As long as nobody asks for the numbered form of another identifier, the number that an allocator
puts behind an identifier is the number of earlier requests for it. Then what is handed out for one
identifier does not depend on the requests for others. The identifiers of declarations are of this
kind: they end in a digest, and a number does not look like one.

## Main Definitions

* `Allocator.ordinal`, `Allocator.ordinals`: an identifier by the number of earlier requests.
* `Allocator.Separate`: no request is the numbered form of another.
* `Allocator.Form`: the forms of an identifier.

## Main Statements

* `Allocator.numbered_inj`: a numbered identifier tells the identifier and the number.
* `Allocator.allocateAll_eq_ordinals`: what is handed out for separate requests.
* `Identity.compose_ne_numbered`, `Identity.separate_of_composed`: identifiers of declarations are
  separate.
-/

namespace CodeGraph

namespace Allocator

/-! ### Numbered forms -/

theorem toString_inj {m n : Nat} (same : (toString m).toList = (toString n).toList) : m = n := by
  rw [Nat.toString_eq_ofList_toDigits, Nat.toString_eq_ofList_toDigits, String.toList_ofList,
    String.toList_ofList] at same
  have values := congrArg (Nat.ofDigitChars 10 · 0) same
  simpa only [Nat.ofDigitChars_toDigits (by decide : 1 < 10) (by decide : 10 ≤ 10)] using values

/-- A number is written with digits only. -/
theorem notMem_toString {sign : Char} (other : sign.isDigit = false) (n : Nat) :
    sign ∉ (toString n).toList := by
  intro present
  rw [Nat.toString_eq_ofList_toDigits, String.toList_ofList] at present
  have digit := Nat.isDigit_of_mem_toDigits (by decide) (by decide) present
  rw [other] at digit
  cases digit

theorem toList_numbered (base : String) (n : Nat) :
    (numbered base n).toList = base.toList ++ '~' :: (toString n).toList := by
  rw [numbered, String.toList_append, String.toList_append, List.append_assoc]
  rfl

/-- A numbered identifier tells the identifier and the number. -/
theorem numbered_inj {a b : String} {m n : Nat} (same : numbered a m = numbered b n) :
    a = b ∧ m = n := by
  have lists := congrArg String.toList same
  rw [toList_numbered, toList_numbered] at lists
  obtain ⟨bases, numbers⟩ :=
    Text.append_cons_inj (notMem_toString (by decide) m) (notMem_toString (by decide) n) lists
  exact ⟨String.toList_inj.mp bases, toString_inj numbers⟩

/-- An identifier, and the numbered forms of its forms. These are all that a request for it can come
to. -/
inductive Form (base : String) : String → Prop
  | self : Form base base
  | numbered {id : String} (form : Form base id) (n : Nat) : Form base (numbered id n)

theorem form_iff {base id : String} :
    Form base id ↔ id = base ∨ ∃ inner n, id = Allocator.numbered inner n ∧ Form base inner := by
  constructor
  · rintro (_ | ⟨form, n⟩)
    · exact .inl rfl
    · exact .inr ⟨_, n, rfl, form⟩
  · rintro (rfl | ⟨inner, n, rfl, form⟩)
    · exact .self
    · exact form.numbered n

/-- No form is shorter than the identifier. -/
theorem Form.length_le {base id : String} (form : Form base id) : base.length ≤ id.length := by
  induction form with
  | self => exact Nat.le_refl _
  | numbered _ n inductionHypothesis =>
    exact Nat.le_trans inductionHypothesis (Nat.le_of_lt (length_lt_numbered _ n))

theorem Form.not_numbered {base : String} {n : Nat} : ¬ Form (Allocator.numbered base n) base :=
  fun form => absurd form.length_le (Nat.not_le_of_lt (length_lt_numbered base n))

/-- The forms of a numbered form are forms of the identifier. -/
theorem Form.of_numbered {base id : String} {n : Nat} (form : Form (Allocator.numbered base n) id) :
    Form base id := by
  induction form with
  | self => exact .numbered .self n
  | numbered _ m inductionHypothesis => exact inductionHypothesis.numbered m

/-! ### Counting requests -/

/-- What is handed out after earlier requests: the identifier itself the first time, later with the
number of earlier requests for it. -/
def ordinal (earlier : List String) (base : String) : String :=
  if earlier.count base = 0 then base else numbered base (earlier.count base)

/-- What is handed out for a list of requests after earlier ones. -/
def ordinals : (earlier : List String) → List String → List String
  | _, [] => []
  | earlier, base :: bases => ordinal earlier base :: ordinals (earlier ++ [base]) bases

/-- No request is the numbered form of another. -/
def Separate (bases : List String) : Prop :=
  ∀ a ∈ bases, ∀ b ∈ bases, ∀ n, a ≠ numbered b n

/-- What an allocator knows of some identifiers after earlier requests: how often each was asked
for, and the numbered forms that were handed out. -/
structure Counts (ids : Allocator) (bases earlier : List String) : Prop where
  /-- Every request is counted. -/
  asked : ∀ base ∈ bases, Keyed.get? ids.seen base =
    if earlier.count base = 0 then none else some (earlier.count base)
  /-- All numbers below the count were handed out, except zero. -/
  given : ∀ base ∈ bases, ∀ n,
    (Keyed.get? ids.seen (numbered base n)).isSome ↔ 0 < n ∧ n < earlier.count base

theorem counts_empty (bases : List String) : empty.Counts bases [] where
  asked _ _ := rfl
  given base _ n := by simp [empty, Keyed.get?]

variable {ids : Allocator} {bases earlier : List String} {base : String}

/-- The numbered form that comes next for an identifier is not known. -/
theorem Counts.free (separate : Separate bases) (counts : ids.Counts bases earlier)
    (present : base ∈ bases) :
    Keyed.get? (Keyed.put ids.seen base (earlier.count base + 1))
      (numbered base (earlier.count base)) = none := by
  have other : base ≠ numbered base (earlier.count base) := separate base present base present _
  rw [Keyed.get?_put, if_neg other, ← Option.not_isSome_iff_eq_none, counts.given base present]
  omega

/-- One request of separate ones is answered by its number and counted. -/
theorem Counts.allocate (separate : Separate bases) (counts : ids.Counts bases earlier)
    (present : base ∈ bases) :
    (ids.allocate base).1 = ordinal earlier base ∧
      (ids.allocate base).2.Counts bases (earlier ++ [base]) := by
  have asked := counts.asked base present
  by_cases first : earlier.count base = 0
  · rw [if_pos first] at asked
    rw [allocate_of_unknown asked, ordinal, if_pos first]
    refine ⟨rfl, ⟨fun other memOther => ?_, fun other memOther n => ?_⟩⟩
    · rw [Keyed.get?_put, counts.asked other memOther, List.count_append]
      by_cases same : base = other
      · subst same
        simp [first]
      · simp [same]
    · have notBase : base ≠ numbered other n := separate base present other memOther n
      rw [Keyed.get?_put, if_neg notBase, counts.given other memOther, List.count_append]
      by_cases same : base = other
      · subst same
        simp only [first, List.count_singleton_self]
        omega
      · simp [same]
  · rw [if_neg first] at asked
    rw [allocate_of_free asked (counts.free separate present), ordinal, if_neg first]
    refine ⟨rfl, ⟨fun other memOther => ?_, fun other memOther n => ?_⟩⟩
    · have notGiven : numbered base (earlier.count base) ≠ other :=
        (separate other memOther base present _).symm
      rw [Keyed.get?_put, if_neg notGiven, Keyed.get?_put, counts.asked other memOther,
        List.count_append]
      by_cases same : base = other
      · subst same
        simp
      · simp [same]
    · have notBase : base ≠ numbered other n := separate base present other memOther n
      rw [Keyed.get?_put, Keyed.get?_put, if_neg notBase, List.count_append]
      by_cases same : base = other
      · subst same
        by_cases last : earlier.count base = n
        · simp [last]
          omega
        · have notLast : numbered base (earlier.count base) ≠ numbered base n :=
            fun equal => last (numbered_inj equal).2
          rw [if_neg notLast, counts.given base memOther, List.count_singleton_self]
          omega
      · have notGiven : numbered base (earlier.count base) ≠ numbered other n :=
          fun equal => same (numbered_inj equal).1
        rw [if_neg notGiven, counts.given other memOther]
        simp [same]

/-- What is handed out for separate requests: the k-th request for an identifier has the number k,
counted from zero. -/
theorem Counts.allocateAll_eq_ordinals {requests : List String} (separate : Separate bases)
    (counts : ids.Counts bases earlier) (known : requests ⊆ bases) :
    ids.allocateAll requests = ordinals earlier requests := by
  induction requests generalizing ids earlier with
  | nil => rfl
  | cons base rest inductionHypothesis =>
    obtain ⟨present, knownRest⟩ := List.cons_subset.mp known
    obtain ⟨answer, counted⟩ := counts.allocate separate present
    rw [allocateAll_cons, ordinals, answer, inductionHypothesis counted knownRest]

theorem allocateAll_eq_ordinals (separate : Separate bases) :
    empty.allocateAll bases = ordinals [] bases :=
  (counts_empty bases).allocateAll_eq_ordinals separate (List.Subset.refl bases)

/-- Requests that are left out change nothing for requests of other identifiers. -/
theorem ordinals_filter {α : Type} {base : α → String} {keep : α → Bool} {requests : List α}
    {earlier fewer : List String}
    (apart : ∀ a ∈ requests, ∀ b ∈ requests, keep a = true → keep b = false → base a ≠ base b)
    (counted : ∀ a ∈ requests, keep a = true → earlier.count (base a) = fewer.count (base a)) :
    ((ordinals earlier (requests.map base)).zip requests).filter (keep ·.2) =
      (ordinals fewer ((requests.filter keep).map base)).zip (requests.filter keep) := by
  induction requests generalizing earlier fewer with
  | nil => rfl
  | cons first rest inductionHypothesis =>
    have apartRest : ∀ a ∈ rest, ∀ b ∈ rest, keep a = true → keep b = false → base a ≠ base b :=
      fun a memA b memB => apart a (List.mem_cons_of_mem _ memA) b (List.mem_cons_of_mem _ memB)
    rw [List.map_cons, ordinals, List.zip_cons_cons]
    by_cases kept : keep first = true
    · have same := counted first List.mem_cons_self kept
      rw [List.filter_cons_of_pos (by exact kept), List.filter_cons_of_pos kept, List.map_cons,
        ordinals, List.zip_cons_cons, ordinal, ordinal, same]
      refine congrArg _ (inductionHypothesis apartRest fun a present keptA => ?_)
      rw [List.count_append, List.count_append,
        counted a (List.mem_cons_of_mem _ present) keptA]
    · have dropped : keep first = false := by simpa using kept
      rw [List.filter_cons_of_neg (by exact kept), List.filter_cons_of_neg kept]
      refine inductionHypothesis apartRest fun a present keptA => ?_
      have other : base first ≠ base a :=
        (apart a (List.mem_cons_of_mem _ present) first List.mem_cons_self keptA dropped).symm
      rw [List.count_append, counted a (List.mem_cons_of_mem _ present) keptA]
      simp [other]

end Allocator

/-! ### Identifiers of declarations -/

namespace Identity

theorem toList_compose (file qualified signature : String) :
    (compose file qualified signature).toList =
      (file ++ "::" ++ qualified).toList ++ '#' :: (Digest.short signature).toList := by
  rw [compose, String.toList_append, String.toList_append, List.append_assoc]
  rfl

/-- Behind the last `#` of a form of a declaration's identifier stands the digest, and what numbers
have put after it. -/
theorem exists_tail_of_form {file qualified signature id : String}
    (form : Allocator.Form (compose file qualified signature) id) :
    ∃ front tail, id.toList = front ++ '#' :: tail ∧ '#' ∉ tail := by
  induction form with
  | self => exact ⟨_, _, toList_compose _ _ _, Digest.notMem_short (by decide) signature⟩
  | numbered _ n inductionHypothesis =>
    obtain ⟨front, tail, split, free⟩ := inductionHypothesis
    refine ⟨front, tail ++ '~' :: (toString n).toList, ?_, ?_⟩
    · rw [Allocator.toList_numbered, split, List.append_assoc, List.cons_append]
    · rw [List.mem_append, List.mem_cons, not_or, not_or]
      exact ⟨free, by decide, Allocator.notMem_toString (by decide) n⟩

/-- An identifier of a declaration is not the numbered form of another, nor of a form of another: a
digest does not look like a number. -/
theorem compose_ne_numbered {file qualified signature otherFile otherQualified otherSignature id :
    String} (form : Allocator.Form (compose otherFile otherQualified otherSignature) id) (n : Nat) :
    compose file qualified signature ≠ Allocator.numbered id n := by
  intro same
  obtain ⟨front, tail, split, free⟩ := exists_tail_of_form form
  have lists := congrArg String.toList same
  rw [Allocator.toList_numbered, toList_compose, split, List.append_assoc,
    List.cons_append] at lists
  have digest : '#' ∉ (Digest.short signature).toList := Digest.notMem_short (by decide) signature
  have rest : '#' ∉ tail ++ '~' :: (toString n).toList := by
    rw [List.mem_append, List.mem_cons, not_or, not_or]
    exact ⟨free, by decide, Allocator.notMem_toString (by decide) n⟩
  obtain ⟨-, tails⟩ := Text.append_cons_inj digest rest lists
  have tilde : '~' ∉ (Digest.short signature).toList := Digest.notMem_short (by decide) signature
  exact tilde (tails ▸ by simp)

/-- Identifiers of declarations are separate. -/
theorem separate_of_composed {bases : List String}
    (composed : ∀ base ∈ bases, ∃ file qualified signature,
      base = compose file qualified signature) : Allocator.Separate bases := by
  intro a memA b memB n
  obtain ⟨file, qualified, signature, rfl⟩ := composed a memA
  obtain ⟨otherFile, otherQualified, otherSignature, rfl⟩ := composed b memB
  exact compose_ne_numbered .self n

end Identity

end CodeGraph
