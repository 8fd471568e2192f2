import CodeGraph.Identity
import CodeGraph.Text.Part
import Mathlib.Data.List.Basic

/-!
# Texts that can be taken apart

Identifiers and file keys are put together from parts with a sign between them. What follows the
last such sign never holds the sign itself, so the parts can be told from the whole.

## Main Statements

* `Text.append_cons_inj`, `Text.append_cons_inj_of_head`: the last and the first occurrence of a
  character cut a text in one way.
* `Text.dropWhile_reverse_append`: a search from the end finds this cut.
* `Digest.notMem_short`: a short digest holds hexadecimal digits only.
-/

namespace CodeGraph

/-- The last occurrence of a character cuts a text in one way. -/
theorem Text.append_cons_inj {sign : Char} {head otherHead tail otherTail : List Char}
    (free : sign ∉ tail) (otherFree : sign ∉ otherTail)
    (same : head ++ sign :: tail = otherHead ++ sign :: otherTail) :
    head = otherHead ∧ tail = otherTail := by
  rcases List.append_eq_append_iff.mp same with ⟨more, rfl, cut⟩ | ⟨more, rfl, cut⟩
  · cases more with
    | nil => exact ⟨(List.append_nil head).symm, (List.cons.inj cut).2⟩
    | cons first rest =>
      obtain ⟨-, rfl⟩ := List.cons.inj cut
      exact absurd (List.mem_append_right rest List.mem_cons_self) free
  · cases more with
    | nil => exact ⟨List.append_nil otherHead, (List.cons.inj cut).2.symm⟩
    | cons first rest =>
      obtain ⟨-, rfl⟩ := List.cons.inj cut
      exact absurd (List.mem_append_right rest List.mem_cons_self) otherFree

/-- The first occurrence of a character cuts a text in one way. -/
theorem Text.append_cons_inj_of_head {sign : Char} {head otherHead tail otherTail : List Char}
    (free : sign ∉ head) (otherFree : sign ∉ otherHead)
    (same : head ++ sign :: tail = otherHead ++ sign :: otherTail) :
    head = otherHead ∧ tail = otherTail := by
  -- Read from the end the first occurrence is the last one.
  have reversed := congrArg List.reverse same
  simp only [List.reverse_append, List.reverse_cons, List.append_assoc,
    List.singleton_append] at reversed
  obtain ⟨tails, heads⟩ := append_cons_inj (mt List.mem_reverse.mp free)
    (mt List.mem_reverse.mp otherFree) reversed
  exact ⟨List.reverse_inj.mp heads, List.reverse_inj.mp tails⟩

/-- A search from the end passes over all of a text that does not hold what is searched. -/
theorem Text.notSign_of_mem_reverse {sign : Char} {cs : List Char} (free : sign ∉ cs) :
    ∀ c ∈ cs.reverse, decide (c ≠ sign) = true := fun _ present =>
  decide_eq_true (ne_of_mem_of_not_mem (List.mem_reverse.mp present) free)

/-- A search from the end stops at the last occurrence. -/
theorem Text.dropWhile_reverse_append {sign : Char} {head tail : List Char} (free : sign ∉ tail) :
    (head ++ sign :: tail).reverse.dropWhile (· ≠ sign) = sign :: head.reverse := by
  rw [List.reverse_append, List.reverse_cons, List.append_assoc,
    List.dropWhile_append_of_pos (notSign_of_mem_reverse free)]
  simp

/-- A text without its head is what follows the head. -/
theorem Text.withoutHead?_eq_some_iff {head cs rest : List Char} :
    withoutHead? head cs = some rest ↔ cs = head ++ rest := by
  rw [withoutHead?]
  constructor
  · intro found
    split at found
    · next inFront =>
      cases found
      exact (List.prefix_iff_eq_append.mp (List.isPrefixOf_iff_prefix.mp inFront)).symm
    · cases found
  · rintro rfl
    rw [if_pos (List.isPrefixOf_iff_prefix.mpr (List.prefix_append head rest)), List.drop_left]

/-- A text without its tail is what comes before the tail. -/
theorem Text.withoutTail?_eq_some_iff {tail cs front : List Char} :
    withoutTail? tail cs = some front ↔ cs = front ++ tail := by
  rw [withoutTail?]
  constructor
  · intro found
    split at found
    · next atEnd =>
      cases found
      exact (List.suffix_iff_eq_append.mp (List.isSuffixOf_iff_suffix.mp atEnd)).symm
    · cases found
  · rintro rfl
    rw [if_pos (List.isSuffixOf_iff_suffix.mpr (List.suffix_append front tail)),
      List.length_append, Nat.add_sub_cancel, List.take_left]

/-! ### Hexadecimal digits -/

/-- The lowercase hexadecimal digits. -/
def Text.hexAlphabet : List Char :=
  ['0', '1', '2', '3', '4', '5', '6', '7', '8', '9', 'a', 'b', 'c', 'd', 'e', 'f']

theorem Text.hexDigit_mem (n : Nat) : hexDigit n ∈ hexAlphabet := by
  have small : n % 16 < 16 := Nat.mod_lt n (by decide)
  have all : ∀ digit < 16, (if digit < 10 then Char.ofNat (48 + digit)
      else Char.ofNat (87 + digit)) ∈ hexAlphabet := by decide
  exact all (n % 16) small

theorem Text.mem_hexAlphabet {width n : Nat} {c : Char} (present : c ∈ hexDigits width n) :
    c ∈ hexAlphabet := by
  induction width generalizing n with
  | zero => cases present
  | succ width inductionHypothesis =>
    rw [hexDigits, List.mem_append, List.mem_singleton] at present
    rcases present with higher | rfl
    · exact inductionHypothesis higher
    · exact hexDigit_mem n

/-- A short digest holds hexadecimal digits only. -/
theorem Digest.notMem_short {sign : Char} (other : sign ∉ Text.hexAlphabet) (text : String) :
    sign ∉ (short text).toList := by
  rw [short, String.toList_ofList]
  exact fun present => other (Text.mem_hexAlphabet present)

end CodeGraph
