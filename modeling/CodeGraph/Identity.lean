import CodeGraph.Digest.Xxh3
import CodeGraph.Keyed

/-!
# Stable identifiers

Nodes of a graph are named by texts that do not change as long as the declaration they stand for
does not: the file, the qualified name and a short digest of the signature. Files are named by a
key made of their project-relative path and a digest of the full path.

## Main Definitions

* `Identity.compose`: the identifier of a declaration.
* `Identity.fileKey`, `Identity.fileKeyPath`: the key of a file, and the path it was made from.
* `Allocator.allocate`: hands out each identifier once, with a numbered tail where two declarations
  ask for the same one.
* `WordAllocator.allocate`: the same with counts of 32 bits.
-/

namespace CodeGraph

namespace Identity

/-- The identifier of the declaration `qualified` of a file, with a digest of its signature. -/
def compose (file qualified signature : String) : String :=
  file ++ "::" ++ qualified ++ "#" ++ Digest.short signature

/-- The signature of a callable: its qualified name and its parameters' type texts in order. -/
def signature (qualified : String) (parameterTypes : List String) : String :=
  qualified ++ "(" ++ String.intercalate "," parameterTypes ++ ")"

/-- The name of a class member is qualified by its class; any other name stands alone. -/
def qualify : Option String → String → String
  | some owner, name => owner ++ "." ++ name
  | none, name => name

/-- Digits of the path digest in a file key. -/
def fileKeyWidth : Nat := 6

/-- The key of a file: its project-relative path and six digits of the digest of its full path. -/
def fileKey (simplified normalized : String) : String :=
  simplified ++ "#" ++ String.ofList ((Digest.short normalized).toList.take fileKeyWidth)

/-- The project-relative path a file key was made from: all before the last `#`, or the whole key
when there is none. -/
def fileKeyPath (key : String) : String :=
  match key.toList.reverse.dropWhile (· ≠ '#') with
  | [] => key
  | _ :: path => String.ofList path.reverse

end Identity

/-! ### Handing out identifiers -/

/-- The identifiers handed out so far, each with the number of times it was asked for. The numbers
have no end here; `WordAllocator` keeps them in 32 bits. -/
structure Allocator where
  /-- Every identifier handed out or asked for, with its count. -/
  seen : Keyed.Table String Nat

namespace Allocator

/-- No identifier was handed out yet. -/
def empty : Allocator := ⟨[]⟩

/-- How often an identifier was asked for. -/
def count (ids : Allocator) (id : String) : Nat :=
  (Keyed.get? ids.seen id).getD 0

/-- The identifier with a number behind it. -/
def numbered (base : String) (n : Nat) : String :=
  base ++ "~" ++ toString n

/-- Known identifiers that are longer than a given one. Only these can clash with a numbered form of
it. -/
def longer {Count : Type} (seen : Keyed.Table String Count) (base : String) : List String :=
  (Keyed.keys seen).filter fun id => base.length < id.length

theorem length_lt_numbered (base : String) (n : Nat) :
    base.length < (numbered base n).length := by
  have h : "~".length = 1 := by decide
  simp only [numbered, String.length_append, h]
  omega

/-- Fewer known identifiers are longer than a numbered form that is known itself. This is why asking
again under numbered forms comes to an end. -/
theorem longer_numbered_lt {Count : Type} {seen : Keyed.Table String Count} {base : String}
    {n : Nat} {count : Count} (known : (Keyed.get? seen base).isSome)
    (clash : (Keyed.get? (Keyed.put seen base count) (numbered base n)).isSome) :
    (longer (Keyed.put seen base count) (numbered base n)).length < (longer seen base).length := by
  have same : Keyed.keys (Keyed.put seen base count) = Keyed.keys seen :=
    Keyed.keys_put_of_isSome seen known
  have present : numbered base n ∈ Keyed.keys seen := same ▸ Keyed.mem_keys_of_isSome _ clash
  have further := length_lt_numbered base n
  have part : longer (Keyed.put seen base count) (numbered base n) =
      (longer seen base).filter fun id => (numbered base n).length < id.length := by
    rw [longer, longer, same, List.filter_filter]
    refine List.filter_congr fun id _ => ?_
    rw [← Bool.decide_and]
    exact decide_eq_decide.mpr ⟨fun longer => ⟨longer, Nat.lt_trans further longer⟩, And.left⟩
  rw [part, List.length_filter_lt_length_iff_exists]
  refine ⟨numbered base n, ?_, by simp⟩
  exact List.mem_filter.mpr ⟨present, decide_eq_true further⟩

/-- Hands out `base` the first time it is asked for, and a numbered form of it after that. A
numbered form that was handed out before is itself asked for again, so that it gets a further
number. -/
def allocate (ids : Allocator) (base : String) : String × Allocator :=
  match hb : Keyed.get? ids.seen base with
  | none => (base, ⟨Keyed.put ids.seen base 1⟩)
  | some n =>
    if hn : (Keyed.get? (Keyed.put ids.seen base (n + 1)) (numbered base n)).isSome then
      have := longer_numbered_lt (by simp [hb]) hn
      allocate ⟨Keyed.put ids.seen base (n + 1)⟩ (numbered base n)
    else (numbered base n, ⟨Keyed.put (Keyed.put ids.seen base (n + 1)) (numbered base n) 1⟩)
termination_by (longer ids.seen base).length

/-- Hands out an identifier for each of a list of bases, in order. -/
def allocateAll : Allocator → List String → List String
  | _, [] => []
  | ids, base :: bases =>
    let (id, ids) := ids.allocate base
    id :: allocateAll ids bases

end Allocator

/-! ### Counting in 32 bits -/

/-- The identifiers handed out so far, each with a count of 32 bits. After its largest value a count
begins again at zero, as the arithmetic of an optimized build does. -/
structure WordAllocator where
  /-- Every identifier handed out or asked for, with its count. -/
  seen : Keyed.Table String UInt32

namespace WordAllocator

open Allocator (numbered longer longer_numbered_lt)

/-- No identifier was handed out yet. -/
def empty : WordAllocator := ⟨[]⟩

/-- The count of an identifier. -/
def count (ids : WordAllocator) (id : String) : UInt32 :=
  (Keyed.get? ids.seen id).getD 0

/-- Whether an identifier was handed out or asked for. -/
def knows (ids : WordAllocator) (id : String) : Bool :=
  (Keyed.get? ids.seen id).isSome

/-- Counts an identifier once more. -/
def counted (ids : WordAllocator) (id : String) : WordAllocator :=
  ⟨Keyed.put ids.seen id (ids.count id + 1)⟩

/-- An identifier that is not known yet is counted for the first time. -/
theorem count_eq_zero {ids : WordAllocator} {id : String} (unknown : ids.knows id = false) :
    ids.count id = 0 := by
  rw [knows, Option.isSome_eq_false_iff, Option.isNone_iff_eq_none] at unknown
  rw [count, unknown, Option.getD_none]

/-- Hands out `base` when its count comes to one, and else its form with the number of earlier
requests. A numbered form that is known is itself asked for again, so that it gets a further
number. -/
def allocate (ids : WordAllocator) (base : String) : String × WordAllocator :=
  if isFirst : ids.count base + 1 = 1 then (base, ids.counted base)
  else
    let id := numbered base (ids.count base).toNat
    if clash : (ids.counted base).knows id then
      have known : (Keyed.get? ids.seen base).isSome := by
        rw [← Bool.not_eq_false]
        exact fun unknown => isFirst (by rw [count_eq_zero unknown]; rfl)
      have := longer_numbered_lt known clash
      allocate (ids.counted base) id
    else (id, ⟨Keyed.put (ids.counted base).seen id 1⟩)
termination_by (longer ids.seen base).length

/-- Hands out an identifier for each of a list of bases, in order. -/
def allocateAll : WordAllocator → List String → List String
  | _, [] => []
  | ids, base :: bases =>
    let (id, ids) := ids.allocate base
    id :: allocateAll ids bases

end WordAllocator

end CodeGraph
