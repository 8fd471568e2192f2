import CodeGraph.Proofs.Path.Normal
import CodeGraph.Proofs.Text

/-!
# Paths seen from a root

A path below a root is known by what follows the root. A path outside is known by itself, without
a slash in front. These two kinds of names are not told apart: a path outside the root may be
spelled like the rest of a path below it. Nothing else is blurred, and from the directory that
paths have in common none of them lies outside, unless absolute and relative paths are mixed.

## Main Definitions

* `Path.Below`: a path is the root followed by a rest.
* `Path.Blurs`: a path outside the root is spelled like another seen from the root.

## Main Statements

* `Path.relativeTo_of_below`, `Path.relativeTo_of_outside`: what a path is seen from a root.
* `Path.eq_or_blurs_of_relativeTo_eq`: when two paths are seen as one.
* `Path.exists_below_commonDir`: paths are below their common directory.
-/

namespace CodeGraph.Path

/-- A path is a root followed by a rest. Where there is no root every relative path is a rest. -/
inductive Below : (root path rest : String) → Prop
  /-- A relative path, seen from no directory. -/
  | bare {path : String} (relative : isAbsoluteChars path.toList = false) : Below "" path path
  /-- An absolute path, seen from the top. -/
  | top (rest : String) : Below "/" ("/" ++ rest) rest
  /-- A path that goes through a directory. -/
  | through {root : String} (some : root ≠ "") (notTop : root ≠ "/") (rest : String) :
      Below root (root ++ "/" ++ rest) rest

/-- A path that is not below a root. -/
def Outside (root path : String) : Prop := ∀ rest, ¬Below root path rest

/-- A path is a text or that text with a slash in front. -/
def Slashed (path rest : String) : Prop := path = rest ∨ path = "/" ++ rest

/-- A path outside a root is spelled, but for a slash in front, like what another path is seen as:
like its rest below the root or, when it lies outside too, like the path but for a slash in front.
-/
def Blurs (root path other : String) : Prop :=
  Outside root path ∧ ∃ rest, Slashed path rest ∧
    (Below root other rest ∨ Outside root other ∧ Slashed other rest)

/-! ### Ends of normal forms -/

theorem dropWhile_slash_of_relative {cs : List Char} (relative : isAbsoluteChars cs = false) :
    cs.dropWhile (· = '/') = cs := by
  cases cs with
  | nil => rfl
  | cons c rest =>
    have other : c ≠ '/' := by simpa [isAbsoluteChars] using relative
    simp [other]

/-- A normal form has at most one slash in front. -/
theorem IsNormal.dropWhile_slash {cs : List Char} (normal : IsNormal cs) :
    cs = (if isAbsoluteChars cs then ['/'] else []) ++ cs.dropWhile (· = '/') := by
  obtain ⟨absolute, stack, settled, rfl⟩ := normal
  have relative := isAbsoluteChars_unsplit settled.isPlain
  rw [isAbsoluteChars_written settled.isPlain]
  cases absolute with
  | true =>
    have bare : (written true stack.reverse).dropWhile (· = '/') = unsplit stack.reverse :=
      dropWhile_slash_of_relative relative
    rw [bare]
    rfl
  | false => exact (dropWhile_slash_of_relative relative).symm

/-- The last segment of a path ends its text. -/
theorem exists_written_concat (absolute : Bool) (front : List Segment) (last : Segment) :
    ∃ head, written absolute (front ++ [last]) = head ++ last := by
  have single : unsplit [last] = last := by simp [unsplit]
  have joined : ∃ head, unsplit (front ++ [last]) = head ++ last := by
    by_cases empty : front = []
    · exact ⟨[], by rw [empty, List.nil_append, single, List.nil_append]⟩
    · refine ⟨unsplit front ++ ['/'], ?_⟩
      rw [unsplit_append empty (List.cons_ne_nil _ _), single, List.append_assoc]
      rfl
  obtain ⟨head, same⟩ := joined
  cases absolute with
  | true => exact ⟨'/' :: head, congrArg ('/' :: ·) same⟩
  | false => exact ⟨head, same⟩

/-- A path that ends in a plain segment has no slash to lose at its end. -/
theorem dropTail_slash_append {head last : List Char} (plain : IsPlain last) :
    Text.dropTail (· = '/') (head ++ last) = head ++ last := by
  obtain ⟨named, free⟩ := plain
  obtain ⟨c, rest, reversed⟩ := List.exists_cons_of_ne_nil (List.reverse_ne_nil_iff.mpr named)
  have other : c ≠ '/' := by
    rintro rfl
    exact free (List.mem_reverse.mp (reversed ▸ List.mem_cons_self))
  rw [Text.dropTail, List.reverse_append, reversed, List.cons_append,
    List.dropWhile_cons_of_neg (by simpa using other), ← List.cons_append, ← reversed,
    ← List.reverse_append, List.reverse_reverse]

/-- A normal form that ends in a slash is the top. -/
theorem IsNormal.dropTail_slash {cs : List Char} (normal : IsNormal cs) (notTop : cs ≠ ['/']) :
    Text.dropTail (· = '/') cs = cs := by
  obtain ⟨absolute, stack, settled, rfl⟩ := normal
  cases stack with
  | nil =>
    cases absolute with
    | true => exact absurd rfl notTop
    | false => rfl
  | cons last below =>
    rw [List.reverse_cons]
    obtain ⟨head, same⟩ := exists_written_concat absolute below.reverse last
    rw [same, dropTail_slash_append settled.1.plain]

/-! ### Below and outside -/

variable {root path other rest : String}

/-- A path without the slashes in front. -/
def unslashed (path : String) : String := String.ofList (path.toList.dropWhile (· = '/'))

theorem toList_unslashed (path : String) :
    (unslashed path).toList = path.toList.dropWhile (· = '/') := String.toList_ofList

/-- A normal path has at most one slash in front, so it is what is left of it but for that slash. -/
theorem slashed_unslashed (normal : IsNormal path.toList) : Slashed path (unslashed path) := by
  have cut := normal.dropWhile_slash
  rw [← toList_unslashed] at cut
  split at cut
  · exact Or.inr (String.toList_inj.mp (by simpa using cut))
  · exact Or.inl (String.toList_inj.mp (by simpa using cut))

theorem relativeTo_nowhere (path : String) : relativeTo path "" = unslashed path := rfl

theorem relativeTo_top (path : String) : relativeTo path "/" = unslashed path := rfl

/-- Inside the root, a path is relative to it by what follows the root and one slash. -/
theorem relativeTo_through (normalRoot : IsNormal root.toList) (named : root ≠ "")
    (notTop : root ≠ "/") (path : String) :
    relativeTo path root = String.ofList
      (match Text.withoutHead? root.toList path.toList with
      | some ('/' :: rest) => rest
      | _ => path.toList.dropWhile (· = '/')) := by
  have notTopChars : root.toList ≠ ['/'] := fun same => notTop (String.toList_inj.mp same)
  have namedChars : root.toList ≠ [] := fun same => named (String.toList_inj.mp same)
  rw [relativeTo, relativeChars, normalRoot.dropTail_slash notTopChars]
  exact congrArg String.ofList (if_neg namedChars)

/-- A path below a root is seen as its rest. -/
theorem relativeTo_of_below (normalRoot : IsNormal root.toList) (normal : IsNormal path.toList)
    (below : Below root path rest) : relativeTo path root = rest := by
  cases below with
  | bare relative =>
    rw [relativeTo_nowhere, unslashed, dropWhile_slash_of_relative relative, String.ofList_toList]
  | top =>
    have whole : ("/" ++ rest).toList = '/' :: rest.toList := by simp
    have cut := normal.dropWhile_slash
    rw [whole] at cut
    have rest : rest.toList = ("/" ++ rest).toList.dropWhile (· = '/') := by
      rw [whole]
      exact (List.cons.inj cut).2
    rw [relativeTo_top, unslashed, ← rest, String.ofList_toList]
  | through named notTop =>
    have cut : Text.withoutHead? root.toList (root ++ "/" ++ rest).toList =
        some ('/' :: rest.toList) := by
      rw [Text.withoutHead?_eq_some_iff, String.toList_append, String.toList_append,
        List.append_assoc]
      rfl
    rw [relativeTo_through normalRoot named notTop, cut]
    exact String.ofList_toList

/-- A path outside a root is seen as it is, but for a slash in front. -/
theorem relativeTo_of_outside (normalRoot : IsNormal root.toList) (outside : Outside root path) :
    relativeTo path root = unslashed path := by
  by_cases none : root = ""
  · rw [none, relativeTo_nowhere]
  by_cases isTop : root = "/"
  · rw [isTop, relativeTo_top]
  rw [relativeTo_through normalRoot none isTop]
  split
  · next rest cut =>
    have whole : path = root ++ "/" ++ String.ofList rest := by
      refine String.toList_inj.mp ?_
      rw [Text.withoutHead?_eq_some_iff.mp cut, String.toList_append, String.toList_append,
        String.toList_ofList (l := rest), List.append_assoc]
      rfl
    exact absurd (whole ▸ .through none isTop _) (outside (String.ofList rest))
  · rfl

/-- A root and a rest make one path. -/
theorem Below.path_eq (below : Below root path rest) :
    path = (if root = "" then "" else if root = "/" then "/" else root ++ "/") ++ rest := by
  cases below with
  | bare => simp
  | top => simp
  | through named notTop => simp [named, notTop]

/-- Two paths are seen as one only when they are one, or one lies outside the root and is spelled
like the other is seen. -/
theorem eq_or_blurs_of_relativeTo_eq (normalRoot : IsNormal root.toList)
    (normal : IsNormal path.toList) (normalOther : IsNormal other.toList)
    (same : relativeTo path root = relativeTo other root) :
    path = other ∨ Blurs root path other ∨ Blurs root other path := by
  have spelled : ∀ {path other : String}, IsNormal path.toList → IsNormal other.toList →
      relativeTo path root = relativeTo other root → Outside root path → Blurs root path other := by
    intro path other normal normalOther same outside
    rw [relativeTo_of_outside normalRoot outside] at same
    refine ⟨outside, unslashed path, slashed_unslashed normal, ?_⟩
    by_cases below : ∃ rest, Below root other rest
    · obtain ⟨rest, below⟩ := below
      rw [relativeTo_of_below normalRoot normalOther below] at same
      exact Or.inl (same ▸ below)
    · have outsideOther : Outside root other := not_exists.mp below
      rw [relativeTo_of_outside normalRoot outsideOther] at same
      exact Or.inr ⟨outsideOther, same ▸ slashed_unslashed normalOther⟩
  by_cases below : ∃ rest, Below root path rest
  · by_cases belowOther : ∃ rest, Below root other rest
    · obtain ⟨rest, below⟩ := below
      obtain ⟨otherRest, belowOther⟩ := belowOther
      rw [relativeTo_of_below normalRoot normal below,
        relativeTo_of_below normalRoot normalOther belowOther] at same
      exact Or.inl (by rw [below.path_eq, belowOther.path_eq, same])
    · exact Or.inr (Or.inr (spelled normalOther normal same.symm (not_exists.mp belowOther)))
  · exact Or.inr (Or.inl (spelled normal normalOther same (not_exists.mp below)))

/-! ### The common directory -/

theorem ofList_slash (cs : List Char) : String.ofList ('/' :: cs) = "/" ++ String.ofList cs := by
  rw [← List.singleton_append, String.ofList_append]

/-- Segments that are not empty make a text that is neither empty nor the top. -/
theorem written_ne {segments : List Segment} (nonempty : segments ≠ [])
    (plain : ∀ segment ∈ segments, IsPlain segment) (absolute : Bool) :
    written absolute segments ≠ [] ∧ written absolute segments ≠ ['/'] := by
  have relative := isAbsoluteChars_unsplit plain
  have isText : unsplit segments ≠ [] := by
    intro noText
    have cut := splitOn_unsplit nonempty fun segment present => (plain segment present).2
    rw [noText, List.splitOn_nil] at cut
    exact (plain [] (cut ▸ List.mem_cons_self)).1 rfl
  cases absolute with
  | true => exact ⟨List.cons_ne_nil _ _, fun isTop => isText (List.cons.inj isTop).2⟩
  | false =>
    refine ⟨isText, fun isTop => ?_⟩
    rw [show unsplit segments = ['/'] from isTop] at relative
    cases relative

/-- A path whose segments go on after those of a directory is below the directory. -/
theorem exists_below_written {front segments : List Segment} (nonempty : front ≠ [])
    (plain : ∀ segment ∈ segments, IsPlain segment) (part : front <+: segments.dropLast)
    (absolute : Bool) :
    ∃ rest, Below (String.ofList (written absolute front))
      (String.ofList (written absolute segments)) rest := by
  obtain ⟨middle, directory⟩ := part
  have isPath : segments ≠ [] := by
    rintro rfl
    exact nonempty (List.append_eq_nil_iff.mp directory).1
  have whole : segments = front ++ (middle ++ [segments.getLast isPath]) := by
    rw [← List.append_assoc, directory, List.dropLast_concat_getLast]
  have nonemptyBack : middle ++ [segments.getLast isPath] ≠ [] := List.concat_ne_nil _ _
  generalize middle ++ [segments.getLast isPath] = back at whole nonemptyBack
  have plainFront : ∀ segment ∈ front, IsPlain segment := fun segment present =>
    plain segment (whole ▸ List.mem_append_left _ present)
  obtain ⟨named, notTop⟩ := written_ne nonempty plainFront absolute
  have text : String.ofList (written absolute segments) =
      String.ofList (written absolute front) ++ "/" ++ String.ofList (unsplit back) := by
    have joined : written absolute segments = written absolute front ++ '/' :: unsplit back := by
      rw [whole, written, written, unsplit_append nonempty nonemptyBack]
      cases absolute <;> rfl
    rw [joined, String.ofList_append, String.append_assoc, ofList_slash]
  rw [text]
  refine ⟨_, .through (fun isNone => named ?_) (fun isTop => notTop ?_) _⟩
  · rw [← String.toList_ofList (l := written absolute front), isNone]
    rfl
  · rw [← String.toList_ofList (l := written absolute front), isTop]
    rfl

/-- A normalized path is below every head of its directory, when the head tells whether the path is
absolute. -/
theorem exists_below_directoryText {dir : List Segment} {path : String}
    (part : dir <+: dirSegments (normalize path))
    (told : dir = [] → isAbsoluteChars (normalize path).toList = false) :
    ∃ rest, Below (String.ofList (directoryText dir)) (normalize path) rest := by
  have form : normalize path = String.ofList
      (written (isAbsoluteChars (slashed path.toList)) (foldedSegments path.toList)) := rfl
  have plain : ∀ segment ∈ foldedSegments path.toList, IsPlain segment :=
    fun _ => isPlain_of_mem_foldedSegments
  by_cases empty : dir = []
  · rw [empty]
    exact ⟨_, .bare (told empty)⟩
  rw [dirSegments_normalize] at part
  split at part
  · next isAbsolute =>
    obtain ⟨first, rest, rfl⟩ := List.exists_cons_of_ne_nil empty
    obtain ⟨rfl, below⟩ := List.cons_prefix_cons.mp part
    rw [form, isAbsolute, directoryText_root]
    by_cases atTop : rest = []
    · rw [atTop, written, written, if_pos rfl, if_pos rfl, ofList_slash, ofList_slash]
      exact ⟨_, .top _⟩
    · exact exists_below_written atTop plain below true
  · next isRelative =>
    rw [Bool.not_eq_true] at isRelative
    rw [List.nil_append] at part
    rw [form, isRelative, directoryText_relative fun segment present =>
      plain segment (List.dropLast_subset _ (part.subset present))]
    exact exists_below_written empty plain part false

/-- Normalizing keeps a path absolute or relative. -/
theorem isAbsoluteChars_normalize (path : String) :
    isAbsoluteChars (normalize path).toList = isAbsoluteChars (slashed path.toList) := by
  rw [normalize, String.toList_ofList, normalizeChars_eq_written]
  exact isAbsoluteChars_written fun _ => isPlain_of_mem_foldedSegments

/-- Normalized paths are below their common directory when all are absolute or all relative. -/
theorem exists_below_commonDir {paths : List String}
    (normal : ∀ path ∈ paths, ∃ spelling, path = normalize spelling)
    (alike : ∀ path ∈ paths, ∀ other ∈ paths,
      isAbsoluteChars path.toList = isAbsoluteChars other.toList) :
    ∀ path ∈ paths, ∃ rest, Below (commonDir paths) path rest := by
  intro path present
  obtain ⟨spelling, rfl⟩ := normal path present
  rw [commonDir_eq]
  refine exists_below_directoryText
    (commonSegments_prefix_of_mem (List.mem_map_of_mem present)) fun nothing => ?_
  -- Absolute paths have the top in common at least.
  rw [← Bool.not_eq_true]
  intro isAbsolute
  have atTop : [[]] <+: commonSegments (paths.map dirSegments) := by
    rw [prefix_commonSegments_iff (List.ne_nil_of_mem (List.mem_map_of_mem present))]
    intro dir memDir
    obtain ⟨other, memOther, rfl⟩ := List.mem_map.mp memDir
    have otherAbsolute := (alike other memOther _ present).trans isAbsolute
    obtain ⟨otherSpelling, rfl⟩ := normal other memOther
    rw [isAbsoluteChars_normalize] at otherAbsolute
    rw [dirSegments_normalize, if_pos otherAbsolute]
    exact List.prefix_append _ _
  rw [nothing] at atTop
  exact absurd (List.prefix_nil.mp atTop) (List.cons_ne_nil _ _)

end CodeGraph.Path
