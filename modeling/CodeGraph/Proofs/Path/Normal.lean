import CodeGraph.Proofs.Path.Directory

/-!
# Normal forms of paths

A path is in normal form when nothing in it can be folded: its segments are names, and `..` stands
only in front of a relative path. Normalizing gives a normal form and leaves a normal form alone, so
normalizing twice is normalizing once. The directory that normalized paths have in common is in
normal form again.

## Main Definitions

* `Path.Settled`: a stack of segments that can not be folded.
* `Path.written`: the text of segments, below the root or not.
* `Path.IsNormal`: the text of segments that can not be folded.

## Main Statements

* `Path.settled_push`, `Path.settled_foldl_push`: folding keeps a stack settled.
* `Path.normalize_normalize`: a normal form is left alone.
* `Path.isNormal_commonDir`: a common directory is in normal form.
-/

namespace CodeGraph.Path

/-! ### Stacks that can not be folded -/

/-- A segment that folding keeps: it has a name and no separator. -/
structure IsKept (segment : Segment) : Prop where
  /-- It is not empty and has no slash. -/
  plain : IsPlain segment
  /-- It does not stand for the directory itself. -/
  elsewhere : segment ≠ here
  /-- It has no backslash. -/
  backslashFree : '\\' ∉ segment

theorem isKept_up : IsKept up := ⟨isPlain_up, by decide, by decide⟩

/-- A stack of segments, last one first, that can not be folded: below `..` there is only `..`, and
none of it in an absolute path. -/
def Settled (absolute : Bool) : List Segment → Prop
  | [] => True
  | segment :: below =>
    IsKept segment ∧ (segment = up → absolute = false ∧ ∀ lower ∈ below, lower = up) ∧
      Settled absolute below

variable {absolute : Bool} {stack : List Segment} {segment : Segment}

/-- The segments of a settled stack are those that folding keeps. -/
theorem Settled.isKept (settled : Settled absolute stack) (present : segment ∈ stack) :
    IsKept segment := by
  induction stack with
  | nil => cases present
  | cons last below inductionHypothesis =>
    rcases List.mem_cons.mp present with rfl | lower
    · exact settled.1
    · exact inductionHypothesis settled.2.2 lower

theorem Settled.of_suffix {lower : List Segment} (settled : Settled absolute stack)
    (part : lower <:+ stack) : Settled absolute lower := by
  obtain ⟨upper, rfl⟩ := part
  induction upper with
  | nil => exact settled
  | cons last rest inductionHypothesis => exact inductionHypothesis settled.2.2

/-- Putting a segment on a settled stack settles it. -/
theorem settled_push (settled : Settled absolute stack) (slashFree : '/' ∉ segment)
    (backslashFree : '\\' ∉ segment) : Settled absolute (push absolute stack segment) := by
  unfold push
  split
  · exact settled
  · next named =>
    rw [not_or] at named
    split
    · split
      · next last rest =>
        split
        · exact settled.2.2
        · next isUp =>
          -- Below `..` the path leads out already, so another `..` only leads further out.
          rw [not_not] at isUp
          obtain ⟨relative, allUp⟩ := settled.2.1 isUp
          rw [if_neg (by simp [relative])]
          refine ⟨isKept_up, fun _ => ⟨relative, ?_⟩, settled⟩
          exact List.forall_mem_cons.mpr ⟨isUp, allUp⟩
      · split
        · trivial
        · next relative => exact ⟨isKept_up, fun _ => ⟨by simpa using relative, by simp⟩, trivial⟩
    · next notUp =>
      exact ⟨⟨⟨named.1, slashFree⟩, named.2, backslashFree⟩, fun isUp => absurd isUp notUp, settled⟩

/-- Folding leaves a settled stack. The invariant is that `..` stands at the bottom only. -/
theorem settled_foldl_push {segments : List Segment} (settled : Settled absolute stack)
    (slashFree : ∀ segment ∈ segments, '/' ∉ segment)
    (backslashFree : ∀ segment ∈ segments, '\\' ∉ segment) :
    Settled absolute (segments.foldl (push absolute) stack) := by
  induction segments generalizing stack with
  | nil => exact settled
  | cons segment rest inductionHypothesis =>
    obtain ⟨firstSlash, restSlash⟩ := List.forall_mem_cons.mp slashFree
    obtain ⟨firstBackslash, restBackslash⟩ := List.forall_mem_cons.mp backslashFree
    exact inductionHypothesis (settled_push settled firstSlash firstBackslash) restSlash
      restBackslash

/-- A segment of a settled stack is put on what is below it as it stands. -/
theorem push_of_settled (settled : Settled absolute (segment :: stack)) :
    push absolute stack segment = segment :: stack := by
  obtain ⟨kept, leads, -⟩ := settled
  have named : ¬(segment = [] ∨ segment = here) := not_or.mpr ⟨kept.plain.1, kept.elsewhere⟩
  unfold push
  rw [if_neg named]
  split
  · next isUp =>
    obtain ⟨relative, allUp⟩ := leads isUp
    split
    · next last rest =>
      have lastUp : last = up := allUp last List.mem_cons_self
      rw [if_neg (not_not.mpr lastUp), relative, isUp]
      rfl
    · rw [relative, isUp]
      rfl
  · rfl

/-- A settled stack is folded to itself. -/
theorem foldl_push_reverse (settled : Settled absolute stack) :
    stack.reverse.foldl (push absolute) [] = stack := by
  induction stack with
  | nil => rfl
  | cons segment below inductionHypothesis =>
    rw [List.reverse_cons, List.foldl_append, inductionHypothesis settled.2.2, List.foldl_cons,
      List.foldl_nil, push_of_settled settled]

/-! ### Segments joined by slashes -/

theorem unsplit_cons {rest : List Segment} (nonempty : rest ≠ []) :
    unsplit (segment :: rest) = segment ++ '/' :: unsplit rest := by
  obtain ⟨next, others, rfl⟩ := List.exists_cons_of_ne_nil nonempty
  rw [unsplit, List.intercalate_cons_cons, List.append_assoc]
  rfl

/-- Two parts of a path are joined by one slash. -/
theorem unsplit_append {front back : List Segment} (nonemptyFront : front ≠ [])
    (nonemptyBack : back ≠ []) : unsplit (front ++ back) = unsplit front ++ '/' :: unsplit back := by
  induction front with
  | nil => exact absurd rfl nonemptyFront
  | cons first rest inductionHypothesis =>
    by_cases empty : rest = []
    · rw [empty, List.singleton_append, unsplit_cons nonemptyBack]
      simp [unsplit]
    · rw [List.cons_append, unsplit_cons (by simp [empty]), inductionHypothesis empty,
        unsplit_cons empty, List.append_assoc, List.cons_append]

/-- Joined segments have the characters of the segments, and slashes. -/
theorem mem_unsplit_iff {segments : List Segment} {c : Char} (other : c ≠ '/') :
    c ∈ unsplit segments ↔ ∃ segment ∈ segments, c ∈ segment := by
  induction segments with
  | nil => simp [unsplit]
  | cons first rest inductionHypothesis =>
    by_cases empty : rest = []
    · simp [empty, unsplit]
    · rw [unsplit_cons empty, List.mem_append, List.mem_cons, inductionHypothesis]
      simp [other]

/-! ### Texts in normal form -/

/-- The text of segments, with a slash in front when they are below the root. -/
def written (absolute : Bool) (segments : List Segment) : List Char :=
  if absolute then '/' :: unsplit segments else unsplit segments

/-- The text of segments that can not be folded. -/
def IsNormal (cs : List Char) : Prop :=
  ∃ absolute stack, Settled absolute stack ∧ cs = written absolute stack.reverse

theorem normalizeChars_eq_written (cs : List Char) :
    normalizeChars cs = written (isAbsoluteChars (slashed cs)) (foldedSegments cs) := rfl

theorem backslashFree_slashed (cs : List Char) : '\\' ∉ slashed cs := by
  intro present
  obtain ⟨c, -, becomes⟩ := List.mem_map.mp present
  split at becomes
  · exact absurd becomes (by decide)
  · next other => exact other becomes

/-- What stands between the slashes of a text without backslashes has none either. -/
theorem backslashFree_of_mem_splitOn {cs : List Char} (free : '\\' ∉ cs)
    (present : segment ∈ cs.splitOn '/') : '\\' ∉ segment := by
  intro inside
  have joined : unsplit (cs.splitOn '/') = cs := List.intercalate_splitOn '/'
  rw [← joined, mem_unsplit_iff (by decide)] at free
  exact free ⟨segment, present, inside⟩

/-- So the segments of a normalized path are settled. -/
theorem settled_foldedSegments (cs : List Char) :
    Settled (isAbsoluteChars (slashed cs)) (foldedSegments cs).reverse := by
  rw [foldedSegments, foldSegments, List.reverse_reverse]
  exact settled_foldl_push trivial (fun _ => slashFree_of_mem_splitOn)
    fun _ => backslashFree_of_mem_splitOn (backslashFree_slashed cs)

/-- Normalizing gives a normal form. -/
theorem isNormal_normalizeChars (cs : List Char) : IsNormal (normalizeChars cs) :=
  ⟨_, _, settled_foldedSegments cs, by rw [List.reverse_reverse, normalizeChars_eq_written]⟩

theorem Settled.isPlain (settled : Settled absolute stack) :
    ∀ segment ∈ stack.reverse, IsPlain segment :=
  fun _ present => (settled.isKept (List.mem_reverse.mp present)).plain

/-- Segments that are not empty do not start a text with a slash. -/
theorem isAbsoluteChars_unsplit {segments : List Segment}
    (plain : ∀ segment ∈ segments, IsPlain segment) :
    isAbsoluteChars (unsplit segments) = false := by
  cases segments with
  | nil => rfl
  | cons first rest =>
    obtain ⟨named, free⟩ := plain first List.mem_cons_self
    obtain ⟨c, others, rfl⟩ := List.exists_cons_of_ne_nil named
    have other : c ≠ '/' := fun same => free (same ▸ List.mem_cons_self)
    by_cases empty : rest = []
    · simp [isAbsoluteChars, empty, unsplit, other]
    · simp [isAbsoluteChars, unsplit_cons empty, other]

/-- A written path is absolute exactly when it was written so. -/
theorem isAbsoluteChars_written {segments : List Segment}
    (plain : ∀ segment ∈ segments, IsPlain segment) :
    isAbsoluteChars (written absolute segments) = absolute := by
  cases absolute with
  | true => rfl
  | false => exact isAbsoluteChars_unsplit plain

/-- No normal form starts with `file://`, which holds an empty segment. -/
theorem not_scheme_prefix_written {segments : List Segment}
    (plain : ∀ segment ∈ segments, IsPlain segment) : ¬scheme <+: written absolute segments := by
  rintro ⟨rest, same⟩
  cases absolute with
  | true => cases same
  | false =>
    have nonempty : segments ≠ [] := by
      rintro rfl
      cases same
    have cut : segments = (['f', 'i', 'l', 'e', ':'] ++ '/' :: '/' :: rest).splitOn '/' := by
      rw [← splitOn_unsplit nonempty fun segment present => (plain segment present).2]
      exact congrArg (List.splitOn '/') same.symm
    rw [List.splitOn_append_cons_self, splitOn_cons_slash] at cut
    exact (plain [] (cut ▸ by simp)).1 rfl

/-- A written path holds nothing that is cleaned away. So normalizing it a second time starts from
the same signs. -/
theorem slashed_written (settled : Settled absolute stack) :
    slashed (written absolute stack.reverse) = written absolute stack.reverse := by
  have noScheme : Text.withoutHead? scheme (written absolute stack.reverse) = none := by
    rw [Text.withoutHead?, if_neg]
    rw [List.isPrefixOf_iff_prefix]
    exact not_scheme_prefix_written settled.isPlain
  have free : '\\' ∉ written absolute stack.reverse := by
    have joined : '\\' ∉ unsplit stack.reverse := by
      rw [mem_unsplit_iff (by decide)]
      rintro ⟨segment, present, inside⟩
      exact (settled.isKept (List.mem_reverse.mp present)).backslashFree inside
    cases absolute with
    | true => simpa [written] using joined
    | false => exact joined
  rw [slashed, noScheme, Option.getD_none]
  refine (List.map_congr_left fun c present => ?_).trans (List.map_id _)
  exact if_neg (ne_of_mem_of_not_mem present free)

/-- The segments of a normal form are folded to themselves. -/
theorem foldSegments_written (settled : Settled absolute stack) :
    foldSegments absolute ((written absolute stack.reverse).splitOn '/') = stack.reverse := by
  have relative : foldSegments absolute ((unsplit stack.reverse).splitOn '/') = stack.reverse := by
    by_cases empty : stack.reverse = []
    · rw [empty]
      rfl
    · rw [splitOn_unsplit empty fun segment present => (settled.isPlain segment present).2,
        foldSegments, foldl_push_reverse settled]
  cases absolute with
  | true =>
    -- The slash in front makes an empty segment, which is dropped.
    rw [written, if_pos rfl, splitOn_cons_slash]
    exact relative
  | false => exact relative

/-- Normalizing leaves a normal form alone. -/
theorem IsNormal.normalizeChars_eq {cs : List Char} (normal : IsNormal cs) :
    normalizeChars cs = cs := by
  obtain ⟨absolute, stack, settled, rfl⟩ := normal
  have folded : foldedSegments (written absolute stack.reverse) = stack.reverse := by
    rw [foldedSegments, slashed_written settled, isAbsoluteChars_written settled.isPlain,
      foldSegments_written settled]
  rw [normalizeChars_eq_written, folded, slashed_written settled,
    isAbsoluteChars_written settled.isPlain]

/-- Normalized paths are normal. -/
theorem isNormal_normalize (path : String) : IsNormal (normalize path).toList := by
  rw [normalize, String.toList_ofList]
  exact isNormal_normalizeChars path.toList

/-- Normal paths are left as they are. -/
theorem normalize_eq_self {path : String} (normal : IsNormal path.toList) :
    normalize path = path := by
  rw [normalize, normal.normalizeChars_eq, String.ofList_toList]

/-- Normalizing twice is normalizing once. -/
theorem normalize_normalize (path : String) : normalize (normalize path) = normalize path :=
  normalize_eq_self (isNormal_normalize path)

/-! ### Common directories -/

/-- A directory with an empty first segment is written as an absolute path. -/
theorem directoryText_root (segments : List Segment) :
    directoryText ([] :: segments) = written true segments := by
  cases segments with
  | nil => rfl
  | cons first rest =>
    rw [directoryText, unsplit_cons (List.cons_ne_nil first rest)]
    · rfl
    · exact fun noSegment => by cases noSegment

theorem directoryText_relative {segments : List Segment}
    (plain : ∀ segment ∈ segments, IsPlain segment) :
    directoryText segments = written false segments := by
  rw [directoryText]
  · rfl
  · rintro rfl
    exact (plain [] List.mem_cons_self).1 rfl

/-- A head of the directory of a normalized path is written in normal form. -/
theorem isNormal_directoryText {dir : List Segment} {path : String}
    (part : dir <+: dirSegments (normalize path)) : IsNormal (directoryText dir) := by
  rw [dirSegments_normalize] at part
  have settled : ∀ {front : List Segment}, front <+: (foldedSegments path.toList).dropLast →
      Settled (isAbsoluteChars (slashed path.toList)) front.reverse := fun inFront =>
    (settled_foldedSegments path.toList).of_suffix
      (List.reverse_suffix.mpr (inFront.trans (List.dropLast_prefix _)))
  split at part
  · next isAbsolute =>
    rw [isAbsolute] at settled
    cases dir with
    | nil => exact ⟨false, [], trivial, rfl⟩
    | cons first rest =>
      obtain ⟨rfl, below⟩ := List.cons_prefix_cons.mp part
      refine ⟨true, rest.reverse, settled below, ?_⟩
      rw [List.reverse_reverse, directoryText_root]
  · next isRelative =>
    rw [Bool.not_eq_true] at isRelative
    rw [isRelative] at settled
    rw [List.nil_append] at part
    refine ⟨false, dir.reverse, settled part, ?_⟩
    rw [List.reverse_reverse, directoryText_relative]
    exact List.reverse_reverse dir ▸ (settled part).isPlain

/-- The directory that normalized paths have in common is in normal form. -/
theorem isNormal_commonDir {paths : List String}
    (normal : ∀ path ∈ paths, ∃ spelling, path = normalize spelling) :
    IsNormal (commonDir paths).toList := by
  rw [commonDir_eq, String.toList_ofList]
  cases paths with
  | nil => exact ⟨false, [], trivial, rfl⟩
  | cons path rest =>
    obtain ⟨spelling, rfl⟩ := normal path List.mem_cons_self
    have held : dirSegments (normalize spelling) ∈ (normalize spelling :: rest).map dirSegments :=
      List.mem_map_of_mem List.mem_cons_self
    exact isNormal_directoryText (commonSegments_prefix_of_mem held)

end CodeGraph.Path
