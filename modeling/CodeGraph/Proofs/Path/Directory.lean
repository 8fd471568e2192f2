import CodeGraph.Path.Basic
import CodeGraph.Proofs.Text
import Mathlib.Data.List.Infix
import Mathlib.Data.List.TakeWhile

/-!
# Directories of normalized paths

The segments of a normal form are not empty and have no slash. So the directory of a normalized
path can be read back off its text, and two common directories are the same text only when they
are the same segments. The common directory of paths is the longest directory that holds all of
them, whatever the order of the paths.

## Main Definitions

* `Path.IsPlain`: a segment that is not empty and has no slash.
* `Path.IsDirectory`: the segments of a directory.
* `Path.directoryText`, `Path.readDirectory`: the text of a directory, and reading it back.

## Main Statements

* `Path.dirSegments_normalize`, `Path.isDirectory_dirSegments`: a normalized path has a directory.
* `Path.readDirectory_directoryText`: a directory can be read back off its text.
* `Path.prefix_commonSegments_iff`: which directories hold all of some paths.
* `Path.commonDir_eq_iff`: when two common directories are the same.
-/

namespace CodeGraph.Path

/-! ### Cutting at slashes -/

/-- What stands between slashes has no slash. -/
theorem slashFree_of_mem_splitOn {cs : List Char} {segment : Segment}
    (present : segment ∈ cs.splitOn '/') : '/' ∉ segment := by
  induction cs generalizing segment with
  | nil =>
    rw [List.splitOn_nil, List.mem_singleton] at present
    rw [present]
    exact List.not_mem_nil
  | cons c rest inductionHypothesis =>
    rw [List.splitOn_cons_eq_if_modifyHead] at present
    split at present
    · rcases List.mem_cons.mp present with rfl | later
      · exact List.not_mem_nil
      · exact inductionHypothesis later
    · next other =>
      obtain ⟨first, others, split⟩ := List.exists_cons_of_ne_nil (List.splitOn_ne_nil '/' rest)
      rw [split, List.modifyHead_cons, List.mem_cons] at present
      rcases present with rfl | later
      · have free : '/' ∉ first := inductionHypothesis (split ▸ List.mem_cons_self)
        have different : '/' ≠ c := fun same => other (beq_iff_eq.mpr same.symm)
        simp [free, different]
      · exact inductionHypothesis (split ▸ List.mem_cons_of_mem _ later)

/-- A slash in front cuts off an empty segment. -/
theorem splitOn_cons_slash (cs : List Char) : ('/' :: cs).splitOn '/' = [] :: cs.splitOn '/' := by
  rw [List.splitOn_cons_eq_if_modifyHead, if_pos (by rfl)]

/-- Segments without slashes are read back. -/
theorem splitOn_unsplit {segments : List Segment} (nonempty : segments ≠ [])
    (free : ∀ segment ∈ segments, '/' ∉ segment) : (unsplit segments).splitOn '/' = segments :=
  List.splitOn_intercalate '/' free nonempty

/-! ### Folded segments -/

/-- A segment that is not empty and has no slash. -/
def IsPlain (segment : Segment) : Prop := segment ≠ [] ∧ '/' ∉ segment

theorem isPlain_up : IsPlain up := ⟨by decide, by decide⟩

/-- Putting a segment on a stack keeps the segments plain. -/
theorem isPlain_of_mem_push {absolute : Bool} {stack : List Segment} {segment : Segment}
    (plain : ∀ kept ∈ stack, IsPlain kept) (free : '/' ∉ segment) :
    ∀ kept ∈ push absolute stack segment, IsPlain kept := by
  intro kept present
  unfold push at present
  split at present
  · exact plain kept present
  · next skipped =>
    split at present
    · split at present
      · split at present
        · exact plain kept (List.mem_cons_of_mem _ present)
        · split at present
          · exact plain kept present
          · rcases List.mem_cons.mp present with rfl | earlier
            · exact isPlain_up
            · exact plain kept earlier
      · split at present
        · cases present
        · rw [List.mem_singleton.mp present]
          exact isPlain_up
    · rcases List.mem_cons.mp present with rfl | earlier
      · exact ⟨fun empty => skipped (Or.inl empty), free⟩
      · exact plain kept earlier

theorem isPlain_of_mem_foldl_push {absolute : Bool} {stack segments : List Segment}
    (plain : ∀ kept ∈ stack, IsPlain kept) (free : ∀ segment ∈ segments, '/' ∉ segment) :
    ∀ kept ∈ segments.foldl (push absolute) stack, IsPlain kept := by
  induction segments generalizing stack with
  | nil => exact plain
  | cons segment rest inductionHypothesis =>
    refine inductionHypothesis (isPlain_of_mem_push plain (free segment List.mem_cons_self)) ?_
    exact fun other present => free other (List.mem_cons_of_mem _ present)

/-- The segments of a normal form are plain. -/
theorem isPlain_of_mem_foldSegments {absolute : Bool} {segments : List Segment}
    (free : ∀ segment ∈ segments, '/' ∉ segment) :
    ∀ kept ∈ foldSegments absolute segments, IsPlain kept := by
  intro kept present
  rw [foldSegments, List.mem_reverse] at present
  exact isPlain_of_mem_foldl_push (by simp) free kept present

/-- The segments of the normal form of a path. -/
def foldedSegments (cs : List Char) : List Segment :=
  foldSegments (isAbsoluteChars (slashed cs)) ((slashed cs).splitOn '/')

/-- The segments of a normalized path are plain. -/
theorem isPlain_of_mem_foldedSegments {cs : List Char} {segment : Segment}
    (present : segment ∈ foldedSegments cs) : IsPlain segment :=
  isPlain_of_mem_foldSegments (fun _ => slashFree_of_mem_splitOn) segment present

/-- What stands before the last slash of a normal form: its segments but the last, below the root
when the path is absolute. -/
theorem dropLast_splitOn_normalizeChars (cs : List Char) :
    ((normalizeChars cs).splitOn '/').dropLast =
      (if isAbsoluteChars (slashed cs) then [[]] else []) ++ (foldedSegments cs).dropLast := by
  have form : normalizeChars cs = if isAbsoluteChars (slashed cs) then
      '/' :: unsplit (foldedSegments cs) else unsplit (foldedSegments cs) := rfl
  rw [form]
  by_cases empty : foldedSegments cs = []
  · rw [empty]
    split <;> rfl
  · have cut := splitOn_unsplit empty fun segment present =>
      (isPlain_of_mem_foldedSegments present).2
    split
    · rw [splitOn_cons_slash, cut, List.dropLast_cons_of_ne_nil empty, List.singleton_append]
    · rw [cut, List.nil_append]

/-! ### The directory of a path -/

theorem parentChars_of_slashFree {cs : List Char} (free : '/' ∉ cs) : parentChars cs = [] := by
  rw [parentChars, List.dropWhile_eq_nil_iff.mpr (Text.notSign_of_mem_reverse free)]

/-- The parent of a path is what stands before its last slash. -/
theorem parentChars_append {above last : List Char} (free : '/' ∉ last) :
    parentChars (above ++ '/' :: last) = if above = [] then ['/'] else above := by
  rw [parentChars, Text.dropWhile_reverse_append free]
  simp

/-- The segments that a text of a directory is made of: none for no text, one empty segment for the
root. -/
def readDirectory (text : List Char) : List Segment :=
  if text = [] then []
  else if text = ['/'] then [[]]
  else text.splitOn '/'

theorem dirSegments_eq_readDirectory (path : String) :
    dirSegments path = readDirectory (parentChars path.toList) := rfl

/-- The directory of a path is what stands before its last slash. -/
theorem dirSegments_eq_dropLast {path : String}
    (proper : (path.toList.splitOn '/').dropLast ≠ [[], []]) :
    dirSegments path = (path.toList.splitOn '/').dropLast := by
  rw [dirSegments_eq_readDirectory]
  by_cases slash : '/' ∈ path.toList
  · -- The last slash cuts the path into its directory and its last segment.
    obtain ⟨last, above, cut, free⟩ :=
      List.eq_append_cons_of_mem (List.mem_reverse.mpr slash)
    have whole : path.toList = above.reverse ++ '/' :: last.reverse := by
      rw [← List.reverse_reverse path.toList, cut]
      simp
    have freeLast : '/' ∉ last.reverse := fun present => free (List.mem_reverse.mp present)
    have segments : (path.toList.splitOn '/').dropLast = above.reverse.splitOn '/' := by
      rw [whole, List.splitOn_append_cons_self, List.splitOn_eq_singleton freeLast,
        List.dropLast_concat]
    rw [segments] at proper ⊢
    rw [whole, parentChars_append freeLast]
    split
    · next atRoot =>
      rw [atRoot]
      rfl
    · next below =>
      have notRoot : above.reverse ≠ ['/'] := fun isRoot => proper (by rw [isRoot]; rfl)
      rw [readDirectory, if_neg below, if_neg notRoot]
  · rw [parentChars_of_slashFree slash, List.splitOn_eq_singleton slash]
    rfl

/-- The segments of a directory: no segment has a slash, and only the first may be empty, for the
root. -/
structure IsDirectory (dir : List Segment) : Prop where
  /-- No segment has a slash. -/
  slashFree : ∀ segment ∈ dir, '/' ∉ segment
  /-- No segment but the first is empty. -/
  named : ∀ segment ∈ dir.tail, segment ≠ []

/-- The first segments of a directory are a directory. -/
theorem IsDirectory.mono {dir whole : List Segment} (part : dir <+: whole)
    (directory : IsDirectory whole) : IsDirectory dir := by
  refine ⟨fun segment present => directory.slashFree segment (part.subset present), ?_⟩
  obtain ⟨more, rfl⟩ := part
  cases dir with
  | nil => exact fun segment present => absurd present List.not_mem_nil
  | cons first rest =>
    exact fun segment present => directory.named segment (List.mem_append_left more present)

/-- The directory of a normalized path: its segments but the last, below the root when the path is
absolute. -/
theorem dirSegments_normalize (path : String) :
    dirSegments (normalize path) =
      (if isAbsoluteChars (slashed path.toList) then [[]] else []) ++
        (foldedSegments path.toList).dropLast := by
  have form : ((normalize path).toList.splitOn '/').dropLast =
      (if isAbsoluteChars (slashed path.toList) then [[]] else []) ++
        (foldedSegments path.toList).dropLast := by
    rw [normalize, String.toList_ofList]
    exact dropLast_splitOn_normalizeChars path.toList
  have proper : ((normalize path).toList.splitOn '/').dropLast ≠ [[], []] := by
    intro isDouble
    have last : [] ∈ (foldedSegments path.toList).dropLast := by
      rw [isDouble] at form
      split at form
      · have rest : [[]] = (foldedSegments path.toList).dropLast := (List.cons.inj form).2
        exact rest ▸ List.mem_singleton_self _
      · rw [List.nil_append] at form
        exact form ▸ List.mem_cons_self
    exact (isPlain_of_mem_foldedSegments (List.dropLast_subset _ last)).1 rfl
  rw [dirSegments_eq_dropLast proper, form]

/-- A normalized path has a directory. -/
theorem isDirectory_dirSegments (path : String) : IsDirectory (dirSegments (normalize path)) := by
  have plain : ∀ segment ∈ (foldedSegments path.toList).dropLast, IsPlain segment :=
    fun segment present => isPlain_of_mem_foldedSegments (List.dropLast_subset _ present)
  rw [dirSegments_normalize]
  split
  · refine ⟨List.forall_mem_cons.mpr ⟨List.not_mem_nil, ?_⟩, ?_⟩
    · exact fun segment present => (plain segment present).2
    · exact fun segment present => (plain segment present).1
  · refine ⟨fun segment present => (plain segment present).2, fun segment present => ?_⟩
    exact (plain segment (List.mem_of_mem_tail present)).1

/-! ### The text of a directory -/

/-- The text of a directory. -/
def directoryText : List Segment → List Char
  | [[]] => ['/']
  | segments => unsplit segments

/-- A directory can be read back off its text. -/
theorem readDirectory_directoryText {dir : List Segment} (directory : IsDirectory dir) :
    readDirectory (directoryText dir) = dir := by
  unfold directoryText
  split
  · rfl
  · next notRoot =>
    by_cases empty : dir = []
    · rw [empty]
      rfl
    · have cut := splitOn_unsplit empty directory.slashFree
      have isText : unsplit dir ≠ [] := by
        intro noText
        rw [noText, List.splitOn_nil] at cut
        exact notRoot cut.symm
      have belowRoot : unsplit dir ≠ ['/'] := by
        intro slash
        have double : [[], []] = dir := by rw [← cut, slash]; rfl
        exact directory.named [] (by simp [← double]) rfl
      rw [readDirectory, if_neg isText, if_neg belowRoot, cut]

/-- The common directory is written from the common segments. -/
theorem commonDir_eq (paths : List String) :
    commonDir paths = String.ofList (directoryText (commonSegments (paths.map dirSegments))) := by
  unfold commonDir
  generalize commonSegments (paths.map dirSegments) = segments
  split
  · rfl
  · next notRoot => rw [directoryText]; exact notRoot

/-! ### Common directories -/

theorem prefix_commonHead_iff {part a b : List Segment} :
    part <+: commonHead a b ↔ part <+: a ∧ part <+: b := by
  fun_induction commonHead a b generalizing part with
  | case1 as b bs inductionHypothesis =>
    cases part with
    | nil => simp
    | cons first rest =>
      simp only [List.cons_prefix_cons, inductionHypothesis]
      exact and_and_left
  | case2 a as b bs different =>
    cases part with
    | nil => simp
    | cons first rest =>
      simp only [List.cons_prefix_cons, List.prefix_nil, reduceCtorEq, false_iff]
      rintro ⟨⟨rfl, -⟩, ⟨rfl, -⟩⟩
      exact different rfl
  | case3 a b none =>
    cases part with
    | nil => simp
    | cons first rest =>
      simp only [List.prefix_nil, reduceCtorEq, false_iff]
      rintro ⟨⟨_, rfl⟩, ⟨_, rfl⟩⟩
      exact none _ _ _ _ rfl rfl

theorem prefix_foldl_commonHead_iff {part dir : List Segment} {dirs : List (List Segment)} :
    part <+: dirs.foldl commonHead dir ↔ part <+: dir ∧ ∀ other ∈ dirs, part <+: other := by
  induction dirs generalizing dir with
  | nil => simp
  | cons next rest inductionHypothesis =>
    rw [List.foldl_cons, inductionHypothesis, prefix_commonHead_iff, List.forall_mem_cons,
      and_assoc]

/-- The directories that hold all of some paths are those that hold their common directory. -/
theorem prefix_commonSegments_iff {part : List Segment} {dirs : List (List Segment)}
    (nonempty : dirs ≠ []) :
    part <+: commonSegments dirs ↔ ∀ dir ∈ dirs, part <+: dir := by
  cases dirs with
  | nil => exact absurd rfl nonempty
  | cons dir rest =>
    rw [commonSegments, prefix_foldl_commonHead_iff, List.forall_mem_cons]

theorem commonSegments_prefix_of_mem {dirs : List (List Segment)} {dir : List Segment}
    (present : dir ∈ dirs) : commonSegments dirs <+: dir :=
  (prefix_commonSegments_iff (List.ne_nil_of_mem present)).mp List.prefix_rfl dir present

/-- Lists of the same directories have the same head in common. -/
theorem commonSegments_congr {dirs others : List (List Segment)}
    (same : ∀ dir, dir ∈ dirs ↔ dir ∈ others) : commonSegments dirs = commonSegments others := by
  by_cases empty : dirs = []
  · have otherEmpty : others = [] := by
      rw [List.eq_nil_iff_forall_not_mem]
      intro dir present
      rw [← same, empty] at present
      exact List.not_mem_nil present
    rw [empty, otherEmpty]
  · obtain ⟨dir, present⟩ := List.exists_mem_of_ne_nil dirs empty
    have otherNonempty := List.ne_nil_of_mem ((same dir).mp present)
    refine antisymm_of (· <+: ·) ?_ ?_
    · rw [prefix_commonSegments_iff otherNonempty]
      intro other memOther
      exact commonSegments_prefix_of_mem ((same other).mpr memOther)
    · rw [prefix_commonSegments_iff empty]
      intro other memOther
      exact commonSegments_prefix_of_mem ((same other).mp memOther)

/-- The order and the repetition of paths do not count for their common directory. -/
theorem commonDir_congr {paths others : List String}
    (same : ∀ path, path ∈ paths ↔ path ∈ others) : commonDir paths = commonDir others := by
  rw [commonDir_eq, commonDir_eq, commonSegments_congr]
  intro dir
  simp only [List.mem_map, same]

theorem isDirectory_commonSegments {paths : List String}
    (normal : ∀ path ∈ paths, ∃ spelling, path = normalize spelling) :
    IsDirectory (commonSegments (paths.map dirSegments)) := by
  cases paths with
  | nil => exact ⟨by simp [commonSegments], by simp [commonSegments]⟩
  | cons path rest =>
    obtain ⟨spelling, rfl⟩ := normal path List.mem_cons_self
    exact (isDirectory_dirSegments spelling).mono (commonSegments_prefix_of_mem (by simp))

/-- Two common directories of normalized paths are the same text when they are the same segments. -/
theorem commonDir_eq_iff {paths others : List String}
    (normal : ∀ path ∈ paths, ∃ spelling, path = normalize spelling)
    (normalOthers : ∀ path ∈ others, ∃ spelling, path = normalize spelling) :
    commonDir paths = commonDir others ↔
      commonSegments (paths.map dirSegments) = commonSegments (others.map dirSegments) := by
  rw [commonDir_eq, commonDir_eq]
  constructor
  · intro sameText
    have chars := String.ofList_injective sameText
    rw [← readDirectory_directoryText (isDirectory_commonSegments normal), chars,
      readDirectory_directoryText (isDirectory_commonSegments normalOthers)]
  · intro same
    rw [same]

end CodeGraph.Path
