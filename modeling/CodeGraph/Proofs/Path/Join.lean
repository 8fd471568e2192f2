import CodeGraph.Path.Specifier
import CodeGraph.Proofs.Path.Relative

/-!
# Joining paths

To join a path to a directory in normal form is to go on folding where the directory was left: the
segments of the directory are on the stack already. So a specifier is looked up from the directory
of a file just as if one had gone up from the file itself.

Seen from their common directory, paths can be put back by joining. That holds whether the directory
is empty, the top, or has a name, and so no two of the paths are seen as one.

## Main Definitions

* `Path.forward`: a text with slashes in place of backslashes.
* `Path.IsProper`: a path leads to a name.
* `Path.directorySegments`: the segments of the text of a directory.
* `Path.IsCommonRoot`: a directory from which some paths are seen and put back.

## Main Statements

* `Path.normalizeChars_append`: what goes on after a normal form is folded onto its segments.
* `Path.join_written`: joining goes on folding where the directory was left.
* `Path.join_parent`: a specifier is looked up as if one had gone up from the file.
* `Path.Below.join_eq`: a root and a rest are joined to the path.
* `Path.paths_seenAndPutBack`: what the common directory of paths is, and what is seen from it.
-/

namespace CodeGraph.Path

/-! ### Slashes for backslashes -/

/-- A text with slashes in place of backslashes. -/
def forward (cs : List Char) : List Char := cs.map fun c => if c = '\\' then '/' else c

theorem forward_append (front back : List Char) :
    forward (front ++ back) = forward front ++ forward back := List.map_append

/-- Without a scheme, cleaning only turns backslashes. -/
theorem slashed_eq_forward {cs : List Char} (noScheme : ¬scheme <+: cs) :
    slashed cs = forward cs := by
  have whole : Text.withoutHead? scheme cs = none := by
    rw [Text.withoutHead?, if_neg]
    rwa [List.isPrefixOf_iff_prefix]
  rw [slashed, whole, Option.getD_none, forward]

/-- A text that starts with some character other than `f` does not start with `file://`. -/
theorem not_scheme_prefix_cons {c : Char} (other : c ≠ 'f') (cs : List Char) :
    ¬scheme <+: c :: cs := by
  intro inFront
  exact other (List.cons_prefix_cons.mp inFront).1.symm

variable {absolute : Bool} {stack : List Segment}

theorem forward_written (settled : Settled absolute stack) :
    forward (written absolute stack.reverse) = written absolute stack.reverse := by
  rw [← slashed_eq_forward (not_scheme_prefix_written settled.isPlain), slashed_written settled]

/-- A slash stays a slash. -/
theorem isAbsoluteChars_of_forward {cs : List Char}
    (relative : isAbsoluteChars (forward cs) = false) : isAbsoluteChars cs = false := by
  cases cs with
  | nil => rfl
  | cons c rest =>
    by_cases slash : c = '/'
    · rw [slash] at relative
      cases relative
    · simpa [isAbsoluteChars] using slash

/-! ### Going on after a normal form -/

/-- A normal form that goes on after a slash does not start with `file://`, unless an empty segment
follows. -/
theorem not_scheme_prefix_append {segments : List Segment} {rest : List Char}
    (plain : ∀ segment ∈ segments, IsPlain segment) (onward : isAbsoluteChars rest = false) :
    ¬scheme <+: written absolute segments ++ '/' :: rest := by
  rintro ⟨more, same⟩
  cases absolute with
  | true => cases same
  | false =>
    cases segments with
    | nil => cases same
    | cons first others =>
      -- What follows the first segment starts with a slash in one reading and not in the other.
      have follows : ∃ next, written false (first :: others) ++ '/' :: rest = first ++ '/' :: next ∧
          isAbsoluteChars next = false := by
        by_cases empty : others = []
        · exact ⟨rest, by simp [empty, written, unsplit], onward⟩
        · have plainOthers : ∀ segment ∈ others, IsPlain segment := fun segment present =>
            plain segment (List.mem_cons_of_mem _ present)
          refine ⟨unsplit others ++ '/' :: rest, ?_, ?_⟩
          · rw [written, if_neg Bool.false_ne_true, unsplit_cons empty, List.append_assoc,
              List.cons_append]
          · obtain ⟨isText, -⟩ := written_ne empty plainOthers false
            obtain ⟨c, cs, text⟩ := List.exists_cons_of_ne_nil isText
            have relative := isAbsoluteChars_unsplit plainOthers
            rw [show unsplit others = c :: cs from text] at relative ⊢
            exact relative
      obtain ⟨next, cut, relative⟩ := follows
      have schemeCut : ['f', 'i', 'l', 'e', ':'] ++ '/' :: ('/' :: more) = first ++ '/' :: next :=
        same.trans cut
      obtain ⟨-, rfl⟩ := Text.append_cons_inj_of_head (by decide)
        (plain first List.mem_cons_self).2 schemeCut
      cases relative

theorem isAbsoluteChars_append {front : List Char} (nonempty : front ≠ []) (back : List Char) :
    isAbsoluteChars (front ++ back) = isAbsoluteChars front := by
  obtain ⟨c, cs, rfl⟩ := List.exists_cons_of_ne_nil nonempty
  rfl

/-- What goes on after a normal form is folded onto the segments of the normal form. -/
theorem normalizeChars_append (settled : Settled absolute stack)
    (somewhere : absolute = false → stack ≠ []) {rest : List Char}
    (onward : isAbsoluteChars (forward rest) = false) :
    normalizeChars (written absolute stack.reverse ++ '/' :: rest) =
      written absolute (((forward rest).splitOn '/').foldl (push absolute) stack).reverse := by
  have isText : written absolute stack.reverse ≠ [] := by
    cases absolute with
    | true => exact List.cons_ne_nil _ _
    | false =>
      exact (written_ne (List.reverse_ne_nil_iff.mpr (somewhere rfl)) settled.isPlain false).1
  have text : slashed (written absolute stack.reverse ++ '/' :: rest) =
      written absolute stack.reverse ++ '/' :: forward rest := by
    rw [slashed_eq_forward (not_scheme_prefix_append settled.isPlain
      (isAbsoluteChars_of_forward onward)), forward_append, forward_written settled]
    rfl
  have front : ((written absolute stack.reverse).splitOn '/').foldl (push absolute) [] = stack :=
    List.reverse_inj.mp (foldSegments_written settled)
  rw [normalizeChars_eq_written, foldedSegments, text, isAbsoluteChars_append isText,
    isAbsoluteChars_written settled.isPlain, List.splitOn_append_cons_self, foldSegments,
    List.foldl_append, front]

/-- Joining goes on folding where the directory was left. -/
theorem join_written (settled : Settled absolute stack) {specifier : String}
    (onward : isAbsoluteChars (forward specifier.toList) = false)
    (noScheme : ¬scheme <+: specifier.toList) :
    join (String.ofList (written absolute stack.reverse)) specifier = String.ofList
      (written absolute (((forward specifier.toList).splitOn '/').foldl (push absolute)
        stack).reverse) := by
  rw [join]
  split
  · next nowhere =>
    have noText : written absolute stack.reverse = [] := String.ofList_injective nowhere
    cases absolute with
    | true => cases noText
    | false =>
      have empty : stack = [] := by
        by_contra nonempty
        exact (written_ne (List.reverse_ne_nil_iff.mpr nonempty) settled.isPlain false).1 noText
      rw [normalize, normalizeChars_eq_written, foldedSegments, slashed_eq_forward noScheme, onward,
        empty]
      rfl
  · next named =>
    have somewhere : absolute = false → stack ≠ [] := by
      rintro rfl rfl
      exact named rfl
    rw [normalize, String.toList_append, String.toList_append, String.toList_ofList,
      List.append_assoc]
    exact congrArg String.ofList (normalizeChars_append settled somewhere onward)

/-! ### Going up from a file -/

/-- The directory of a normal form has its segments but the last. -/
theorem parentChars_written {last : Segment} {below : List Segment}
    (settled : Settled absolute (last :: below)) :
    parentChars (written absolute (last :: below).reverse) = written absolute below.reverse := by
  have single : unsplit [last] = last := by simp [unsplit]
  have free : '/' ∉ last := settled.1.plain.2
  rw [List.reverse_cons]
  by_cases empty : below = []
  · rw [empty, List.reverse_nil, List.nil_append]
    cases absolute with
    | true =>
      rw [written, if_pos rfl, single, ← List.nil_append ('/' :: last), parentChars_append free]
      rfl
    | false =>
      rw [written, if_neg Bool.false_ne_true, single]
      exact parentChars_of_slashFree free
  · have text : written absolute (below.reverse ++ [last]) =
        written absolute below.reverse ++ '/' :: last := by
      rw [written, written, unsplit_append (List.reverse_ne_nil_iff.mpr empty)
        (List.cons_ne_nil _ _), single]
      cases absolute <;> rfl
    rw [text, parentChars_append free, if_neg]
    exact (written_ne (List.reverse_ne_nil_iff.mpr empty) settled.2.2.isPlain absolute).1

/-- The last segment of a path. -/
def lastSegment? (path : String) : Option Segment := (path.toList.splitOn '/').getLast?

theorem getLast?_splitOn_written {last : Segment} {below : List Segment}
    (settled : Settled absolute (last :: below)) :
    ((written absolute (last :: below).reverse).splitOn '/').getLast? = some last := by
  have cut : (unsplit (last :: below).reverse).splitOn '/' = (last :: below).reverse :=
    splitOn_unsplit (by simp) fun segment present => (settled.isPlain segment present).2
  cases absolute with
  | true =>
    rw [written, if_pos rfl, splitOn_cons_slash, cut, List.reverse_cons, ← List.cons_append,
      List.getLast?_concat]
  | false => rw [written, if_neg Bool.false_ne_true, cut, List.reverse_cons, List.getLast?_concat]

/-- Going up takes the last segment away. -/
theorem push_up {last : Segment} (ordinary : last ≠ up) (below : List Segment) :
    push absolute (last :: below) up = below := by
  rw [push, if_neg (by decide), if_pos rfl]
  exact if_pos ordinary

/-- A specifier that is relative to the importing file starts with a dot. -/
theorem exists_dot_of_isRelativeSpecifier {specifier : String}
    (relative : isRelativeSpecifier specifier) : ∃ rest, specifier.toList = '.' :: rest := by
  have startsWithDot : ∀ {head : List Char}, ('.' :: head).isPrefixOf specifier.toList →
      ∃ rest, specifier.toList = '.' :: rest := by
    intro head inFront
    obtain ⟨rest, whole⟩ := List.isPrefixOf_iff_prefix.mp inFront
    exact ⟨head ++ rest, whole.symm⟩
  simp only [isRelativeSpecifier, Bool.or_eq_true, beq_iff_eq] at relative
  rcases relative with ((rfl | rfl) | inFront) | inFront
  · exact ⟨[], rfl⟩
  · exact ⟨['.'], rfl⟩
  · exact startsWithDot inFront
  · exact startsWithDot inFront

/-- A path leads to a name: it is neither empty nor the top, and does not end by leading up. -/
structure IsProper (path : String) : Prop where
  /-- It is not empty. -/
  named : path ≠ ""
  /-- It is not the top. -/
  notTop : path ≠ "/"
  /-- Its last segment is not `..`. -/
  notUp : lastSegment? path ≠ some up

/-- A specifier is looked up from the directory of a file as if one had gone up from the file. -/
theorem join_parent {path specifier : String} (normal : IsNormal path.toList)
    (proper : IsProper path) (relative : isRelativeSpecifier specifier) :
    join (parent path) specifier = normalize (path ++ "/../" ++ specifier) := by
  obtain ⟨absolute, stack, settled, text⟩ := normal
  have path_eq : path = String.ofList (written absolute stack.reverse) := by
    rw [← text, String.ofList_toList]
  obtain ⟨rest, dotted⟩ := exists_dot_of_isRelativeSpecifier relative
  have onward : isAbsoluteChars (forward specifier.toList) = false := by
    rw [dotted]
    rfl
  cases stack with
  | nil =>
    cases absolute with
    | true => exact absurd path_eq proper.notTop
    | false => exact absurd path_eq proper.named
  | cons last below =>
    have ordinary : last ≠ up := by
      have notUp := proper.notUp
      rw [lastSegment?, text, getLast?_splitOn_written settled] at notUp
      exact fun isUp => notUp (congrArg some isUp)
    have directory : parent path = String.ofList (written absolute below.reverse) := by
      rw [parent, text, parentChars_written settled]
    have wayUp : (path ++ "/../" ++ specifier).toList =
        written absolute (last :: below).reverse ++
          '/' :: ('.' :: '.' :: '/' :: specifier.toList) := by
      rw [String.toList_append, String.toList_append, text, List.append_assoc]
      rfl
    have segments : (forward ('.' :: '.' :: '/' :: specifier.toList)).splitOn '/' =
        up :: (forward specifier.toList).splitOn '/' := by
      rw [show forward ('.' :: '.' :: '/' :: specifier.toList) =
        up ++ '/' :: forward specifier.toList from rfl, List.splitOn_append_cons_self]
      rfl
    rw [directory, join_written settled.2.2 onward
      (dotted ▸ not_scheme_prefix_cons (by decide) rest), normalize, wayUp,
      normalizeChars_append settled (fun _ => List.cons_ne_nil _ _) rfl, segments, List.foldl_cons,
      push_up ordinary]

/-! ### Putting paths back -/

variable {root path rest : String}

theorem slashed_cons_slash (cs : List Char) : slashed ('/' :: cs) = '/' :: forward cs :=
  slashed_eq_forward (not_scheme_prefix_cons (by decide) cs)

/-- A second slash in front adds an empty segment, which is dropped. -/
theorem normalizeChars_cons_slash (cs : List Char) :
    normalizeChars ('/' :: '/' :: cs) = normalizeChars ('/' :: cs) := by
  rw [normalizeChars_eq_written, normalizeChars_eq_written, foldedSegments, foldedSegments,
    slashed_cons_slash, slashed_cons_slash, show forward ('/' :: cs) = '/' :: forward cs from rfl,
    splitOn_cons_slash, splitOn_cons_slash]
  rfl

/-- A root and a rest are joined to the path. -/
theorem Below.join_eq (below : Below root path rest) (normal : IsNormal path.toList) :
    join root rest = path := by
  cases below with
  | bare => exact normalize_eq_self normal
  | top =>
    have same : normalize ("/" ++ "/" ++ rest) = normalize ("/" ++ rest) := by
      rw [normalize, normalize, String.toList_append, String.toList_append, String.toList_append]
      exact congrArg String.ofList (normalizeChars_cons_slash rest.toList)
    exact same.trans (normalize_eq_self normal)
  | through named _ => rw [join, if_neg named, normalize_eq_self normal]

/-! ### The common directory -/

/-- The segments of the text of a directory: none for no text, one empty segment for the top. -/
def directorySegments (dir : String) : List Segment := readDirectory dir.toList

theorem directorySegments_parent (path : String) :
    directorySegments (parent path) = dirSegments path := by
  rw [directorySegments, parent, String.toList_ofList, dirSegments_eq_readDirectory]

/-- A path is joined to the common directory through the common segments. -/
theorem directorySegments_commonDir {paths : List String}
    (normal : ∀ path ∈ paths, ∃ spelling, path = normalize spelling) :
    directorySegments (commonDir paths) = commonSegments (paths.map dirSegments) := by
  rw [directorySegments, commonDir_eq, String.toList_ofList,
    readDirectory_directoryText (isDirectory_commonSegments normal)]

/-- A directory from which some paths are seen and put back. -/
structure IsCommonRoot (paths : List String) (root : String) : Prop where
  /-- It is in normal form. -/
  normal : normalize root = root
  /-- The order and the repetition of the paths do not count. -/
  unordered : ∀ others, (∀ path, path ∈ others ↔ path ∈ paths) → commonDir others = root
  /-- The directory of every path starts with its segments. -/
  holds : ∀ path ∈ paths, directorySegments root <+: directorySegments (parent path)
  /-- It is the longest such directory. -/
  longest : ∀ dir, (∀ path ∈ paths, directorySegments dir <+: directorySegments (parent path)) →
    directorySegments dir <+: directorySegments root
  /-- What a path is seen as is joined to the path again. -/
  joins : ∀ path ∈ paths, join root (relativeTo path root) = path
  /-- No two paths are seen as one. -/
  apart : ∀ path ∈ paths, ∀ other ∈ paths, relativeTo path root = relativeTo other root →
    path = other

/-- **From their common directory paths are seen and put back.** -/
theorem paths_seenAndPutBack (paths : List String) (nonempty : paths ≠ [])
    (normal : ∀ path ∈ paths, normalize path = path)
    (alike : (∀ path ∈ paths, isAbsoluteChars path.toList = true) ∨
      ∀ path ∈ paths, isAbsoluteChars path.toList = false) :
    IsCommonRoot paths (commonDir paths) := by
  have spelled : ∀ path ∈ paths, ∃ spelling, path = normalize spelling :=
    fun path present => ⟨path, (normal path present).symm⟩
  have normalForm : ∀ path ∈ paths, IsNormal path.toList :=
    fun path present => normal path present ▸ isNormal_normalize path
  have segments := directorySegments_commonDir spelled
  have someDirectory : paths.map dirSegments ≠ [] := by simpa using nonempty
  have holding : ∀ {dir}, dir <+: commonSegments (paths.map dirSegments) ↔
      ∀ path ∈ paths, dir <+: directorySegments (parent path) := by
    intro dir
    simp only [prefix_commonSegments_iff someDirectory, List.forall_mem_map,
      directorySegments_parent]
  have normalRoot := isNormal_commonDir spelled
  have pairwiseAlike : ∀ a ∈ paths, ∀ b ∈ paths,
      isAbsoluteChars a.toList = isAbsoluteChars b.toList := by
    rcases alike with allAbsolute | allRelative
    · exact fun a memA b memB => (allAbsolute a memA).trans (allAbsolute b memB).symm
    · exact fun a memA b memB => (allRelative a memA).trans (allRelative b memB).symm
  have joins : ∀ path ∈ paths,
      join (commonDir paths) (relativeTo path (commonDir paths)) = path := by
    intro path present
    obtain ⟨rest, below⟩ := exists_below_commonDir spelled pairwiseAlike path present
    rw [relativeTo_of_below normalRoot (normalForm path present) below,
      below.join_eq (normalForm path present)]
  exact {
    normal := normalize_eq_self normalRoot
    unordered := fun others same => commonDir_congr same
    holds := holding.mp (segments ▸ List.prefix_rfl)
    longest := fun dir within => segments ▸ holding.mpr within
    joins := joins
    apart := fun path memPath other memOther same => by
      rw [← joins path memPath, same, joins other memOther] }

/-- Three paths that lead out of the directory they are relative to; the names of two directories
start alike, and one path is listed twice. -/
def besideEachOther : List String :=
  ["../repo/a.ts", "../repository/b.ts", "../repo/a.ts"]

/-- They have the directory above in common and no more. -/
theorem paths_seenAndPutBack_besideEachOther :
    (∀ path ∈ besideEachOther, normalize path = path) ∧
      IsCommonRoot besideEachOther ".." ∧
      besideEachOther.map (relativeTo · "..") = ["repo/a.ts", "repository/b.ts", "repo/a.ts"] := by
  have normal : ∀ path ∈ besideEachOther, normalize path = path := by decide +kernel
  have root : commonDir besideEachOther = ".." := by decide +kernel
  refine ⟨normal, ?_, by decide +kernel⟩
  rw [← root]
  exact paths_seenAndPutBack besideEachOther (by decide) normal (Or.inr (by decide +kernel))

end CodeGraph.Path
