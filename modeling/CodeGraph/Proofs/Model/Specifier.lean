import CodeGraph.Proofs.Model.Accounting
import CodeGraph.Proofs.Path.Join

/-!
# The file that a specifier names

The paths that a specifier may mean are looked up one after the other, by their text. Files are
known by the normal forms of their paths, so this would miss a file if a path that is looked up were
not in normal form. It always is: the base path is normalized, and an ending, an index file or an
exchanged extension leave a normal form. So the file that is found is the first that any of these
paths names in any spelling.

A specifier that is relative to a file means what it would mean in a file system. The file has an
extension, so its path leads to a name and not up, and going up from it leads to its directory.

## Main Definitions

* `Path.IsEnding`: what may stand at the end of a file name.
* `Path.LeadNowhere`: segments that change nothing.
* `Model.lookups`: the paths that are looked up for a specifier.
* `Model.FindsSpelled`: specifiers lead to the first file that is named in any spelling.

## Main Statements

* `Path.IsNormal.replaceEnd`: exchanging the end of a file name leaves a normal form.
* `Path.isNormal_of_mem_candidates`: every candidate is in normal form.
* `Path.isProper_normalize`: the path of a file of a known language leads to a name.
* `Model.specifiers_meanPaths`: specifiers lead to files as paths do.
-/

namespace CodeGraph

namespace Path

/-! ### Endings -/

/-- What may stand at the end of a file name: it has no separator, and it is too long for a name
that ends with it to be `.` or `..`. -/
structure IsEnding (ending : List Char) : Prop where
  /-- It has at least three characters. -/
  long : 3 ≤ ending.length
  /-- It has no slash. -/
  slashFree : '/' ∉ ending
  /-- It has no backslash. -/
  backslashFree : '\\' ∉ ending

theorem isEnding_resolveExtensions :
    ∀ extension ∈ resolveExtensions, IsEnding extension.toList := by
  have all : ∀ extension ∈ resolveExtensions, 3 ≤ extension.toList.length ∧
      '/' ∉ extension.toList ∧ '\\' ∉ extension.toList := by decide
  exact fun extension present => ⟨(all extension present).1, (all extension present).2.1,
    (all extension present).2.2⟩

theorem isEnding_sourceExtensions : ∀ entry ∈ sourceExtensions,
    '/' ∉ entry.1.toList ∧ ∀ extension ∈ entry.2, IsEnding extension.toList := by
  have all : ∀ entry ∈ sourceExtensions, '/' ∉ entry.1.toList ∧
      ∀ extension ∈ entry.2, extension ∈ resolveExtensions := by decide
  exact fun entry present => ⟨(all entry present).1, fun extension listed =>
    isEnding_resolveExtensions extension ((all entry present).2 extension listed)⟩

variable {absolute : Bool} {below : List Segment} {part ending : List Char}

/-- A name with an ending is none of the short ones. -/
theorem IsEnding.append_ne (isEnding : IsEnding ending) (part : List Char) {short : List Char}
    (isShort : short.length < 3) : part ++ ending ≠ short := by
  rintro rfl
  have long := isEnding.long
  rw [List.length_append] at isShort
  omega

/-- A name with an ending can be put on a settled stack. -/
theorem IsEnding.settled (isEnding : IsEnding ending) (slashFree : '/' ∉ part)
    (backslashFree : '\\' ∉ part) (settled : Settled absolute below) :
    Settled absolute ((part ++ ending) :: below) := by
  refine ⟨⟨⟨isEnding.append_ne part (by decide), ?_⟩, isEnding.append_ne part (by decide), ?_⟩,
    fun isUp => absurd isUp (isEnding.append_ne part (by decide)), settled⟩
  · exact fun present => (List.mem_append.mp present).elim slashFree isEnding.slashFree
  · exact fun present => (List.mem_append.mp present).elim backslashFree isEnding.backslashFree

/-- The last segment of a path follows on the text without it. -/
theorem written_concat (absolute : Bool) (front : List Segment) (last : Segment) :
    written absolute (front ++ [last]) = written absolute (front ++ [[]]) ++ last := by
  have joined : unsplit (front ++ [last]) = unsplit (front ++ [[]]) ++ last := by
    by_cases empty : front = []
    · simp [empty, unsplit]
    · rw [unsplit_append empty (List.cons_ne_nil _ _), unsplit_append empty (List.cons_ne_nil _ _)]
      simp [unsplit]
  rw [written, written, joined]
  split <;> rfl

/-- Without its last segment a path ends in a slash, if anything is left. -/
theorem getLast_written_concat_nil {front : List Segment}
    (isText : written absolute (front ++ [[]]) ≠ []) :
    (written absolute (front ++ [[]])).getLast isText = '/' := by
  by_cases empty : front = []
  · subst empty
    cases absolute with
    | true => rfl
    | false => exact absurd rfl isText
  · have text : written absolute (front ++ [[]]) = written absolute front ++ ['/'] := by
      rw [written, written, unsplit_append empty (List.cons_ne_nil _ _)]
      cases absolute <;> rfl
    simp only [text, List.getLast_append_singleton]

/-- A normal form is cut before its last segment, which is empty at the top and nowhere else. -/
theorem IsNormal.exists_cut {cs : List Char} (normal : IsNormal cs) :
    ∃ absolute below last, Settled absolute below ∧ '/' ∉ last ∧ '\\' ∉ last ∧
      cs = written absolute (below.reverse ++ [[]]) ++ last := by
  obtain ⟨absolute, stack, settled, rfl⟩ := normal
  cases stack with
  | nil =>
    refine ⟨absolute, [], [], trivial, by simp, by simp, ?_⟩
    cases absolute <;> rfl
  | cons last below =>
    refine ⟨absolute, below, last, settled.2.2, settled.1.plain.2, settled.1.backslashFree, ?_⟩
    rw [List.reverse_cons, written_concat]

/-- Exchanging the end of a file name leaves a normal form. -/
theorem IsNormal.replaceEnd {stem old : List Char} (normal : IsNormal (stem ++ old))
    (slashFree : '/' ∉ old) (isEnding : IsEnding ending) : IsNormal (stem ++ ending) := by
  obtain ⟨absolute, below, last, settled, lastSlash, lastBackslash, text⟩ := normal.exists_cut
  -- The end that is exchanged has no slash, so it lies in the last segment.
  have inLast : ∃ part, stem = written absolute (below.reverse ++ [[]]) ++ part ∧
      last = part ++ old := by
    rcases List.append_eq_append_iff.mp text with ⟨more, above, cut⟩ | ⟨part, front, cut⟩
    · cases more using List.reverseRecOn with
      | nil => exact ⟨[], by simpa using above.symm, by simpa using cut.symm⟩
      | append_singleton rest c =>
        have isText : written absolute (below.reverse ++ [[]]) ≠ [] := by simp [above]
        have slash := getLast_written_concat_nil isText
        simp only [above, ← List.append_assoc, List.getLast_append_singleton] at slash
        exact absurd (by simp [cut, slash]) slashFree
    · exact ⟨part, front, cut⟩
  obtain ⟨part, rfl, rfl⟩ := inLast
  refine ⟨absolute, (part ++ ending) :: below, isEnding.settled
    (fun present => lastSlash (List.mem_append_left _ present))
    (fun present => lastBackslash (List.mem_append_left _ present)) settled, ?_⟩
  rw [List.reverse_cons, written_concat absolute _ (part ++ ending), List.append_assoc]

/-! ### Files with an extension -/

/-- Segments lead nowhere: each is empty or a dot. -/
def LeadNowhere (segments : List Segment) : Prop :=
  ∀ segment ∈ segments, segment = [] ∨ segment = here

/-- Segments that lead nowhere change nothing. -/
theorem foldl_push_of_nowhere {segments stack : List Segment} (nowhere : LeadNowhere segments) :
    segments.foldl (push absolute) stack = stack := by
  induction segments with
  | nil => rfl
  | cons segment rest inductionHypothesis =>
    obtain ⟨first, others⟩ := List.forall_mem_cons.mp nowhere
    have skipped : push absolute stack segment = stack := by
      unfold push
      exact if_pos first
    rw [List.foldl_cons, skipped, inductionHypothesis others]

/-- What is added to a text without a slash is added to its last segment. -/
theorem exists_splitOn_append (cs : List Char) : ∃ front last, ∀ tail, '/' ∉ tail →
    (cs ++ tail).splitOn '/' = front ++ [last ++ tail] := by
  by_cases slash : '/' ∈ cs
  · obtain ⟨last, above, cut, free⟩ := List.eq_append_cons_of_mem (List.mem_reverse.mpr slash)
    have whole : cs = above.reverse ++ '/' :: last.reverse := by
      rw [← List.reverse_reverse cs, cut]
      simp
    refine ⟨above.reverse.splitOn '/', last.reverse, fun tail freeTail => ?_⟩
    have freeLast : '/' ∉ last.reverse ++ tail := by simp [free, freeTail]
    rw [whole, List.append_assoc, List.cons_append, List.splitOn_append_cons_self,
      List.splitOn_eq_singleton freeLast]
  · refine ⟨[], cs, fun tail freeTail => ?_⟩
    rw [List.splitOn_eq_singleton (by simp [slash, freeTail]), List.nil_append]

/-- The last segment that names something is followed by segments that lead nowhere. -/
theorem exists_of_fileName? {path : String} {name : Segment} (found : fileName? path = some name) :
    ∃ before after, path.toList.splitOn '/' = before ++ name :: after ∧ LeadNowhere after := by
  obtain ⟨last, -⟩ := Option.filter_eq_some_iff.mp found
  rw [List.getLast?_eq_head?_reverse, ← List.filter_reverse, List.head?_filter] at last
  obtain ⟨-, after, before, cut, nowhere⟩ := List.find?_eq_some_iff_append.mp last
  refine ⟨before.reverse, after.reverse, ?_, fun segment present => ?_⟩
  · rw [← List.reverse_reverse (path.toList.splitOn '/'), cut]
    simp
  · have passed := nowhere segment (List.mem_reverse.mp present)
    by_contra neither
    simp [not_or.mp neither] at passed

/-- An extension follows a dot, and after it the path leads nowhere. -/
theorem exists_of_extension? {path extension : String} (found : extension? path = some extension) :
    ∃ front back, path.toList = front ++ '.' :: extension.toList ++ back ∧
      (back = [] ∨ ∃ rest, back = '/' :: rest ∧ LeadNowhere (rest.splitOn '/')) := by
  obtain ⟨name, isName, rest⟩ := Option.bind_eq_some_iff.mp found
  obtain ⟨before, after, cut, nowhere⟩ := exists_of_fileName? isName
  have named : ∃ stem, name = stem ++ '.' :: extension.toList := by
    split at rest
    · cases rest
    · cases rest
    · next c more _ search =>
      cases rest
      have dot : c = '.' := by
        have stops := List.head?_dropWhile_not (· ≠ '.') name.reverse
        rw [search] at stops
        simpa using stops
      have halves := List.takeWhile_append_dropWhile (p := (· ≠ '.')) (l := name.reverse)
      rw [search, dot] at halves
      refine ⟨more.reverse, List.reverse_inj.mp ?_⟩
      rw [String.toList_ofList]
      refine halves.symm.trans ?_
      simp
  obtain ⟨stem, rfl⟩ := named
  have whole : path.toList = unsplit (path.toList.splitOn '/') :=
    (List.intercalate_splitOn '/').symm
  obtain ⟨head, text⟩ := exists_written_concat false before (stem ++ '.' :: extension.toList)
  have inFront : unsplit (before ++ [stem ++ '.' :: extension.toList]) =
      (head ++ stem) ++ '.' :: extension.toList := by
    rw [List.append_assoc]
    exact text
  by_cases last : after = []
  · refine ⟨head ++ stem, [], ?_, Or.inl rfl⟩
    rw [whole, cut, last, inFront, List.append_nil]
  · refine ⟨head ++ stem, '/' :: unsplit after, ?_, Or.inr ⟨unsplit after, rfl, ?_⟩⟩
    · rw [whole, cut, List.append_cons, unsplit_append (List.concat_ne_nil _ _) last, inFront]
    · rwa [splitOn_unsplit last fun segment present => ?_]
      exact slashFree_of_mem_splitOn
        (cut ▸ List.mem_append_right _ (List.mem_cons_of_mem _ present))

/-- A path that leads nowhere has no backslash. -/
theorem LeadNowhere.backslashFree {cs : List Char} (nowhere : LeadNowhere (cs.splitOn '/')) :
    '\\' ∉ cs := by
  intro present
  have inside : '\\' ∈ unsplit (cs.splitOn '/') := by
    rwa [show unsplit (cs.splitOn '/') = cs from List.intercalate_splitOn '/']
  obtain ⟨segment, memSegment, inSegment⟩ := (mem_unsplit_iff (by decide)).mp inside
  rcases nowhere segment memSegment with rfl | rfl <;> simp [here] at inSegment

/-- A dot stays where it is when `file://` is cut off and backslashes become slashes. -/
theorem exists_slashed_append_dot (front back : List Char) (free : '\\' ∉ back) :
    ∃ head, slashed (front ++ '.' :: back) = head ++ '.' :: back := by
  have same : forward ('.' :: back) = '.' :: back := by
    refine (List.map_congr_left fun c present => if_neg ?_).trans (List.map_id _)
    rintro rfl
    exact free (by simpa using present)
  cases cut : Text.withoutHead? scheme (front ++ '.' :: back) with
  | none =>
    refine ⟨forward front, ?_⟩
    rw [slashed, cut, Option.getD_none, ← same, ← forward_append, same]
    rfl
  | some rest =>
    rw [slashed, cut, Option.getD_some]
    rcases List.append_eq_append_iff.mp (Text.withoutHead?_eq_some_iff.mp cut) with
      ⟨more, inScheme, tail⟩ | ⟨more, rfl, rfl⟩
    · cases more with
      | nil => exact ⟨[], by rw [List.nil_append] at tail; rw [← tail]; exact same⟩
      | cons c others =>
        obtain ⟨rfl, -⟩ := List.cons.inj tail
        have dotted : '.' ∈ scheme := inScheme ▸ by simp
        exact absurd dotted (by decide)
    · exact ⟨forward more, by rw [← same, ← forward_append, same]; rfl⟩

/-- With slashes for backslashes too, the extension ends the last segment that leads anywhere. -/
theorem exists_splitOn_slashed {path extension : String} (found : extension? path = some extension)
    (isEnding : IsEnding ('.' :: extension.toList)) :
    ∃ before last after, (slashed path.toList).splitOn '/' =
      before ++ (last ++ '.' :: extension.toList) :: after ∧ LeadNowhere after := by
  obtain ⟨front, back, text, trails⟩ := exists_of_extension? found
  have backFree : '\\' ∉ back := by
    rcases trails with rfl | ⟨rest, rfl, nowhere⟩
    · exact List.not_mem_nil
    · simpa using nowhere.backslashFree
  obtain ⟨head, slashes⟩ := exists_slashed_append_dot front (extension.toList ++ back)
    (fun present => (List.mem_append.mp present).elim
      (fun inside => isEnding.backslashFree (List.mem_cons_of_mem _ inside)) backFree)
  obtain ⟨before, last, cut⟩ := exists_splitOn_append head
  have cutHere := cut _ isEnding.slashFree
  have whole : slashed path.toList = head ++ '.' :: extension.toList ++ back := by
    rw [text, List.append_assoc, List.cons_append, slashes, List.append_assoc, List.cons_append]
  rcases trails with rfl | ⟨rest, rfl, nowhere⟩
  · exact ⟨before, last, [], by rw [whole, List.append_nil, cutHere], by simp [LeadNowhere]⟩
  · refine ⟨before, last, rest.splitOn '/', ?_, nowhere⟩
    rw [whole, List.splitOn_append_cons_self, cutHere, List.append_assoc, List.singleton_append]

/-- The last segment that folding keeps ends in the extension. -/
theorem exists_foldedSegments {path extension : String} (found : extension? path = some extension)
    (isEnding : IsEnding ('.' :: extension.toList)) :
    ∃ last below, (foldedSegments path.toList).reverse =
      (last ++ '.' :: extension.toList) :: below := by
  obtain ⟨before, last, after, cut, nowhere⟩ := exists_splitOn_slashed found isEnding
  refine ⟨last, before.foldl (push (isAbsoluteChars (slashed path.toList))) [], ?_⟩
  rw [foldedSegments, foldSegments, List.reverse_reverse, cut, List.foldl_append, List.foldl_cons,
    foldl_push_of_nowhere nowhere]
  have ordinary : ∀ {short : List Char}, short.length < 3 →
      last ++ '.' :: extension.toList ≠ short := isEnding.append_ne last
  unfold push
  rw [if_neg (not_or.mpr ⟨ordinary (by decide), ordinary (by decide)⟩),
    if_neg (ordinary (by decide))]

end Path

/-- The extensions of languages end file names. -/
theorem Language.isEnding_of_ofExtension? {extension : String} {language : Language}
    (found : ofExtension? extension = some language) : Path.IsEnding ('.' :: extension.toList) := by
  have all : ∀ language ∈ Language.all, ∀ extension ∈ language.extensions,
      3 ≤ ('.' :: extension.toList).length ∧ '/' ∉ '.' :: extension.toList ∧
        '\\' ∉ '.' :: extension.toList := by decide
  have listed : extension ∈ language.extensions := by
    simpa using List.find?_some found
  obtain ⟨long, slashFree, backslashFree⟩ :=
    all language (List.mem_of_find?_eq_some found) extension listed
  exact ⟨long, slashFree, backslashFree⟩

namespace Path

/-- The path of a file of a known language leads to a name. -/
theorem isProper_normalize {path : String} {language : Language}
    (known : Language.ofPath? path = some language) : IsProper (normalize path) := by
  obtain ⟨extension, found, isLanguage⟩ := Option.bind_eq_some_iff.mp known
  have isEnding := Language.isEnding_of_ofExtension? isLanguage
  obtain ⟨last, below, stack⟩ := exists_foldedSegments found isEnding
  have settled := settled_foldedSegments path.toList
  have form : (normalize path).toList = written (isAbsoluteChars (slashed path.toList))
      ((last ++ '.' :: extension.toList) :: below).reverse := by
    rw [normalize, String.toList_ofList, normalizeChars_eq_written, ← stack, List.reverse_reverse]
  rw [stack] at settled
  obtain ⟨isText, notTop⟩ := written_ne (List.reverse_ne_nil_iff.mpr (List.cons_ne_nil _ _))
    settled.isPlain (isAbsoluteChars (slashed path.toList))
  refine ⟨fun empty => isText ?_, fun isTop => notTop ?_, ?_⟩
  · rw [← form, empty]
    rfl
  · rw [← form, isTop]
    rfl
  · rw [lastSegment?, form, getLast?_splitOn_written settled]
    exact fun isUp => isEnding.append_ne last (by decide) (Option.some.inj isUp)

/-! ### Candidates -/

/-- Joined paths are normal. -/
theorem isNormal_join (dir relative : String) : IsNormal (join dir relative).toList := by
  rw [join]
  split <;> exact isNormal_normalize _

theorem isNormal_of_mem_siblings {base candidate : String} (normal : IsNormal base.toList)
    (present : candidate ∈ siblings base) : IsNormal candidate.toList := by
  obtain ⟨⟨compiled, sources⟩, listed, inEntry⟩ := List.mem_flatMap.mp present
  obtain ⟨slashFree, endings⟩ := isEnding_sourceExtensions _ listed
  dsimp only at inEntry
  split at inEntry
  · next stem cut =>
    obtain ⟨extension, memExtension, rfl⟩ := List.mem_map.mp inEntry
    rw [Text.withoutTail?_eq_some_iff.mp cut] at normal
    rw [String.toList_append, String.toList_ofList]
    exact normal.replaceEnd slashFree (endings extension memExtension)
  · cases inEntry

/-- Every candidate of a base path in normal form is in normal form. -/
theorem isNormal_of_mem_candidates {base candidate : String} (normal : IsNormal base.toList)
    (present : candidate ∈ candidates base) : IsNormal candidate.toList := by
  rw [candidates, List.mem_append, List.mem_append, List.mem_cons] at present
  rcases present with ((rfl | sibling) | extended) | index
  · exact normal
  · exact isNormal_of_mem_siblings normal sibling
  · obtain ⟨extension, listed, rfl⟩ := List.mem_map.mp extended
    rw [String.toList_append]
    rw [← List.append_nil base.toList] at normal
    exact normal.replaceEnd List.not_mem_nil (isEnding_resolveExtensions extension listed)
  · obtain ⟨extension, -, rfl⟩ := List.mem_map.mp index
    exact isNormal_join _ _

end Path

namespace Model

/-! ### What is looked up -/

/-- The base paths that a specifier may mean in a file, in the order in which they are tried. -/
def basePaths (model : Model) (importer : SourceFile) (specifier : String) : List String :=
  if Path.isRelativeSpecifier specifier then
    [Path.join (Path.parent importer.normalized) specifier]
  else if Path.isRootedSpecifier specifier then [Path.normalize specifier]
  else model.moduleRoots.map fun root => Path.join root specifier

/-- The paths that are looked up for a specifier in a file, in order. -/
def lookups (model : Model) (importer : SourceFile) (specifier : String) : List String :=
  (model.basePaths importer specifier).flatMap Path.candidates

theorem findSome?_firstCandidate? (model : Model) (bases : List String) :
    bases.findSome? model.firstCandidate? =
      (bases.flatMap Path.candidates).findSome? model.fileWith? := by
  induction bases with
  | nil => rfl
  | cons base rest inductionHypothesis =>
    rw [List.findSome?_cons, List.flatMap_cons, List.findSome?_append, ← inductionHypothesis,
      firstCandidate?]
    cases (Path.candidates base).findSome? model.fileWith? <;> rfl

/-- A specifier means the first of the paths it is looked up under. -/
theorem resolveModule?_eq_findSome? (model : Model) (importer : SourceFile) (specifier : String) :
    model.resolveModule? importer specifier =
      (model.lookups importer specifier).findSome? model.fileWith? := by
  rw [lookups, ← findSome?_firstCandidate?, basePaths, resolveModule?]
  split
  · simp
  · split
    · simp
    · rw [List.findSome?_map]
      rfl

/-- All of these paths are normal, so a lookup never misses a file by its spelling. -/
theorem normalize_of_mem_lookups {model : Model} {importer : SourceFile}
    {specifier candidate : String} (present : candidate ∈ model.lookups importer specifier) :
    Path.normalize candidate = candidate := by
  obtain ⟨base, isBase, isCandidate⟩ := List.mem_flatMap.mp present
  have normal : Path.IsNormal base.toList := by
    rw [basePaths] at isBase
    split at isBase
    · rw [List.mem_singleton.mp isBase]
      exact Path.isNormal_join _ _
    · split at isBase
      · rw [List.mem_singleton.mp isBase]
        exact Path.isNormal_normalize specifier
      · obtain ⟨root, -, rfl⟩ := List.mem_map.mp isBase
        exact Path.isNormal_join _ _
  exact Path.normalize_eq_self (Path.isNormal_of_mem_candidates normal isCandidate)

variable {settings : AnalysisSettings} {given : List Input}

/-- A path in normal form is looked up under every spelling at once. -/
theorem fileWith?_build_eq_some_iff {path : String} (normal : Path.normalize path = path)
    {source : SourceFile} :
    (Model.build settings given).fileWith? path = some source ↔
      ∃ file ∈ (Model.build settings given).files, file.source = source ∧
        Path.normalize file.source.path = Path.normalize path := by
  constructor
  · intro found
    rw [← normal] at found
    obtain ⟨file, present, rfl, named⟩ := exists_file_of_fileAt? found
    exact ⟨file, present, rfl, (normalized_eq present).symm.trans named⟩
  · rintro ⟨file, present, rfl, named⟩
    rw [normal, ← normalized_eq present] at named
    rw [← named, find?_file_build present]

/-- A path is not found exactly when no file has it in any spelling. -/
theorem fileWith?_build_eq_none_iff {path : String} (normal : Path.normalize path = path) :
    (Model.build settings given).fileWith? path = none ↔
      ∀ file ∈ (Model.build settings given).files,
        Path.normalize file.source.path ≠ Path.normalize path := by
  rw [Option.eq_none_iff_forall_ne_some]
  constructor
  · intro nothing file present named
    exact nothing _ ((fileWith?_build_eq_some_iff normal).mpr ⟨file, present, rfl, named⟩)
  · intro nothing source found
    obtain ⟨file, present, -, named⟩ := (fileWith?_build_eq_some_iff normal).mp found
    exact nothing file present named

/-! ### Specifiers and files -/

/-- The files of a model have proper paths. -/
theorem isProper_of_mem_files {file : ModelFile}
    (present : file ∈ (Model.build settings given).files) :
    Path.IsProper file.source.normalized := by
  obtain ⟨input, -, admitted, made⟩ := exists_input_of_mem_files present
  have known : ∃ language, Language.ofPath? input.path = some language := by
    by_contra unknown
    have noLanguage : Language.ofPath? (input.sourceFile "" 0).path = none :=
      Option.eq_none_iff_forall_ne_some.mpr (not_exists.mp unknown)
    unfold Input.admit at admitted
    rw [Parsed.ofTree, noLanguage] at admitted
    split at admitted <;> cases admitted
  obtain ⟨language, isLanguage⟩ := known
  rw [made]
  exact Path.isProper_normalize isLanguage

/-- A path names a file in some spelling. -/
def Spells (path : String) (file : ModelFile) : Prop :=
  Path.normalize file.source.path = Path.normalize path

/-- Specifiers lead to files whatever the spelling of their paths. -/
structure FindsSpelled (model : Model) : Prop where
  /-- A relative specifier is looked up where it leads to from the file. -/
  relative : ∀ file ∈ model.files, ∀ specifier, Path.isRelativeSpecifier specifier →
    model.lookups file.source specifier =
      Path.candidates (Path.normalize (file.source.normalized ++ "/../" ++ specifier))
  /-- The file that is found is the first that one of the paths names in any spelling. -/
  found : ∀ importer specifier target, model.resolveModule? importer specifier = some target ↔
    ∃ before path after, model.lookups importer specifier = before ++ path :: after ∧
      (∃ file ∈ model.files, file.source = target ∧ Spells path file) ∧
      ∀ earlier ∈ before, ∀ file ∈ model.files, ¬Spells earlier file
  /-- No file is found only when none of the paths names a file in any spelling. -/
  missed : ∀ importer specifier, model.resolveModule? importer specifier = none ↔
    ∀ path ∈ model.lookups importer specifier, ∀ file ∈ model.files, ¬Spells path file

/-- Specifiers find files in any spelling. -/
theorem findsSpelled_build (settings : AnalysisSettings) (given : List Input) :
    (Model.build settings given).FindsSpelled := by
  refine ⟨fun file present specifier relative => ?_, fun importer specifier target => ?_,
    fun importer specifier => ?_⟩
  · have normal : Path.IsNormal file.source.normalized.toList := by
      rw [normalized_eq present]
      exact Path.isNormal_normalize _
    rw [lookups, basePaths, if_pos relative,
      Path.join_parent normal (isProper_of_mem_files present) relative, List.flatMap_singleton]
  · rw [resolveModule?_eq_findSome?, List.findSome?_eq_some_iff]
    refine exists_congr fun before => exists_congr fun path => exists_congr fun after =>
      and_congr_right fun cut => ?_
    have normal : ∀ looked ∈ before ++ path :: after, Path.normalize looked = looked :=
      fun looked present => normalize_of_mem_lookups (cut ▸ present)
    rw [fileWith?_build_eq_some_iff (normal path (by simp))]
    refine and_congr_right fun _ => forall₂_congr fun earlier isEarlier => ?_
    exact fileWith?_build_eq_none_iff (normal earlier (List.mem_append_left _ isEarlier))
  · rw [resolveModule?_eq_findSome?, List.findSome?_eq_none_iff]
    exact forall₂_congr fun path present =>
      fileWith?_build_eq_none_iff (normalize_of_mem_lookups present)

/-- **Specifiers lead to files as paths do.** From a path that leads to a name, a relative specifier
is joined as if one had gone up from the path; every candidate of a normal form is a normal form;
and so no file is missed because its path is spelled in another way. -/
theorem specifiers_meanPaths (settings : AnalysisSettings) (given : List Input) :
    (∀ path specifier, Path.normalize path = path → Path.IsProper path →
      Path.isRelativeSpecifier specifier →
        Path.join (Path.parent path) specifier =
          Path.normalize (path ++ "/../" ++ specifier)) ∧
    (∀ base, Path.normalize base = base →
      ∀ candidate ∈ Path.candidates base, Path.normalize candidate = candidate) ∧
    (Model.build settings given).FindsSpelled := by
  refine ⟨fun path specifier normal proper relative => ?_, fun base normal candidate present => ?_,
    findsSpelled_build settings given⟩
  · exact Path.join_parent (normal ▸ Path.isNormal_normalize path) proper relative
  · exact Path.normalize_eq_self
      (Path.isNormal_of_mem_candidates (normal ▸ Path.isNormal_normalize base) present)

/-- Two files, the path of the first in no normal form. -/
def spelledAside : List Input :=
  [⟨"/repo//src/../lib/./b.ts", "", some (.node ⟨.program, none, true, false, 0, 0⟩ [])⟩,
    ⟨"/repo/src/a.ts", "", some (.node ⟨.program, none, true, false, 0, 0⟩ [])⟩]

theorem orderInputs_spelledAside : orderInputs spelledAside = spelledAside := by
  rw [orderInputs, List.mergeSort_of_pairwise (by decide +kernel)]
  rfl

/-- From the second file, a specifier with another extension finds the first. -/
theorem specifiers_meanPaths_spelledAside :
    let model := Model.build {} spelledAside
    Path.join (Path.parent "/repo/src/a.ts") "../lib/b.js" =
        Path.normalize ("/repo/src/a.ts" ++ "/../" ++ "../lib/b.js") ∧
      ∃ importer ∈ model.files, ∃ file ∈ model.files,
        file.source.path = "/repo//src/../lib/./b.ts" ∧
        model.resolveModule? importer.source "../lib/b.js" = some file.source ∧
        ∃ path ∈ model.lookups importer.source "../lib/b.js", Spells path file := by
  intro model
  obtain ⟨joins, -, finds⟩ := specifiers_meanPaths {} spelledAside
  refine ⟨joins _ _ (by decide +kernel) ⟨by decide, by decide, by decide +kernel⟩
    (by decide +kernel), ?_⟩
  have seen : model.files[1]?.any fun importer =>
      (model.resolveModule? importer.source "../lib/b.js").any fun target =>
        target.path = "/repo//src/../lib/./b.ts" := by
    simp only [model, Model.build, orderInputs_spelledAside]
    decide +kernel
  obtain ⟨importer, isSecond, leads⟩ := (Option.any_eq_true _ _).mp seen
  obtain ⟨target, look, spelled⟩ := (Option.any_eq_true _ _).mp leads
  obtain ⟨before, path, after, cut, ⟨file, present, rfl, spells⟩, -⟩ :=
    (finds.found _ _ _).mp look
  have isLookedUp : path ∈ model.lookups importer.source "../lib/b.js" := by
    rw [show model.lookups importer.source "../lib/b.js" = _ from cut]
    exact List.mem_append_right _ List.mem_cons_self
  exact ⟨importer, List.mem_of_getElem? isSecond, file, present, of_decide_eq_true spelled, look,
    path, isLookedUp, spells⟩

end Model

end CodeGraph
