import CodeGraph.Proofs.Path.Join

/-!
# How normalized paths are spelled

What a normal form looks like can be read off the text alone: it has no backslash, no segment that
is empty or `.`, and `..` stands only in front of a relative path. What it means is where it leads.
Here a path is followed from a directory, one segment after the other, and it leads to where its
normal form leads, from whatever directory one sets out.

The two together leave no choice: no two texts in normal form lead to the same places. So there is
one normal form for each path, and one spelling for each file.

## Main Definitions

* `Path.withoutScheme`: a text without one leading `file://`.
* `Path.segmentsOf`: the segments of a path as it is written.
* `Path.InNormalForm`: a text is spelled as a normal form.
* `Path.enter`, `Path.destination`: where a path leads from a directory.
* `Path.Normalizes`: what normalizing makes of a path.

## Main Statements

* `Path.inNormalForm_of_isNormal`: texts of folded segments are spelled as normal forms.
* `Path.foldl_enter_push`, `Path.foldl_enter_foldl_push`: folding does not change where one gets.
* `Path.InNormalForm.eq_of_destination_eq`: normal forms that lead to the same places are the same.
* `Path.paths_spelledOneWay`: every path has one normal form, and normalizing finds it.
-/

namespace CodeGraph.Path

variable {absolute : Bool} {stack : List Segment} {segment : Segment}

/-! ### Reading a path -/

/-- A text without one leading `file://`. -/
def withoutScheme (cs : List Char) : List Char :=
  if scheme <+: cs then cs.drop scheme.length else cs

theorem slashed_eq_forward_withoutScheme (cs : List Char) :
    slashed cs = forward (withoutScheme cs) := by
  by_cases inFront : scheme <+: cs
  · obtain ⟨rest, rfl⟩ := inFront
    rw [slashed, Text.withoutHead?_eq_some_iff.mpr rfl, withoutScheme,
      if_pos (List.prefix_append scheme rest), List.drop_left]
    rfl
  · rw [slashed_eq_forward inFront, withoutScheme, if_neg inFront]

/-- A text without the slash that stands for the root. -/
def belowRoot (cs : List Char) : List Char :=
  if isAbsoluteChars cs then cs.tail else cs

/-- The segments of a path as it is written: what stands between its slashes, the one at the root
apart. Where there is no text there is no segment. -/
def segmentsOf (cs : List Char) : List Segment :=
  if belowRoot cs = [] then [] else (belowRoot cs).splitOn '/'

/-- A path is put together from its segments. -/
theorem written_segmentsOf (cs : List Char) :
    written (isAbsoluteChars cs) (segmentsOf cs) = cs := by
  have joined : unsplit (segmentsOf cs) = belowRoot cs := by
    rw [segmentsOf]
    split
    · next empty => rw [empty]; rfl
    · exact List.intercalate_splitOn '/'
  rw [written, joined, belowRoot]
  cases cs with
  | nil => rfl
  | cons c rest =>
    split
    · next isAbsolute =>
      have slash : c = '/' := by simpa [isAbsoluteChars] using isAbsolute
      rw [slash, List.tail_cons]
    · rfl

/-- The segments that a path is put together from are read off it again. -/
theorem segmentsOf_written {segments : List Segment}
    (plain : ∀ segment ∈ segments, IsPlain segment) :
    segmentsOf (written absolute segments) = segments := by
  have below : belowRoot (written absolute segments) = unsplit segments := by
    rw [belowRoot, isAbsoluteChars_written plain]
    cases absolute <;> rfl
  rw [segmentsOf, below]
  by_cases empty : segments = []
  · rw [empty]
    rfl
  · have isText : unsplit segments ≠ [] := (written_ne empty plain false).1
    rw [if_neg isText, splitOn_unsplit empty fun segment present => (plain segment present).2]

/-- What is done for each segment of a path can be done for all that stands between slashes, if it
is nothing for the empty segment. -/
theorem foldl_segmentsOf {α : Type} {f : α → Segment → α} (skips : ∀ a, f a [] = a)
    (start : α) (cs : List Char) :
    (segmentsOf cs).foldl f start = (cs.splitOn '/').foldl f start := by
  have below : (segmentsOf cs).foldl f start = ((belowRoot cs).splitOn '/').foldl f start := by
    rw [segmentsOf]
    split
    · next empty =>
      rw [empty, List.splitOn_nil, List.foldl_cons, skips]
    · rfl
  rw [below, belowRoot]
  split
  · next isAbsolute =>
    obtain ⟨rest, rfl⟩ : ∃ rest, cs = '/' :: rest := by
      cases cs with
      | nil => cases isAbsolute
      | cons c rest => exact ⟨rest, by simpa [isAbsoluteChars] using isAbsolute⟩
    rw [List.tail_cons, splitOn_cons_slash, List.foldl_cons, skips]
  · rfl

/-! ### What a normal form looks like -/

/-- A text is spelled as the normal form of a path. -/
@[mk_iff]
structure InNormalForm (path : String) : Prop where
  /-- It has no backslash. -/
  backslashFree : '\\' ∉ path.toList
  /-- It does not start with `file://`. -/
  schemeFree : ¬scheme <+: path.toList
  /-- No segment is empty. -/
  named : [] ∉ segmentsOf path.toList
  /-- No segment stands for the directory itself. -/
  elsewhere : here ∉ segmentsOf path.toList
  /-- Only in front do segments lead up. -/
  outward : up ∉ (segmentsOf path.toList).dropWhile (· = up)
  /-- In an absolute path none does. -/
  rooted : isAbsoluteChars path.toList → up ∉ segmentsOf path.toList

instance (path : String) : Decidable (InNormalForm path) :=
  decidable_of_iff _ (inNormalForm_iff path).symm

/-- Where nothing can be folded, `..` stands only in front. -/
theorem Settled.outward (settled : Settled absolute stack) :
    up ∉ stack.reverse.dropWhile (· = up) := by
  induction stack with
  | nil => exact List.not_mem_nil
  | cons last below inductionHypothesis =>
    obtain ⟨-, leads, lower⟩ := settled
    rw [List.reverse_cons, List.dropWhile_append]
    split
    · by_cases isUp : last = up
      · simp [isUp]
      · simpa [isUp] using Ne.symm isUp
    · next named =>
      intro present
      rcases List.mem_append.mp present with before | isLast
      · exact inductionHypothesis lower before
      · -- Below a last `..` all is `..`, but there is a name.
        have allUp := (leads (List.mem_singleton.mp isLast).symm).2
        exact named (by simpa using allUp)

/-- At the root there is no `..`. -/
theorem Settled.rooted (settled : Settled true stack) : up ∉ stack := by
  induction stack with
  | nil => exact List.not_mem_nil
  | cons last below inductionHypothesis =>
    intro present
    rcases List.mem_cons.mp present with isUp | lower
    · cases (settled.2.1 isUp.symm).1
    · exact inductionHypothesis settled.2.2 lower

/-- The text of segments that can not be folded is spelled as a normal form. -/
theorem inNormalForm_of_isNormal {path : String} (normal : IsNormal path.toList) :
    InNormalForm path := by
  obtain ⟨absolute, stack, settled, text⟩ := normal
  have segments : segmentsOf path.toList = stack.reverse := by
    rw [text, segmentsOf_written settled.isPlain]
  refine ⟨?_, ?_, ?_, ?_, ?_, ?_⟩
  · rw [text, ← slashed_written settled]
    exact backslashFree_slashed _
  · rw [text]
    exact not_scheme_prefix_written settled.isPlain
  · rw [segments, List.mem_reverse]
    exact fun present => (settled.isKept present).plain.1 rfl
  · rw [segments, List.mem_reverse]
    exact fun present => (settled.isKept present).elsewhere rfl
  · rw [segments]
    exact settled.outward
  · rw [segments, List.mem_reverse, text, isAbsoluteChars_written settled.isPlain]
    rintro rfl
    exact settled.rooted

example : InNormalForm "../shared/x.ts" := by decide

example : ¬InNormalForm "src//../x.ts" := by decide

/-! ### Where a path leads -/

/-- Where a segment leads from a directory. A directory is given by the names on the way to it, the
innermost first; nothing lies above the root. -/
def enter (dir : List Segment) (segment : Segment) : List Segment :=
  if segment = [] ∨ segment = here then dir
  else if segment = up then dir.tail
  else segment :: dir

theorem enter_up (dir : List Segment) : enter dir up = dir.tail := rfl

theorem enter_name {name : Segment} (kept : IsKept name) (ordinary : name ≠ up)
    (dir : List Segment) : enter dir name = name :: dir := by
  rw [enter, if_neg (not_or.mpr ⟨kept.plain.1, kept.elsewhere⟩), if_neg ordinary]

/-- Where a path leads from a directory. An absolute path leads to one place from everywhere. -/
def destination (dir : List Segment) (path : List Char) : List Segment :=
  (segmentsOf path).foldl enter (if isAbsoluteChars path then [] else dir)

/-- Folding in one more segment leads to where the segment leads. -/
theorem foldl_enter_push {start : List Segment} (settled : Settled absolute stack)
    (atRoot : absolute → start = []) (segment : Segment) :
    (push absolute stack segment).reverse.foldl enter start =
      enter (stack.reverse.foldl enter start) segment := by
  have onTop : ∀ last below, (last :: below).reverse.foldl enter start =
      enter (below.reverse.foldl enter start) last := by
    intro last below
    rw [List.reverse_cons, List.foldl_append, List.foldl_cons, List.foldl_nil]
  unfold push
  split
  · next nowhere => rw [enter, if_pos nowhere]
  · split
    · next isUp =>
      rw [isUp]
      split
      · next last rest =>
        split
        · next ordinary => rw [onTop, enter_name settled.1 ordinary, enter_up, List.tail_cons]
        · next lastUp =>
          -- Above `..` the path is relative, so the new `..` is kept.
          rw [(settled.2.1 (not_not.mp lastUp)).1, if_neg Bool.false_ne_true, onTop]
      · split
        · next isAbsolute =>
          rw [List.reverse_nil, List.foldl_nil, atRoot isAbsolute, enter_up, List.tail_nil]
        · exact onTop up []
    · exact onTop segment stack

/-- Folding in several segments leads to where they lead one after the other. -/
theorem foldl_enter_foldl_push {start segments : List Segment} (settled : Settled absolute stack)
    (atRoot : absolute → start = []) (slashFree : ∀ segment ∈ segments, '/' ∉ segment)
    (backslashFree : ∀ segment ∈ segments, '\\' ∉ segment) :
    (segments.foldl (push absolute) stack).reverse.foldl enter start =
      segments.foldl enter (stack.reverse.foldl enter start) := by
  induction segments generalizing stack with
  | nil => rfl
  | cons segment rest inductionHypothesis =>
    obtain ⟨firstSlash, restSlash⟩ := List.forall_mem_cons.mp slashFree
    obtain ⟨firstBackslash, restBackslash⟩ := List.forall_mem_cons.mp backslashFree
    rw [List.foldl_cons, List.foldl_cons, ← foldl_enter_push settled atRoot segment]
    exact inductionHypothesis (settled_push settled firstSlash firstBackslash) restSlash
      restBackslash

/-- A path leads to where its normal form leads. -/
theorem destination_normalize (dir : List Segment) (path : String) :
    destination dir (normalize path).toList = destination dir (slashed path.toList) := by
  have plain : ∀ segment ∈ foldedSegments path.toList, IsPlain segment :=
    fun _ => isPlain_of_mem_foldedSegments
  have skips : ∀ reached : List Segment, enter reached [] = reached := fun _ => rfl
  rw [destination, destination, isAbsoluteChars_normalize, foldl_segmentsOf skips _ (slashed _),
    normalize, String.toList_ofList, normalizeChars_eq_written, segmentsOf_written plain,
    foldedSegments, foldSegments]
  exact foldl_enter_foldl_push trivial (fun isAbsolute => if_pos isAbsolute)
    (fun _ => slashFree_of_mem_splitOn)
    fun _ => backslashFree_of_mem_splitOn (backslashFree_slashed path.toList)

/-! ### One normal form for each path -/

theorem foldl_enter_ups (steps : Nat) (dir : List Segment) :
    (List.replicate steps up).foldl enter dir = dir.drop steps := by
  induction steps generalizing dir with
  | zero => rfl
  | succ steps inductionHypothesis =>
    rw [List.replicate_succ, List.foldl_cons, inductionHypothesis, enter_up, List.drop_tail]

theorem foldl_enter_names {names : List Segment} (kept : ∀ name ∈ names, IsKept name)
    (ordinary : up ∉ names) (dir : List Segment) :
    names.foldl enter dir = names.reverse ++ dir := by
  induction names generalizing dir with
  | nil => rfl
  | cons name rest inductionHypothesis =>
    obtain ⟨keptName, keptRest⟩ := List.forall_mem_cons.mp kept
    rw [List.mem_cons, not_or] at ordinary
    rw [List.foldl_cons, enter_name keptName (Ne.symm ordinary.1),
      inductionHypothesis keptRest ordinary.2, List.reverse_cons, List.append_assoc]
    rfl

/-- Segments are some steps up and then what does not lead up at once. -/
theorem exists_replicate_append (segments : List Segment) :
    ∃ steps, List.replicate steps up ++ segments.dropWhile (· = up) = segments := by
  have ups : segments.takeWhile (· = up) =
      List.replicate (segments.takeWhile (· = up)).length up :=
    List.eq_replicate_length.mpr fun step inFront => by simpa using List.mem_takeWhile_imp inFront
  exact ⟨_, ups ▸ List.takeWhile_append_dropWhile⟩

namespace InNormalForm

variable {path other : String}

theorem isKept (normal : InNormalForm path) (present : segment ∈ segmentsOf path.toList) :
    IsKept segment := by
  have between : segment ∈ (belowRoot path.toList).splitOn '/' := by
    rw [segmentsOf] at present
    split at present
    · cases present
    · exact present
  have free : '\\' ∉ belowRoot path.toList := by
    rw [belowRoot]
    split
    · exact fun inside => normal.backslashFree (List.mem_of_mem_tail inside)
    · exact normal.backslashFree
  exact ⟨⟨ne_of_mem_of_not_mem present normal.named, slashFree_of_mem_splitOn between⟩,
    ne_of_mem_of_not_mem present normal.elsewhere, backslashFree_of_mem_splitOn free between⟩

/-- A normal form leads some steps up, unless it is absolute, and then through some names. -/
theorem exists_destination (normal : InNormalForm path) :
    ∃ steps names, segmentsOf path.toList = List.replicate steps up ++ names ∧
      (isAbsoluteChars path.toList → steps = 0) ∧
      ∀ dir, destination dir path.toList =
        names.reverse ++ (if isAbsoluteChars path.toList then [] else dir).drop steps := by
  obtain ⟨steps, cut⟩ := exists_replicate_append (segmentsOf path.toList)
  have ordinary := normal.outward
  generalize (segmentsOf path.toList).dropWhile (· = up) = names at cut ordinary
  have kept : ∀ name ∈ names, IsKept name := fun name present =>
    normal.isKept (cut ▸ List.mem_append_right _ present)
  refine ⟨steps, names, cut.symm, fun isAbsolute => ?_, fun dir => ?_⟩
  · have rooted := normal.rooted isAbsolute
    rw [← cut, List.mem_append, not_or, List.mem_replicate] at rooted
    by_contra some
    exact rooted.1 ⟨some, rfl⟩
  · rw [destination, ← cut, List.foldl_append, foldl_enter_ups, foldl_enter_names kept ordinary]

/-- Normal forms that lead to the same places are the same. -/
theorem eq_of_destination_eq (normal : InNormalForm path) (otherNormal : InNormalForm other)
    (same : ∀ dir, destination dir path.toList = destination dir other.toList) : path = other := by
  obtain ⟨steps, names, segments, rooted, leads⟩ := normal.exists_destination
  obtain ⟨otherSteps, otherNames, otherSegments, otherRooted, otherLeads⟩ :=
    otherNormal.exists_destination
  simp only [leads, otherLeads] at same
  -- From the root only the names are left, from far below it the steps up can be counted.
  have namesEq : names = otherNames := by simpa using same []
  have counted := congrArg List.length (same (List.replicate (steps + otherSteps + 1) up))
  simp only [namesEq, List.length_append, List.length_drop, apply_ite List.length, List.length_nil,
    List.length_replicate, Nat.add_left_cancel_iff] at counted
  have alike : isAbsoluteChars path.toList = isAbsoluteChars other.toList ∧ steps = otherSteps := by
    cases isAbsolute : isAbsoluteChars path.toList with
    | true =>
      cases otherAbsolute : isAbsoluteChars other.toList with
      | true => exact ⟨rfl, (rooted isAbsolute).trans (otherRooted otherAbsolute).symm⟩
      | false =>
        simp only [isAbsolute, otherAbsolute, reduceIte, Bool.false_eq_true] at counted
        omega
    | false =>
      cases otherAbsolute : isAbsoluteChars other.toList with
      | true =>
        simp only [isAbsolute, otherAbsolute, reduceIte, Bool.false_eq_true] at counted
        omega
      | false =>
        simp only [isAbsolute, otherAbsolute, reduceIte, Bool.false_eq_true] at counted
        exact ⟨rfl, by omega⟩
  rw [← String.toList_inj, ← written_segmentsOf path.toList, ← written_segmentsOf other.toList,
    segments, otherSegments, alike.1, alike.2, namesEq]

end InNormalForm

/-! ### Normalizing -/

/-- What normalizing makes of a path. -/
structure Normalizes (path : String) : Prop where
  /-- It makes a normal form. -/
  form : InNormalForm (normalize path)
  /-- Normalizing again changes nothing. -/
  again : normalize (normalize path) = normalize path
  /-- The normal form is absolute when the path is, one leading `file://` apart and with backslashes
  read as slashes. -/
  absolute : isAbsoluteChars (normalize path).toList =
    isAbsoluteChars (forward (withoutScheme path.toList))
  /-- The normal form leads to where the path, so read, leads. -/
  leads : ∀ dir, destination dir (normalize path).toList =
    destination dir (forward (withoutScheme path.toList))
  /-- No other normal form does. -/
  only : ∀ other, InNormalForm other → (∀ dir, destination dir other.toList =
    destination dir (forward (withoutScheme path.toList))) → other = normalize path

/-- **Every path has one normal form, and normalizing finds it.** -/
theorem paths_spelledOneWay (path : String) : Normalizes path := by
  have form := inNormalForm_of_isNormal (isNormal_normalize path)
  have leads : ∀ dir, destination dir (normalize path).toList =
      destination dir (forward (withoutScheme path.toList)) := by
    intro dir
    rw [destination_normalize, slashed_eq_forward_withoutScheme]
  refine ⟨form, normalize_normalize path, ?_, leads, fun other otherForm otherLeads => ?_⟩
  · rw [isAbsoluteChars_normalize, slashed_eq_forward_withoutScheme]
  · exact otherForm.eq_of_destination_eq form fun dir => (otherLeads dir).trans (leads dir).symm

end CodeGraph.Path
