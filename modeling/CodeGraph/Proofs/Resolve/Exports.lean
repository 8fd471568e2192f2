import CodeGraph.Proofs.Resolve.Symbols
import Mathlib.Logic.Relation

/-!
# Names that are exported again

A file may export all names of other files, which may do the same, in circles too. The search for a
name goes through these files depth first, and all its branches share the files that were visited: a
file that one branch has left without success is not tried by another one. Nothing is lost by that.
The search finds the name whenever some path of files leads to it, and it finds the same symbol as
the plain search in which every path keeps its own record of the files it has passed.

The argument is about one file that leads nowhere. Every path through it ends in vain, so the file
can be taken out of all other paths; and the files that the search has left are of this kind.

## Main Definitions

* `Program.ownExport?`: what the table of a file itself says about a name.
* `Program.Forwards`: a file leaves a name to a file that it exports again.
* `Program.starEnds`: the ends of all paths from a file, depth first.
* `Program.searchFrom?`: the search as a nested recursion of bounded depth.
* `Program.FindsExport`: the search for a name is sound and complete and finds what comes first.

## Main Statements

* `Program.firstAlong?_erase`: a file that leads nowhere can be left out.
* `Program.searchExport?_eq_findSome?`: the search finds what comes first in depth-first order.
* `Program.mem_starEnds_iff`: the ends are the files that paths lead to.
* `Program.searches_searchFrom?`: the nested recursion ends and gives the same answer.
-/

namespace CodeGraph

/-- Searching the lists of several elements is searching the elements for one whose list has it. -/
theorem findSome?_flatMap {α β γ : Type} (list : List α) (f : α → List β) (g : β → Option γ) :
    (list.flatMap f).findSome? g = list.findSome? fun a => (f a).findSome? g := by
  induction list with
  | nil => rfl
  | cons a rest inductionHypothesis =>
    rw [List.flatMap_cons, List.findSome?_append, inductionHypothesis, List.findSome?_cons]
    cases (f a).findSome? g <;> rfl

theorem findSome?_congr {α β : Type} {list : List α} {f g : α → Option β}
    (same : ∀ a ∈ list, f a = g a) : list.findSome? f = list.findSome? g := by
  induction list with
  | nil => rfl
  | cons a rest inductionHypothesis =>
    rw [List.findSome?_cons, List.findSome?_cons, same a List.mem_cons_self,
      inductionHypothesis fun b later => same b (List.mem_cons_of_mem a later)]

/-- The way from one element to another can be taken so that the start is not passed again. -/
theorem exists_step_of_reflTransGen {α : Type} {r : α → α → Prop} {start stop : α}
    (path : Relation.ReflTransGen r start stop) :
    stop = start ∨ ∃ next, r start next ∧ next ≠ start ∧
      Relation.ReflTransGen (fun a b => r a b ∧ b ≠ start) next stop := by
  induction path with
  | refl => exact Or.inl rfl
  | @tail middle stop before last inductionHypothesis =>
    by_cases back : stop = start
    · exact Or.inl back
    · refine Or.inr ?_
      rcases inductionHypothesis with rfl | ⟨next, first, leaves, rest⟩
      · exact ⟨stop, last, back, Relation.ReflTransGen.refl⟩
      · exact ⟨next, first, leaves, rest.tail ⟨last, back⟩⟩

namespace Program

variable {program : Program} {name : String}

/-! ### Tables and star exports -/

/-- What the table of a file itself says about a name. -/
def ownExport? (program : Program) (name : String) (file : SourceFile) : Option Symbol :=
  (Keyed.get? (program.scopeOf file).exports name).bind (targetSymbol? (program.scopeOf file))

/-- A file leaves a name to a file that it exports again. -/
structure Forwards (program : Program) (name : String) (file next : SourceFile) : Prop where
  /-- The file does not have the name in its own table. -/
  unlisted : Keyed.get? (program.scopeOf file).exports name = none
  /-- The file exports all names of the next one again. -/
  star : ∃ specifier ∈ (program.scopeOf file).starExports,
    program.model.resolveModule? file specifier = some next

/-- The files that a file leaves a name to, in source order. -/
def successors (program : Program) (name : String) (file : SourceFile) : List SourceFile :=
  if (Keyed.get? (program.scopeOf file).exports name).isSome then [] else program.starFiles file

/-- The successors of a file are the files that it leaves the name to. -/
theorem mem_successors_iff {file next : SourceFile} :
    next ∈ program.successors name file ↔ program.Forwards name file next := by
  rw [successors]
  constructor
  · intro present
    split at present
    · cases present
    · next unlisted =>
      exact ⟨Option.not_isSome_iff_eq_none.mp unlisted, List.mem_filterMap.mp present⟩
  · rintro ⟨unlisted, star⟩
    rw [unlisted, if_neg (by simp)]
    exact List.mem_filterMap.mpr star

theorem Forwards.hasFile {file next : SourceFile} (forwards : program.Forwards name file next) :
    program.HasFile next := by
  obtain ⟨specifier, -, resolved⟩ := forwards.star
  exact hasFile_of_resolveModule? resolved

/-! ### Files by number -/

/-- The numbers of all files. -/
def fileIds (program : Program) : List FileId := program.model.files.map (·.source.id)

/-- A file of the program is among those that may be visited. -/
theorem HasFile.id_mem {file : SourceFile} (known : program.HasFile file) :
    file.id ∈ program.fileIds := by
  obtain ⟨modelFile, present, rfl⟩ := known
  exact List.mem_map_of_mem present

/-- A file of the program is known by its number. -/
theorem HasFile.eq_of_id_eq (numbered : program.model.Numbered) {a b : SourceFile}
    (knownA : program.HasFile a) (knownB : program.HasFile b) (same : a.id = b.id) : a = b := by
  obtain ⟨fileA, memA, rfl⟩ := knownA
  obtain ⟨fileB, memB, rfl⟩ := knownB
  exact congrArg ModelFile.source (List.inj_on_of_nodup_map numbered.nodup_ids memA memB same)

/-! ### Paths along star exports -/

/-- The files that paths from a file lead to, in depth-first order of the star exports. No path
passes a file twice, but it does not matter which files other paths have passed. -/
def starEnds (program : Program) (name : String) (unvisited : List FileId) (file : SourceFile) :
    List SourceFile :=
  if file.id ∈ unvisited then
    file :: (program.successors name file).flatMap fun next =>
      program.starEnds name (unvisited.erase file.id) next
  else []
termination_by unvisited.length
decreasing_by
  next fresh =>
    rw [List.length_erase_of_mem fresh]
    exact Nat.sub_one_lt_of_lt (List.length_pos_of_mem fresh)

/-- A file that was visited is not gone through again. -/
theorem starEnds_of_visited {unvisited : List FileId} {file : SourceFile}
    (visited : file.id ∉ unvisited) : program.starEnds name unvisited file = [] := by
  rw [starEnds, if_neg visited]

/-- A new file comes first, and then what its successors lead to. -/
theorem starEnds_of_fresh {unvisited : List FileId} {file : SourceFile}
    (fresh : file.id ∈ unvisited) :
    program.starEnds name unvisited file = file :: (program.successors name file).flatMap
      (program.starEnds name (unvisited.erase file.id)) := by
  rw [starEnds, if_pos fresh]

/-- What is found first at the end of a path. -/
def firstAlong? (program : Program) (name : String) (unvisited : List FileId)
    (file : SourceFile) : Option Symbol :=
  (program.starEnds name unvisited file).findSome? (program.ownExport? name)

theorem firstAlong?_of_visited {unvisited : List FileId} {file : SourceFile}
    (visited : file.id ∉ unvisited) : program.firstAlong? name unvisited file = none := by
  rw [firstAlong?, starEnds_of_visited visited, List.findSome?_nil]

/-- A new file answers from its own table, or leaves the name to its successors in order. -/
theorem firstAlong?_of_fresh {unvisited : List FileId} {file : SourceFile}
    (fresh : file.id ∈ unvisited) :
    program.firstAlong? name unvisited file = (program.ownExport? name file).or
      ((program.successors name file).findSome?
        (program.firstAlong? name (unvisited.erase file.id))) := by
  rw [firstAlong?, starEnds_of_fresh fresh, List.findSome?_cons, findSome?_flatMap]
  cases program.ownExport? name file <;> rfl

/-- Where more files may be passed, paths lead to more files. -/
theorem mem_starEnds_mono {fewer more : List FileId} {file stop : SourceFile}
    (distinct : fewer.Nodup) (subset : fewer ⊆ more)
    (present : stop ∈ program.starEnds name fewer file) :
    stop ∈ program.starEnds name more file := by
  induction fewer, file using starEnds.induct generalizing more with
  | case1 fewer file fresh inductionHypothesis =>
    rw [starEnds_of_fresh fresh, List.mem_cons, List.mem_flatMap] at present
    rw [starEnds_of_fresh (subset fresh), List.mem_cons, List.mem_flatMap]
    refine present.imp_right fun ⟨next, follows, inside⟩ => ⟨next, follows, ?_⟩
    refine inductionHypothesis next (distinct.erase _) (fun id remains => ?_) inside
    have kept := distinct.mem_erase_iff.mp remains
    exact (List.mem_erase_of_ne kept.1).mpr (subset kept.2)
  | case2 fewer file visited =>
    rw [starEnds_of_visited visited] at present
    cases present

/-- What is not found is not found either when fewer files may be passed. -/
theorem firstAlong?_eq_none_of_subset {fewer more : List FileId} {file : SourceFile}
    (distinct : fewer.Nodup) (subset : fewer ⊆ more)
    (vain : program.firstAlong? name more file = none) :
    program.firstAlong? name fewer file = none :=
  List.findSome?_eq_none_iff.mpr fun stop present =>
    List.findSome?_eq_none_iff.mp vain stop (mem_starEnds_mono distinct subset present)

/-! ### Files that lead nowhere -/

/-- A file from which nothing is found can be taken out of the paths from every other file. A path
through it could only end in vain. -/
theorem firstAlong?_erase (numbered : program.model.Numbered) {all : List FileId}
    {dead : SourceFile} (knownDead : program.HasFile dead)
    (vain : program.firstAlong? name all dead = none) {unvisited : List FileId}
    {file : SourceFile} (known : program.HasFile file) (distinct : unvisited.Nodup)
    (subset : unvisited ⊆ all) :
    program.firstAlong? name (unvisited.erase dead.id) file =
      program.firstAlong? name unvisited file := by
  induction unvisited, file using starEnds.induct with
  | case1 unvisited file fresh inductionHypothesis =>
    by_cases same : file = dead
    · subst same
      rw [firstAlong?_of_visited distinct.not_mem_erase,
        firstAlong?_eq_none_of_subset distinct subset vain]
    · have other : file.id ≠ dead.id := fun sameId =>
        same (known.eq_of_id_eq numbered knownDead sameId)
      rw [firstAlong?_of_fresh fresh,
        firstAlong?_of_fresh ((List.mem_erase_of_ne other).mpr fresh), List.erase_comm]
      congr 1
      refine findSome?_congr fun next follows => ?_
      exact inductionHypothesis next (mem_successors_iff.mp follows).hasFile (distinct.erase _)
        fun id remains => subset (List.mem_of_mem_erase remains)
  | case2 unvisited file visited =>
    rw [firstAlong?_of_visited visited,
      firstAlong?_of_visited fun remains => visited (List.mem_of_mem_erase remains)]

/-! ### The search -/

/-- One step of the search: a file that has not been visited gives what its table says, and else is
replaced by the files it leaves the name to. -/
theorem searchExport?_cons_of_fresh (isNamed : name ≠ "default") {unvisited : List FileId}
    {file : SourceFile} (fresh : file.id ∈ unvisited) (pending : List SourceFile) :
    program.searchExport? name unvisited (file :: pending) =
      (program.ownExport? name file).or (program.searchExport? name (unvisited.erase file.id)
        (program.successors name file ++ pending)) := by
  rw [searchExport?, dif_pos fresh, ownExport?, successors]
  cases Keyed.get? (program.scopeOf file).exports name with
  | some target => cases found : targetSymbol? (program.scopeOf file) target <;> simp [found]
  | none => simp [isNamed]

/-- The search passes over a file that was visited. -/
theorem searchExport?_cons_of_visited {unvisited : List FileId} {file : SourceFile}
    (visited : file.id ∉ unvisited) (pending : List SourceFile) :
    program.searchExport? name unvisited (file :: pending) =
      program.searchExport? name unvisited pending := by
  rw [searchExport?, dif_neg visited]

/-- **Sharing the visited files loses nothing.** The search finds what comes first among the ends of
all paths. -/
theorem searchExport?_eq_findSome? (numbered : program.model.Numbered) (isNamed : name ≠ "default")
    {unvisited : List FileId} (distinct : unvisited.Nodup) {pending : List SourceFile}
    (known : ∀ file ∈ pending, program.HasFile file) :
    program.searchExport? name unvisited pending =
      pending.findSome? (program.firstAlong? name unvisited) := by
  induction size : unvisited.length using Nat.strongRecOn
    generalizing unvisited pending with
  | _ size fewer =>
  subst size
  induction pending with
  | nil => rw [searchExport?, List.findSome?_nil]
  | cons file pending inductionHypothesis =>
    obtain ⟨knownFile, knownRest⟩ := List.forall_mem_cons.mp known
    rw [List.findSome?_cons]
    by_cases fresh : file.id ∈ unvisited
    · have smaller : (unvisited.erase file.id).length < unvisited.length := by
        rw [List.length_erase_of_mem fresh]
        exact Nat.sub_one_lt_of_lt (List.length_pos_of_mem fresh)
      have knownNext : ∀ next ∈ program.successors name file ++ pending, program.HasFile next :=
        List.forall_mem_append.mpr
          ⟨fun next follows => (mem_successors_iff.mp follows).hasFile, knownRest⟩
      have below := fewer _ smaller (distinct.erase _) knownNext rfl
      have whole : program.searchExport? name unvisited (file :: pending) =
          (program.firstAlong? name unvisited file).or
            (pending.findSome? (program.firstAlong? name (unvisited.erase file.id))) := by
        rw [searchExport?_cons_of_fresh isNamed fresh, below, List.findSome?_append,
          firstAlong?_of_fresh fresh, Option.or_assoc]
      rw [whole]
      cases found : program.firstAlong? name unvisited file with
      | some symbol => rfl
      | none =>
        -- The file leads nowhere, so the files after it are searched as if it were still there.
        exact findSome?_congr fun next later =>
          firstAlong?_erase numbered knownFile found (knownRest next later) distinct
            (List.Subset.refl _)
    · rw [searchExport?_cons_of_visited fresh, firstAlong?_of_visited fresh]
      exact inductionHypothesis knownRest

/-- A default export is searched in the file itself only. -/
theorem exportSymbol?_default {file : SourceFile} (known : program.HasFile file) :
    program.exportSymbol? file "default" = program.ownExport? "default" file := by
  have nothing : ∀ unvisited, program.searchExport? "default" unvisited [] = none := by
    intro unvisited
    rw [searchExport?]
  show program.searchExport? "default" program.fileIds [file] = _
  rw [searchExport?, dif_pos known.id_mem, ownExport?]
  cases Keyed.get? (program.scopeOf file).exports "default" with
  | some target => cases found : targetSymbol? (program.scopeOf file) target <;> simp [found, nothing]
  | none => simp [nothing]

/-- What the table of a file says about a name is what the file exports under it. -/
theorem exportSymbol?_of_ownExport? {file : SourceFile} (known : program.HasFile file)
    {symbol : Symbol} (own : program.ownExport? name file = some symbol) :
    program.exportSymbol? file name = some symbol := by
  by_cases isNamed : name = "default"
  · subst isNamed
    rw [exportSymbol?_default known, own]
  · refine (searchExport?_cons_of_fresh isNamed known.id_mem []).trans ?_
    rw [own, Option.some_or]

/-! ### Where paths lead -/

/-- What the walk comes to is reached along star exports. -/
theorem reflTransGen_of_mem_starEnds {unvisited : List FileId} {file stop : SourceFile}
    (present : stop ∈ program.starEnds name unvisited file) :
    Relation.ReflTransGen (program.Forwards name) file stop := by
  induction unvisited, file using starEnds.induct with
  | case1 unvisited file fresh inductionHypothesis =>
    rw [starEnds_of_fresh fresh, List.mem_cons, List.mem_flatMap] at present
    rcases present with rfl | ⟨next, follows, inside⟩
    · exact Relation.ReflTransGen.refl
    · exact Relation.ReflTransGen.head (mem_successors_iff.mp follows)
        (inductionHypothesis next inside)
  | case2 unvisited file visited =>
    rw [starEnds_of_visited visited] at present
    cases present

/-- A path through files that may be passed leads to one of the ends. Parts that go round are cut
out of it. -/
theorem mem_starEnds_of_reflTransGen (numbered : program.model.Numbered) {unvisited : List FileId}
    (distinct : unvisited.Nodup) {file stop : SourceFile} (known : program.HasFile file)
    (fresh : file.id ∈ unvisited)
    (path : Relation.ReflTransGen
      (fun a b => program.Forwards name a b ∧ b.id ∈ unvisited) file stop) :
    stop ∈ program.starEnds name unvisited file := by
  induction unvisited, file using starEnds.induct with
  | case1 unvisited file fresh inductionHypothesis =>
    rw [starEnds_of_fresh fresh, List.mem_cons, List.mem_flatMap]
    refine (exists_step_of_reflTransGen path).imp_right ?_
    rintro ⟨next, ⟨forwards, nextFresh⟩, leaves, rest⟩
    have remains : ∀ other, program.HasFile other → other.id ∈ unvisited → other ≠ file →
        other.id ∈ unvisited.erase file.id := fun other knownOther freshOther different =>
      (List.mem_erase_of_ne fun same =>
        different (knownOther.eq_of_id_eq numbered known same)).mpr freshOther
    refine ⟨next, mem_successors_iff.mpr forwards, inductionHypothesis next (distinct.erase _)
      forwards.hasFile (remains next forwards.hasFile nextFresh leaves) ?_⟩
    refine Relation.ReflTransGen.mono ?_ next stop rest
    rintro a b ⟨⟨forwards, freshB⟩, different⟩
    exact ⟨forwards, remains b forwards.hasFile freshB different⟩
  | case2 unvisited file visited => exact absurd fresh visited

/-- The ends are the files that paths lead to. -/
theorem mem_starEnds_iff (numbered : program.model.Numbered) {file stop : SourceFile}
    (known : program.HasFile file) :
    stop ∈ program.starEnds name program.fileIds file ↔
      Relation.ReflTransGen (program.Forwards name) file stop := by
  refine ⟨reflTransGen_of_mem_starEnds, fun path => ?_⟩
  refine mem_starEnds_of_reflTransGen numbered numbered.nodup_ids known known.id_mem ?_
  refine Relation.ReflTransGen.mono ?_ file stop path
  exact fun a b forwards => ⟨forwards, forwards.hasFile.id_mem⟩

/-! ### The search as a nested recursion -/

/-- The outcome of a search: what was found and which files are left, or nothing when the search was
cut off. -/
abbrev SearchOutcome := Option (Option Symbol × List FileId)

/-- Asks one file after the other until one has an answer. Each is asked about the files that those
before it have left. -/
def askInTurn (ask : List FileId → SourceFile → SearchOutcome) :
    List FileId → List SourceFile → SearchOutcome
  | unvisited, [] => some (none, unvisited)
  | unvisited, file :: files =>
    match ask unvisited file with
    | none => none
    | some (some symbol, left) => some (some symbol, left)
    | some (none, left) => askInTurn ask left files

/-- The search for a name from a file on, cut off where it would be nested deeper than `depth`. -/
def searchFrom? (program : Program) (name : String) :
    (depth : Nat) → List FileId → SourceFile → SearchOutcome
  | 0, _, _ => none
  | depth + 1, unvisited, file =>
    if file.id ∈ unvisited then
      match Keyed.get? (program.scopeOf file).exports name with
      | some target =>
        some (targetSymbol? (program.scopeOf file) target, unvisited.erase file.id)
      | none =>
        if name = "default" then some (none, unvisited.erase file.id)
        else
          askInTurn (program.searchFrom? name depth) (unvisited.erase file.id)
            (program.starFiles file)
    else some (none, unvisited)

/-- A search was not cut off, and what it found and left is what searching the files first, and then
any other files, comes to. -/
def Searches (program : Program) (name : String) (unvisited : List FileId)
    (files : List SourceFile) (outcome : SearchOutcome) : Prop :=
  ∃ answer left, outcome = some (answer, left) ∧ left.length ≤ unvisited.length ∧
    ∀ pending, program.searchExport? name unvisited (files ++ pending) =
      answer.or (program.searchExport? name left pending)

/-- Asking files in turn is one search over all of them, as the visited files are shared. -/
theorem searches_askInTurn {depth : Nat}
    (each : ∀ unvisited file, unvisited.length < depth →
      program.Searches name unvisited [file] (program.searchFrom? name depth unvisited file))
    {unvisited : List FileId} (enough : unvisited.length < depth) (files : List SourceFile) :
    program.Searches name unvisited files
      (askInTurn (program.searchFrom? name depth) unvisited files) := by
  induction files generalizing unvisited with
  | nil => exact ⟨none, unvisited, rfl, Nat.le_refl _, fun pending => rfl⟩
  | cons file files inductionHypothesis =>
    obtain ⟨answer, left, outcome, fewer, search⟩ := each unvisited file enough
    rw [askInTurn, outcome]
    cases answer with
    | some symbol => exact ⟨some symbol, left, rfl, fewer, fun pending => search (files ++ pending)⟩
    | none =>
      obtain ⟨later, rest, outcome', fewer', search'⟩ :=
        inductionHypothesis (Nat.lt_of_le_of_lt fewer enough)
      refine ⟨later, rest, outcome', Nat.le_trans fewer' fewer, fun pending => ?_⟩
      exact (search (files ++ pending)).trans (search' pending)

/-- Where fewer files are left than the depth allows, the nested recursion is not cut off: every
file it enters is taken out of the files that are left. -/
theorem searches_searchFrom? {depth : Nat} {unvisited : List FileId}
    (enough : unvisited.length < depth) (file : SourceFile) :
    program.Searches name unvisited [file] (program.searchFrom? name depth unvisited file) := by
  induction depth generalizing unvisited file with
  | zero => exact absurd enough (Nat.not_lt_zero _)
  | succ depth inductionHypothesis =>
    rw [searchFrom?]
    by_cases fresh : file.id ∈ unvisited
    · have size : (unvisited.erase file.id).length + 1 = unvisited.length := by
        have := List.length_pos_of_mem fresh
        rw [List.length_erase_of_mem fresh]
        omega
      rw [if_pos fresh]
      cases listed : Keyed.get? (program.scopeOf file).exports name with
      | some target =>
        refine ⟨_, _, rfl, by omega, fun pending => ?_⟩
        rw [List.singleton_append, searchExport?, dif_pos fresh]
        cases found : targetSymbol? (program.scopeOf file) target <;> simp [listed, found]
      | none =>
        dsimp only
        split
        · next isDefault =>
          refine ⟨none, _, rfl, by omega, fun pending => ?_⟩
          rw [List.singleton_append, searchExport?, dif_pos fresh]
          simp only [listed, if_pos isDefault, Option.none_or]
        · next isNamed =>
          obtain ⟨answer, left, outcome, fewer, search⟩ := searches_askInTurn
            (fun _ next smaller => inductionHypothesis smaller next)
            (show (unvisited.erase file.id).length < depth by omega) (program.starFiles file)
          refine ⟨answer, left, outcome, by omega, fun pending => ?_⟩
          rw [← search pending, List.singleton_append, searchExport?, dif_pos fresh]
          simp [listed, isNamed]
    · rw [if_neg fresh]
      exact ⟨none, unvisited, rfl, Nat.le_refl _, searchExport?_cons_of_visited fresh⟩

/-! ### The whole search -/

/-- The search for a name from a file on finds it whenever a path leads to it, and then finds what
comes first. -/
structure FindsExport (program : Program) (name : String) (file : SourceFile) : Prop where
  /-- Something is found exactly when a path leads to a file whose table gives a symbol. -/
  isSome_iff : (program.exportSymbol? file name).isSome ↔
    ∃ stop symbol, Relation.ReflTransGen (program.Forwards name) file stop ∧
      program.ownExport? name stop = some symbol
  /-- What is found is given by the table of a file that a path leads to. -/
  sound : ∀ symbol, program.exportSymbol? file name = some symbol →
    ∃ stop, Relation.ReflTransGen (program.Forwards name) file stop ∧
      program.ownExport? name stop = some symbol
  /-- The ends of the paths without repetition are all files that paths lead to. -/
  ends : ∀ stop, stop ∈ program.starEnds name program.fileIds file ↔
    Relation.ReflTransGen (program.Forwards name) file stop
  /-- What is found is the first symbol among the ends of the paths, depth first. -/
  first : program.exportSymbol? file name =
    (program.starEnds name program.fileIds file).findSome? (program.ownExport? name)

/-- A named export is found along star exports, whatever circles they make. -/
theorem findsExport (numbered : program.model.Numbered) (isNamed : name ≠ "default")
    {file : SourceFile} (known : program.HasFile file) : program.FindsExport name file := by
  have ends : ∀ stop, stop ∈ program.starEnds name program.fileIds file ↔
      Relation.ReflTransGen (program.Forwards name) file stop :=
    fun stop => mem_starEnds_iff numbered known
  have first : program.exportSymbol? file name =
      (program.starEnds name program.fileIds file).findSome? (program.ownExport? name) := by
    have search := searchExport?_eq_findSome? numbered isNamed numbered.nodup_ids
      (List.forall_mem_singleton.mpr known)
    refine search.trans ?_
    rw [List.findSome?_cons, List.findSome?_nil]
    cases found : program.firstAlong? name (program.model.files.map fun file => file.source.id)
      file <;> exact found.symm
  have sound : ∀ symbol, program.exportSymbol? file name = some symbol →
      ∃ stop, Relation.ReflTransGen (program.Forwards name) file stop ∧
        program.ownExport? name stop = some symbol := by
    intro symbol found
    obtain ⟨stop, present, gives⟩ := List.exists_of_findSome?_eq_some (first ▸ found)
    exact ⟨stop, (ends stop).mp present, gives⟩
  refine ⟨⟨fun some => ?_, ?_⟩, sound, ends, first⟩
  · obtain ⟨symbol, found⟩ := Option.isSome_iff_exists.mp some
    obtain ⟨stop, path, gives⟩ := sound symbol found
    exact ⟨stop, symbol, path, gives⟩
  · rintro ⟨stop, symbol, path, gives⟩
    rw [first, List.findSome?_isSome_iff]
    exact ⟨stop, (ends stop).mpr path, by rw [gives]; rfl⟩

/-- **Star exports are searched completely.** From every file of every program a name other than the
default is found whenever a path of star exports leads to it, and the first such symbol in
depth-first order is found. A default export is looked up in the file alone. The nested recursion is
never cut off when it may go as deep as there are files, however the star exports go round. -/
theorem exports_foundAlongStars (settings : AnalysisSettings) (inputs : List Input)
    {file : SourceFile} (known : (ofModel (Model.build settings inputs)).HasFile file) :
    let program := ofModel (Model.build settings inputs)
    (∀ name, name ≠ "default" → program.FindsExport name file) ∧
      program.exportSymbol? file "default" = program.ownExport? "default" file ∧
      ∀ name depth, program.model.files.length < depth → ∃ left,
        program.searchFrom? name depth program.fileIds file =
          some (program.exportSymbol? file name, left) := by
  intro program
  refine ⟨fun name isNamed => findsExport (Model.numbered_build settings inputs) isNamed known,
    exportSymbol?_default known, fun name depth deep => ?_⟩
  have enough : program.fileIds.length < depth := by simpa [fileIds] using deep
  obtain ⟨answer, left, outcome, -, search⟩ := searches_searchFrom? enough file
  have nothing : program.searchExport? name left [] = none := by rw [searchExport?]
  refine ⟨left, outcome.trans ?_⟩
  rw [show program.exportSymbol? file name = _ from search [], nothing, Option.or_none]

/-- Three files: the first two export all names of each other, the second also those of the third,
which declares a class. -/
def starCircle : List Input :=
  [{ path := "a.ts"
     text := "export*from'./b'"
     tree := some <|
       .node ⟨.program, none, true, false, 0, 16⟩ [
         .node ⟨.exportStatement, none, true, false, 0, 16⟩ [
           .node ⟨.string, some .source, true, false, 11, 16⟩ []]] },
    { path := "b.ts"
      text := "export*from'./a';export*from'./c'"
      tree := some <|
        .node ⟨.program, none, true, false, 0, 33⟩ [
          .node ⟨.exportStatement, none, true, false, 0, 17⟩ [
            .node ⟨.string, some .source, true, false, 11, 16⟩ []],
          .node ⟨.exportStatement, none, true, false, 17, 33⟩ [
            .node ⟨.string, some .source, true, false, 28, 33⟩ []]] },
    { path := "c.ts"
      text := "export class X\x7b\x7d"
      tree := some <|
        .node ⟨.program, none, true, false, 0, 16⟩ [
          .node ⟨.exportStatement, none, true, false, 0, 16⟩ [
            .node ⟨.classDeclaration, some .declaration, true, false, 7, 16⟩ [
              .node ⟨.typeIdentifier, some .name, true, false, 13, 14⟩ [],
              .node ⟨.classBody, some .body, true, false, 14, 16⟩ []]]] }]

theorem orderInputs_starCircle : orderInputs starCircle = starCircle := by
  rw [orderInputs, List.mergeSort_of_pairwise (by decide +kernel)]
  rfl

/-- The class is found from the first file, although the star exports go round. -/
theorem exports_foundAlongStars_circle :
    let program := ofModel (Model.build {} starCircle)
    ∃ file, program.model.fileAt? "a.ts" = some file ∧ program.HasFile file ∧
      program.FindsExport "X" file ∧ (program.exportSymbol? file "X").isSome := by
  intro program
  have firstIsSome : (program.model.fileAt? "a.ts").any fun file =>
      ((program.starEnds "X" program.fileIds file).findSome? (program.ownExport? "X")).isSome := by
    simp only [program, Model.build, orderInputs_starCircle]
    decide +kernel
  obtain ⟨file, found, isSome⟩ := (Option.any_eq_true _ _).mp firstIsSome
  have known : program.HasFile file := hasFile_of_fileWith? found
  have finds := (exports_foundAlongStars {} starCircle known).1 "X" (by decide)
  exact ⟨file, found, known, finds, finds.first ▸ isSome⟩

end Program

end CodeGraph
