import CodeGraph.Proofs.Model.Exclusion
import Mathlib.Data.Prod.Lex
import Mathlib.Order.Bounds.Basic

/-!
# Syntax errors

The walk that looks for syntax errors passes over trees without any, and it visits the last child of
a node first. No error is lost by this and none is met twice: as long as nodes are waiting, what was
met and what lies below the waiting nodes are the errors of the tree. Sorting then brings them into
the order of the text, so that the first of them is where a report says that a file is broken.

## Main Definitions

* `Tree.labels`: the labels of all nodes of a tree.
* `Position.lex`: positions by line and then by column.
* `Node.TellsFaults`: the syntax errors of a tree are counted and listed.
* `Model.LeavesOutBroken`: broken files are left out and reported.

## Main Statements

* `Tree.hasFault_eq_any`: a tree has a fault when one of its nodes is one.
* `Node.perm_walk_faultDescent`: a walk meets each fault below the waiting nodes once.
* `Node.tellsFaults`: the syntax errors of every tree are counted and listed.
* `Model.syntaxErrors_allTold`: no syntax error is lost between the trees and the report.
-/

namespace CodeGraph

/-! ### The nodes of a tree -/

namespace Tree

mutual

/-- The labels of all nodes of a tree, each before those below it. -/
def labels : Tree → List Label
  | node label children => label :: allLabels children

/-- The labels of all nodes of several trees. -/
def allLabels : List Tree → List Label
  | [] => []
  | tree :: trees => tree.labels ++ allLabels trees

end

/-- The labels of the error and missing nodes of a tree. -/
def faultLabels (tree : Tree) : List Label := tree.labels.filter Label.isFault

theorem filter_allLabels (trees : List Tree) :
    (allLabels trees).filter Label.isFault = trees.flatMap faultLabels := by
  induction trees with
  | nil => rfl
  | cons tree trees inductionHypothesis =>
    rw [allLabels, List.filter_append, inductionHypothesis, List.flatMap_cons, faultLabels]

/-- The faults of a tree are its root, if it is one, and the faults of the trees below. -/
theorem faultLabels_eq (tree : Tree) :
    tree.faultLabels = [tree.label].filter Label.isFault ++ tree.children.flatMap faultLabels := by
  obtain ⟨label, children⟩ := tree
  rw [faultLabels, labels, ← List.singleton_append, List.filter_append, filter_allLabels]
  rfl

mutual

/-- A tree has a fault when one of its nodes is one. -/
theorem hasFault_eq_any : ∀ tree : Tree, tree.hasFault = tree.labels.any Label.isFault
  | node label children => by rw [hasFault, labels, List.any_cons, anyFault_eq_any children]

theorem anyFault_eq_any : ∀ trees : List Tree,
    anyFault trees = (allLabels trees).any Label.isFault
  | [] => rfl
  | tree :: trees => by
    rw [anyFault, allLabels, List.any_append, hasFault_eq_any tree, anyFault_eq_any trees]

end

/-- Faulty labels are where the faults are, so no fault is lost by looking at labels only. -/
theorem faultLabels_eq_nil_iff {tree : Tree} : tree.faultLabels = [] ↔ tree.hasFault = false := by
  rw [hasFault_eq_any, List.any_eq_false, faultLabels, List.filter_eq_nil_iff]

end Tree

/-! ### Positions -/

/-- A position, ordered by line and then by column. -/
def Position.lex (place : Position) : ℕ ×ₗ ℕ := toLex (place.line, place.column)

theorem Position.le_iff {a b : Position} : a.le b = true ↔ a.lex ≤ b.lex := by
  simp [le, lex, Prod.Lex.toLex_le_toLex]

/-- The part of a text that a node with some label covers. -/
def SourceFile.rangeOf (source : SourceFile) (label : Label) : Range :=
  ⟨source.positionAt label.start, source.positionAt label.stop⟩

namespace Node

/-! ### What the walk meets -/

/-- The parts of the text that the faults from a node down cover, in the order of the tree. -/
def brokenParts (node : Node) : List Range := node.focus.faultLabels.map node.source.rangeOf

/-- What is met at a node: the part of the text it covers, if it is a fault. -/
def brokenHere (node : Node) : List Range :=
  ([node].filter fun met => met.label.isFault).map range

theorem brokenParts_eq (node : Node) :
    node.brokenParts = node.brokenHere ++ node.children.flatMap brokenParts := by
  have here : ([node.label].filter Label.isFault).map node.source.rangeOf = node.brokenHere := by
    cases fault : node.label.isFault with
    | true => simp [brokenHere, fault, range, SourceFile.rangeOf]
    | false => simp [brokenHere, fault]
  have below : (node.focus.children.flatMap Tree.faultLabels).map node.source.rangeOf =
      node.children.flatMap brokenParts := by
    rw [List.map_flatMap, children, List.flatMap_map]
    conv_lhs => rw [← List.zipIdx_map_fst 0 node.focus.children, List.flatMap_map]
    rfl
  rw [brokenParts, Tree.faultLabels_eq, List.map_append, below, ← here]
  rfl

/-- Going on to the children that are visited loses no fault. -/
theorem perm_brokenParts (node : Node) :
    (node.brokenHere ++ node.faultyChildren.flatMap brokenParts).Perm node.brokenParts := by
  cases fault : node.focus.hasFault with
  | true =>
    rw [brokenParts_eq, faultyChildren, if_pos fault]
    exact ((List.reverse_perm node.children).flatMap_right brokenParts).append_left _
  | false =>
    have nothing : node.brokenParts = [] := by
      rw [brokenParts, Tree.faultLabels_eq_nil_iff.mpr fault, List.map_nil]
    obtain ⟨here, -⟩ := List.append_eq_nil_iff.mp ((brokenParts_eq node).symm.trans nothing)
    rw [nothing, here, faultyChildren, fault]
    exact List.Perm.refl _

/-- A walk meets each fault below the waiting nodes once. -/
theorem perm_walk_faultDescent (waiting : List Node) :
    (((faultDescent.walk waiting).filter fun node => node.label.isFault).map range).Perm
      (waiting.flatMap brokenParts) := by
  fun_induction faultDescent.walk waiting with
  | case1 => exact List.Perm.refl _
  | case2 node waiting smaller inductionHypothesis =>
    -- The node is taken for what is met at it and the children that now wait in its place.
    rw [← List.singleton_append, List.filter_append, List.map_append, List.flatMap_cons]
    refine (inductionHypothesis.append_left node.brokenHere).trans ?_
    rw [List.flatMap_append, ← List.append_assoc]
    exact (perm_brokenParts node).append_right _

/-- The walk finds each fault once, in the order of its worklist and not in that of the source. -/
theorem perm_faults (root : Node) : (root.faults.map range).Perm root.brokenParts := by
  rw [faults]
  split
  · simpa using perm_walk_faultDescent [root]
  · next clean =>
    rw [brokenParts, Tree.faultLabels_eq_nil_iff.mpr (by simpa using clean)]
    exact List.Perm.refl _

/-! ### Counting and listing -/

/-- The syntax errors of a tree are counted and listed: the error and missing nodes, each of them
once, with the parts of the text that they cover. -/
structure TellsFaults (root : Node) : Prop where
  /-- All of them are counted. -/
  counted : root.faults.length = root.focus.labels.countP Label.isFault
  /-- The parts of the text that are listed are theirs, each as often as there are nodes. -/
  listed : root.faultRanges.Perm
    ((root.focus.labels.filter Label.isFault).map root.source.rangeOf)
  /-- The parts ascend by the line and the column at which they start. -/
  ascending : root.faultRanges.Pairwise fun a b => a.start.lex ≤ b.start.lex

/-- After sorting, all faults are told in the order of the source. -/
theorem tellsFaults (root : Node) : root.TellsFaults := by
  refine ⟨?_, (List.mergeSort_perm _ _).trans root.perm_faults, ?_⟩
  · have same := root.perm_faults.length_eq
    rwa [List.length_map, brokenParts, List.length_map, Tree.faultLabels,
      ← List.countP_eq_length_filter] at same
  · have sorted : root.faultRanges.Pairwise fun a b => a.start.le b.start = true :=
      List.pairwise_mergeSort (fun a b c => by simpa only [Position.le_iff] using le_trans)
        (fun a b => by simpa [Position.le_iff] using le_total a.start.lex b.start.lex) _
    exact sorted.imp fun before => Position.le_iff.mp before

end Node

/-! ### Admitting a file -/

namespace Input

/-- An input can be read: it is not too large, its language is known and it has a tree. -/
structure Reads (settings : AnalysisSettings) (input : Input) (tree : Tree) : Prop where
  /-- It is within the size limit. -/
  small : input.text.utf8ByteSize ≤ settings.byteLimit
  /-- Its language is known. -/
  known : (Language.ofPath? input.path).isSome
  /-- It has the tree. -/
  parsed : input.tree = some tree

/-- Where the error and missing nodes of a tree start in the text of an input. -/
def faultStarts (input : Input) (tree : Tree) : Set (ℕ ×ₗ ℕ) :=
  {start | ∃ label ∈ tree.labels, label.isFault = true ∧
    ((input.sourceFile "" 0).positionAt label.start).lex = start}

/-- A fault reports that an input is broken: it names the input and the number of error and missing
nodes, and the first place at which one of them starts, line and column counted from one. -/
def ReportedBy (input : Input) (tree : Tree) (fault : SourceFault) : Prop :=
  ∃ first : Position, IsLeast (input.faultStarts tree) first.lex ∧
    fault = .partialParse input.path (tree.labels.countP Label.isFault) (first.line + 1)
      (first.column + 1)

variable {settings : AnalysisSettings} {input : Input} {tree : Tree} {fault : SourceFault}

/-- The root of the tree of an input, as it is read. -/
def root (input : Input) (tree : Tree) : Node := Node.root (input.sourceFile "" 0) tree

theorem mem_faultStarts_iff {start : ℕ ×ₗ ℕ} :
    start ∈ input.faultStarts tree ↔
      ∃ range ∈ (input.root tree).faultRanges, range.start.lex = start := by
  simp only [(input.root tree).tellsFaults.listed.mem_iff, List.mem_map, List.mem_filter]
  constructor
  · rintro ⟨label, present, isFault, rfl⟩
    exact ⟨_, ⟨label, ⟨present, isFault⟩, rfl⟩, rfl⟩
  · rintro ⟨_, ⟨label, ⟨present, isFault⟩, rfl⟩, rfl⟩
    exact ⟨label, present, isFault, rfl⟩

/-- The first part that is listed starts where the first fault starts. -/
theorem isLeast_faultStarts {range : Range} {rest : List Range}
    (cut : (input.root tree).faultRanges = range :: rest) :
    IsLeast (input.faultStarts tree) range.start.lex := by
  refine ⟨mem_faultStarts_iff.mpr ⟨range, by simp [cut], rfl⟩, fun start isStart => ?_⟩
  obtain ⟨other, present, rfl⟩ := mem_faultStarts_iff.mp isStart
  have ascending := (input.root tree).tellsFaults.ascending
  rw [cut] at present ascending
  rcases List.mem_cons.mp present with rfl | later
  · exact le_refl _
  · exact (List.pairwise_cons.mp ascending).1 other later

/-- A fault can report that an input is broken when its tree has an error or missing node. -/
theorem exists_reportedBy_iff :
    (∃ fault, input.ReportedBy tree fault) ↔ ∃ label ∈ tree.labels, label.isFault = true := by
  constructor
  · rintro ⟨fault, first, ⟨⟨label, present, isFault, -⟩, -⟩, -⟩
    exact ⟨label, present, isFault⟩
  · rintro ⟨label, present, isFault⟩
    obtain ⟨range, inList, -⟩ := mem_faultStarts_iff.mp ⟨label, present, isFault, rfl⟩
    obtain ⟨first, rest, cut⟩ := List.exists_cons_of_ne_nil (List.ne_nil_of_mem inList)
    exact ⟨_, first.start, isLeast_faultStarts cut, rfl⟩

/-- As many as the tree has faulty labels. -/
theorem length_faultRanges (input : Input) (tree : Tree) :
    (input.root tree).faultRanges.length = tree.labels.countP Label.isFault := by
  rw [(input.root tree).tellsFaults.listed.length_eq, List.length_map,
    List.countP_eq_length_filter]
  rfl

/-- What is read of an input is left out if it has faults that are not tolerated. -/
theorem admit_of_reads (reads : input.Reads settings tree) :
    ∃ parsed : Parsed, parsed.faultRanges = (input.root tree).faultRanges ∧
      input.admit settings =
        if parsed.hasFaults && !settings.keepsBroken then
          .error (.partialParse input.path parsed.faultCount parsed.firstFault.1
            parsed.firstFault.2)
        else .ok parsed := by
  obtain ⟨language, isLanguage⟩ := Option.isSome_iff_exists.mp reads.known
  have made : Parsed.ofTree (input.sourceFile "" 0) input.tree =
      .ok ⟨language, tree, (input.root tree).faultRanges⟩ := by
    rw [Parsed.ofTree, show (input.sourceFile "" 0).path = input.path from rfl, isLanguage,
      reads.parsed]
    rfl
  refine ⟨⟨language, tree, (input.root tree).faultRanges⟩, rfl, ?_⟩
  unfold Input.admit
  rw [if_neg (not_lt.mpr reads.small), made]

/-- An input that can be read is refused when it is broken and broken files are not kept. -/
theorem admit_eq_error_iff (reads : input.Reads settings tree) :
    input.admit settings = .error fault ↔
      settings.keepsBroken = false ∧ input.ReportedBy tree fault := by
  obtain ⟨parsed, ranges, admits⟩ := admit_of_reads reads
  cases cut : (input.root tree).faultRanges with
  | nil =>
    rw [admits, Parsed.hasFaults, ranges, cut]
    constructor
    · intro refused
      cases refused
    · rintro ⟨-, first, isFirst, -⟩
      obtain ⟨range, present, -⟩ := mem_faultStarts_iff.mp isFirst.1
      simp [cut] at present
  | cons range rest =>
    have isFirst := isLeast_faultStarts cut
    -- There is one first place, so there is one fault that can report it.
    have reported : input.ReportedBy tree fault ↔
        fault = .partialParse input.path parsed.faultCount parsed.firstFault.1
          parsed.firstFault.2 := by
      rw [Parsed.faultCount, Parsed.firstFault, ranges, length_faultRanges, cut]
      constructor
      · rintro ⟨first, least, rfl⟩
        have same := toLex_inj.mp (least.unique isFirst)
        rw [(Prod.mk.inj same).1, (Prod.mk.inj same).2]
      · rintro rfl
        exact ⟨range.start, isFirst, rfl⟩
    rw [admits, reported, Parsed.hasFaults, ranges, cut]
    cases settings.keepsBroken <;> simp [eq_comm]

/-- Only an input that can be read is refused because it is broken. -/
theorem exists_reads_of_partialParse {path : String} {errors line column : Nat}
    (refused : input.admit settings = .error (.partialParse path errors line column)) :
    ∃ tree, input.Reads settings tree := by
  unfold Input.admit at refused
  have small : input.text.utf8ByteSize ≤ settings.byteLimit := by
    by_contra large
    rw [if_pos (not_le.mp large)] at refused
    cases refused
  rw [if_neg (not_lt.mpr small), Parsed.ofTree,
    show (input.sourceFile "" 0).path = input.path from rfl] at refused
  cases isLanguage : Language.ofPath? input.path with
  | none =>
    rw [isLanguage] at refused
    cases refused
  | some language =>
    rw [isLanguage] at refused
    cases isTree : input.tree with
    | none =>
      rw [isTree] at refused
      cases refused
    | some tree => exact ⟨tree, small, Option.isSome_of_eq_some isLanguage, isTree⟩

end Input

/-! ### Broken files of a model -/

namespace Model

variable {settings : AnalysisSettings} {given : List Input} {input : Input}

/-- An input that stands for its path has no file when it is refused. -/
theorem fileAt?_eq_none_iff (stands : input.Stands given) :
    (Model.build settings given).fileAt? input.path = none ↔
      ∃ fault, input.admit settings = .error fault := by
  constructor
  · intro leftOut
    have notKept := kept?_eq_none stands leftOut
    rw [Input.kept?] at notKept
    split at notKept
    · cases notKept
    · next refused => exact ⟨_, refused⟩
  · rintro ⟨fault, refused⟩
    rw [Option.eq_none_iff_forall_ne_some]
    intro source found
    obtain ⟨file, present, rfl, named⟩ := exists_file_of_fileAt? found
    obtain ⟨other, kept, admitted, made⟩ := exists_input_of_mem_files present
    have same : other = input := by
      refine (mem_orderInputs_iff.mp kept).eq_of_normalized_eq stands ?_
      rwa [made] at named
    rw [same, refused] at admitted
    cases admitted

/-- Broken files are left out of a model, unless they are to be kept, and reported. -/
structure LeavesOutBroken (settings : AnalysisSettings) (given : List Input) (model : Model) :
    Prop where
  /-- An input that can be read has no file exactly when its tree has an error or missing node and
  broken files are not kept. -/
  leftOut : ∀ (input : Input) tree, input.Stands given → input.Reads settings tree →
    (model.fileAt? input.path = none ↔
      settings.keepsBroken = false ∧ ∃ label ∈ tree.labels, label.isFault = true)
  /-- The report tells of such an input, and of no other that it was broken. -/
  reported : ∀ path errors line column,
    .partialParse path errors line column ∈ model.faults ↔
      settings.keepsBroken = false ∧ ∃ (input : Input) (tree : Tree), input.Stands given ∧
        input.Reads settings tree ∧ input.ReportedBy tree (.partialParse path errors line column)

/-- A file with faults is left out, unless they are tolerated. -/
theorem leavesOutBroken_build (settings : AnalysisSettings) (given : List Input) :
    (Model.build settings given).LeavesOutBroken settings given where
  leftOut input tree stands reads := by
    rw [fileAt?_eq_none_iff stands, ← Input.exists_reportedBy_iff, ← exists_and_left]
    exact exists_congr fun fault => Input.admit_eq_error_iff reads
  reported path errors line column := by
    constructor
    · intro present
      obtain ⟨input, kept, refused⟩ := exists_input_of_mem_faults present
      obtain ⟨tree, reads⟩ := Input.exists_reads_of_partialParse refused
      obtain ⟨notKept, isReported⟩ := (Input.admit_eq_error_iff reads).mp refused
      exact ⟨notKept, input, tree, mem_orderInputs_iff.mp kept, reads, isReported⟩
    · rintro ⟨notKept, input, tree, stands, reads, isReported⟩
      have refused := (Input.admit_eq_error_iff reads).mpr ⟨notKept, isReported⟩
      exact List.mem_filterMap.mpr
        ⟨input, mem_orderInputs_iff.mpr stands, Input.fault?_eq_some_iff.mpr refused⟩

/-- **No syntax error is lost between the trees and the report.** The error and missing nodes of
every tree are counted and listed in the order of the text, and a file that can be read is left out
exactly when its tree has one and broken files are not kept; the report then names the first. -/
theorem syntaxErrors_allTold (settings : AnalysisSettings) (given : List Input) :
    (∀ source tree, (Node.root source tree).TellsFaults) ∧
      (Model.build settings given).LeavesOutBroken settings given :=
  ⟨fun source tree => (Node.root source tree).tellsFaults, leavesOutBroken_build settings given⟩

/-! ### Errors within errors -/

/-- The tree of a call without a name, within which the dot is an error of its own, and of an index
on the next line that is missing. -/
def nestedErrors : Tree :=
  .node ⟨.program, none, true, false, 0, 14⟩ [
    .node ⟨.other "expression_statement", none, true, false, 0, 4⟩ [
      .node ⟨.callExpression, none, true, false, 0, 3⟩ [
        .node ⟨.identifier, some .function, true, false, 0, 1⟩ [],
        .node ⟨.arguments, some .arguments, true, false, 1, 3⟩ []]],
    .node ⟨.error, none, true, false, 5, 8⟩ [
      .node ⟨.identifier, none, true, false, 5, 6⟩ [],
      .node ⟨.error, none, true, false, 6, 7⟩ []],
    .node ⟨.other "expression_statement", none, true, false, 9, 14⟩ [
      .node ⟨.callExpression, none, true, false, 9, 14⟩ [
        .node ⟨.subscriptExpression, some .function, true, false, 9, 12⟩ [
          .node ⟨.identifier, some .object, true, false, 9, 10⟩ [],
          .node ⟨.identifier, some .index, true, true, 11, 11⟩ []],
        .node ⟨.arguments, some .arguments, true, false, 12, 14⟩ []]]]

/-- The file with these errors. -/
def brokenFile : Input := ⟨"a.ts", "f(); a.(\nb[]()", some nestedErrors⟩

/-- The three errors are counted, and the file is left out and reported at the first of them. -/
theorem syntaxErrors_allTold_nestedErrors :
    (brokenFile.root nestedErrors).faults.length = 3 ∧
      (Model.build {} [brokenFile]).fileAt? "a.ts" = none ∧
        .partialParse "a.ts" 3 1 6 ∈ (Model.build {} [brokenFile]).faults := by
  obtain ⟨tells, leavesOut⟩ := syntaxErrors_allTold {} [brokenFile]
  have stands : brokenFile.Stands [brokenFile] := ⟨by simp, by simp⟩
  have reads : brokenFile.Reads {} nestedErrors := ⟨by decide +kernel, by decide +kernel, rfl⟩
  have three : nestedErrors.labels.countP Label.isFault = 3 := by decide +kernel
  have isFirst : IsLeast (brokenFile.faultStarts nestedErrors) (Position.lex ⟨0, 5⟩) := by
    have among : ∃ label ∈ nestedErrors.labels, label.isFault = true ∧
        (brokenFile.sourceFile "" 0).positionAt label.start = ⟨0, 5⟩ := by decide +kernel
    have least : ∀ label ∈ nestedErrors.labels, label.isFault = true →
        Position.le ⟨0, 5⟩ ((brokenFile.sourceFile "" 0).positionAt label.start) = true := by
      decide +kernel
    obtain ⟨label, present, isFault, start⟩ := among
    refine ⟨⟨label, present, isFault, congrArg Position.lex start⟩, ?_⟩
    rintro _ ⟨other, isOther, otherFault, rfl⟩
    exact Position.le_iff.mp (least other isOther otherFault)
  refine ⟨(tells _ _).counted.trans three, ?_, ?_⟩
  · exact (leavesOut.leftOut brokenFile nestedErrors stands reads).mpr
      ⟨rfl, by decide +kernel⟩
  · exact (leavesOut.reported _ _ _ _).mpr
      ⟨rfl, brokenFile, nestedErrors, stands, reads, ⟨0, 5⟩, isFirst, by rw [three]; rfl⟩

end Model

end CodeGraph
