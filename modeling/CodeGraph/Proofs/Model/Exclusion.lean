import CodeGraph.Proofs.Model.Accounting
import CodeGraph.Proofs.Model.Seen
import CodeGraph.Proofs.Resolve.Exports

/-!
# Inputs that are left out contribute nothing

An input that is too large, of an unknown language or broken is left out of the model. When the
project root is set, such an input leaves no trace in what an analysis sees: the files keep their
numbers and names, and imports of the input lead nowhere, as if it had not been given. Only the
faults of the report tell of it.

## Main Statements

* `orderInputs_without`: taking an input away takes it out of the kept inputs.
* `Model.seen_build_without`: what is seen of a model is the same without an input that is left out.
* `Analysis.leftOut_contributesNothing`: so is the graph of every analysis.
-/

namespace CodeGraph

section Without

variable {settings : AnalysisSettings} {before after : List Input} {input : Input}

/-! ### Taking an input away -/

/-- Whether an input stands for its path does not depend on inputs of other paths. -/
theorem stands_without {other : Input} (apart : other.normalized ≠ input.normalized) :
    other.Stands (before ++ input :: after) ↔ other.Stands (before ++ after) := by
  have spelledApart : input.path ≠ other.path := fun same =>
    apart (congrArg Path.normalize same.symm)
  have first : (before ++ input :: after).find? (fun next => next.path = other.path) =
      (before ++ after).find? fun next => next.path = other.path := by
    simp [List.find?_append, spelledApart]
  constructor
  · intro stands
    refine ⟨first ▸ stands.first, fun next present => stands.smallest next ?_⟩
    simp only [List.mem_append, List.mem_cons] at present ⊢
    tauto
  · intro stands
    refine ⟨first ▸ stands.first, fun next present same => ?_⟩
    rcases List.mem_append.mp present with earlier | later
    · exact stands.smallest next (List.mem_append_left _ earlier) same
    · rcases List.mem_cons.mp later with rfl | later
      · exact absurd same.symm apart
      · exact stands.smallest next (List.mem_append_right _ later) same

/-- An input whose path no other input has stands for it. -/
theorem stands_of_alone (alone : ∀ other ∈ before ++ after, other.normalized ≠ input.normalized) :
    input.Stands (before ++ input :: after) := by
  have others : ∀ other ∈ before, other.path ≠ input.path := fun other present same =>
    alone other (List.mem_append_left _ present) (congrArg Path.normalize same)
  refine ⟨?_, fun other present same => ?_⟩
  · rw [List.find?_eq_some_iff_append]
    exact ⟨by simp, before, after, rfl, fun other present => by simpa using others other present⟩
  · rcases List.mem_append.mp present with earlier | later
    · exact absurd same (alone other (List.mem_append_left _ earlier))
    · rcases List.mem_cons.mp later with rfl | later
      · exact le_refl _
      · exact absurd same (alone other (List.mem_append_right _ later))

/-- Taking an input away whose path no other input has takes it out of the kept inputs. -/
theorem orderInputs_without
    (alone : ∀ other ∈ before ++ after, other.normalized ≠ input.normalized) :
    orderInputs (before ++ after) =
      (orderInputs (before ++ input :: after)).filter fun other =>
        other.normalized ≠ input.normalized := by
  refine (eq_orderInputs ((pairwise_orderInputs _).filter _) fun other => ?_).symm
  rw [List.mem_filter, mem_orderInputs_iff, decide_eq_true_iff]
  constructor
  · rintro ⟨stands, apart⟩
    exact (stands_without apart).mp stands
  · intro stands
    have apart := alone other stands.mem
    exact ⟨(stands_without apart).mpr stands, apart⟩

/-! ### Models without an input that is left out -/

/-- An input whose path has no file is not admitted. -/
theorem Model.kept?_eq_none {given : List Input} (stands : input.Stands given)
    (leftOut : (Model.build settings given).fileAt? input.path = none) :
    input.kept? settings = none := by
  unfold Input.kept?
  split
  · next admitted =>
    obtain ⟨file, present, named⟩ :=
      exists_file_of_admit (mem_orderInputs_iff.mpr stands) admitted
    have found := find?_file_build present
    rw [named] at found
    cases leftOut.symm.trans found
  · rfl

theorem Model.filterMap_kept?_without
    (alone : ∀ other ∈ before ++ after, other.normalized ≠ input.normalized)
    (leftOut : (Model.build settings (before ++ input :: after)).fileAt? input.path = none) :
    (orderInputs (before ++ after)).filterMap (Input.kept? settings) =
      (orderInputs (before ++ input :: after)).filterMap (Input.kept? settings) := by
  have stands := stands_of_alone alone
  rw [orderInputs_without alone, List.filterMap_filter]
  refine List.filterMap_congr fun other kept => ?_
  by_cases same : other.normalized = input.normalized
  · obtain rfl := (mem_orderInputs_iff.mp kept).eq_of_normalized_eq stands same
    simp [kept?_eq_none stands leftOut]
  · simp [same]

/-- Where the project root is set, what is seen of a model is the same without an input that is left
out. -/
theorem Model.seen_build_without {root : String} (rooted : settings.projectRoot = some root)
    (alone : ∀ other ∈ before ++ after, other.normalized ≠ input.normalized)
    (leftOut : (Model.build settings (before ++ input :: after)).fileAt? input.path = none) :
    (Model.build settings (before ++ input :: after)).seen =
      (Model.build settings (before ++ after)).seen := by
  have sameRoot : ∀ inputs, rootOf settings inputs = Path.normalize root := by
    intro inputs
    rw [rootOf, rooted]
  unfold Model.build Model.seen
  simp only [sameRoot, filterMap_kept?_without alone leftOut]

end Without

namespace Analysis

/-- A pass that only counts what is seen of a program gives the same for inputs of which the same is
seen. -/
theorem data_run_congr {config : Config} {given other : List Input} {scope : List String}
    {pass : Program → Conventions → List SourceFile → Graph}
    (blind : ∀ program : Program, pass program.seen = pass program)
    (same : (Model.build config.analysis given).seen =
      (Model.build config.analysis other).seen) :
    (run config given scope pass).data = (run config other scope pass).data := by
  have ofSeen : ∀ inputs, (run config inputs scope pass).data =
      pass (Program.ofModel (Model.build config.analysis inputs).seen) config.conventions
        (scopeFiles (Model.build config.analysis inputs).seen scope) := by
    intro inputs
    exact congrFun (congrFun (blind _).symm _) _
  rw [ofSeen, ofSeen, same]

/-- **Inputs that are left out contribute nothing.** With the project root set, an input that the
model leaves out, and whose path no other input has, can be taken away without a change to the
graph of any analysis. -/
theorem leftOut_contributesNothing (config : Config) {root : String}
    (rooted : config.analysis.projectRoot = some root) {before after : List Input} {input : Input}
    (alone : ∀ other ∈ before ++ after, other.normalized ≠ input.normalized)
    (leftOut : (Model.build config.analysis (before ++ input :: after)).fileAt? input.path = none)
    (scope : List String) :
    (callGraph config (before ++ input :: after) scope).data =
        (callGraph config (before ++ after) scope).data ∧
      (wiring config (before ++ input :: after) scope).data =
        (wiring config (before ++ after) scope).data ∧
      (modules config (before ++ input :: after) scope).data =
        (modules config (before ++ after) scope).data := by
  have same := Model.seen_build_without rooted alone leftOut
  refine ⟨?_, ?_, ?_⟩
  · exact data_run_congr Program.callGraph_seen same
  · exact data_run_congr Program.wiringGraph_seen same
  · exact data_run_congr Program.moduleNodes_seen same

/-- Settings with a root and with a limit that the second of three files that export each other's
names is above. -/
def smallFiles : Config :=
  { analysis := { projectRoot := some "lib", maxFileBytes := some 20 } }

/-- A large file in the middle of a circle of star exports can be taken away. -/
theorem leftOut_contributesNothing_starCircle :
    let before := Program.starCircle.take 1
    let large := Program.starCircle.get ⟨1, by decide⟩
    let after := Program.starCircle.drop 2
    smallFiles.analysis.projectRoot = some "lib" ∧
      (∀ other ∈ before ++ after, other.normalized ≠ large.normalized) ∧
      (Model.build smallFiles.analysis (before ++ large :: after)).fileAt? large.path = none ∧
      (callGraph smallFiles (before ++ large :: after) ["a.ts", "b.ts"]).data =
        (callGraph smallFiles (before ++ after) ["a.ts", "b.ts"]).data ∧
      (wiring smallFiles (before ++ large :: after) ["a.ts", "b.ts"]).data =
        (wiring smallFiles (before ++ after) ["a.ts", "b.ts"]).data ∧
      (modules smallFiles (before ++ large :: after) ["a.ts", "b.ts"]).data =
        (modules smallFiles (before ++ after) ["a.ts", "b.ts"]).data := by
  intro before large after
  have alone : ∀ other ∈ before ++ after, other.normalized ≠ large.normalized := by
    decide +kernel
  have whole : before ++ large :: after = Program.starCircle := rfl
  have leftOut :
      (Model.build smallFiles.analysis (before ++ large :: after)).fileAt? large.path = none := by
    rw [whole]
    simp only [Model.build, Program.orderInputs_starCircle]
    decide +kernel
  exact ⟨rfl, alone, leftOut,
    leftOut_contributesNothing smallFiles rfl alone leftOut ["a.ts", "b.ts"]⟩

end Analysis

end CodeGraph
