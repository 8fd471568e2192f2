import CodeGraph.Proofs.Model.Accounting
import CodeGraph.Proofs.Path.Directory

/-!
# The default project root

When no project root is set, file names are relative to the common directory of all inputs, those
that are left out included. That is the common directory of the files of the model exactly when
the inputs that are left out lie below it. An input elsewhere moves the root up, and with it the
names of all files.

## Main Statements

* `Model.projectRoot_of_unset`: the default root is the common directory of all inputs.
* `Model.projectRoot_eq_iff`: when the default root is the common directory of the files.
* `Model.defaultRoot_ofAllInputs`: what the names of files are relative to when no root is set.
* `Model.defaultRoot_movedByNotes`: notes outside a project change the name of its only file.
-/

namespace CodeGraph.Model

variable {settings : AnalysisSettings} {given : List Input}

theorem normalized_of_mem_given {path : String} (present : path ∈ given.map Input.normalized) :
    ∃ spelling, path = Path.normalize spelling := by
  obtain ⟨input, -, rfl⟩ := List.mem_map.mp present
  exact ⟨input.path, rfl⟩

/-- The paths of the files of a model were given. -/
theorem mem_given_of_mem_files {path : String}
    (present : path ∈ (Model.build settings given).files.map fun file => file.source.normalized) :
    path ∈ given.map Input.normalized := by
  obtain ⟨file, memFile, rfl⟩ := List.mem_map.mp present
  obtain ⟨input, kept, -, made⟩ := exists_input_of_mem_files memFile
  rw [made]
  exact List.mem_map.mpr ⟨input, (mem_orderInputs_iff.mp kept).mem, rfl⟩

/-- When no root is set, the root is the common directory of all inputs. -/
theorem projectRoot_of_unset (given : List Input) (unset : settings.projectRoot = none) :
    (Model.build settings given).projectRoot = Path.commonDir (given.map Input.normalized) := by
  have ofKept : (Model.build settings given).projectRoot =
      Path.commonDir ((orderInputs given).map Input.normalized) := by
    show rootOf settings (orderInputs given) = _
    rw [rootOf, unset]
  rw [ofKept]
  exact Path.commonDir_congr fun path => mem_normalized_orderInputs_iff

/-- The default root is the common directory of the files exactly when every input that is left out
lies below that directory. -/
theorem projectRoot_eq_iff (unset : settings.projectRoot = none)
    (nonempty : (Model.build settings given).files ≠ []) :
    let files := (Model.build settings given).files.map fun file => file.source.normalized
    (Model.build settings given).projectRoot = Path.commonDir files ↔
      ∀ input ∈ given, (Model.build settings given).fileAt? input.path = none →
        Path.commonSegments (files.map Path.dirSegments) <+: Path.dirSegments input.normalized := by
  intro files
  have given_of_file : ∀ path ∈ files, path ∈ given.map Input.normalized :=
    fun path present => mem_given_of_mem_files present
  have someFile : files.map Path.dirSegments ≠ [] := by simpa [files] using nonempty
  have someInput : (given.map Input.normalized).map Path.dirSegments ≠ [] := by
    obtain ⟨dir, memDir⟩ := List.exists_mem_of_ne_nil _ someFile
    obtain ⟨path, memPath, -⟩ := List.mem_map.mp memDir
    exact List.ne_nil_of_mem (List.mem_map_of_mem (given_of_file path memPath))
  rw [projectRoot_of_unset given unset, Path.commonDir_eq_iff (fun _ => normalized_of_mem_given)
    fun path present => normalized_of_mem_given (given_of_file path present)]
  have above : Path.commonSegments ((given.map Input.normalized).map Path.dirSegments) <+:
      Path.commonSegments (files.map Path.dirSegments) := by
    rw [Path.prefix_commonSegments_iff someFile]
    intro dir present
    obtain ⟨path, memPath, rfl⟩ := List.mem_map.mp present
    exact Path.commonSegments_prefix_of_mem (List.mem_map_of_mem (given_of_file path memPath))
  constructor
  · intro same input present _
    rw [← same]
    exact Path.commonSegments_prefix_of_mem (List.mem_map_of_mem (List.mem_map_of_mem present))
  · intro below
    refine antisymm_of (· <+: ·) above ?_
    rw [Path.prefix_commonSegments_iff someInput]
    intro dir memDir
    obtain ⟨path, memGiven, rfl⟩ := List.mem_map.mp memDir
    obtain ⟨input, present, rfl⟩ := List.mem_map.mp memGiven
    cases found : (Model.build settings given).fileAt? input.path with
    | none => exact below input present found
    | some source =>
      obtain ⟨file, memFile, rfl, named⟩ := exists_file_of_fileAt? found
      have memFiles : input.normalized ∈ files := List.mem_map.mpr ⟨file, memFile, named⟩
      exact Path.commonSegments_prefix_of_mem (List.mem_map_of_mem memFiles)

/-- **The default root is the common directory of all inputs.** When no root is set, the names of
files are relative to the common directory of the inputs, whether they are files of the model or
left out. It is the common directory of the files of the model exactly when no input that is left
out lies elsewhere. -/
theorem defaultRoot_ofAllInputs (settings : AnalysisSettings)
    (unset : settings.projectRoot = none) (given : List Input) :
    let model := Model.build settings given
    let files := model.files.map fun file => file.source.normalized
    model.projectRoot = Path.commonDir (given.map Input.normalized) ∧
      (∀ file ∈ model.files, file.source.simplified =
        Path.relativeTo file.source.normalized (Path.commonDir (given.map Input.normalized))) ∧
      (model.files ≠ [] → (model.projectRoot = Path.commonDir files ↔
        ∀ input ∈ given, model.fileAt? input.path = none →
          Path.commonSegments (files.map Path.dirSegments) <+:
            Path.dirSegments input.normalized)) := by
  intro model files
  have root := projectRoot_of_unset given unset
  refine ⟨root, fun file present => ?_, projectRoot_eq_iff unset⟩
  obtain ⟨input, -, -, made⟩ := exists_input_of_mem_files present
  rw [← root, made]
  rfl

/-- A source file and notes, which are of no known language. -/
def withNotes (notes : String) : List Input :=
  [{ path := notes, text := "", tree := none },
   { path := "/p/src/a.ts"
     text := ""
     tree := some (.node ⟨.program, none, true, false, 0, 0⟩ []) }]

/-- Notes below the directory of the source file do not count. -/
theorem defaultRoot_ofAllInputs_notesBelow :
    let model := Model.build {} (withNotes "/p/src/NOTES.md")
    let files := model.files.map fun file => file.source.normalized
    model.projectRoot = Path.commonDir ((withNotes "/p/src/NOTES.md").map Input.normalized) ∧
      files = ["/p/src/a.ts"] ∧ model.projectRoot = Path.commonDir files := by
  intro model files
  have ordered : orderInputs (withNotes "/p/src/NOTES.md") = withNotes "/p/src/NOTES.md" :=
    orderInputs_of_ascending (by decide +kernel)
  have isFile : files = ["/p/src/a.ts"] := by
    simp only [files, model, Model.build, ordered]
    decide +kernel
  have below : ∀ input ∈ withNotes "/p/src/NOTES.md",
      Path.commonSegments (["/p/src/a.ts"].map Path.dirSegments) <+:
        Path.dirSegments input.normalized := by
    decide +kernel
  obtain ⟨root, -, exactly⟩ := defaultRoot_ofAllInputs {} rfl (withNotes "/p/src/NOTES.md")
  refine ⟨root, isFile, (exactly ?_).mpr fun input present _ => ?_⟩
  · intro none
    have noPath : files = [] := congrArg (List.map _) none
    cases isFile.symm.trans noPath
  · rw [show (model.files.map fun file => file.source.normalized) = ["/p/src/a.ts"] from isFile]
    exact below input present

/-- Notes elsewhere move the root up and change the name of the source file. -/
theorem defaultRoot_movedByNotes :
    let model := Model.build {} (withNotes "/NOTES.md")
    model.projectRoot = "/" ∧
      Path.commonDir (model.files.map fun file => file.source.normalized) = "/p/src" ∧
      (model.files.map fun file => file.source.simplified) = ["p/src/a.ts"] ∧
      ((Model.build {} (withNotes "/NOTES.md").tail).files.map fun file =>
        file.source.simplified) = ["a.ts"] := by
  have ordered : orderInputs (withNotes "/NOTES.md") = withNotes "/NOTES.md" :=
    orderInputs_of_ascending (by decide +kernel)
  have orderedTail : orderInputs (withNotes "/NOTES.md").tail = (withNotes "/NOTES.md").tail :=
    orderInputs_of_ascending (by decide +kernel)
  simp only [Model.build, ordered, orderedTail]
  decide +kernel

end CodeGraph.Model
