import CodeGraph.Proofs.Callable
import CodeGraph.Proofs.Model.Order

/-!
# Every input is accounted for

A path that is given in any number of spellings becomes one file of the model or one fault, and no
other file or fault comes about. Files and faults both ascend by path, a file is found by every
spelling of its path, and a path of a scope that is neither a file nor a fault was not given.

## Main Definitions

* `SourceFault.concerns`: a fault is about a path.
* `Model.Accounts`: a model accounts for its inputs.
* `Analysis.mention`, `Analysis.Scoped`: the files of a scope in the order of their first mention.

## Main Statements

* `Model.accounts_build`: the model of every list of inputs accounts for them.
* `Analysis.scoped_scopeFiles`: the files of every scope come in the order of their first mention.
* `Analysis.inputs_accounted`: nothing is lost between the inputs and the report of an analysis.
-/

namespace CodeGraph

variable {settings : AnalysisSettings} {given : List Input}

/-! ### Admitting one input -/

/-- Whether a fault is about a normalized path. -/
def SourceFault.concerns (fault : SourceFault) (path : String) : Bool :=
  fault.path?.map Path.normalize = some path

/-- The fault of an input names the input. -/
theorem Input.path?_of_admit {input : Input} {fault : SourceFault}
    (refused : input.admit settings = .error fault) : fault.path? = some input.path := by
  unfold Input.admit Parsed.ofTree at refused
  split at refused
  · cases refused
    rfl
  · split at refused
    · next unread =>
      split at unread
      · cases unread
        cases refused
        rfl
      · split at unread
        · cases unread
          cases refused
          rfl
        · cases unread
    · split at refused
      · cases refused
        rfl
      · cases refused

theorem Input.concerns_iff_of_admit {input : Input} {fault : SourceFault}
    (refused : input.admit settings = .error fault) {path : String} :
    fault.concerns path = true ↔ input.normalized = path := by
  rw [SourceFault.concerns, path?_of_admit refused, decide_eq_true_iff, Option.map_some,
    Option.some.injEq, Input.normalized]

theorem Input.kept?_eq_some_iff {input other : Input} {parsed : Parsed} :
    input.kept? settings = some (other, parsed) ↔
      input = other ∧ input.admit settings = .ok parsed := by
  unfold Input.kept?
  cases input.admit settings <;> simp

theorem Input.fault?_eq_some_iff {input : Input} {fault : SourceFault} :
    input.fault? settings = some fault ↔ input.admit settings = .error fault := by
  unfold Input.fault?
  cases input.admit settings <;> simp

/-! ### Files and faults of a model -/

/-- A file is made of a kept input that is admitted. -/
theorem Model.exists_input_of_mem_files {file : ModelFile}
    (present : file ∈ (Model.build settings given).files) :
    ∃ input ∈ orderInputs given, input.admit settings = .ok file.parsed ∧
      file.source = input.sourceFile (Model.build settings given).projectRoot
        file.source.id.val := by
  obtain ⟨⟨⟨input, parsed⟩, number⟩, numbered, rfl⟩ := List.mem_map.mp present
  obtain ⟨other, memOther, kept⟩ := List.mem_filterMap.mp (List.fst_mem_of_mem_zipIdx numbered)
  obtain ⟨rfl, admitted⟩ := Input.kept?_eq_some_iff.mp kept
  exact ⟨other, memOther, admitted, rfl⟩

/-- A fault is that of a kept input that is refused. -/
theorem Model.exists_input_of_mem_faults {fault : SourceFault}
    (present : fault ∈ (Model.build settings given).faults) :
    ∃ input ∈ orderInputs given, input.admit settings = .error fault := by
  obtain ⟨input, memInput, refused⟩ := List.mem_filterMap.mp present
  exact ⟨input, memInput, Input.fault?_eq_some_iff.mp refused⟩

theorem Model.normalized_eq {file : ModelFile} (present : file ∈ (Model.build settings given).files) :
    file.source.normalized = Path.normalize file.source.path := by
  obtain ⟨input, -, -, made⟩ := exists_input_of_mem_files present
  rw [made]
  rfl

theorem Model.normalized_files (settings : AnalysisSettings) (given : List Input) :
    ((Model.build settings given).files.map fun file => file.source.normalized) =
      ((orderInputs given).filterMap (Input.kept? settings)).map fun kept =>
        kept.1.normalized := by
  unfold Model.build
  conv_rhs => rw [← List.zipIdx_map_fst 0 (List.filterMap (Input.kept? settings) _)]
  rw [List.map_map, List.map_map]
  rfl

/-- A kept input that is admitted has a file. -/
theorem Model.exists_file_of_admit {input : Input} (kept : input ∈ orderInputs given)
    {parsed : Parsed} (admitted : input.admit settings = .ok parsed) :
    ∃ file ∈ (Model.build settings given).files, file.source.normalized = input.normalized := by
  have listed : input.normalized ∈ (Model.build settings given).files.map fun file =>
      file.source.normalized := by
    rw [normalized_files, List.mem_map]
    have found := Input.kept?_eq_some_iff.mpr ⟨rfl, admitted⟩
    exact ⟨(input, parsed), List.mem_filterMap.mpr ⟨input, kept, found⟩, rfl⟩
  exact List.mem_map.mp listed

/-- Each kept input is counted once, with the files when it is admitted and else with the faults. -/
theorem count_files_add_faults (settings : AnalysisSettings) (inputs : List Input)
    (path : String) :
    ((inputs.filterMap (Input.kept? settings)).map fun kept => kept.1.normalized).count path +
      (inputs.filterMap (Input.fault? settings)).countP (·.concerns path) =
        (inputs.map Input.normalized).count path := by
  induction inputs with
  | nil => rfl
  | cons input rest inductionHypothesis =>
    cases outcome : input.admit settings with
    | ok parsed =>
      have kept : input.kept? settings = some (input, parsed) :=
        Input.kept?_eq_some_iff.mpr ⟨rfl, outcome⟩
      have blameless : input.fault? settings = none := by simp [Input.fault?, outcome]
      simp only [List.filterMap_cons_some kept, List.filterMap_cons_none blameless,
        List.map_cons, List.count_cons]
      omega
    | error fault =>
      have dropped : input.kept? settings = none := by simp [Input.kept?, outcome]
      have blamed : input.fault? settings = some fault := Input.fault?_eq_some_iff.mpr outcome
      have about : (if fault.concerns path = true then 1 else 0) =
          if (input.normalized == path) = true then 1 else 0 := by
        simp only [Input.concerns_iff_of_admit outcome, beq_iff_eq]
      simp only [List.filterMap_cons_none dropped, List.filterMap_cons_some blamed,
        List.map_cons, List.countP_cons, List.count_cons]
      omega

theorem mem_normalized_orderInputs_iff {path : String} :
    path ∈ (orderInputs given).map Input.normalized ↔ path ∈ given.map Input.normalized := by
  simp only [List.mem_map]
  constructor
  · rintro ⟨input, kept, rfl⟩
    exact ⟨input, (mem_orderInputs_iff.mp kept).mem, rfl⟩
  · rintro ⟨input, present, rfl⟩
    exact exists_mem_orderInputs present

theorem nodup_normalized_orderInputs (given : List Input) :
    ((orderInputs given).map Input.normalized).Nodup :=
  List.pairwise_map.mpr ((pairwise_orderInputs given).imp ne_of_lt)

/-! ### Accounting -/

/-- A model accounts for its inputs. -/
structure Model.Accounts (settings : AnalysisSettings) (given : List Input) (model : Model) :
    Prop where
  /-- A path that was given is the path of one file or of one fault and not of both, and any other
  path is the path of none. -/
  balance : ∀ path, (model.files.map fun file => file.source.normalized).count path +
    model.faults.countP (·.concerns path) = if path ∈ given.map Input.normalized then 1 else 0
  /-- The files ascend by path. -/
  filesAscend : (model.files.map fun file => file.source.normalized).Pairwise (· < ·)
  /-- The number of a file is its position. -/
  numbered : ∀ (position : Nat) (file : ModelFile), model.files[position]? = some file →
    file.source.id = ⟨position⟩
  /-- A file is made of the input that stands for its path. -/
  fileStands : ∀ file ∈ model.files, ∃ input : Input, input.Stands given ∧
    input.admit settings = .ok file.parsed ∧
      file.source = input.sourceFile model.projectRoot file.source.id.val
  /-- A fault is that of the input that stands for its path, and names it. -/
  faultStands : ∀ fault ∈ model.faults, ∃ input : Input, input.Stands given ∧
    input.admit settings = .error fault ∧ fault.path? = some input.path
  /-- The faults ascend by path. -/
  faultsAscend : model.faults.Pairwise fun a b => ∀ first ∈ a.path?, ∀ second ∈ b.path?,
    Path.normalize first < Path.normalize second
  /-- A path of any spelling leads to the file with its normal form. -/
  fileAt : ∀ path position, (model.fileAt? path).map SourceFile.id = some ⟨position⟩ ↔
    ∃ file, model.files[position]? = some file ∧ file.source.normalized = Path.normalize path
  /-- A path of any spelling was an input when an input has its normal form. -/
  wasInput : ∀ path, model.wasInput path = true ↔
    ∃ input ∈ given, input.normalized = Path.normalize path

theorem Model.filesAscend_build (settings : AnalysisSettings) (given : List Input) :
    ((Model.build settings given).files.map fun file => file.source.normalized).Pairwise
      (· < ·) := by
  rw [normalized_files, List.pairwise_map]
  refine (pairwise_orderInputs given).filterMap _ ?_
  rintro a b less ⟨_, _⟩ keptA ⟨_, _⟩ keptB
  obtain ⟨rfl, -⟩ := Input.kept?_eq_some_iff.mp keptA
  obtain ⟨rfl, -⟩ := Input.kept?_eq_some_iff.mp keptB
  exact less

/-- A file of a model is told by its path. -/
theorem Model.eq_of_path_eq {a b : ModelFile} (memA : a ∈ (Model.build settings given).files)
    (memB : b ∈ (Model.build settings given).files) (same : a.source.path = b.source.path) :
    a = b := by
  have distinct : ((Model.build settings given).files.map fun file =>
      file.source.normalized).Nodup := (filesAscend_build settings given).imp ne_of_lt
  refine List.inj_on_of_nodup_map distinct memA memB ?_
  rw [normalized_eq memA, normalized_eq memB, same]

theorem Model.faultsAscend_build (settings : AnalysisSettings) (given : List Input) :
    (Model.build settings given).faults.Pairwise fun a b => ∀ first ∈ a.path?,
      ∀ second ∈ b.path?, Path.normalize first < Path.normalize second := by
  refine (pairwise_orderInputs given).filterMap _ ?_
  intro a b less faultA refusedA faultB refusedB first isFirst second isSecond
  rw [Input.path?_of_admit (Input.fault?_eq_some_iff.mp refusedA)] at isFirst
  rw [Input.path?_of_admit (Input.fault?_eq_some_iff.mp refusedB)] at isSecond
  cases isFirst
  cases isSecond
  exact less

/-- What a path leads to is a file whose path is the normal form of it. -/
theorem Model.exists_file_of_fileAt? {model : Model} {path : String} {source : SourceFile}
    (found : model.fileAt? path = some source) :
    ∃ file ∈ model.files, file.source = source ∧ source.normalized = Path.normalize path := by
  obtain ⟨file, search, rfl⟩ := Option.map_eq_some_iff.mp found
  exact ⟨file, List.mem_of_find?_eq_some search, rfl, by simpa using List.find?_some search⟩

/-- A file is found by the normal form of its path. -/
theorem Model.find?_file_build {file : ModelFile}
    (present : file ∈ (Model.build settings given).files) :
    (Model.build settings given).fileWith? file.source.normalized = some file.source := by
  have distinct : ((Model.build settings given).files.map fun file =>
      file.source.normalized).Nodup := (filesAscend_build settings given).imp ne_of_lt
  rw [fileWith?, Keyed.find?_key_of_nodup distinct present, Option.map_some]

/-- A path of any spelling leads to the file with its normal form. -/
theorem Model.fileAt?_build_iff {path : String} {position : Nat} :
    ((Model.build settings given).fileAt? path).map SourceFile.id = some ⟨position⟩ ↔
      ∃ file, (Model.build settings given).files[position]? = some file ∧
        file.source.normalized = Path.normalize path := by
  constructor
  · intro found
    obtain ⟨source, look, number⟩ := Option.map_eq_some_iff.mp found
    obtain ⟨file, present, rfl, named⟩ := exists_file_of_fileAt? look
    obtain ⟨place, here⟩ := List.mem_iff_getElem?.mp present
    have samePlace : position = place := by
      have numbered := numbered_build settings given place file here
      rwa [number] at numbered
    exact ⟨file, samePlace ▸ here, named⟩
  · rintro ⟨file, here, same⟩
    rw [fileAt?, ← same, find?_file_build (List.mem_of_getElem? here), Option.map_some,
      ← numbered_build settings given position file here]

theorem Model.wasInput_build_iff {path : String} :
    (Model.build settings given).wasInput path = true ↔
      ∃ input ∈ given, input.normalized = Path.normalize path := by
  rw [wasInput, List.contains_iff_mem]
  exact mem_normalized_orderInputs_iff.trans List.mem_map

/-- The model of every list of inputs accounts for them. -/
theorem Model.accounts_build (settings : AnalysisSettings) (given : List Input) :
    (Model.build settings given).Accounts settings given where
  balance path := by
    rw [normalized_files]
    refine (count_files_add_faults settings (orderInputs given) path).trans ?_
    rw [(nodup_normalized_orderInputs given).count]
    simp only [mem_normalized_orderInputs_iff]
  filesAscend := filesAscend_build settings given
  numbered position file found := by
    rw [← numbered_build settings given position file found]
  fileStands file present := by
    obtain ⟨input, kept, admitted, made⟩ := exists_input_of_mem_files present
    exact ⟨input, mem_orderInputs_iff.mp kept, admitted, made⟩
  faultStands fault present := by
    obtain ⟨input, kept, refused⟩ := exists_input_of_mem_faults present
    exact ⟨input, mem_orderInputs_iff.mp kept, refused, Input.path?_of_admit refused⟩
  faultsAscend := faultsAscend_build settings given
  fileAt _ _ := fileAt?_build_iff
  wasInput _ := wasInput_build_iff

namespace Analysis

/-! ### Scopes -/

/-- Where a scope first mentions a file. -/
def mention (scope : List String) (file : SourceFile) : Nat :=
  scope.findIdx fun path => Path.normalize path = file.normalized

/-- Files are those that a scope mentions, each once, in the order of their first mention. -/
structure Scoped (model : Model) (scope : List String) (files : List SourceFile) : Prop where
  /-- No file occurs twice. -/
  distinct : (files.map SourceFile.id).Nodup
  /-- They are the files that paths of the scope lead to. -/
  mem_iff : ∀ file, file ∈ files ↔ ∃ path ∈ scope, model.fileAt? path = some file
  /-- A file that is mentioned earlier comes earlier. -/
  inOrder : files.Pairwise fun a b => mention scope a < mention scope b

/-- A longer scope first mentions a file where the shorter one did. -/
theorem mention_append {scope more : List String} {file : SourceFile} {path : String}
    (present : path ∈ scope) (names : Path.normalize path = file.normalized) :
    mention (scope ++ more) file = mention scope file ∧ mention scope file < scope.length := by
  have inside : mention scope file < scope.length :=
    List.findIdx_lt_length_of_exists ⟨path, present, by simpa using names⟩
  refine ⟨?_, inside⟩
  rw [mention, List.findIdx_append]
  exact if_pos inside

/-- A file that a scope does not mention is first mentioned behind it. -/
theorem length_le_mention_append {scope more : List String} {file : SourceFile}
    (unnamed : ∀ path ∈ scope, Path.normalize path ≠ file.normalized) :
    scope.length ≤ mention (scope ++ more) file := by
  have notInside : ¬ scope.findIdx (fun path => Path.normalize path = file.normalized) <
      scope.length := by
    rw [List.findIdx_lt_length]
    rintro ⟨path, present, names⟩
    exact unnamed path present (by simpa using names)
  rw [mention, List.findIdx_append, if_neg notInside]
  omega

theorem scopeFiles_concat (model : Model) (scope : List String) (path : String) :
    scopeFiles model (scope ++ [path]) =
      match model.fileAt? path with
      | some file => Keyed.insertNew SourceFile.id (scopeFiles model scope) file
      | none => scopeFiles model scope := by
  unfold scopeFiles
  rw [List.filterMap_append]
  cases found : model.fileAt? path with
  | none => simp [found]
  | some file => rw [List.filterMap_cons_some found, List.filterMap_nil, Keyed.keepFirst_concat]

theorem exists_mention {model : Model} {scope : List String} {file : SourceFile}
    (present : file ∈ scopeFiles model scope) :
    ∃ path ∈ scope, Path.normalize path = file.normalized := by
  obtain ⟨path, memPath, found⟩ := List.mem_filterMap.mp (Keyed.mem_of_mem_keepFirst present)
  obtain ⟨-, -, -, named⟩ := Model.exists_file_of_fileAt? found
  exact ⟨path, memPath, named.symm⟩

/-- A file that is found, but whose number is not among those of a scope, is not mentioned there. -/
theorem unnamed_of_fresh {model : Model} {scope : List String} {path : String} {file : SourceFile}
    (found : model.fileAt? path = some file)
    (fresh : file.id ∉ (scopeFiles model scope).map SourceFile.id) :
    ∀ other ∈ scope, Path.normalize other ≠ file.normalized := by
  intro other present names
  have foundToo : model.fileAt? other = some file := by
    obtain ⟨-, -, -, named⟩ := Model.exists_file_of_fileAt? found
    rw [Model.fileAt?, names, named]
    exact found
  exact fresh (Keyed.key_mem_foldl_insertNew (List.mem_filterMap.mpr ⟨other, present, foundToo⟩))

/-- The files of a scope come in the order of their first mention. -/
theorem inOrder_scopeFiles (model : Model) (scope : List String) :
    (scopeFiles model scope).Pairwise fun a b => mention scope a < mention scope b := by
  -- The fold over the scope runs from the front, so the last path is the one to take off.
  induction scope using List.reverseRecOn with
  | nil => exact List.Pairwise.nil
  | append_singleton scope path inductionHypothesis =>
    have stays : (scopeFiles model scope).Pairwise fun a b =>
        mention (scope ++ [path]) a < mention (scope ++ [path]) b := by
      refine inductionHypothesis.imp_of_mem ?_
      intro a b memA memB less
      obtain ⟨first, memFirst, namesA⟩ := exists_mention memA
      obtain ⟨second, memSecond, namesB⟩ := exists_mention memB
      rw [(mention_append memFirst namesA).1, (mention_append memSecond namesB).1]
      exact less
    rw [scopeFiles_concat]
    split
    · next file found =>
      rw [Keyed.insertNew]
      split
      · exact stays
      · next fresh =>
        refine List.pairwise_append.mpr ⟨stays, List.pairwise_singleton _ _, ?_⟩
        intro earlier present last isLast
        obtain rfl := List.mem_singleton.mp isLast
        obtain ⟨first, memFirst, names⟩ := exists_mention present
        obtain ⟨same, inside⟩ := mention_append memFirst names
        rw [same]
        exact lt_of_lt_of_le inside (length_le_mention_append (unnamed_of_fresh found fresh))
    · exact stays

/-- The files of a scope are those it mentions, each once, in the order of their first mention. -/
theorem scoped_scopeFiles {model : Model} (numbered : model.Numbered) (scope : List String) :
    Scoped model scope (scopeFiles model scope) where
  distinct := Keyed.nodup_keepFirst _
  mem_iff file := by
    have determined : Keyed.Determines SourceFile.id (scope.filterMap model.fileAt?) := by
      intro a memA b memB same
      obtain ⟨_, -, foundA⟩ := List.mem_filterMap.mp memA
      obtain ⟨_, -, foundB⟩ := List.mem_filterMap.mp memB
      obtain ⟨first, memFirst, rfl, -⟩ := Model.exists_file_of_fileAt? foundA
      obtain ⟨second, memSecond, rfl, -⟩ := Model.exists_file_of_fileAt? foundB
      rw [List.inj_on_of_nodup_map numbered.nodup_ids memFirst memSecond same]
    rw [scopeFiles, Keyed.mem_keepFirst_iff determined, List.mem_filterMap]
  inOrder := inOrder_scopeFiles model scope

/-! ### Reports -/

/-- Whether no input has a path. -/
def isUnknown (given : List Input) (path : String) : Bool :=
  given.all fun input => input.normalized ≠ Path.normalize path

theorem scopeFaults_build (settings : AnalysisSettings) (given : List Input)
    (scope : List String) :
    scopeFaults (Model.build settings given) scope =
      (scope.filter (isUnknown given)).map fun path => .unknownPath (Path.normalize path) := by
  rw [scopeFaults]
  congr 2
  funext path
  have known : (Model.build settings given).wasInput path = !isUnknown given path := by
    rw [Bool.eq_iff_iff, Model.wasInput_build_iff]
    simp [isUnknown]
  cases found : (Model.build settings given).fileAt? path with
  | none => simp [known]
  | some file =>
    -- The path of a file was given.
    obtain ⟨file, present, rfl, named⟩ := Model.exists_file_of_fileAt? found
    obtain ⟨input, kept, -, made⟩ := Model.exists_input_of_mem_files present
    have wasGiven : (Model.build settings given).wasInput path = true := by
      refine Model.wasInput_build_iff.mpr ⟨input, (mem_orderInputs_iff.mp kept).mem, ?_⟩
      rw [← named, made]
      rfl
    rw [known] at wasGiven
    simpa using wasGiven

/-- **Every input is accounted for.** Each path that is given becomes one file or one fault, the
files of a scope are those it mentions in the order of their first mention, and the report of an
analysis holds the faults of the model and then one fault for each path of the scope that was not
given. -/
theorem inputs_accounted (config : Config) (given : List Input) (scope : List String) :
    let model := Model.build config.analysis given
    model.Accounts config.analysis given ∧
      Scoped model scope (scopeFiles model scope) ∧
      ∀ pass, run config given scope pass =
        { data := pass (Program.ofModel model) config.conventions (scopeFiles model scope)
          faults := model.faults.map .source ++ (scope.filter (isUnknown given)).map fun path =>
            .unknownPath (Path.normalize path) } := by
  intro model
  refine ⟨Model.accounts_build config.analysis given,
    scoped_scopeFiles (Model.numbered_build config.analysis given) scope, fun pass => ?_⟩
  rw [run, faults, scopeFaults_build]

end Analysis

end CodeGraph
