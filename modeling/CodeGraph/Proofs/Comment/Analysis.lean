import CodeGraph.Proofs.Comment.Graphs
import CodeGraph.Proofs.Model.Order

/-!
# Comments say nothing

Taking all comments out of the trees of a program changes no declaration, no binding, no export and
no fault, and no analysis of the program, whatever its inputs and its configuration are. Only the
places of nodes move, where a comment came before them.

## Main Definitions

* `Input.withoutComments`: an input without the comments of its tree.
* `Input.commentsBare`: whether the comments of an input are leaves under no field, none of them
  made up.

## Main Statements

* `Model.build_pruned`: the model of inputs whose comments are gone.
* `Analysis.comments_immaterial`: the index and all analyses are the same without comments.
-/

namespace CodeGraph

namespace Input

/-- An input without the bare comments of its tree. -/
def pruned (input : Input) : Input := { input with tree := input.tree.map Tree.pruned }

/-- An input without the comments of its tree. -/
def withoutComments (input : Input) : Input :=
  { input with tree := input.tree.map Tree.withoutComments }

/-- Whether every comment in the tree of an input is a leaf, stands under no field and was not made
up. -/
def commentsBare (input : Input) : Bool := input.tree.all Tree.commentsBare

theorem withoutComments_eq_pruned {input : Input} (bare : input.commentsBare) :
    input.withoutComments = input.pruned := by
  have trees : input.tree.map Tree.withoutComments = input.tree.map Tree.pruned :=
    Option.map_congr fun tree given =>
      tree.withoutComments_eq_pruned ((Option.all_eq_true _ _).mp bare tree given)
  rw [withoutComments, trees, pruned]

end Input

/-! ### Ordering the inputs -/

theorem dropRepeats_pruned (previous : Option String) (inputs : List Input) :
    dropRepeats previous (inputs.map Input.pruned) =
      (dropRepeats previous inputs).map Input.pruned := by
  induction inputs generalizing previous with
  | nil => rfl
  | cons input rest inductionHypothesis =>
    have path : input.pruned.normalized = input.normalized := rfl
    rw [List.map_cons, dropRepeats, dropRepeats, path]
    split
    · exact inductionHypothesis previous
    · rw [List.map_cons, inductionHypothesis]

/-- Inputs are ordered by their paths. -/
theorem orderInputs_pruned (inputs : List Input) :
    orderInputs (inputs.map Input.pruned) = (orderInputs inputs).map Input.pruned := by
  have sorted : (inputs.map Input.pruned).mergeSort Input.le =
      (inputs.mergeSort Input.le).map Input.pruned := by
    refine (List.map_mergeSort ?_).symm
    intro a _ b _
    rfl
  rw [orderInputs, sorted, dropRepeats_pruned, orderInputs]

/-! ### Admitting files -/

theorem Parsed.ofTree_pruned (source : SourceFile) (tree : Option Tree) :
    ofTree source (tree.map Tree.pruned) = (ofTree source tree).map pruned := by
  unfold ofTree
  split
  · rfl
  · cases tree with
    | none => rfl
    | some tree =>
      have faults : (Node.root source tree.pruned).faultRanges =
          (Node.root source tree).faultRanges := (Node.root source tree).faultRanges_pruned
      simp only [Option.map_some, faults]
      rfl

namespace Input

variable (settings : AnalysisSettings) (input : Input)

/-- Comments have no part in whether a file is kept. -/
theorem admit_pruned :
    input.pruned.admit settings = Parsed.pruned <$> input.admit settings := by
  have parsed : Parsed.ofTree (input.pruned.sourceFile "" 0) input.pruned.tree =
      (Parsed.ofTree (input.sourceFile "" 0) input.tree).map Parsed.pruned :=
    Parsed.ofTree_pruned (input.sourceFile "" 0) input.tree
  unfold Input.admit
  rw [parsed, show input.pruned.text = input.text from rfl]
  split
  · rfl
  · cases Parsed.ofTree (input.sourceFile "" 0) input.tree with
    | error fault => rfl
    | ok parsed =>
      have hasFaults : parsed.pruned.hasFaults = parsed.hasFaults := rfl
      simp only [Except.map, hasFaults]
      split <;> rfl

theorem kept?_pruned :
    input.pruned.kept? settings = (input.kept? settings).map (Prod.map pruned Parsed.pruned) := by
  rw [kept?, admit_pruned, kept?]
  cases input.admit settings <;> rfl

theorem fault?_pruned : input.pruned.fault? settings = input.fault? settings := by
  rw [fault?, admit_pruned, fault?]
  cases input.admit settings <;> rfl

end Input

/-- The model of inputs whose comments are gone. -/
theorem Model.build_pruned (settings : AnalysisSettings) (inputs : List Input) :
    build settings (inputs.map Input.pruned) = (build settings inputs).pruned := by
  have paths : ((orderInputs inputs).map Input.pruned).map Input.normalized =
      (orderInputs inputs).map Input.normalized := List.map_map
  have root : rootOf settings ((orderInputs inputs).map Input.pruned) =
      rootOf settings (orderInputs inputs) := by
    rw [rootOf, paths, rootOf]
  have kept : ((orderInputs inputs).map Input.pruned).filterMap (Input.kept? settings) =
      ((orderInputs inputs).filterMap (Input.kept? settings)).map
        (Prod.map Input.pruned Parsed.pruned) :=
    filterMap_map_of fun input _ => input.kept?_pruned settings
  have faults : ((orderInputs inputs).map Input.pruned).filterMap (Input.fault? settings) =
      (orderInputs inputs).filterMap (Input.fault? settings) := by
    rw [List.filterMap_map]
    exact List.filterMap_congr fun input _ => input.fault?_pruned settings
  simp only [build, pruned, orderInputs_pruned, paths, root, kept, faults, List.zipIdx_map,
    List.map_map]
  rfl

namespace Analysis

/-! ### Analyses -/

/-- Which files a scope names, and which paths are at fault, is told by the paths alone. -/
theorem scopeFiles_pruned (model : Model) (scope : List String) :
    scopeFiles model.pruned scope = scopeFiles model scope := by
  rw [scopeFiles, Model.fileAt?_pruned, scopeFiles]

theorem faults_pruned (model : Model) (scope : List String) :
    faults model.pruned scope = faults model scope := by
  rw [faults, scopeFaults, Model.fileAt?_pruned]
  rfl

/-- A pass that does not depend on comments gives an analysis that does not. -/
theorem run_pruned {config : Config} {inputs : List Input} {scope : List String}
    {pass : Program → Conventions → List SourceFile → Graph}
    (same : ∀ files,
      pass (Program.ofModel (Model.build config.analysis inputs)).pruned config.conventions files =
        pass (Program.ofModel (Model.build config.analysis inputs)) config.conventions files) :
    run config (inputs.map Input.pruned) scope pass = run config inputs scope pass := by
  unfold run
  dsimp only
  rw [Model.build_pruned, scopeFiles_pruned, faults_pruned, Program.ofModel_pruned, same]

/-- **Comments say nothing.** When all comments are leaves under no field and none is made up by the
grammar, taking them out of the trees keeps the index, with all declarations, imports, members,
bindings and exports in order, and the nodes of declarations moved along. The three analyses of any
scope give the same graphs and the same faults, and calls are counted the same. -/
theorem comments_immaterial (config : Config) (inputs : List Input) (scope : List String)
    (bare : ∀ input ∈ inputs, input.commentsBare) :
    let stripped := inputs.map Input.withoutComments
    let program := Program.ofModel (Model.build config.analysis inputs)
    let left := Program.ofModel (Model.build config.analysis stripped)
    (left.index.decls = program.index.decls.map Decl.pruned ∧
      left.index.imports = program.index.imports ∧
      left.index.members = Keyed.mapValues (List.map Decl.pruned) program.index.members ∧
      left.index.scopes = program.index.scopes.map FileScope.pruned) ∧
    callGraph config stripped scope = callGraph config inputs scope ∧
    wiring config stripped scope = wiring config inputs scope ∧
    modules config stripped scope = modules config inputs scope ∧
    ∀ files, left.callDiagnostics (left.collect config.conventions files) =
      program.callDiagnostics (program.collect config.conventions files) := by
  intro stripped program left
  have pruned : stripped = inputs.map Input.pruned :=
    List.map_congr_left fun input given => Input.withoutComments_eq_pruned (bare input given)
  have programs : left = program.pruned := by
    rw [← Program.ofModel_pruned, ← Model.build_pruned, ← pruned]
  have prunable : program.Prunable :=
    Program.prunable_ofModel (Model.numbered_build config.analysis inputs)
  refine ⟨?_, ?_, ?_, ?_, ?_⟩
  · rw [programs]
    exact ⟨rfl, rfl, rfl, rfl⟩
  · rw [pruned]
    exact run_pruned (prunable.callGraph_pruned config.conventions)
  · rw [pruned]
    exact run_pruned (prunable.wiringGraph_pruned config.conventions)
  · rw [pruned]
    exact run_pruned (Program.moduleNodes_pruned config.conventions)
  · rw [programs]
    exact prunable.callDiagnostics_pruned config.conventions

/-- A file with two functions, one of which calls the other, and a comment before each function and
before the call. -/
def commented : List Input :=
  let function (start : Nat) (body : List Tree) (stop : Nat) : Tree :=
    .node ⟨.functionDeclaration, none, true, false, start, stop⟩ [
      .node ⟨.functionWord, none, false, false, start, start + 8⟩ [],
      .node ⟨.identifier, some .name, true, false, start + 9, start + 10⟩ [],
      .node ⟨.formalParameters, some .parameters, true, false, start + 10, start + 12⟩ [],
      .node ⟨.statementBlock, some .body, true, false, start + 12, stop⟩ body]
  let comment (start : Nat) : Tree := .node ⟨.comment, none, true, false, start, start + 4⟩ []
  [{ path := "a.ts"
     text := "/**/function f()\x7b\x7d/**/function g()\x7b/**/f()\x7d"
     tree := some <|
       .node ⟨.program, none, true, false, 0, 43⟩ [
         comment 0,
         function 4 [] 18,
         comment 18,
         function 22 [
           comment 35,
           .node ⟨.other "expression_statement", none, true, false, 39, 42⟩ [
             .node ⟨.callExpression, none, true, false, 39, 42⟩ [
               .node ⟨.identifier, some .function, true, false, 39, 40⟩ [],
               .node ⟨.arguments, some .arguments, true, false, 40, 42⟩ []]]] 43] }]

/-- Without its comments the file declares its functions at other places, and the call is found as
before. -/
theorem comments_immaterial_commented :
    let stripped := commented.map Input.withoutComments
    let program := Program.ofModel (Model.build {} commented)
    let left := Program.ofModel (Model.build {} stripped)
    (∀ input ∈ commented, input.commentsBare) ∧
      (program.index.decls.map fun decl => decl.node.address) = [[1], [3]] ∧
      (left.index.decls.map fun decl => decl.node.address) = [[0], [1]] ∧
      (callGraph {} commented ["a.ts"]).data.edges.length = 1 ∧
      callGraph {} stripped ["a.ts"] = callGraph {} commented ["a.ts"] := by
  intro stripped program left
  have bare : ∀ input ∈ commented, input.commentsBare := by decide
  have ordered : orderInputs commented = commented :=
    orderInputs_of_ascending (by decide +kernel)
  obtain ⟨⟨decls, -⟩, calls, -⟩ := comments_immaterial {} commented ["a.ts"] bare
  refine ⟨bare, ?_, ?_, ?_, calls⟩
  · simp only [program, Model.build, ordered]
    decide +kernel
  · have moved : (left.index.decls.map fun decl => decl.node.address) =
        program.index.decls.map fun decl => decl.node.pruned.address := by
      rw [decls, List.map_map]
      rfl
    simp only [moved, program, Model.build, ordered]
    decide +kernel
  · simp only [callGraph, run, Model.build, ordered]
    decide +kernel

end Analysis

end CodeGraph
