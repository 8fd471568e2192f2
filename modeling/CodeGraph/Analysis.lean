import CodeGraph.Calls.Graph
import CodeGraph.Wiring.Graph

/-!
# Analyses

An analysis takes the files of a program and the paths to look at. Files outside these paths count
only where names lead into them.

## Main Definitions

* `Analysis.scopeFiles`, `Analysis.scopeFaults`: the files to look at, and paths that name no input.
* `Analysis.callGraph`, `Analysis.wiring`, `Analysis.modules`: the three analyses.
-/

namespace CodeGraph.Analysis

/-- The files that paths name, in the order of the paths, each once. -/
def scopeFiles (model : Model) (scope : List String) : List SourceFile :=
  Keyed.keepFirst SourceFile.id (scope.filterMap model.fileAt?)

/-- The faults of paths that name no input. A path of an input that was left out is no further
fault. -/
def scopeFaults (model : Model) (scope : List String) : List Fault :=
  (scope.filter fun path => !(model.fileAt? path).isSome && !model.wasInput path).map fun path =>
    .unknownPath (Path.normalize path)

/-- The faults of a model and of the paths to look at. -/
def faults (model : Model) (scope : List String) : List Fault :=
  model.faults.map .source ++ scopeFaults model scope

/-- Runs one analysis. -/
def run (config : Config) (inputs : List Input) (scope : List String)
    (pass : Program → Conventions → List SourceFile → Graph) : Report Graph :=
  let model := Model.build config.analysis inputs
  { data := pass (Program.ofModel model) config.conventions (scopeFiles model scope)
    faults := faults model scope }

/-- The call graph of the callables that the files of a scope declare. -/
def callGraph (config : Config) (inputs : List Input) (scope : List String) : Report Graph :=
  run config inputs scope Program.callGraph

/-- The wiring graph of the modules that the files of a scope declare. -/
def wiring (config : Config) (inputs : List Input) (scope : List String) : Report Graph :=
  run config inputs scope Program.wiringGraph

/-- The modules that the files of a scope declare, without edges. -/
def modules (config : Config) (inputs : List Input) (scope : List String) : Report Graph :=
  run config inputs scope Program.moduleNodes

end CodeGraph.Analysis
