import CodeGraph.Calls.Diagnostics

/-!
# The call graph

## Main Definitions

* `Program.callEdges`, `Program.callDiagnostics`: the edges and counters of all call sites.
* `Program.callGraph`: callables as nodes, resolved calls as edges.
-/

namespace CodeGraph.Program

/-- The edge of a call from one callable to another. -/
def callEdge (caller callee : Callable) : GraphEdge where
  source := caller.id
  target := callee.id
  crossFile := caller.file.crosses callee.file
  kind := .call

/-- The edge of a call site: none when the call is not resolved or leads back to its caller. -/
def siteEdge? (program : Program) (collected : Collected) (site : CallSite) : Option GraphEdge :=
  match program.callee? collected site.call with
  | some callee => if callee.id = site.caller.id then none else some (callEdge site.caller callee)
  | none => none

/-- The edges of all call sites, in order, repetitions included. -/
def callEdges (program : Program) (collected : Collected) : List GraphEdge :=
  collected.sites.filterMap (program.siteEdge? collected)

/-- Counts a call site. -/
def recordSite (program : Program) (collected : Collected) (counters : Diagnostics)
    (site : CallSite) : Diagnostics :=
  let callee := program.callee? collected site.call
  let counters := counters.record (CallStrategy.ofCall site.call) callee.isSome
  if callee.any fun callee => callee.id = site.caller.id then counters.recordRecursive
  else counters

/-- The counters of all call sites. -/
def callDiagnostics (program : Program) (collected : Collected) : Diagnostics :=
  collected.sites.foldl (program.recordSite collected) {}

/-- The call graph of some files. -/
def callGraph (program : Program) (conventions : Conventions) (files : List SourceFile) : Graph :=
  let collected := program.collect conventions files
  Graph.assemble (collected.callables.map Callable.graphNode) (program.callEdges collected)

end CodeGraph.Program
