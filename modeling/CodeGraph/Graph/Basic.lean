import CodeGraph.Keyed
import CodeGraph.Role

/-!
# Graphs

Call graphs and wiring graphs have the same nodes and edges. A graph is assembled from lists of both
in which a node or edge may occur several times.

## Main Definitions

* `GraphNode`, `GraphEdge`, `Graph`: the parts of a graph and the graph.
* `Graph.Builder`, `Graph.assemble`: one entry for each identifier and each pair of end points, the
  last one given, at the place of the first.
* `Graph.digraph`: edges between positions of nodes.
-/

namespace CodeGraph

/-- What a node of a graph stands for. -/
inductive NodeKind where
  | functionDeclaration
  | method
  | functionExpression
  | arrowFunction
  | classDeclaration
  deriving DecidableEq, Repr

/-- What an edge of a graph stands for. -/
inductive EdgeKind where
  | call
  | contains
  | imports
  | injects
  deriving DecidableEq, Repr

namespace NodeKind

/-- All kinds of nodes. -/
def all : List NodeKind :=
  [functionDeclaration, method, functionExpression, arrowFunction, classDeclaration]

/-- The name of a kind. -/
def name : NodeKind → String
  | functionDeclaration => "function_declaration"
  | method => "method"
  | functionExpression => "function_expression"
  | arrowFunction => "arrow_function"
  | classDeclaration => "class"

/-- The kind with a name. -/
def ofName? (text : String) : Option NodeKind :=
  all.find? fun kind => kind.name = text

end NodeKind

namespace EdgeKind

/-- All kinds of edges. -/
def all : List EdgeKind := [call, contains, imports, injects]

/-- The name of a kind. -/
def name : EdgeKind → String
  | call => "call"
  | contains => "contains"
  | imports => "imports"
  | injects => "injects"

/-- The kind with a name. -/
def ofName? (text : String) : Option EdgeKind :=
  all.find? fun kind => kind.name = text

end EdgeKind

/-- A node of a graph. -/
structure GraphNode where
  /-- The identifier of the node. -/
  id : String
  /-- The text to show. -/
  label : String
  /-- What the node stands for. -/
  kind : NodeKind
  /-- Whether the callable is asynchronous; open for classes. -/
  isAsync : Option Bool
  /-- The path of the file. -/
  filePath : String
  /-- The key of the file. -/
  fileKey : String
  /-- The class a member belongs to, or the class itself. -/
  className : Option String
  /-- The role of the node. -/
  role : Option Role
  deriving DecidableEq, Repr

/-- An edge between two nodes, named by their identifiers. -/
structure GraphEdge where
  /-- The identifier of the node the edge starts at. -/
  source : String
  /-- The identifier of the node the edge leads to. -/
  target : String
  /-- Whether the two ends lie in different files. -/
  crossFile : Bool
  /-- What the edge stands for. -/
  kind : EdgeKind
  deriving DecidableEq, Repr

/-- The pair of identifiers an edge is known by. -/
def GraphEdge.ends (edge : GraphEdge) : String × String := (edge.source, edge.target)

/-- Nodes and edges in the order in which they were first given. -/
structure Graph where
  /-- The nodes. -/
  nodes : List GraphNode := []
  /-- The edges. -/
  edges : List GraphEdge := []
  deriving DecidableEq, Repr

namespace Graph

/-- Whether there is neither a node nor an edge. -/
def isEmpty (graph : Graph) : Bool := graph.nodes.isEmpty && graph.edges.isEmpty

/-- The first node with an identifier. -/
def node? (graph : Graph) (id : String) : Option GraphNode :=
  graph.nodes.find? fun node => node.id = id

/-- The edges of a kind, in order. -/
def edgesOfKind (graph : Graph) (kind : EdgeKind) : List GraphEdge :=
  graph.edges.filter fun edge => edge.kind = kind

/-! ### Assembly -/

/-- A graph under assembly. -/
structure Builder where
  /-- The nodes, with the position of each identifier. -/
  nodes : Keyed.Shelf GraphNode String := {}
  /-- The edges, with the position of each pair of ends. -/
  edges : Keyed.Shelf GraphEdge (String × String) := {}

namespace Builder

/-- Adds a node, in place of the one with the same identifier. -/
def addNode (builder : Builder) (node : GraphNode) : Builder :=
  { builder with nodes := builder.nodes.put GraphNode.id node }

/-- Adds an edge, in place of the one with the same ends. An edge from a node to itself is left
out. -/
def addEdge (builder : Builder) (edge : GraphEdge) : Builder :=
  if edge.source = edge.target then builder
  else { builder with edges := builder.edges.put GraphEdge.ends edge }

/-- The graph that was assembled. -/
def graph (builder : Builder) : Graph := ⟨builder.nodes.records, builder.edges.records⟩

end Builder

/-- The graph of a list of nodes and a list of edges. -/
def assemble (nodes : List GraphNode) (edges : List GraphEdge) : Graph :=
  (edges.foldl Builder.addEdge (nodes.foldl Builder.addNode {})).graph

/-! ### Positions -/

/-- A graph whose edges lead between positions of nodes. -/
structure Digraph where
  /-- The nodes, by position. -/
  nodes : List GraphNode
  /-- The edges: two positions and a kind. -/
  edges : List (Nat × Nat × EdgeKind)
  deriving DecidableEq, Repr

/-- The position of the last node with an identifier. -/
def position? (nodes : List GraphNode) (id : String) : Option Nat :=
  (nodes.zipIdx.reverse.find? fun entry => entry.1.id = id).map Prod.snd

/-- The same graph by positions. An edge with an end that is no node is left out. -/
def digraph (graph : Graph) : Digraph where
  nodes := graph.nodes
  edges := graph.edges.filterMap fun edge => do
    let source ← position? graph.nodes edge.source
    let target ← position? graph.nodes edge.target
    return (source, target, edge.kind)

end Graph

end CodeGraph
