import CodeGraph.Graph.Basic
import CodeGraph.Json.Basic

/-!
# Graphs as JSON

## Main Definitions

* `Graph.toJson`, `Graph.ofJson?`: a graph as a JSON value, and back.

## Design Notes

A record is read from an object, where unknown names are passed over, or from an array with the
fields in their order. Fields that may be open are left out when open; on reading they may be
missing or null. A kind or role is read from its name, or from an object whose only field has that
name and the value null.
-/

namespace CodeGraph

namespace Json

/-- The value of a string. -/
def text? : Json → Option String
  | str text => some text
  | _ => none

/-- The value of a truth value. -/
def bool? : Json → Option Bool
  | bool value => some value
  | _ => none

/-- A value that may be null. -/
def orNull {α : Type} (read : Json → Option α) : Json → Option (Option α)
  | null => some none
  | value => (read value).map some

/-- A name, alone or as the only name of an object with the value null. -/
def tag? : Json → Option String
  | str text => some text
  | obj [(name, null)] => some name
  | _ => none

/-- The values of an array, each read in the same way. -/
def items? {α : Type} (read : Json → Option α) : Json → Option (List α)
  | arr items => items.mapM read
  | _ => none

end Json

open Json (text? bool? orNull tag? items?)

/-- The field of an open value: left out when open. -/
def Json.openField (name : String) : Option Json → List (String × Json)
  | some value => [(name, value)]
  | none => []

namespace NodeKind

/-- Reads a kind. -/
def ofJson? (value : Json) : Option NodeKind := (tag? value).bind ofName?

end NodeKind

namespace EdgeKind

/-- Reads a kind. -/
def ofJson? (value : Json) : Option EdgeKind := (tag? value).bind ofName?

end EdgeKind

namespace Role

/-- Reads a role. -/
def ofJson? (value : Json) : Option Role := (tag? value).bind ofName?

end Role

namespace GraphNode

/-- A node as a JSON value. -/
def toJson (node : GraphNode) : Json :=
  .obj ([("id", .str node.id), ("label", .str node.label), ("kind", .str node.kind.name)]
    ++ Json.openField "isAsync" (node.isAsync.map .bool)
    ++ [("filePath", .str node.filePath), ("fileKey", .str node.fileKey)]
    ++ Json.openField "className" (node.className.map .str)
    ++ Json.openField "role" (node.role.map fun role => .str role.name))

/-- Reads a node from the values of its fields. -/
def ofFields? (id label kind isAsync filePath fileKey className role : Json) :
    Option GraphNode := do
  return {
    id := ← text? id
    label := ← text? label
    kind := ← NodeKind.ofJson? kind
    isAsync := ← orNull bool? isAsync
    filePath := ← text? filePath
    fileKey := ← text? fileKey
    className := ← orNull text? className
    role := ← orNull Role.ofJson? role }

/-- Reads a node. -/
def ofJson? : Json → Option GraphNode
  | .arr [id, label, kind, isAsync, filePath, fileKey] =>
    ofFields? id label kind isAsync filePath fileKey .null .null
  | .arr [id, label, kind, isAsync, filePath, fileKey, className] =>
    ofFields? id label kind isAsync filePath fileKey className .null
  | .arr [id, label, kind, isAsync, filePath, fileKey, className, role] =>
    ofFields? id label kind isAsync filePath fileKey className role
  | value => do
    ofFields? (← value.field? "id") (← value.field? "label") (← value.field? "kind")
      ((value.field? "isAsync").getD .null) (← value.field? "filePath")
      (← value.field? "fileKey") ((value.field? "className").getD .null)
      ((value.field? "role").getD .null)

end GraphNode

namespace GraphEdge

/-- An edge as a JSON value. -/
def toJson (edge : GraphEdge) : Json :=
  .obj [("from", .str edge.source), ("to", .str edge.target), ("crossFile", .bool edge.crossFile),
    ("kind", .str edge.kind.name)]

/-- Reads an edge from the values of its fields. -/
def ofFields? (source target crossFile kind : Json) : Option GraphEdge := do
  return {
    source := ← text? source
    target := ← text? target
    crossFile := ← bool? crossFile
    kind := ← EdgeKind.ofJson? kind }

/-- Reads an edge. -/
def ofJson? : Json → Option GraphEdge
  | .arr [source, target, crossFile, kind] => ofFields? source target crossFile kind
  | value => do
    ofFields? (← value.field? "from") (← value.field? "to") (← value.field? "crossFile")
      (← value.field? "kind")

end GraphEdge

namespace Graph

/-- A graph as a JSON value. -/
def toJson (graph : Graph) : Json :=
  .obj [("nodes", .arr (graph.nodes.map GraphNode.toJson)),
    ("edges", .arr (graph.edges.map GraphEdge.toJson))]

/-- Reads a graph from the values of its fields. -/
def ofFields? (nodes edges : Json) : Option Graph := do
  return { nodes := ← items? GraphNode.ofJson? nodes, edges := ← items? GraphEdge.ofJson? edges }

/-- Reads a graph. -/
def ofJson? : Json → Option Graph
  | .arr [nodes, edges] => ofFields? nodes edges
  | value => do ofFields? (← value.field? "nodes") (← value.field? "edges")

end Graph

end CodeGraph
