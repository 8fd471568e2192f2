import CodeGraph.Graph.Json
import CodeGraph.Proofs.Json.Reader

/-!
# Graphs are read back from JSON

A graph that was written as JSON is read back as it was: no field changes its name between writing
and reading, kinds and roles are read by the names they are written with, and a field that was left
out because it was open is open again.

Each record is an object whose fields are found by name, whichever open fields are left out between
them. From there on reading a record is reading its fields one by one, and reading a list is reading
its records one by one. Nothing is asked of the graph: identifiers may be repeated, and edges may
lead to identifiers that no node has.

## Main Statements

* `GraphNode.ofJson?_toJson`, `GraphEdge.ofJson?_toJson`, `Graph.ofJson?_toJson`: values are read
  back.
* `Graph.fits_toJson`: the value of a graph is within the reach of readers.
* `Graph.readBack_texts`: graphs are read back from both of their texts.
-/

namespace CodeGraph

namespace Json

/-! ### Fields -/

theorem field?_cons (name : String) (field : String × Json) (fields : List (String × Json)) :
    field? name (obj (field :: fields)) =
      if field.1 = name then some field.2 else field? name (obj fields) := by
  by_cases here : field.1 = name <;> simp [field?, here]

/-- A field is found in the first part that has it. -/
theorem field?_append (name : String) (fields others : List (String × Json)) :
    field? name (obj (fields ++ others)) =
      (field? name (obj fields)).or (field? name (obj others)) := by
  simp only [field?, List.find?_append, Option.map_or]

/-- An open field is found by its name and by no other one. -/
theorem field?_openField (name other : String) (value : Option Json) :
    field? name (obj (openField other value)) = if other = name then value else none := by
  cases value with
  | none => simp [openField, field?]
  | some value => rw [openField, field?_cons]; rfl

/-- An open field reads back, also from the null that stands for a field that was left out. -/
theorem orNull_getD_map {α : Type} {read : Json → Option α} {write : α → Json}
    (back : ∀ a, read (write a) = some a) (written : ∀ a, write a ≠ null) (value : Option α) :
    orNull read ((value.map write).getD null) = some value := by
  cases value with
  | none => rfl
  | some a =>
    rw [Option.map_some, Option.getD_some, orNull, back, Option.map_some]
    exact written a

/-- A list is read back when each of its items is. -/
theorem items?_map {α : Type} {read : Json → Option α} {write : α → Json}
    (back : ∀ a, read (write a) = some a) (items : List α) :
    items? read (arr (items.map write)) = some items := by
  rw [items?, List.mapM_map]
  induction items with
  | nil => rfl
  | cons item items inductionHypothesis =>
    rw [List.mapM_cons, Function.comp_apply, back, inductionHypothesis]
    rfl

/-! ### Reach of readers -/

/-- An open field is written with a value that fits, or not at all. -/
theorem fits_openField {α : Type} {depth : Nat} {write : α → Json}
    (fits : ∀ a, Fits depth (write a)) (name : String) (value : Option α) :
    ∀ field ∈ openField name (value.map write), Fits depth field.2 := by
  cases value with
  | none => simp [openField]
  | some a => simpa [openField] using fits a

theorem keys_openField (name : String) (value : Option Json) :
    ((openField name value).map Prod.fst).Sublist [name] := by
  cases value <;> simp [openField]

theorem fits_arr_map {α : Type} {depth : Nat} {write : α → Json}
    (fits : ∀ a, Fits depth (write a)) (items : List α) :
    Fits (depth + 1) (arr (items.map write)) := by
  intro item present
  obtain ⟨a, -, rfl⟩ := List.mem_map.1 present
  exact fits a

end Json

/-! ### Names -/

theorem NodeKind.ofJson?_name (kind : NodeKind) : NodeKind.ofJson? (.str kind.name) = some kind := by
  cases kind <;> decide

theorem EdgeKind.ofJson?_name (kind : EdgeKind) : EdgeKind.ofJson? (.str kind.name) = some kind := by
  cases kind <;> decide

theorem Role.ofJson?_name (role : Role) : Role.ofJson? (.str role.name) = some role := by
  cases role <;> decide

/-! ### Records -/

namespace GraphNode

/-- The fields of a node are read as the node. -/
theorem ofFields?_eq_some (node : GraphNode) :
    ofFields? (.str node.id) (.str node.label) (.str node.kind.name)
      ((node.isAsync.map Json.bool).getD .null) (.str node.filePath) (.str node.fileKey)
      ((node.className.map Json.str).getD .null)
      ((node.role.map fun role => Json.str role.name).getD .null) = some node := by
  have isAsync : Json.orNull Json.bool? ((node.isAsync.map .bool).getD .null) =
      some node.isAsync :=
    Json.orNull_getD_map (by simp [Json.bool?]) (by simp) node.isAsync
  have className : Json.orNull Json.text? ((node.className.map .str).getD .null) =
      some node.className :=
    Json.orNull_getD_map (by simp [Json.text?]) (by simp) node.className
  have role : Json.orNull Role.ofJson? ((node.role.map fun role => .str role.name).getD .null) =
      some node.role :=
    Json.orNull_getD_map Role.ofJson?_name (by simp) node.role
  rw [ofFields?, isAsync, className, role, NodeKind.ofJson?_name]
  rfl

/-- A node is read back. -/
theorem ofJson?_toJson (node : GraphNode) : ofJson? node.toJson = some node := by
  rw [toJson, ofJson?]
  · simp [Json.field?_cons, Json.field?_append, Json.field?_openField, ofFields?_eq_some]
  all_goals simp

/-- Written records have no field twice, so that reading finds each one. -/
theorem fits_toJson (depth : Nat) (node : GraphNode) : Json.Fits (depth + 1) node.toJson := by
  constructor
  · -- The names that are there are some of the eight, in their order.
    have names : ["id", "label", "kind", "isAsync", "filePath", "fileKey", "className",
        "role"].Nodup := by decide
    refine names.sublist ?_
    simp only [List.map_append]
    exact .append (.append (.append (.append (.refl ["id", "label", "kind"])
      (Json.keys_openField ..)) (.refl ["filePath", "fileKey"])) (Json.keys_openField ..))
      (Json.keys_openField ..)
  · simp only [List.forall_mem_append]
    refine ⟨⟨⟨⟨by simp, ?isAsync⟩, by simp⟩, ?className⟩, ?role⟩
    case isAsync => exact Json.fits_openField (Json.fits_bool depth) _ _
    case className => exact Json.fits_openField (Json.fits_str depth) _ _
    case role => exact Json.fits_openField (fun _ => Json.fits_str depth _) _ _

end GraphNode

namespace GraphEdge

/-- An edge is read back. -/
theorem ofJson?_toJson (edge : GraphEdge) : ofJson? edge.toJson = some edge := by
  rw [toJson, ofJson?]
  · simp [Json.field?_cons, ofFields?, Json.text?, Json.bool?, EdgeKind.ofJson?_name]
  · simp

/-- Written records have no field twice, so that reading finds each one. -/
theorem fits_toJson (depth : Nat) (edge : GraphEdge) : Json.Fits (depth + 1) edge.toJson := by
  constructor
  · simp
  · simp

end GraphEdge

namespace Graph

/-- A graph is read back from its value. -/
theorem ofJson?_toJson (graph : Graph) : ofJson? graph.toJson = some graph := by
  rw [toJson, ofJson?]
  · simp [Json.field?_cons, ofFields?, Json.items?_map GraphNode.ofJson?_toJson,
      Json.items?_map GraphEdge.ofJson?_toJson]
  · simp

/-- The value of a graph has three levels: the graph, its lists and the records in them. -/
theorem fits_toJson (depth : Nat) (graph : Graph) : Json.Fits (depth + 3) graph.toJson := by
  have nodes := Json.fits_arr_map (GraphNode.fits_toJson depth) graph.nodes
  have edges := Json.fits_arr_map (GraphEdge.fits_toJson depth) graph.edges
  constructor
  · simp
  · simp [nodes, edges]

/-- Whatever reads texts back reads graphs back, from the text without blanks and from the indented
one: with all their nodes and edges in order, and with just the open fields that they had. -/
theorem readBack_texts {read : String → Option Json} (inverse : Json.ReadsBack read)
    (graph : Graph) :
    ofJson? graph.toJson = some graph ∧
      (read graph.toJson.compact).bind ofJson? = some graph ∧
      (read graph.toJson.pretty).bind ofJson? = some graph := by
  have fits : Json.Fits Json.nestingLimit graph.toJson := fits_toJson 124 graph
  refine ⟨ofJson?_toJson graph, ?_, ?_⟩
  · rw [inverse.compact _ fits, Option.bind_some, ofJson?_toJson]
  · rw [inverse.pretty _ fits, Option.bind_some, ofJson?_toJson]

/-- Two nodes with one identifier and different open fields, texts with quotes, backslashes, control
characters and characters that stand for themselves, and an edge to no node. -/
theorem readBack_texts_namesakes :
    let graph : Graph := {
      nodes := [
        { id := "k#\"A\"", label := "A\\\n", kind := .classDeclaration, isAsync := none,
          filePath := "/p/\u0001é/a.ts", fileKey := "k", className := some "", role := some .module },
        { id := "k#\"A\"", label := "\t→", kind := .arrowFunction, isAsync := some false,
          filePath := "/p/b.ts", fileKey := "k", className := none, role := none }]
      edges := [
        { source := "k#\"A\"", target := "gone", crossFile := true, kind := .injects }] }
    ofJson? graph.toJson = some graph ∧
      (Json.ofText? graph.toJson.compact).bind ofJson? = some graph ∧
      (Json.ofText? graph.toJson.pretty).bind ofJson? = some graph :=
  readBack_texts Json.readsBack_ofText? _

end Graph

end CodeGraph
