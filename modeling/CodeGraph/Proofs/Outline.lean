import CodeGraph.Outline
import CodeGraph.Proofs.Place

/-!
# What statements declare

Every declaration that is read off a statement is declared by a node inside the statement, no node
declares twice, and only classes have members. What a statement can be read as is said once, by one
rule for each form; what holds of all declarations follows by induction on the rules.

## Main Definitions

* `Draft.Sound`: only a class has members, and these are methods, accessors and fields.
* `Node.Reads`: the drafts that a node is read as.
* `Node.Declares`: the items are declared inside a node, each by a node of its own.

## Main Statements

* `Node.reads_outline`, `Node.reads_fileItems`: a statement and a file are read as their drafts.
* `Node.declares_fileItems`: a file declares its items.
-/

namespace CodeGraph

/-- A function value is a function, and no method. -/
theorem Kind.isFunctionLike_of_isFunctionValue {kind : Kind} (isValue : kind.isFunctionValue) :
    kind.isFunctionLike ∧ kind ≠ .methodDefinition := by
  unfold isFunctionValue at isValue
  split at isValue
  all_goals simp_all [isFunctionLike]

/-- The kinds of declarations that a class has as members. -/
def DeclKind.IsMember (kind : DeclKind) : Prop :=
  kind = .method ∨ kind = .accessor ∨ kind = .property

/-- Only a class has members, and these are methods, accessors and fields. -/
structure Draft.Sound (draft : Draft) : Prop where
  /-- A declaration with members is a class. -/
  isClass : draft.members ≠ [] → draft.kind = .classType
  /-- The members are methods, accessors and fields. -/
  memberKind : ∀ member ∈ draft.members, member.kind.IsMember

/-- The nodes that declare a draft and its members. -/
def Draft.nodes (draft : Draft) : List Node :=
  draft.node :: draft.members.map MemberDraft.node

/-- The drafts of an item. -/
def Item.drafts : Item → List Draft
  | .declare draft | .declareDefault draft => [draft]
  | _ => []

/-- The drafts of several items, in order. -/
def Item.draftsOf (items : List Item) : List Draft := items.flatMap drafts

/-- The nodes by which several items declare something. -/
def Item.nodesOf (items : List Item) : List Node :=
  items.flatMap fun item => item.drafts.flatMap Draft.nodes

/-- Items declare one after the other. -/
theorem Item.nodesOf_append (first second : List Item) :
    nodesOf (first ++ second) = nodesOf first ++ nodesOf second :=
  List.flatMap_append

theorem Item.nodesOf_declare (draft : Draft) : nodesOf [.declare draft] = draft.nodes := by
  simp [nodesOf, drafts]

theorem Item.nodesOf_declareDefault (draft : Draft) :
    nodesOf [.declareDefault draft] = draft.nodes := by
  simp [nodesOf, drafts]

/-- The nodes that items declare are those of their drafts. -/
theorem Item.nodesOf_eq_flatMap (items : List Item) :
    nodesOf items = (draftsOf items).flatMap Draft.nodes := by
  rw [nodesOf, draftsOf, List.flatMap_assoc]

/-- Items that bind names of other files declare nothing. -/
theorem Item.draftsOf_eq_nil {items : List Item} (plain : ∀ item ∈ items, item.drafts = []) :
    draftsOf items = [] :=
  List.flatMap_eq_nil_iff.mpr plain

theorem Item.draftsOf_append (first second : List Item) :
    draftsOf (first ++ second) = draftsOf first ++ draftsOf second :=
  List.flatMap_append

@[simp] theorem Outline.draftsOf_ofDrafts (drafts : List Draft) :
    Item.draftsOf (ofDrafts drafts).items = drafts := by
  simp [ofDrafts, Item.draftsOf, Item.drafts, List.flatMap_map]

/-- Items that keep the element they are read off keep the order of the elements. -/
theorem sublist_of_filterMap {α β : Type} {read : α → Option β} {back : β → α}
    (inverse : ∀ a b, read a = some b → back b = a) (list : List α) :
    ((list.filterMap read).map back).Sublist list := by
  induction list with
  | nil => exact List.Sublist.slnil
  | cons a rest inductionHypothesis =>
    cases result : read a with
    | none =>
      rw [List.filterMap_cons_none result]
      exact inductionHypothesis.cons a
    | some b =>
      rw [List.filterMap_cons_some result, List.map_cons, inverse a b result]
      exact inductionHypothesis.cons_cons a

namespace Node

/-! ### Class members -/

/-- A parameter property is declared by the parameter itself. -/
theorem of_propertyDraft? {parameter : Node} {member : MemberDraft}
    (declared : parameter.propertyDraft? = some member) :
    member.node = parameter ∧ member.kind = .property := by
  rw [propertyDraft?] at declared
  split at declared
  · split at declared
    · split at declared
      · cases declared
        exact ⟨rfl, rfl⟩
      · cases declared
    · cases declared
  · cases declared

/-- No parameter declares two properties, so their nodes are apart. -/
theorem scatters_parameterProperties (constructor : Node) :
    constructor.Scatters (constructor.parameterProperties.map MemberDraft.node) :=
  (scatters_parameters constructor).sublist
    (sublist_of_filterMap (fun _ _ declared => (of_propertyDraft? declared).1) _)

/-- A part of a class body declares members inside it, by nodes that lie apart. -/
theorem scatters_memberDrafts (member : Node) :
    member.Scatters (member.memberDrafts.map MemberDraft.node) := by
  rw [memberDrafts]
  split
  · split
    · exact Scatters.nil member
    · split
      · exact scatters_parameterProperties member
      · split <;> exact Scatters.self member
  · split
    · exact Scatters.self member
    · exact Scatters.nil member
  · split
    · exact Scatters.self member
    · exact Scatters.nil member
  · exact Scatters.nil member

/-- Members of classes are methods, accessors and properties. -/
theorem kind_of_mem_memberDrafts {part : Node} {member : MemberDraft}
    (present : member ∈ part.memberDrafts) : member.kind.IsMember := by
  rw [memberDrafts] at present
  split at present
  · split at present
    · cases present
    · split at present
      · obtain ⟨parameter, -, declared⟩ := List.mem_filterMap.mp present
        exact Or.inr (Or.inr (of_propertyDraft? declared).2)
      · split at present
        · exact List.mem_singleton.mp present ▸ Or.inr (Or.inl rfl)
        · exact List.mem_singleton.mp present ▸ Or.inl rfl
  · split at present
    · exact List.mem_singleton.mp present ▸ Or.inr (Or.inr rfl)
    · cases present
  · split at present
    · exact List.mem_singleton.mp present ▸ Or.inr (Or.inr rfl)
    · cases present
  · cases present

/-- A class and its members are declared by different nodes of the class. -/
theorem covers_classDraft (node : Node) (name : String) :
    node.Covers (node.classDraft name).nodes := by
  rw [Draft.nodes, classDraft]
  cases found : node.child? .body with
  | none => exact Covers.self node
  | some body =>
    refine Covers.cons_below (mem_children_of_child? found) ?_
    rw [List.map_flatMap]
    exact Covers.flatMap_children List.filter_sublist fun part _ =>
      (scatters_memberDrafts part).covers

/-- A drafted class has members of its own body only. -/
theorem sound_classDraft (node : Node) (name : String) : (node.classDraft name).Sound := by
  refine ⟨fun _ => rfl, fun member present => ?_⟩
  rw [classDraft] at present
  split at present
  · obtain ⟨part, -, inside⟩ := List.mem_flatMap.mp present
    exact kind_of_mem_memberDrafts inside
  · cases present

/-! ### Drafts of a node -/

/-- The drafts that a node is read as. -/
inductive Reads : Node → List Draft → Prop
  /-- A function, under its name or as a value. -/
  | function {node : Node} (name : String) (fits : node.kind.isFunctionLike)
      (free : node.kind ≠ .methodDefinition) : Reads node [{ kind := .function, name, node }]
  /-- An interface, an enumeration or a variable. -/
  | plain {node : Node} {kind : DeclKind} (name : String)
      (isPlain : kind = .interface ∨ kind = .enum ∨ kind = .variable)
      (free : node.kind ≠ .methodDefinition) : Reads node [{ kind, name, node }]
  /-- A class with its members. -/
  | classType {node : Node} (name : String) (free : node.kind ≠ .methodDefinition) :
      Reads node [node.classDraft name]
  /-- Some children, one after the other. -/
  | each {node : Node} {some : List Node} {drafts : Node → List Draft}
      (sub : some.Sublist node.children) (reads : ∀ child ∈ some, Reads child (drafts child)) :
      Reads node (some.flatMap drafts)
  /-- A node further down. -/
  | inside {inner outer : Node} {drafts : List Draft} (below : inner.Within outer)
      (reads : Reads inner drafts) : Reads outer drafts

theorem Reads.nothing (node : Node) : node.Reads [] := by
  have none : node.Reads (([] : List Node).flatMap fun _ => []) :=
    .each (List.nil_sublist node.children) fun _ present => nomatch present
  exact none

/-- A declaration with a name is one draft. -/
theorem reads_namedDraft {statement : Node} {kind : DeclKind}
    (reads : ∀ name, statement.Reads [{ kind, name, node := statement }]) :
    statement.Reads (statement.namedDraft? kind).toList := by
  rw [namedDraft?]
  cases statement.child? .name with
  | none => exact .nothing statement
  | some name => exact reads name.text

/-- A class is one draft, with its members. -/
theorem reads_class {statement : Node} (free : statement.kind ≠ .methodDefinition) :
    statement.Reads
      ((statement.child? .name).map fun name => statement.classDraft name.text).toList := by
  cases statement.child? .name with
  | none => exact .nothing statement
  | some name => exact .classType name.text free

theorem reads_variableDraft? (declarator : Node) :
    declarator.Reads declarator.variableDraft?.toList := by
  rw [variableDraft?]
  split
  · next isDeclarator =>
    split
    · split
      · exact .plain _ (.inr (.inr rfl)) (by simp [isDeclarator])
      · exact .nothing declarator
    · exact .nothing declarator
  · exact .nothing declarator

/-- A statement of variables is read declarator by declarator. -/
theorem reads_variableDrafts (statement : Node) : statement.Reads statement.variableDrafts := by
  have joined : statement.variableDrafts =
      statement.namedChildren.flatMap fun declarator => declarator.variableDraft?.toList := by
    rw [variableDrafts, List.filterMap_eq_flatMap_toList]
  rw [joined]
  exact .each List.filter_sublist fun declarator _ => reads_variableDraft? declarator

/-! ### Imports and exports -/

theorem drafts_of_importSpecifier? {specifier : String} {part : Node} {item : Item}
    (read : importSpecifier? specifier part = some item) : item.drafts = [] := by
  rw [importSpecifier?] at read
  split at read
  · obtain ⟨name, -, result⟩ := Option.bind_eq_some_iff.mp read
    cases result
    rfl
  · cases read

/-- Imports declare nothing. -/
theorem drafts_of_mem_importClause {specifier : String} {clause : Node} {item : Item}
    (present : item ∈ importClause specifier clause) : item.drafts = [] := by
  obtain ⟨part, -, inside⟩ := List.mem_flatMap.mp present
  split at inside
  · exact List.mem_singleton.mp inside ▸ rfl
  · obtain ⟨name, -, rfl⟩ := List.mem_map.mp inside
    rfl
  · obtain ⟨name, -, read⟩ := List.mem_filterMap.mp inside
    exact drafts_of_importSpecifier? read
  · cases inside

/-- Imports declare nothing. -/
theorem drafts_of_mem_importItems {statement : Node} {item : Item}
    (present : item ∈ statement.importItems) : item.drafts = [] := by
  rw [importItems] at present
  split at present
  · cases present
  · obtain ⟨child, -, inside⟩ := List.mem_flatMap.mp present
    split at inside
    · exact drafts_of_mem_importClause inside
    · obtain ⟨name, -, rfl⟩ := List.mem_map.mp inside
      rfl
    · cases inside

theorem drafts_of_exportSpecifier? {specifier : Option String} {part : Node} {item : Item}
    (read : exportSpecifier? specifier part = some item) : item.drafts = [] := by
  rw [exportSpecifier?] at read
  split at read
  · obtain ⟨name, -, result⟩ := Option.bind_eq_some_iff.mp read
    cases specifier <;> cases result <;> rfl
  · cases read

/-- Lists of exported names declare nothing. -/
theorem drafts_of_mem_exportClause {statement : Node} {item : Item}
    (present : item ∈ statement.exportClause) : item.drafts = [] := by
  rw [exportClause] at present
  split at present
  · split at present
    · obtain ⟨part, -, read⟩ := List.mem_filterMap.mp present
      exact drafts_of_exportSpecifier? read
    · split at present
      · exact List.mem_singleton.mp present ▸ rfl
      · cases present
  · exact List.mem_singleton.mp present ▸ rfl
  · cases present

/-- A default export is read as its value, when that is a function or a class. -/
theorem reads_exportValue (value : Node) : value.Reads (Item.draftsOf value.exportValue) := by
  rw [exportValue]
  split
  · exact .nothing value
  · split
    · next isFunction =>
      obtain ⟨fits, free⟩ := Kind.isFunctionLike_of_isFunctionValue isFunction
      exact .inside (unwrap_within value) (.function _ fits free)
    · split
      · next isClass =>
        exact .inside (unwrap_within value) (.classType _ (by simp [isClass]))
      · exact .nothing value

/-- Exporting what is declared adds no declaration. -/
theorem draftsOf_exportDeclared (statement : Node) (declared : Outline) :
    Item.draftsOf (statement.exportDeclared declared) = Item.draftsOf declared.items := by
  have named : Item.draftsOf (declared.names.map fun name => .exportName name name) = [] :=
    Item.draftsOf_eq_nil fun item present => by
      obtain ⟨name, -, rfl⟩ := List.mem_map.mp present
      rfl
  have default : Item.draftsOf (if statement.hasChild .defaultWord then
      declared.names.head?.toList.map fun name => .exportName "default" name else []) = [] :=
    Item.draftsOf_eq_nil fun item present => by
      split at present
      · obtain ⟨name, -, rfl⟩ := List.mem_map.mp present
        rfl
      · cases present
  rw [exportDeclared, Item.draftsOf_append, Item.draftsOf_append, named, default,
    List.append_nil, List.append_nil]

/-! ### Statements and files -/

/-- A statement is read as the drafts of its outline. -/
theorem reads_outline (statement : Node) :
    statement.Reads (Item.draftsOf statement.outline.items) := by
  fun_induction outline statement with
  | case1 statement isFunction | case2 statement isFunction =>
    rw [Outline.draftsOf_ofDrafts]
    exact reads_namedDraft fun name =>
      .function name (by rw [isFunction]; rfl) (by simp [isFunction])
  | case3 statement isClass | case4 statement isClass =>
    rw [Outline.draftsOf_ofDrafts]
    exact reads_class (by simp [isClass])
  | case5 statement isInterface =>
    rw [Outline.draftsOf_ofDrafts]
    exact reads_namedDraft fun name => .plain name (.inl rfl) (by simp [isInterface])
  | case6 statement isEnum =>
    rw [Outline.draftsOf_ofDrafts]
    exact reads_namedDraft fun name => .plain name (.inr (.inl rfl)) (by simp [isEnum])
  | case7 statement | case8 statement =>
    rw [Outline.draftsOf_ofDrafts]
    exact reads_variableDrafts statement
  | case9 statement =>
    rw [Item.draftsOf_eq_nil fun _ present => drafts_of_mem_importItems present]
    exact .nothing statement
  | case10 statement isExport declaration found smaller inductionHypothesis =>
    rw [draftsOf_exportDeclared]
    exact .inside (within_of_child? found) inductionHypothesis
  | case11 statement isExport missing value found =>
    exact .inside (within_of_child? found) (reads_exportValue value)
  | case12 statement =>
    rw [Item.draftsOf_eq_nil fun _ present => drafts_of_mem_exportClause present]
    exact .nothing statement
  | case13 statement isAmbient inner found smaller inductionHypothesis =>
    exact .inside (within_of_firstNamed? found) inductionHypothesis
  | case14 statement | case15 statement => exact .nothing statement

/-- A file is read as the drafts of its items. -/
theorem reads_fileItems (root : Node) : root.Reads (Item.draftsOf root.fileItems) := by
  rw [Item.draftsOf, fileItems, List.flatMap_assoc]
  exact .each List.filter_sublist fun statement _ => reads_outline statement

namespace Reads

variable {place : Node} {drafts : List Draft}

/-- What a node is read as is declared inside the node, by different nodes. -/
theorem covers (reads : place.Reads drafts) : place.Covers (drafts.flatMap Draft.nodes) := by
  induction reads with
  | function | plain => exact Covers.self _
  | classType name => simpa using covers_classDraft _ name
  | each sub _ inductionHypothesis =>
    rw [List.flatMap_assoc]
    exact Covers.flatMap_children sub inductionHypothesis
  | inside below _ inductionHypothesis => exact inductionHypothesis.mono below

/-- Everything that is read is a sound draft, by induction on the rules. -/
theorem sound (reads : place.Reads drafts) : ∀ draft ∈ drafts, draft.Sound := by
  induction reads with
  | function | plain =>
    intro draft only
    obtain rfl := List.mem_singleton.mp only
    exact ⟨fun some => absurd rfl some, fun member present => nomatch present⟩
  | classType name =>
    intro draft only
    exact List.mem_singleton.mp only ▸ sound_classDraft _ name
  | each _ _ inductionHypothesis =>
    intro draft present
    obtain ⟨child, memChild, ofChild⟩ := List.mem_flatMap.mp present
    exact inductionHypothesis child memChild draft ofChild
  | inside _ _ inductionHypothesis => exact inductionHypothesis

end Reads

/-- The items are declared inside a node, each by a node of its own, and their drafts are sound. -/
structure Declares (place : Node) (items : List Item) : Prop where
  /-- The declaring nodes lie inside the place, no two at one place. -/
  covers : place.Covers (Item.nodesOf items)
  /-- Only classes have members. -/
  sound : ∀ item ∈ items, ∀ draft ∈ item.drafts, draft.Sound

/-- A file declares its items. -/
theorem declares_fileItems (root : Node) : root.Declares root.fileItems := by
  have reads := reads_fileItems root
  refine ⟨?_, fun item present draft ofItem => ?_⟩
  · rw [Item.nodesOf_eq_flatMap]
    exact reads.covers
  · exact reads.sound draft (List.mem_flatMap.mpr ⟨item, present, ofItem⟩)

end Node

end CodeGraph
