import CodeGraph.Index
import CodeGraph.Proofs.Keyed
import CodeGraph.Proofs.Outline

/-!
# The tables of the index

Declarations enter the index one at a time, and each enters several tables. What one declaration
does to the tables is said once; that the tables agree follows for every item, every file and every
list of files.

## Main Definitions

* `Index.Tabled`: the tables of an index agree with its list of declarations.
* `Index.Grows`: an index with more declarations and imports than another one.
* `FileScope.Agrees`: the names of a file agree with an index.

## Main Statements

* `Index.Tabled.push`: a declaration with the next number keeps the tables in agreement.
* `FileScope.Agrees.of_grows`: declarations of other files leave a scope in agreement.
-/

namespace CodeGraph

/-- A list in which every element says its position stays so when the next one comes last. -/
theorem numbered_append {α : Type} {number : α → Nat} {list : List α} {new : α}
    (numbered : ∀ (position : Nat) a, list[position]? = some a → number a = position)
    (next : number new = list.length) (position : Nat) (a : α)
    (found : (list ++ [new])[position]? = some a) : number a = position := by
  by_cases old : position < list.length
  · rw [List.getElem?_append_left old] at found
    exact numbered position a found
  · rw [List.getElem?_append_right (Nat.le_of_not_lt old), List.getElem?_singleton] at found
    split at found
    · cases found
      omega
    · cases found

/-- In a list in which every element says its position, an element stands where it says. -/
theorem getElem?_of_numbered {α : Type} {number : α → Nat} {list : List α}
    (numbered : ∀ (position : Nat) a, list[position]? = some a → number a = position) {a : α}
    (present : a ∈ list) : list[number a]? = some a := by
  obtain ⟨position, found⟩ := List.mem_iff_getElem?.mp present
  rw [numbered position a found]
  exact found

/-- In a list in which every element says its position, the numbers count up from zero. -/
theorem map_eq_range_of_numbered {α : Type} {number : α → Nat} {list : List α}
    (numbered : ∀ (position : Nat) a, list[position]? = some a → number a = position) :
    list.map number = List.range list.length := by
  refine List.ext_getElem? fun position => ?_
  by_cases inside : position < list.length
  · have found := List.getElem?_eq_getElem inside
    rw [List.getElem?_map, found, Option.map_some, numbered position _ found,
      List.getElem?_range inside]
  · rw [List.getElem?_eq_none (by simpa using inside),
      List.getElem?_eq_none (by simpa using inside)]

namespace Index

/-- The tables of an index agree with its list of declarations. -/
structure Tabled (index : Index) : Prop where
  /-- Declarations are numbered by position. -/
  numbered : ∀ (position : Nat) (decl : Decl),
    index.decls[position]? = some decl → decl.id.val = position
  /-- Imports are numbered by position. -/
  linked : ∀ (position : Nat) (link : ImportLink),
    index.imports[position]? = some link → link.id.val = position
  /-- The members of a class are the declarations that name it as their class, in order. -/
  members : ∀ owner, index.membersOf owner =
    index.decls.filter fun decl => decl.container = some owner
  /-- A place leads to the last declaration that was made there. -/
  places : ∀ place, Keyed.get? index.places place =
    index.decls.reverse.find? fun decl => decl.node.place = place
  /-- A member belongs to a class of its file that came before it. -/
  owned : ∀ decl ∈ index.decls, ∀ owner, decl.container = some owner →
    decl.kind.IsMember ∧ ∃ holder ∈ index.decls, holder.id = owner ∧ holder.isClass ∧
      holder.file = decl.file ∧ owner.val < decl.id.val

/-- The empty index has right tables. -/
theorem tabled_empty : Tabled {} where
  numbered _ _ found := by simp at found
  linked _ _ found := by simp at found
  members _ := rfl
  places _ := rfl
  owned _ present := by cases present

namespace Tabled

variable {index : Index}

/-- Declarations have numbers below the next one. -/
theorem id_lt_of_mem (tabled : index.Tabled) {decl : Decl} (present : decl ∈ index.decls) :
    decl.id.val < index.nextDecl :=
  (List.getElem?_eq_some_iff.mp (getElem?_of_numbered tabled.numbered present)).1

/-- The numbers of the declarations go up. -/
theorem ascending (tabled : index.Tabled) :
    (index.decls.map fun decl => decl.id.val).Pairwise (· < ·) := by
  rw [map_eq_range_of_numbered tabled.numbered]
  exact List.pairwise_lt_range

/-! ### One declaration -/

/-- A member is added at the end of the table of its class. -/
theorem membersOf_push (index : Index) (decl : Decl) (owner : DeclId) :
    (index.push decl).membersOf owner =
      if decl.container = some owner then index.membersOf owner ++ [decl]
      else index.membersOf owner := by
  change (Keyed.get? (index.membersWith decl) owner).getD [] = _
  rw [membersWith]
  cases contained : decl.container with
  | none => rfl
  | some holder =>
    dsimp only
    rw [Keyed.get?_put]
    by_cases same : holder = owner
    · simp [same]
    · simp [same, membersOf]

/-- A declaration with the next number, that is no member or a member of a class of its file, keeps
the tables in agreement. -/
theorem push (tabled : index.Tabled) {decl : Decl} (next : decl.id.val = index.nextDecl)
    (owned : ∀ owner, decl.container = some owner →
      decl.kind.IsMember ∧ ∃ holder ∈ index.decls, holder.id = owner ∧ holder.isClass ∧
        holder.file = decl.file) : (index.push decl).Tabled where
  numbered := numbered_append tabled.numbered next
  linked := tabled.linked
  members owner := by
    rw [membersOf_push, tabled.members owner]
    change _ = (index.decls ++ [decl]).filter _
    rw [List.filter_append]
    by_cases contained : decl.container = some owner <;> simp [contained]
  places place := by
    change Keyed.get? (Keyed.put index.places decl.node.place decl) place =
      (index.decls ++ [decl]).reverse.find? _
    rw [Keyed.get?_put, List.reverse_append, List.reverse_singleton, List.singleton_append,
      List.find?_cons, tabled.places place]
    by_cases here : decl.node.place = place <;> simp [here]
  owned other present owner contained := by
    rcases List.mem_append.mp present with old | new
    · obtain ⟨kind, holder, memHolder, rest⟩ := tabled.owned other old owner contained
      exact ⟨kind, holder, List.mem_append_left _ memHolder, rest⟩
    · obtain rfl := List.mem_singleton.mp new
      obtain ⟨kind, holder, memHolder, rfl, isClass, sameFile⟩ := owned owner contained
      refine ⟨kind, holder, List.mem_append_left _ memHolder, rfl, isClass, sameFile, ?_⟩
      rw [next]
      exact tabled.id_lt_of_mem memHolder

/-- The members of a class keep the tables in agreement. -/
theorem foldl_pushMember (tabled : index.Tabled) {holder : Decl} (present : holder ∈ index.decls)
    {members : List MemberDraft} (isClass : members ≠ [] → holder.isClass)
    (kinds : ∀ member ∈ members, member.kind.IsMember)
    (files : ∀ member ∈ members, member.node.source = holder.file) :
    (members.foldl (pushMember holder.id.val) index).Tabled := by
  induction members generalizing index with
  | nil => exact tabled
  | cons member rest inductionHypothesis =>
    have holds : holder.isClass := isClass (List.cons_ne_nil member rest)
    refine inductionHypothesis (tabled.push rfl ?_) (List.mem_append_left _ present)
      (fun _ => holds) (fun other later => kinds other (List.mem_cons_of_mem _ later))
      (fun other later => files other (List.mem_cons_of_mem _ later))
    intro owner contained
    obtain rfl : holder.id = owner := Option.some.inj contained
    exact ⟨kinds member List.mem_cons_self, holder, present, rfl, holds,
      (files member List.mem_cons_self).symm⟩

/-- An import with the next number keeps the tables in agreement. -/
theorem addImport (tabled : index.Tabled) {link : ImportLink}
    (next : link.id.val = index.imports.length) :
    Tabled { index with imports := index.imports ++ [link] } where
  numbered := tabled.numbered
  linked := numbered_append tabled.linked next
  members := tabled.members
  places := tabled.places
  owned := tabled.owned

end Tabled

/-! ### Growth -/

/-- The later index has the declarations of the earlier one and after them those of some nodes, and
all its imports. -/
structure Grows (earlier later : Index) (nodes : List Node) : Prop where
  /-- The new declarations come last. -/
  decls : ∃ added, later.decls = earlier.decls ++ added ∧ added.map Decl.node = nodes
  /-- The new imports come last. -/
  imports : earlier.imports <+: later.imports
  /-- No scope is added. -/
  scopes : later.scopes = earlier.scopes

namespace Grows

variable {a b c : Index} {first second : List Node}

theorem refl (index : Index) : index.Grows index [] :=
  ⟨⟨[], by simp⟩, List.prefix_rfl, rfl⟩

theorem trans (lower : a.Grows b first) (upper : b.Grows c second) :
    a.Grows c (first ++ second) := by
  obtain ⟨earlier, declsB, rfl⟩ := lower.decls
  obtain ⟨later, declsC, rfl⟩ := upper.decls
  refine ⟨⟨earlier ++ later, ?_, List.map_append⟩, lower.imports.trans upper.imports,
    upper.scopes.trans lower.scopes⟩
  rw [declsC, declsB, List.append_assoc]

end Grows

/-- A push adds one declaration. -/
theorem grows_push (index : Index) (decl : Decl) : index.Grows (index.push decl) [decl.node] :=
  ⟨⟨[decl], rfl, rfl⟩, List.prefix_rfl, rfl⟩

theorem grows_foldl_pushMember (index : Index) (owner : Nat) (members : List MemberDraft) :
    index.Grows (members.foldl (pushMember owner) index) (members.map MemberDraft.node) := by
  induction members generalizing index with
  | nil => exact Grows.refl index
  | cons member rest inductionHypothesis =>
    exact (grows_push index (member.decl owner index.nextDecl)).trans
      (inductionHypothesis (index.pushMember owner member))

/-- The declarations of a file that are no members. -/
def topLevelOf (index : Index) (file : FileId) : List Decl :=
  index.decls.filter fun decl => decl.container = none && decl.file.id = file

/-- A declaration without a class around it is added to those of its file. -/
theorem topLevelOf_push (index : Index) (decl : Decl) (file : FileId) :
    (index.push decl).topLevelOf file =
      if decl.container = none ∧ decl.file.id = file then index.topLevelOf file ++ [decl]
      else index.topLevelOf file := by
  change (index.decls ++ [decl]).filter _ = _
  rw [List.filter_append]
  by_cases counts : decl.container = none ∧ decl.file.id = file
  · simp [topLevelOf, counts]
  · rw [if_neg counts, List.filter_cons_of_neg (by simpa using counts), List.filter_nil,
      List.append_nil]
    rfl

/-- Members are not among the other declarations of a file. -/
theorem topLevelOf_foldl_pushMember (index : Index) (owner : Nat) (members : List MemberDraft)
    (file : FileId) :
    (members.foldl (pushMember owner) index).topLevelOf file = index.topLevelOf file := by
  induction members generalizing index with
  | nil => rfl
  | cons member rest inductionHypothesis =>
    rw [List.foldl_cons, inductionHypothesis, pushMember, topLevelOf_push,
      if_neg (by simp [MemberDraft.decl])]

end Index

/-! ### Scopes -/

/-- A binding of a name fits a scope: it is a top-level declaration of that name or an import of the
file. -/
def Binding.Fits (scope : FileScope) (index : Index) (name : String) : Binding → Prop
  | .decl declared => declared ∈ scope.topLevel ∧ declared.name = name
  | .imported link => link ∈ index.imports ∧ link.file = scope.file

/-- The target of an export fits a scope: it is a name, a top-level declaration or an import of the
file. -/
def ExportTarget.Fits (scope : FileScope) (index : Index) : ExportTarget → Prop
  | .name _ => True
  | .decl declared => declared ∈ scope.topLevel
  | .reexport link => link ∈ index.imports ∧ link.file = scope.file

/-- The names of a file agree with an index. -/
structure FileScope.Agrees (scope : FileScope) (index : Index) : Prop where
  /-- The top-level declarations are those of the file that are no members, in order. -/
  topLevel : scope.topLevel = index.topLevelOf scope.file.id
  /-- Every binding fits. -/
  bindings : ∀ entry ∈ scope.bindings, entry.2.Fits scope index entry.1
  /-- Every export fits. -/
  exports : ∀ entry ∈ scope.exports, entry.2.Fits scope index

section Fits

variable {scope larger : FileScope} {index later : Index}

/-- A binding stays right while the tables grow. -/
theorem Binding.Fits.mono {name : String} {binding : Binding}
    (fits : binding.Fits scope index name) (sameFile : larger.file = scope.file)
    (decls : scope.topLevel ⊆ larger.topLevel) (imports : index.imports ⊆ later.imports) :
    binding.Fits larger later name := by
  cases binding with
  | decl declared => exact ⟨decls fits.1, fits.2⟩
  | imported link => exact ⟨imports fits.1, fits.2.trans sameFile.symm⟩

/-- So does an export. -/
theorem ExportTarget.Fits.mono {target : ExportTarget} (fits : target.Fits scope index)
    (sameFile : larger.file = scope.file) (decls : scope.topLevel ⊆ larger.topLevel)
    (imports : index.imports ⊆ later.imports) : target.Fits larger later := by
  cases target with
  | name name => trivial
  | decl declared => exact decls fits
  | reexport link => exact ⟨imports fits.1, fits.2.trans sameFile.symm⟩

/-- Declarations of other files leave a scope in agreement. -/
theorem FileScope.Agrees.of_grows {nodes : List Node} (agrees : scope.Agrees index)
    (grows : index.Grows later nodes) (foreign : ∀ node ∈ nodes, node.source.id ≠ scope.file.id) :
    scope.Agrees later := by
  obtain ⟨added, decls, rfl⟩ := grows.decls
  refine ⟨?_, fun entry present => ?_, fun entry present => ?_⟩
  · have none : added.filter (fun decl => decl.container = none && decl.file.id = scope.file.id)
        = [] := by
      rw [List.filter_eq_nil_iff]
      intro decl present counts
      simp only [Bool.and_eq_true, decide_eq_true_eq] at counts
      exact foreign decl.node (List.mem_map_of_mem present) counts.2
    rw [agrees.topLevel, Index.topLevelOf, Index.topLevelOf, decls, List.filter_append, none,
      List.append_nil]
  · exact (agrees.bindings entry present).mono rfl (List.Subset.refl _) grows.imports.subset
  · exact (agrees.exports entry present).mono rfl (List.Subset.refl _) grows.imports.subset

end Fits

end CodeGraph
