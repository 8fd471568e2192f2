import CodeGraph.Proofs.Collection
import CodeGraph.Proofs.Resolve.Asked
import Mathlib.Data.List.Pairwise

/-!
# Every call has one caller

Functions inside a function are no callables, so all calls in a body belong to one callable. For
this to give every call at most one caller, the functions of different callables must not overlap:
they lie apart in their files, and a walk through a body comes to each node once.

That functions lie apart is shown for all that a file is read as, by induction on the rules for
reading. Only a class has declarations inside it, and a class has no function of its own.

## Main Definitions

* `MemberDraft.function?`: the function of a declaration, before it is numbered.
* `Collected.OneCaller`: every call has at most one caller.

## Main Statements

* `Node.Reads.scatters_functions`: the functions that a node declares lie apart.
* `Program.apart_of_functionNode?`: so do the functions of a program.
* `Descent.nodup_place_walk`: a walk comes to no place twice.
* `Program.oneCaller_collect`: every call of distinct files has at most one caller.
-/

namespace CodeGraph

/-! ### Functions of drafts -/

namespace MemberDraft

/-- The function of a declaration. The number of the declaration and its class do not matter. -/
def function? (content : MemberDraft) : Option Node := (content.decl 0 0).functionNode?

theorem within_of_function? {content : MemberDraft} {function : Node}
    (found : content.function? = some function) : function.Within content.node :=
  Decl.within_of_functionNode? found

end MemberDraft

namespace Node

/-- The function of one declaration lies in its node. -/
theorem scatters_function (node : Node) (kind : DeclKind) (name : String) :
    node.Scatters ([⟨kind, name, node⟩].filterMap MemberDraft.function?) := by
  have itself : node.Scatters
      (([⟨kind, name, node⟩] : List MemberDraft).map MemberDraft.node) := Scatters.self node
  exact itself.filterMap fun _ _ => MemberDraft.within_of_function?

/-- The functions of the members of a class lie apart inside it. -/
theorem scatters_classFunctions (node : Node) (name : String) :
    node.Scatters ((node.classDraft name).contents.filterMap MemberDraft.function?) := by
  -- A class has no function of its own.
  have noFunction : MemberDraft.function? ⟨.classType, name, node⟩ = none := rfl
  rw [Draft.contents, classDraft, List.filterMap_cons_none noFunction]
  cases found : node.child? .body with
  | none => exact Scatters.nil node
  | some body =>
    refine Scatters.mono (within_of_child? found) ?_
    show body.Scatters ((body.namedChildren.flatMap memberDrafts).filterMap MemberDraft.function?)
    rw [List.filterMap_flatMap]
    refine Scatters.flatMap_children List.filter_sublist fun part _ => ?_
    exact (scatters_memberDrafts part).filterMap fun _ _ => MemberDraft.within_of_function?

/-- The functions that a node declares lie apart inside it. -/
theorem Reads.scatters_functions {place : Node} {drafts : List Draft}
    (reads : place.Reads drafts) :
    place.Scatters ((drafts.flatMap Draft.contents).filterMap MemberDraft.function?) := by
  induction reads with
  | function name => exact scatters_function _ .function name
  | plain name => exact scatters_function _ _ name
  | classType name => simpa using scatters_classFunctions _ name
  | each sub _ inductionHypothesis =>
    rw [List.flatMap_assoc, List.filterMap_flatMap]
    exact Scatters.flatMap_children sub inductionHypothesis
  | inside below _ inductionHypothesis => exact inductionHypothesis.mono below

end Node

/-! ### Functions of a program -/

namespace Program

variable {model : Model} {conventions : Conventions} {files : List SourceFile}

/-- The functions of a program are those that its files are read as. -/
theorem filterMap_functionNode? (model : Model) :
    (ofModel model).index.decls.filterMap Decl.functionNode? =
      model.files.flatMap fun file =>
        (file.drafts.flatMap Draft.contents).filterMap MemberDraft.function? := by
  have contents : (ofModel model).index.decls.map Decl.content =
      model.files.flatMap fun file => file.drafts.flatMap Draft.contents :=
    Index.contents_build model.files
  rw [← List.filterMap_flatMap, ← contents, List.filterMap_map]
  rfl

/-- The functions of a program lie apart. -/
theorem pairwise_apart_functions (numbered : model.Numbered) :
    ((ofModel model).index.decls.filterMap Decl.functionNode?).Pairwise Node.Apart := by
  have scatters : ∀ file ∈ model.files, file.root.Scatters
      ((file.drafts.flatMap Draft.contents).filterMap MemberDraft.function?) :=
    fun file _ => (Node.reads_fileItems file.root).scatters_functions
  rw [filterMap_functionNode?, List.pairwise_flatMap]
  refine ⟨fun file memFile => (scatters file memFile).apart, ?_⟩
  -- Functions of different files are told apart by their files.
  refine (List.pairwise_map.mp numbered.nodup_ids).imp_of_mem fun {a b} memA memB different => ?_
  intro f ofA g ofB
  apply Node.Apart.of_source_ne
  rw [((scatters a memA).within f ofA).source, ((scatters b memB).within g ofB).source]
  exact different

/-- The functions of two declarations lie apart. -/
theorem apart_of_functionNode? (numbered : model.Numbered) {a b : Decl}
    (memA : a ∈ (ofModel model).index.decls) (memB : b ∈ (ofModel model).index.decls)
    (different : a ≠ b) {f g : Node} (isF : a.functionNode? = some f)
    (isG : b.functionNode? = some g) : f.Apart g := by
  have pairwise := List.pairwise_filterMap.mp (pairwise_apart_functions numbered)
  have symmetric : Std.Symm fun a b : Decl =>
      ∀ f, a.functionNode? = some f → ∀ g, b.functionNode? = some g → f.Apart g :=
    ⟨fun _ _ apart g isG f isF => (apart f isF g isG).symm⟩
  exact pairwise.forall memA memB different f isF g isG

end Program

/-! ### Walks -/

/-- A walk that goes down from nodes that lie apart comes to no place twice. -/
theorem Descent.nodup_place_walk (descent : Descent)
    (down : ∀ node, (descent.below node).Sublist node.children) {waiting : List Node}
    (apart : waiting.Pairwise Node.Apart) : ((descent.walk waiting).map Node.place).Nodup := by
  fun_induction descent.walk waiting with
  | case1 => exact List.nodup_nil
  | case2 first waiting smaller inductionHypothesis =>
    obtain ⟨fromFirst, rest⟩ := List.pairwise_cons.mp apart
    have lower : first.Scatters (descent.below first) :=
      (Node.Scatters.children first).sublist (down first)
    rw [List.map_cons, List.nodup_cons]
    constructor
    · intro again
      obtain ⟨node, visited, same⟩ := List.mem_map.mp again
      obtain ⟨start, waits, within⟩ := descent.within_of_mem_walk
        (fun node inner below => Node.within_of_mem_children ((down node).subset below)) visited
      rcases List.mem_append.mp waits with below | later
      · exact Node.place_ne_of_within_child ((down first).subset below) within same
      · exact fromFirst start later first node (.refl first) within same.symm
    · apply inductionHypothesis
      refine List.pairwise_append.mpr ⟨lower.apart, rest, fun a memA b memB => ?_⟩
      exact (fromFirst b memB).mono (lower.within a memA) (.refl b)

/-- No call of a function occurs twice. -/
theorem Node.nodup_place_callSites (function : Node) : (function.callSites.map place).Nodup := by
  rw [callSites]
  split
  · next body _ =>
    have once : ((namedDescent.walk [body]).map place).Nodup :=
      namedDescent.nodup_place_walk (fun _ => List.filter_sublist) (List.pairwise_singleton _ _)
    exact once.sublist (List.filter_sublist.map place)
  · exact List.nodup_nil

/-! ### Callers -/

/-- Every call has at most one caller. -/
structure Collected.OneCaller (collected : Collected) : Prop where
  /-- The functions of different callables lie apart. -/
  apart : (collected.callables.map Callable.function).Pairwise Node.Apart
  /-- No call occurs twice, neither in one callable nor in two. -/
  once : (collected.sites.map fun site => site.call.place).Nodup
  /-- Calls at one place have one caller. -/
  caller : ∀ a ∈ collected.callables, ∀ b ∈ collected.callables,
    ∀ inA ∈ a.function.callSites, ∀ inB ∈ b.function.callSites, inA.place = inB.place → a = b

/-- Callables whose functions lie apart share no call. -/
theorem Collected.nodup_place_sites {collected : Collected}
    (apart : (collected.callables.map Callable.function).Pairwise Node.Apart) :
    (collected.sites.map fun site => site.call.place).Nodup := by
  rw [sites, List.map_flatMap, List.nodup_flatMap]
  refine ⟨fun callable _ => ?_, (List.pairwise_map.mp apart).imp fun {a b} apart => ?_⟩
  · rw [List.map_map]
    exact callable.function.nodup_place_callSites
  · intro place ofA ofB
    obtain ⟨siteA, isSiteA, rfl⟩ := List.mem_map.mp ofA
    obtain ⟨siteB, isSiteB, same⟩ := List.mem_map.mp ofB
    obtain ⟨inA, memA, rfl⟩ := List.mem_map.mp isSiteA
    obtain ⟨inB, memB, rfl⟩ := List.mem_map.mp isSiteB
    exact apart inA inB (Node.within_of_mem_callSites memA) (Node.within_of_mem_callSites memB)
      same.symm

theorem Collected.mem_sites {collected : Collected} {callable : Callable} {call : Node}
    (present : callable ∈ collected.callables) (calls : call ∈ callable.function.callSites) :
    ⟨callable, call⟩ ∈ collected.sites :=
  List.mem_flatMap.mpr ⟨callable, present, List.mem_map_of_mem calls⟩

namespace Program

variable {model : Model} {conventions : Conventions} {files : List SourceFile}

/-- The functions of the callables of distinct files lie apart. -/
theorem pairwise_apart_collect (numbered : model.Numbered)
    (scopes : (ofModel model).Scopes files) :
    (((ofModel model).collect conventions files).callables.map Callable.function).Pairwise
      Node.Apart := by
  have distinct := (wellFormed_ofModel numbered).distinct_collect scopes conventions
  refine List.pairwise_map.mpr ((List.pairwise_map.mp distinct.decls).imp_of_mem ?_)
  intro a b memA memB different
  refine apart_of_functionNode? numbered (distinct.declared a memA) (distinct.declared b memB)
    ?_ (functionNode?_of_mem_collect memA) (functionNode?_of_mem_collect memB)
  exact fun same => different (congrArg Decl.id same)

/-- Every call of distinct files has at most one caller. -/
theorem oneCaller_collect (settings : AnalysisSettings) (inputs : List Input)
    (conventions : Conventions) (files : List SourceFile)
    (scopes : (ofModel (Model.build settings inputs)).Scopes files) :
    ((ofModel (Model.build settings inputs)).collect conventions files).OneCaller := by
  have numbered := Model.numbered_build settings inputs
  generalize Model.build settings inputs = model at scopes numbered ⊢
  have apart : (((ofModel model).collect conventions files).callables.map
      Callable.function).Pairwise Node.Apart := pairwise_apart_collect numbered scopes
  have once := Collected.nodup_place_sites apart
  refine ⟨apart, once, ?_⟩
  intro a memA b memB inA callsA inB callsB same
  have sites := List.inj_on_of_nodup_map once (Collected.mem_sites memA callsA)
    (Collected.mem_sites memB callsB) same
  exact congrArg CallSite.caller sites

/-- The two calls of the class belong to the function of the parameter and to the method. -/
theorem oneCaller_collect_callsFromClass :
    let program := ofModel (Model.build {} [callsFromClass])
    let files := Analysis.scopeFiles program.model ["a.ts"]
    program.Scopes files ∧ (program.collect {} files).OneCaller ∧
      (program.collect {} files).sites.map (fun site =>
        (site.caller.decl.name, site.call.label.start)) = [("f", 34), ("m", 53)] := by
  intro program files
  have scopes : program.Scopes files := Analysis.scopes_scopeFiles program.model ["a.ts"]
  exact ⟨scopes, oneCaller_collect {} [callsFromClass] {} files scopes, by decide +kernel⟩

end Program

end CodeGraph
