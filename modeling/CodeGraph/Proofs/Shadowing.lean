import CodeGraph.Proofs.Resolve.Inside
import CodeGraph.Proofs.Scope

/-!
# Declarations inside blocks

A statement is read in two ways. Among the statements of a file it is read as what it declares for
the whole file; in a block it is searched for a name that the block may introduce. Each reading has
its own list of the forms of declarations, and the one for blocks is the shorter one. A function, a
class or a variable that is declared in a block hides what the file declares under the same name. An
abstract class, an interface, an enumeration or an ambient declaration hides nothing: the name is
looked up as if the statement were not there, and is found in a scope further out or in the file.

## Main Definitions

* `Kind.isBlockDeclaration`, `Kind.isFileDeclaration`: the forms of declarations that blocks know,
  and those that only files know.
* `Node.Introduces`: a statement introduces a name into the block around it.

## Main Statements

* `Node.forms_of_mem_names`: the forms in which names are declared.
* `Node.introduces_of_mem_names`: blocks know what is declared in one of their forms.
* `Node.binds_iff_of_block`: a block introduces what its statements introduce.
* `Program.blockDeclarations_hide`: which declarations in a block hide those of the file.
* `Program.abstractClass_hidesNothing`: a name that is declared in a block and found in the file.
-/

namespace CodeGraph

namespace Kind

/-- The forms of declarations that blocks know. -/
def isBlockDeclaration : Kind → Bool
  | functionDeclaration | generatorFunctionDeclaration | classDeclaration | lexicalDeclaration
  | variableDeclaration => true
  | _ => false

/-- The forms of declarations that files know and blocks do not. -/
def isFileDeclaration : Kind → Bool
  | abstractClassDeclaration | interfaceDeclaration | enumDeclaration | ambientDeclaration => true
  | _ => false

end Kind

theorem Outline.names_ofDrafts (drafts : List Draft) :
    (ofDrafts drafts).names = drafts.map Draft.name := rfl

namespace Node

/-- A statement introduces a name into the block around it. -/
def Introduces (statement : Node) (name : String) : Prop :=
  ∃ introduction ∈ statement.statementNames, introduction.identifier.text = name

/-! ### The forms of declarations -/

/-- Names are declared in the forms that blocks know and in those that only files know. -/
theorem forms_of_mem_names {statement : Node} {name : String}
    (declares : name ∈ statement.outline.names) :
    statement.kind.isBlockDeclaration ∨ statement.kind.isFileDeclaration := by
  revert declares
  fun_cases outline statement with
  | case1 kind | case2 kind | case3 kind | case7 kind | case8 kind =>
    exact fun _ => .inl (by rw [kind]; rfl)
  | case4 kind | case5 kind | case6 kind | case13 kind | case14 kind =>
    exact fun _ => .inr (by rw [kind]; rfl)
  | case9 | case10 | case11 | case12 | case15 =>
    exact fun declares => absurd declares List.not_mem_nil

theorem introduces_of_name {statement own : Node} (isName : statement.child? .name = some own)
    (names : statement.statementNames = statement.declared) : statement.Introduces own.text := by
  refine ⟨⟨own, statement⟩, ?_, rfl⟩
  rw [names, declared, isName]
  exact List.mem_singleton_self _

/-- A variable that a file would declare is introduced by its declarator. -/
theorem introduces_of_mem_variableDrafts {statement : Node} {draft : Draft}
    (names : statement.statementNames = statement.namedChildren.flatMap declaratorNames)
    (declares : draft ∈ statement.variableDrafts) : statement.Introduces draft.name := by
  obtain ⟨declarator, inside, read⟩ := List.mem_filterMap.mp declares
  rw [variableDraft?] at read
  split at read
  · split at read
    · next own isName =>
      split at read
      · next isIdentifier =>
        cases read
        have bound : own.bound = [own] := by
          rw [bound_eq, if_pos (by simp [isBoundName, isIdentifier])]
        have introduced : own ∈ (declarator.introducedBy own).map Introduction.identifier := by
          simp [introducedBy, bound]
        obtain ⟨introduction, present, isOwn⟩ := List.mem_map.mp introduced
        refine ⟨introduction, ?_, congrArg text isOwn⟩
        rw [names, List.mem_flatMap]
        refine ⟨declarator, inside, ?_⟩
        rw [declaratorNames, isName, Option.toList_some, List.flatMap_singleton]
        exact present
      · cases read
    · cases read
  · cases read

/-- Blocks know every name that is declared in one of their forms. -/
theorem introduces_of_mem_names {statement : Node} {name : String}
    (known : statement.kind.isBlockDeclaration) (declares : name ∈ statement.outline.names) :
    statement.Introduces name := by
  unfold Kind.isBlockDeclaration at known
  rw [outline] at declares
  split at known
  case h_1 kind | h_2 kind =>
    simp only [kind, Outline.names_ofDrafts, namedDraft?, Option.toList_map, List.map_map,
      List.mem_map, Option.mem_toList] at declares
    obtain ⟨own, isName, rfl⟩ := declares
    exact introduces_of_name isName (by simp only [statementNames, kind])
  case h_3 kind =>
    simp only [kind, Outline.names_ofDrafts, Option.toList_map, List.map_map, List.mem_map,
      Option.mem_toList] at declares
    obtain ⟨own, isName, rfl⟩ := declares
    exact introduces_of_name isName (by simp only [statementNames, kind])
  case h_4 kind | h_5 kind =>
    simp only [kind, Outline.names_ofDrafts, List.mem_map] at declares
    obtain ⟨draft, present, rfl⟩ := declares
    exact introduces_of_mem_variableDrafts (by simp only [statementNames, kind]) present
  case h_6 => cases known

/-- Blocks know nothing of the forms that only files know. -/
theorem not_introduces_of_fileDeclaration {statement : Node} {name : String}
    (unknown : statement.kind.isFileDeclaration) : ¬statement.Introduces name := by
  rintro ⟨introduction, present, -⟩
  unfold Kind.isFileDeclaration at unknown
  split at unknown
  case h_1 kind | h_2 kind | h_3 kind | h_4 kind => simp [statementNames, kind] at present
  case h_5 => cases unknown

/-! ### Blocks -/

/-- A block introduces what its statements introduce. -/
theorem binds_iff_of_block {block : Node} (isBlock : block.kind = .statementBlock)
    {name : String} :
    block.Binds name ↔ ∃ statement ∈ block.namedChildren, statement.Introduces name := by
  have names : block.introductions = block.namedChildren.flatMap statementNames := by
    simp [introductions, functionNames, blockNames, isBlock, Kind.isFunctionLike]
  simp only [Binds, Introduces, names, List.mem_flatMap]
  constructor
  · rintro ⟨introduction, ⟨statement, inside, present⟩, spelled⟩
    exact ⟨statement, inside, introduction, present, spelled⟩
  · rintro ⟨statement, inside, introduction, present, spelled⟩
    exact ⟨introduction, ⟨statement, inside, present⟩, spelled⟩

/-- A block is a scope around its statements. -/
theorem mem_enclosing_of_mem_children {block statement : Node}
    (isBlock : block.kind = .statementBlock) (inside : statement ∈ block.children) :
    block ∈ statement.enclosing := by
  rw [enclosing, ancestors_of_mem_children inside, List.takeWhile_cons_of_pos (by simp [isBlock])]
  exact List.mem_cons_self

end Node

namespace Program

/-- **Which declarations in a block hide those of the file.** A name that a statement of a block
would declare for a file is bound in the block when the statement has one of the forms that blocks
know. The other forms are abstract classes, interfaces, enumerations and ambient declarations: when
nothing else around a place introduces the name, it denotes there what the file says. -/
theorem blockDeclarations_hide (program : Program) {place block statement : Node} {name : String}
    (around : block ∈ place.enclosing) (isBlock : block.kind = .statementBlock)
    (inside : statement ∈ block.namedChildren) (declares : name ∈ statement.outline.names) :
    (statement.kind.isBlockDeclaration →
      ∃ binder, program.lookup? place name = some (.binder binder)) ∧
    (¬statement.kind.isBlockDeclaration → statement.kind.isFileDeclaration ∧
      ((∀ other ∈ block.namedChildren, other ≠ statement → ¬other.Introduces name) →
        (∀ scope ∈ place.enclosing, scope ≠ block → ¬scope.Binds name) →
          program.lookup? place name =
            (Keyed.get? (program.scopeOf place.source).bindings name).map Binding.symbol)) := by
  refine ⟨fun known => ?_, fun unknown => ?_⟩
  · have introduces := Node.introduces_of_mem_names known declares
    exact program.exists_lookup?_eq_binder around
      ((Node.binds_iff_of_block isBlock).mpr ⟨statement, inside, introduces⟩)
  · have ofFile := (Node.forms_of_mem_names declares).resolve_left unknown
    refine ⟨ofFile, fun noOther noScope => program.lookup?_of_unbound fun scope isScope binds => ?_⟩
    by_cases same : scope = block
    · subst same
      obtain ⟨other, present, introduces⟩ := (Node.binds_iff_of_block isBlock).mp binds
      by_cases itself : other = statement
      · exact Node.not_introduces_of_fileDeclaration ofFile (itself ▸ introduces)
      · exact noOther other present itself introduces
    · exact noScope scope isScope same binds

/-! ### A class that hides another one, and one that does not -/

/-- Two classes and a function that declares two others of the same names, the second one
abstract. -/
def declaredInside : Input where
  path := "a.ts"
  text := "class A\x7b\x7dclass B\x7b\x7d" ++
    "function f()\x7bclass A\x7b\x7dabstract class B\x7b\x7dB\x7d"
  tree := some <|
    .node ⟨.program, none, true, false, 0, 60⟩ [
      .node ⟨.classDeclaration, none, true, false, 0, 9⟩ [
        .node ⟨.typeIdentifier, some .name, true, false, 6, 7⟩ [],
        .node ⟨.classBody, some .body, true, false, 7, 9⟩ []],
      .node ⟨.classDeclaration, none, true, false, 9, 18⟩ [
        .node ⟨.typeIdentifier, some .name, true, false, 15, 16⟩ [],
        .node ⟨.classBody, some .body, true, false, 16, 18⟩ []],
      .node ⟨.functionDeclaration, none, true, false, 18, 60⟩ [
        .node ⟨.identifier, some .name, true, false, 27, 28⟩ [],
        .node ⟨.formalParameters, some .parameters, true, false, 28, 30⟩ [],
        .node ⟨.statementBlock, some .body, true, false, 30, 60⟩ [
          .node ⟨.classDeclaration, none, true, false, 31, 40⟩ [
            .node ⟨.typeIdentifier, some .name, true, false, 37, 38⟩ [],
            .node ⟨.classBody, some .body, true, false, 38, 40⟩ []],
          .node ⟨.abstractClassDeclaration, none, true, false, 40, 58⟩ [
            .node ⟨.typeIdentifier, some .name, true, false, 55, 56⟩ [],
            .node ⟨.classBody, some .body, true, false, 56, 58⟩ []],
          .node ⟨.other "expression_statement", none, true, false, 58, 59⟩ [
            .node ⟨.identifier, none, true, false, 58, 59⟩ []]]]]

/-- The body of the function that the first file ends with. -/
def lastBody? (program : Program) : Option Node := do
  let file ← program.model.files.head?
  let function ← file.root.namedChildren.getLast?
  function.child? .body

theorem hasNode_of_lastBody? {program : Program} {block statement : Node}
    (found : program.lastBody? = some block) (inside : statement ∈ block.namedChildren) :
    program.HasNode statement := by
  obtain ⟨file, isFirst, rest⟩ := Option.bind_eq_some_iff.mp found
  obtain ⟨function, isLast, isBody⟩ := Option.bind_eq_some_iff.mp rest
  exact ⟨file, List.mem_of_head? isFirst, (Node.within_of_mem_namedChildren inside).trans
    ((Node.within_of_child? isBody).trans
      (Node.within_of_mem_namedChildren (List.mem_of_getLast? isLast)))⟩

/-- The first class in the function hides the first class of the file. -/
theorem blockDeclarations_hide_declaredInside :
    let program := ofModel (Model.build {} [declaredInside])
    ∃ place block statement, program.HasNode place ∧ block ∈ place.enclosing ∧
      block.kind = .statementBlock ∧ statement ∈ block.namedChildren ∧
      "A" ∈ statement.outline.names ∧
      ∃ binder, program.lookup? place "A" = some (.binder binder) := by
  intro program
  have declared : program.lastBody?.any fun block => block.kind = .statementBlock ∧
      block.namedChildren.head?.any fun statement =>
        statement.kind.isBlockDeclaration && "A" ∈ statement.outline.names := by
    decide +kernel
  obtain ⟨block, found, rest⟩ := (Option.any_eq_true _ _).mp declared
  obtain ⟨isBlock, hasFirst⟩ := of_decide_eq_true rest
  obtain ⟨statement, isFirst, forms⟩ := (Option.any_eq_true _ _).mp hasFirst
  obtain ⟨known, declares⟩ := (Bool.and_eq_true _ _).mp forms
  have inside := List.mem_of_head? isFirst
  have around := Node.mem_enclosing_of_mem_children isBlock (List.mem_filter.mp inside).1
  exact ⟨statement, block, statement, hasNode_of_lastBody? found inside, around, isBlock, inside,
    of_decide_eq_true declares, (program.blockDeclarations_hide around isBlock inside
      (of_decide_eq_true declares)).1 known⟩

/-- **An abstract class in a block hides nothing.** Inside the function the second name denotes a
class of the file, although the function declares it. -/
theorem abstractClass_hidesNothing :
    let program := ofModel (Model.build {} [declaredInside])
    ¬ ∀ place block statement name, program.HasNode place → block ∈ place.enclosing →
      block.kind = .statementBlock → statement ∈ block.namedChildren →
        name ∈ statement.outline.names →
          ∃ binder, program.lookup? place name = some (.binder binder) := by
  intro program hides
  have seen : program.lastBody?.any fun block => block.kind = .statementBlock ∧
      block.namedChildren.getLast?.any fun place =>
        (block.namedChildren[1]?.any fun statement => "B" ∈ statement.outline.names) &&
          ((program.lookup? place "B").bind Symbol.decl?).isSome := by
    decide +kernel
  obtain ⟨block, found, rest⟩ := (Option.any_eq_true _ _).mp seen
  obtain ⟨isBlock, hasLast⟩ := of_decide_eq_true rest
  obtain ⟨place, isLast, both⟩ := (Option.any_eq_true _ _).mp hasLast
  obtain ⟨hasSecond, isDecl⟩ := (Bool.and_eq_true _ _).mp both
  obtain ⟨statement, isSecond, declares⟩ := (Option.any_eq_true _ _).mp hasSecond
  have inside := List.mem_of_getLast? isLast
  obtain ⟨binder, isBinder⟩ := hides place block statement "B" (hasNode_of_lastBody? found inside)
    (Node.mem_enclosing_of_mem_children isBlock (List.mem_filter.mp inside).1) isBlock
    (List.mem_of_getElem? isSecond) (of_decide_eq_true declares)
  rw [isBinder] at isDecl
  cases isDecl

end Program

end CodeGraph
