import CodeGraph.Proofs.Index.WellFormed
import CodeGraph.Resolve.Alias

/-!
# What names lead to

Looking a name up, asking a file for an export and following imports never leave the program: they
end at a declaration of its index, at one of its files, at an import of its index or at a node that
binds the name. Following imports never ends at an import.

## Main Definitions

* `Program.HasFile`: a file of the program.
* `Symbol.Known`: what a symbol denotes belongs to the program.
* `Symbol.decl?`: the declaration that a symbol denotes.
* `Symbol.Resolved`: a known symbol that is no import.

## Main Statements

* `Program.WellFormed.known_of_lookup?`: names in scope are known.
* `Program.WellFormed.known_of_exportSymbol?`: exports are known.
* `Program.WellFormed.resolved_of_resolveAlias?`: a known symbol is resolved after all links.
-/

namespace CodeGraph

/-- A file of the program. -/
def Program.HasFile (program : Program) (file : SourceFile) : Prop :=
  ∃ known ∈ program.model.files, known.source = file

/-- What a symbol denotes belongs to the program. -/
def Symbol.Known (program : Program) : Symbol → Prop
  | .decl declared => declared ∈ program.index.decls
  | .imported link => link ∈ program.index.imports
  | .module file => program.HasFile file
  | .binder _ => True

/-- The declaration that a symbol denotes. -/
def Symbol.decl? : Symbol → Option Decl
  | .decl declared => some declared
  | .imported _ | .module _ | .binder _ => none

theorem Symbol.eq_of_decl? {symbol : Symbol} {decl : Decl} (denotes : symbol.decl? = some decl) :
    symbol = .decl decl := by
  cases symbol <;> cases denotes
  rfl

/-- A known symbol that is no import. -/
structure Symbol.Resolved (program : Program) (symbol : Symbol) : Prop where
  /-- What it denotes belongs to the program. -/
  known : symbol.Known program
  /-- It is no import. -/
  notImport : ∀ link, symbol ≠ .imported link

/-! ### Modules -/

theorem Program.hasFile_of_fileWith? {program : Program} {path : String} {file : SourceFile}
    (found : program.model.fileWith? path = some file) : program.HasFile file := by
  obtain ⟨known, look, rfl⟩ := Option.map_eq_some_iff.mp found
  exact ⟨known, List.mem_of_find?_eq_some look, rfl⟩

theorem Program.hasFile_of_firstCandidate? {program : Program} {base : String}
    {file : SourceFile} (found : program.model.firstCandidate? base = some file) :
    program.HasFile file := by
  obtain ⟨path, -, look⟩ := List.exists_of_findSome?_eq_some found
  exact hasFile_of_fileWith? look

/-- A module specifier names a file of the program or nothing. -/
theorem Program.hasFile_of_resolveModule? {program : Program} {importer file : SourceFile}
    {specifier : String} (found : program.model.resolveModule? importer specifier = some file) :
    program.HasFile file := by
  rw [Model.resolveModule?] at found
  split at found
  · exact hasFile_of_firstCandidate? found
  · split at found
    · exact hasFile_of_firstCandidate? found
    · obtain ⟨root, -, look⟩ := List.exists_of_findSome?_eq_some found
      exact hasFile_of_firstCandidate? look

namespace Program.WellFormed

variable {program : Program}

/-! ### Names in scope -/

/-- What a name of a file is bound to is known. -/
theorem known_of_binding (wellFormed : program.WellFormed) {file : SourceFile} {name : String}
    {binding : Binding} (bound : Keyed.get? (program.scopeOf file).bindings name = some binding) :
    binding.symbol.Known program := by
  have entry := Keyed.mem_of_get?_eq_some bound
  rcases wellFormed.scopeOf_cases file with ⟨known, memKnown, same⟩ | empty
  · rw [same] at entry
    cases binding with
    | decl declared =>
      exact wellFormed.mem_of_topLevel (wellFormed.boundDecl known memKnown name declared entry).1
    | imported link =>
      exact List.mem_of_getElem? (wellFormed.boundLink known memKnown name link entry).1
  · rw [empty] at entry
    cases entry

/-- A name is bound around its place, or stands for something of the file. -/
theorem known_of_lookup? (wellFormed : program.WellFormed) {place : Node} {name : String}
    {symbol : Symbol} (found : program.lookup? place name = some symbol) :
    symbol.Known program := by
  rw [lookup?] at found
  split at found
  · cases found
    trivial
  · obtain ⟨binding, bound, rfl⟩ := Option.map_eq_some_iff.mp found
    exact wellFormed.known_of_binding bound

/-! ### Exports -/

theorem known_of_targetSymbol? (wellFormed : program.WellFormed) {file : SourceFile}
    {name : String} {target : ExportTarget} {symbol : Symbol}
    (exported : Keyed.get? (program.scopeOf file).exports name = some target)
    (found : targetSymbol? (program.scopeOf file) target = some symbol) :
    symbol.Known program := by
  have entry := Keyed.mem_of_get?_eq_some exported
  rcases wellFormed.scopeOf_cases file with ⟨known, memKnown, same⟩ | empty
  · rw [same] at entry found
    cases target with
    | name bound =>
      obtain ⟨binding, look, rfl⟩ := Option.map_eq_some_iff.mp found
      exact wellFormed.known_of_binding look
    | decl declared =>
      cases found
      exact wellFormed.mem_of_topLevel (wellFormed.exportedDecl known memKnown name declared entry)
    | reexport link =>
      cases found
      exact List.mem_of_getElem? (wellFormed.exportedLink known memKnown name link entry).1
  · rw [empty] at entry
    cases entry

/-- Whatever files are left to search, what is found is known. -/
theorem known_of_searchExport? (wellFormed : program.WellFormed) {name : String}
    {unvisited : List FileId} {pending : List SourceFile} {symbol : Symbol}
    (found : program.searchExport? name unvisited pending = some symbol) :
    symbol.Known program := by
  fun_induction searchExport? program name unvisited pending with
  | case1 unvisited => cases found
  | case2 unvisited file pending fresh smaller target exported result denotes =>
    cases found
    exact wellFormed.known_of_targetSymbol? exported denotes
  | case3 unvisited file pending fresh smaller target exported unbound inductionHypothesis =>
    exact inductionHypothesis found
  | case4 unvisited file pending fresh smaller missing isDefault inductionHypothesis =>
    exact inductionHypothesis found
  | case5 unvisited file pending fresh smaller missing isNamed inductionHypothesis =>
    exact inductionHypothesis found
  | case6 unvisited file pending visited inductionHypothesis =>
    exact inductionHypothesis found

/-- An export is something known. -/
theorem known_of_exportSymbol? (wellFormed : program.WellFormed) {file : SourceFile}
    {name : String} {symbol : Symbol} (found : program.exportSymbol? file name = some symbol) :
    symbol.Known program :=
  wellFormed.known_of_searchExport? found

/-! ### Links -/

/-- So is what a link leads to. -/
theorem known_of_follow? (wellFormed : program.WellFormed) {link : ImportLink} {symbol : Symbol}
    (found : program.follow? link = some symbol) : symbol.Known program := by
  obtain ⟨target, resolved, result⟩ := Option.bind_eq_some_iff.mp found
  split at result
  · cases result
    exact hasFile_of_resolveModule? resolved
  · exact wellFormed.known_of_exportSymbol? result
  · exact wellFormed.known_of_exportSymbol? result

end Program.WellFormed

namespace Program

variable {program : Program}

/-- Following links never ends at an import. -/
theorem ne_imported_of_followUpTo? {looks : Nat} {symbol result : Symbol}
    (found : program.followUpTo? looks symbol = some result) (link : ImportLink) :
    result ≠ .imported link := by
  induction looks generalizing symbol with
  | zero => cases found
  | succ looks inductionHypothesis =>
    cases symbol with
    | imported first =>
      obtain ⟨next, -, rest⟩ := Option.bind_eq_some_iff.mp found
      exact inductionHypothesis rest
    | decl declared => cases found; exact nofun
    | module file => cases found; exact nofun
    | binder node => cases found; exact nofun

/-- Following all links ends at something that is no import. -/
theorem ne_imported_of_resolveAlias? {symbol result : Symbol}
    (found : program.resolveAlias? symbol = some result) (link : ImportLink) :
    result ≠ .imported link :=
  ne_imported_of_followUpTo? found link

/-- Every step of following keeps to known symbols. -/
theorem WellFormed.known_of_followUpTo? (wellFormed : program.WellFormed) {looks : Nat}
    {symbol result : Symbol} (known : symbol.Known program)
    (found : program.followUpTo? looks symbol = some result) : result.Known program := by
  induction looks generalizing symbol with
  | zero => cases found
  | succ looks inductionHypothesis =>
    cases symbol with
    | imported first =>
      obtain ⟨next, follows, rest⟩ := Option.bind_eq_some_iff.mp found
      exact inductionHypothesis (wellFormed.known_of_follow? follows) rest
    | decl declared => cases found; exact known
    | module file => cases found; exact known
    | binder node => cases found; exact known

/-- A known symbol is resolved after all links. -/
theorem WellFormed.resolved_of_resolveAlias? (wellFormed : program.WellFormed)
    {symbol result : Symbol} (known : symbol.Known program)
    (found : program.resolveAlias? symbol = some result) : result.Resolved program :=
  ⟨wellFormed.known_of_followUpTo? known found, ne_imported_of_resolveAlias? found⟩

end Program

end CodeGraph
