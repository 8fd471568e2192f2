import CodeGraph.Proofs.Model.Order
import CodeGraph.Proofs.Resolve.Exports

/-!
# Chains of links

An import leads to what another file exports, which may be an import again. Such a chain ends at a
symbol that is no import, breaks off at a link that leads nowhere, or goes round. Following it gives
the end exactly when the chain has one and is short enough. The limit counts the symbols that are
looked at, and the end is looked at too, so a chain of as many links as the limit says is given up.

## Main Definitions

* `Program.Hops`: a chain of some number of links from one symbol to another.
* `Program.FollowsLinks`: when following links gives the end of a chain, and when it gives nothing.

## Main Statements

* `Program.Hops.rest_of_end`: every chain from a symbol is part of one that ends.
* `Program.resolveAlias?_eq_some_iff`: following links gives the ends of the short chains.
* `Program.links_followed`: every program follows links so.
* `Program.limitChain_givenUp`: a chain of as many links as the limit says is given up.
-/

namespace CodeGraph

/-- A symbol that is no import, at which a chain of links ends. -/
def Symbol.IsEnd (symbol : Symbol) : Prop := ∀ link, symbol ≠ .imported link

namespace Program

variable {program : Program}

/-! ### Chains -/

/-- A chain of links from one symbol to another: each symbol but the last is an import, and the next
one is what it stands for. -/
inductive Hops (program : Program) : Nat → Symbol → Symbol → Prop
  | stay (symbol : Symbol) : Hops program 0 symbol symbol
  | hop {link : ImportLink} {next result : Symbol} {n : Nat}
      (follows : program.follow? link = some next) (rest : Hops program n next result) :
      Hops program (n + 1) (.imported link) result

theorem Hops.trans {m n : Nat} {symbol middle result : Symbol}
    (first : program.Hops m symbol middle) (second : program.Hops n middle result) :
    program.Hops (m + n) symbol result := by
  induction first with
  | stay symbol => rwa [Nat.zero_add]
  | hop follows rest inductionHypothesis =>
    rw [Nat.succ_add]
    exact .hop follows (inductionHypothesis second)

/-- Every chain from a symbol is the first part of a chain from it that ends. -/
theorem Hops.rest_of_end {m n : Nat} {symbol stop result : Symbol}
    (whole : program.Hops m symbol stop) (isEnd : stop.IsEnd)
    (part : program.Hops n symbol result) : ∃ k, m = n + k ∧ program.Hops k result stop := by
  induction part generalizing m with
  | stay symbol => exact ⟨m, (Nat.zero_add m).symm, whole⟩
  | hop follows rest inductionHypothesis =>
    cases whole with
    | stay => exact absurd rfl (isEnd _)
    | hop follows' rest' =>
      obtain rfl := Option.some.inj (follows'.symm.trans follows)
      obtain ⟨k, length, remaining⟩ := inductionHypothesis rest'
      exact ⟨k, by omega, remaining⟩

/-- From a symbol that a chain comes to twice no chain ends: the ways to the end from its two visits
would be one and the same way, and differ in length by the circle. -/
theorem Hops.not_hops_of_circle {i j k : Nat} {symbol result stop : Symbol} (earlier : i < j)
    (first : program.Hops i symbol result) (second : program.Hops j symbol result)
    (isEnd : stop.IsEnd) : ¬ program.Hops k result stop := by
  intro rest
  obtain ⟨fromSecond, length, rest'⟩ := (first.trans rest).rest_of_end isEnd second
  obtain ⟨more, longer, -⟩ := rest'.rest_of_end isEnd rest
  omega

/-! ### Following a chain -/

theorem followUpTo?_of_hops {n looks : Nat} {symbol result : Symbol}
    (hops : program.Hops n symbol result) (isEnd : result.IsEnd) (short : n < looks) :
    program.followUpTo? looks symbol = some result := by
  induction hops generalizing looks with
  | stay symbol =>
    obtain ⟨looks, rfl⟩ := Nat.exists_eq_succ_of_ne_zero (Nat.ne_zero_of_lt short)
    cases symbol with
    | imported link => exact absurd rfl (isEnd link)
    | decl declared => rfl
    | module file => rfl
    | binder node => rfl
  | hop follows rest inductionHypothesis =>
    obtain ⟨looks, rfl⟩ := Nat.exists_eq_succ_of_ne_zero (Nat.ne_zero_of_lt short)
    rw [followUpTo?, follows, Option.bind_some]
    exact inductionHypothesis isEnd (Nat.lt_of_succ_lt_succ short)

theorem hops_of_followUpTo? {looks : Nat} {symbol result : Symbol}
    (found : program.followUpTo? looks symbol = some result) :
    ∃ n < looks, program.Hops n symbol result := by
  induction looks generalizing symbol with
  | zero => cases found
  | succ looks inductionHypothesis =>
    cases symbol with
    | imported link =>
      obtain ⟨next, follows, rest⟩ := Option.bind_eq_some_iff.mp found
      obtain ⟨n, short, hops⟩ := inductionHypothesis rest
      exact ⟨n + 1, Nat.succ_lt_succ short, .hop follows hops⟩
    | decl declared => cases found; exact ⟨0, Nat.succ_pos looks, .stay _⟩
    | module file => cases found; exact ⟨0, Nat.succ_pos looks, .stay _⟩
    | binder node => cases found; exact ⟨0, Nat.succ_pos looks, .stay _⟩

/-- Following links gives the end of a chain that has fewer links than the limit says. -/
theorem resolveAlias?_eq_some_iff {symbol result : Symbol} :
    program.resolveAlias? symbol = some result ↔
      (∃ n < aliasLimit, program.Hops n symbol result) ∧ result.IsEnd := by
  constructor
  · exact fun found => ⟨hops_of_followUpTo? found, ne_imported_of_resolveAlias? found⟩
  · rintro ⟨⟨n, short, hops⟩, isEnd⟩
    exact followUpTo?_of_hops hops isEnd short

/-- What cannot be continued to an end in time is given up. -/
theorem resolveAlias?_eq_none_of_hops {n : Nat} {symbol result : Symbol}
    (hops : program.Hops n symbol result)
    (noEnd : ∀ k stop, stop.IsEnd → program.Hops k result stop → aliasLimit ≤ n + k) :
    program.resolveAlias? symbol = none := by
  cases found : program.resolveAlias? symbol with
  | none => rfl
  | some stop =>
    obtain ⟨⟨m, short, whole⟩, isEnd⟩ := resolveAlias?_eq_some_iff.mp found
    obtain ⟨k, rfl, rest⟩ := whole.rest_of_end isEnd hops
    exact absurd (noEnd k stop isEnd rest) (Nat.not_le_of_lt short)

/-- When following links gives the end of a chain, and when it gives nothing. -/
structure FollowsLinks (program : Program) : Prop where
  /-- The end of a chain with fewer links than the limit says is found. -/
  reached : ∀ n symbol result, program.Hops n symbol result → result.IsEnd → n < aliasLimit →
    program.resolveAlias? symbol = some result
  /-- A chain with as many links as the limit says, or more, is given up. -/
  tooLong : ∀ n symbol result, program.Hops n symbol result → aliasLimit ≤ n →
    program.resolveAlias? symbol = none
  /-- A chain that breaks off gives nothing. -/
  broken : ∀ n symbol link, program.Hops n symbol (.imported link) → program.follow? link = none →
    program.resolveAlias? symbol = none
  /-- A chain that comes to one symbol twice gives nothing. -/
  circular : ∀ i j symbol result, i < j → program.Hops i symbol result →
    program.Hops j symbol result → program.resolveAlias? symbol = none
  /-- What is found stands for itself. -/
  stable : ∀ symbol result, program.resolveAlias? symbol = some result →
    program.resolveAlias? result = some result

/-- **Links are followed to the end of every chain below the limit.** Chains that break off, go
round or have as many links as the limit says give nothing. -/
theorem links_followed (program : Program) : program.FollowsLinks where
  reached _ _ _ hops isEnd short := followUpTo?_of_hops hops isEnd short
  tooLong n _ _ hops long :=
    resolveAlias?_eq_none_of_hops hops fun k _ _ _ => Nat.le_add_right_of_le long
  broken n symbol link hops fails := by
    refine resolveAlias?_eq_none_of_hops hops fun k stop isEnd rest => ?_
    cases rest with
    | stay => exact absurd rfl (isEnd link)
    | hop follows => rw [fails] at follows; cases follows
  circular _ _ _ _ earlier first second := by
    refine resolveAlias?_eq_none_of_hops first fun k stop isEnd rest => ?_
    exact absurd rest (first.not_hops_of_circle earlier second isEnd)
  stable _ _ found := by
    have isEnd := (resolveAlias?_eq_some_iff.mp found).2
    exact followUpTo?_of_hops (.stay _) isEnd (by decide)

/-! ### A chain as long as the limit says -/

/-- What an import stands for after one link, when the other file has the name in its own table. -/
def followOwn? (program : Program) (link : ImportLink) : Option Symbol :=
  match link.imported with
  | .named name => (program.model.resolveModule? link.file link.specifier).bind
      (program.ownExport? name)
  | _ => none

theorem follow?_of_followOwn? {link : ImportLink} {next : Symbol}
    (found : program.followOwn? link = some next) : program.follow? link = some next := by
  rw [followOwn?] at found
  split at found
  · next name named =>
    obtain ⟨target, resolved, own⟩ := Option.bind_eq_some_iff.mp found
    rw [follow?, resolved]
    simp only [named, Option.bind_eq_bind, Option.bind_some]
    exact exportSymbol?_of_ownExport? (hasFile_of_resolveModule? resolved) own
  · cases found

/-- Goes along a chain of links through the tables of files. -/
def hopOwn? (program : Program) : Nat → Symbol → Option Symbol
  | 0, symbol => some symbol
  | n + 1, .imported link => (program.followOwn? link).bind (program.hopOwn? n)
  | _ + 1, _ => none

theorem hops_of_hopOwn? {n : Nat} {symbol result : Symbol}
    (found : program.hopOwn? n symbol = some result) : program.Hops n symbol result := by
  induction n generalizing symbol with
  | zero => cases found; exact .stay _
  | succ n inductionHypothesis =>
    cases symbol with
    | imported link =>
      obtain ⟨next, follows, rest⟩ := Option.bind_eq_some_iff.mp found
      exact .hop (follow?_of_followOwn? follows) (inductionHypothesis rest)
    | decl declared => cases found
    | module file => cases found
    | binder node => cases found

/-- The path of a file with a number of two digits. -/
def chainPath (n : Nat) : String := "f" ++ toString (10 + n) ++ ".ts"

/-- A file that declares a function. -/
def chainEnd : Input where
  path := chainPath 0
  text := "export function x()\x7b\x7d"
  tree := some <|
    .node ⟨.program, none, true, false, 0, 21⟩ [
      .node ⟨.exportStatement, none, true, false, 0, 21⟩ [
        .node ⟨.functionDeclaration, some .declaration, true, false, 7, 21⟩ [
          .node ⟨.identifier, some .name, true, false, 16, 17⟩ [],
          .node ⟨.formalParameters, some .parameters, true, false, 17, 19⟩ [],
          .node ⟨.statementBlock, some .body, true, false, 19, 21⟩ []]]]

/-- A file that exports the function again, from the file with the number before. -/
def chainLink (n : Nat) : Input where
  path := chainPath (n + 1)
  text := "export\x7bx\x7dfrom'./f" ++ toString (10 + n) ++ "'"
  tree := some <|
    .node ⟨.program, none, true, false, 0, 20⟩ [
      .node ⟨.exportStatement, none, true, false, 0, 20⟩ [
        .node ⟨.exportClause, none, true, false, 6, 9⟩ [
          .node ⟨.exportSpecifier, none, true, false, 7, 8⟩ [
            .node ⟨.identifier, some .name, true, false, 7, 8⟩ []]],
        .node ⟨.string, some .source, true, false, 13, 20⟩ []]]

/-- A file that imports the function from the file with a number. -/
def chainStart (n : Nat) : Input where
  path := "main.ts"
  text := "import\x7bx\x7dfrom'./f" ++ toString (10 + n) ++ "'"
  tree := some <|
    .node ⟨.program, none, true, false, 0, 20⟩ [
      .node ⟨.importStatement, none, true, false, 0, 20⟩ [
        .node ⟨.importClause, none, true, false, 6, 9⟩ [
          .node ⟨.namedImports, none, true, false, 6, 9⟩ [
            .node ⟨.importSpecifier, none, true, false, 7, 8⟩ [
              .node ⟨.identifier, some .name, true, false, 7, 8⟩ []]]],
        .node ⟨.string, some .source, true, false, 13, 20⟩ []]]

/-- Files that hand a function on from one to the next. The import in the last one is one link, and
each file that exports the function again is another one: as many as the limit says. -/
def limitFiles : List Input :=
  chainEnd :: (List.range (aliasLimit - 1)).map chainLink ++ [chainStart (aliasLimit - 1)]

/-- The program of these files. -/
def limitChain : Program := ofModel (Model.build {} limitFiles)

/-- What a name stands for at the top level of the last file. -/
def lastBinding? (program : Program) (name : String) : Option Symbol :=
  program.model.files.getLast?.bind fun file =>
    (Keyed.get? (program.scopeOf file.source).bindings name).map Binding.symbol

/-- Whether a symbol stands for a declaration. -/
def standsForDecl : Symbol → Bool
  | .decl _ => true
  | _ => false

/-- The import leads to the function over as many links as the limit says, but following them gives
nothing. -/
theorem limitChain_givenUp :
    ¬ ∀ n symbol result, limitChain.Hops n symbol result → result.IsEnd → n ≤ aliasLimit →
      limitChain.resolveAlias? symbol = some result := by
  intro followed
  have ordered : orderInputs limitFiles = limitFiles :=
    orderInputs_of_ascending (by decide +kernel)
  have reaches : (limitChain.lastBinding? "x").any fun symbol =>
      (limitChain.hopOwn? aliasLimit symbol).any standsForDecl := by
    simp only [limitChain, Model.build, ordered]
    decide +kernel
  obtain ⟨symbol, -, hasResult⟩ := (Option.any_eq_true _ _).mp reaches
  obtain ⟨result, found, isDecl⟩ := (Option.any_eq_true _ _).mp hasResult
  have hops := hops_of_hopOwn? found
  have isEnd : result.IsEnd := by
    rintro link rfl
    cases isDecl
  have resolved := followed aliasLimit symbol result hops isEnd (Nat.le_refl _)
  rw [resolveAlias?_eq_none_of_hops hops fun k _ _ _ => Nat.le_add_right _ k] at resolved
  cases resolved

end Program

end CodeGraph
