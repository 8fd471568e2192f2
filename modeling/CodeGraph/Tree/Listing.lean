import CodeGraph.Tree.Basic

/-!
# Trees written as lists of lines

A tree can be written with one line for each node, parents before children, in source order. A line
has the depth of the node, its two byte offsets, a flag, its field or a dash, and its kind:

    0 0 24 n - program
    1 0 24 n - lexical_declaration
    2 0 5 a kind const

The flag is `n` for a named node and `a` for a word or sign, with an `m` behind it for a missing
node.

## Main Definitions

* `Tree.ofListing?`: the tree of such a text.

## Design Notes

Lines are put together from the last to the first: the children of a node are then the trees made so
far that stand deeper than it, up to the first that does not.
-/

namespace CodeGraph.Tree

/-- The words of a line up to the kind, and the kind, which may hold blanks. -/
def words? (line : List Char) : Option (List Char × List Char × List Char × List Char ×
    List Char × List Char) :=
  match line.splitOn ' ' with
  | depth :: start :: stop :: flag :: field :: first :: rest =>
    some (depth, start, stop, flag, field, List.intercalate [' '] (first :: rest))
  | _ => none

/-- The number a word says. -/
def number? (word : List Char) : Option Nat :=
  (String.ofList word).toNat?

/-- Reads a line: the depth and the label of a node. -/
def line? (line : List Char) : Option (Nat × Label) := do
  let (depth, start, stop, flag, field, kind) ← words? line
  return (← number? depth,
    { kind := Kind.ofName (String.ofList kind)
      field := if field = ['-'] then none else some (Field.ofName (String.ofList field))
      named := flag.head? = some 'n'
      missing := flag.contains 'm'
      start := ← number? start
      stop := ← number? stop })

/-- Puts a node before trees that were made from the lines after it. -/
def graft (entry : Nat × Label) (forest : List (Nat × Tree)) : List (Nat × Tree) :=
  let below := forest.takeWhile fun tree => entry.1 < tree.1
  (entry.1, node entry.2 (below.map Prod.snd)) :: forest.dropWhile fun tree => entry.1 < tree.1

/-- The tree of a listing. -/
def ofListing? (text : String) : Option Tree := do
  let entries ← (text.toList.splitOn '\n').mapM line?
  match entries.foldr graft [] with
  | [(_, tree)] => some tree
  | _ => none

end CodeGraph.Tree
