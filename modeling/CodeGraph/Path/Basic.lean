import CodeGraph.Text.Blank
import CodeGraph.Text.Part

/-!
# Paths

Paths are texts with `/` between segments. Every table of the program is keyed by *normalized*
paths, so one file has one spelling: separators are slashes, a leading `file://` is gone, and the
segments `.` and `..` are folded away where they can be.

## Main Definitions

* `Path.normalize`: the normal form of a path.
* `Path.parent`, `Path.join`: the directory of a path, and a path seen from a directory.
* `Path.commonDir`: the longest directory that holds all of a list of paths.
* `Path.relativeTo`: a path with a root directory cut off.

## Design Notes

The work is done on lists of characters cut at slashes, where splitting and joining are inverse.
The stack of a normalization is kept with its last segment first.
-/

namespace CodeGraph.Path

/-- The text between two slashes. -/
abbrev Segment := List Char

/-- The segment `..`, which leads to the parent directory. -/
def up : Segment := ['.', '.']

/-- The segment `.`, which leads nowhere. -/
def here : Segment := ['.']

/-- What a path may carry in front to say that it names a file. -/
def scheme : List Char := ['f', 'i', 'l', 'e', ':', '/', '/']

/-- The characters of a path with one leading `file://` cut off and slashes as separators. -/
def slashed (cs : List Char) : List Char :=
  ((Text.withoutHead? scheme cs).getD cs).map fun c => if c = '\\' then '/' else c

/-- Whether a path starts at the root directory. -/
def isAbsoluteChars (cs : List Char) : Bool :=
  cs.head? == some '/'

/-- Puts one segment on a stack of folded segments. Empty segments and `.` are dropped; `..` takes
the last segment away, stays when there is none to take in a relative path, and is dropped at the
root of an absolute one. -/
def push (absolute : Bool) (stack : List Segment) (segment : Segment) : List Segment :=
  if segment = [] ∨ segment = here then stack
  else if segment = up then
    match stack with
    | last :: rest => if last ≠ up then rest else if absolute then stack else up :: stack
    | [] => if absolute then [] else [up]
  else segment :: stack

/-- The folded segments of a path, first segment first. -/
def foldSegments (absolute : Bool) (segments : List Segment) : List Segment :=
  (segments.foldl (push absolute) []).reverse

/-- Segments with slashes between them. -/
def unsplit (segments : List Segment) : List Char :=
  List.intercalate ['/'] segments

/-- The normal form of a path given by its characters. -/
def normalizeChars (cs : List Char) : List Char :=
  let path := slashed cs
  let absolute := isAbsoluteChars path
  let joined := unsplit (foldSegments absolute (path.splitOn '/'))
  if absolute then '/' :: joined else joined

/-- The normal form of a path: slashes as separators, no leading `file://`, and the segments `.`
and `..` folded. A relative path keeps the `..` segments that lead out of it. -/
def normalize (path : String) : String :=
  String.ofList (normalizeChars path.toList)

/-- The directory of a normalized path, given by its characters. -/
def parentChars (cs : List Char) : List Char :=
  match cs.reverse.dropWhile (· ≠ '/') with
  | [] => []
  | _ :: above => if above = [] then ['/'] else above.reverse

/-- The directory of a normalized path; empty for a bare file name. -/
def parent (path : String) : String :=
  String.ofList (parentChars path.toList)

/-- The normal form of `relative` as seen from `dir`. -/
def join (dir relative : String) : String :=
  if dir = "" then normalize relative else normalize (dir ++ "/" ++ relative)

/-- The segments of the directory that holds a path: none for a bare file name, one empty segment
for the root directory. -/
def dirSegments (path : String) : List Segment :=
  let dir := parentChars path.toList
  if dir = [] then []
  else if dir = ['/'] then [[]]
  else dir.splitOn '/'

/-- The longest list that two lists both start with. -/
def commonHead : List Segment → List Segment → List Segment
  | a :: as, b :: bs => if a = b then a :: commonHead as bs else []
  | _, _ => []

/-- The segments all given lists start with; none for no list. -/
def commonSegments : List (List Segment) → List Segment
  | [] => []
  | dir :: dirs => dirs.foldl commonHead dir

/-- The longest directory that holds all of a list of normalized paths. -/
def commonDir (paths : List String) : String :=
  match commonSegments (paths.map dirSegments) with
  | [[]] => "/"
  | segments => String.ofList (unsplit segments)

/-- A path given by its characters, with `root` cut off when the path lies below it. -/
def relativeChars (path root : List Char) : List Char :=
  let root := Text.dropTail (· = '/') root
  if root = [] then path.dropWhile (· = '/')
  else
    match Text.withoutHead? root path with
    | some ('/' :: rest) => rest
    | _ => path.dropWhile (· = '/')

/-- A path relative to `root`, or the path without its leading slashes when it lies outside. -/
def relativeTo (path root : String) : String :=
  String.ofList (relativeChars path.toList root.toList)

/-- A path of any spelling relative to a root of any spelling. -/
def simplify (path root : String) : String :=
  relativeTo (normalize path) (normalize root)

end CodeGraph.Path
