import CodeGraph.Path.Basic

/-!
# File extensions

## Main Definitions

* `Path.fileName?`: the last segment that names something.
* `Path.extension?`: what follows the last dot of the file name.
-/

namespace CodeGraph.Path

/-- The last segment of a path, with empty segments and `.` passed over; none when there is no
segment left or when it is `..`. -/
def fileName? (path : String) : Option Segment :=
  ((path.toList.splitOn '/').filter fun segment => segment ≠ [] ∧ segment ≠ here).getLast?.filter
    (· ≠ up)

/-- What follows the last dot of the file name. A name without a dot, or whose only dot stands in
front, has no extension; a name that ends in a dot has the empty one. -/
def extension? (path : String) : Option String := do
  let name ← fileName? path
  match name.reverse.dropWhile (· ≠ '.') with
  | [] | [_] => none
  | _ :: _ => some (String.ofList (name.reverse.takeWhile (· ≠ '.')).reverse)

end CodeGraph.Path
