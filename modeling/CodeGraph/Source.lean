import CodeGraph.Identity
import CodeGraph.Path.Basic

/-!
# Source files

## Main Definitions

* `FileId`: the number of a file in a program.
* `SourceFile`: a file with its text and the ways to name it.
* `SourceFile.slice`: the text between two byte offsets.
* `Position`, `SourceFile.positionAt`: a place in a text by line and column.
-/

namespace CodeGraph

/-- The number of a file in a program, counted from zero in the order of normalized paths. -/
structure FileId where
  /-- The number. -/
  val : Nat
  deriving DecidableEq, Repr

/-- A place in a text; lines and columns are counted from zero, columns in bytes. -/
structure Position where
  /-- Line ends before the place. -/
  line : Nat
  /-- Bytes since the last line end. -/
  column : Nat
  deriving DecidableEq, Repr

/-- A file of a program. -/
structure SourceFile where
  /-- The number of the file. -/
  id : FileId
  /-- The path as it was given. -/
  path : String
  /-- The normal form of the path. -/
  normalized : String
  /-- The path relative to the project root. -/
  simplified : String
  /-- The text. -/
  text : String
  deriving DecidableEq, Repr

namespace SourceFile

/-- The key of a file. -/
def key (file : SourceFile) : String :=
  Identity.fileKey file.simplified file.normalized

/-- The text between two byte offsets; empty when they cut a character or lie outside. -/
def slice (file : SourceFile) (start stop : Nat) : String :=
  if String.Pos.Raw.isValid file.text ⟨start⟩ && String.Pos.Raw.isValid file.text ⟨stop⟩ then
    String.Pos.Raw.extract file.text ⟨start⟩ ⟨stop⟩
  else ""

/-- The position reached from `place` after some more bytes. -/
def advance (place : Position) : (bytes : Nat) → List Char → Position
  | _, [] => place
  | 0, _ => place
  | bytes, c :: cs =>
    if c = '\n' then advance ⟨place.line + 1, 0⟩ (bytes - 1) cs
    else advance ⟨place.line, place.column + c.utf8Size⟩ (bytes - c.utf8Size) cs

/-- The position of a byte offset. -/
def positionAt (file : SourceFile) (offset : Nat) : Position :=
  advance ⟨0, 0⟩ offset file.text.toList

end SourceFile

end CodeGraph
