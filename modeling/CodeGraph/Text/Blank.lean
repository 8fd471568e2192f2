/-!
# Blank characters

The Unicode property `White_Space`, and cutting blank ends off a text. Settings with blank entries
are refused, quoted keys and type texts are read without the blanks around them.

## Main Definitions

* `Text.isBlank`: the 25 characters of the property.
* `Text.trim`: a text without its blank ends.
-/

namespace CodeGraph.Text

/-- Ranges of code points with the Unicode property `White_Space`, ends included, ascending. -/
def blankRanges : List (Nat × Nat) :=
  [(0x0009, 0x000D), (0x0020, 0x0020), (0x0085, 0x0085), (0x00A0, 0x00A0), (0x1680, 0x1680),
   (0x2000, 0x200A), (0x2028, 0x2029), (0x202F, 0x202F), (0x205F, 0x205F), (0x3000, 0x3000)]

/-- Whether a character has the Unicode property `White_Space`. -/
def isBlank (c : Char) : Bool :=
  blankRanges.any fun range => range.1 ≤ c.toNat && c.toNat ≤ range.2

/-- A list without the longest run at its end whose members all satisfy `p`. -/
def dropTail (p : Char → Bool) (cs : List Char) : List Char :=
  (cs.reverse.dropWhile p).reverse

/-- The characters of a text without its blank ends. -/
def trimChars (cs : List Char) : List Char :=
  dropTail isBlank (cs.dropWhile isBlank)

/-- A text without its blank ends. -/
def trim (text : String) : String :=
  String.ofList (trimChars text.toList)

/-- Whether a text is empty or holds blanks only. -/
def isBlankText (text : String) : Bool :=
  text.toList.all isBlank

end CodeGraph.Text
