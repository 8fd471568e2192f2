/-!
# Parts of texts

## Main Definitions

* `Text.startsIn`, `Text.endsIn`, `Text.holds`: whether one text stands in front of, at the end of
  or somewhere in another.
* `Text.withoutHead?`, `Text.withoutTail?`: a text with such a part cut off.
-/

namespace CodeGraph.Text

/-- Whether `text` starts with `head`. -/
def startsIn (head text : String) : Bool :=
  head.toList.isPrefixOf text.toList

/-- Whether `text` ends with `tail`. -/
def endsIn (tail text : String) : Bool :=
  tail.toList.isSuffixOf text.toList

/-- Whether a list of characters holds another somewhere. -/
def holdsChars (part : List Char) : List Char → Bool
  | [] => part.isEmpty
  | c :: cs => part.isPrefixOf (c :: cs) || holdsChars part cs

/-- Whether `text` holds `part` somewhere. -/
def holds (part text : String) : Bool :=
  holdsChars part.toList text.toList

/-- A list of characters without `head` in front, when it stands there. -/
def withoutHead? (head cs : List Char) : Option (List Char) :=
  if head.isPrefixOf cs then some (cs.drop head.length) else none

/-- A list of characters without `tail` at its end, when it stands there. -/
def withoutTail? (tail cs : List Char) : Option (List Char) :=
  if tail.isSuffixOf cs then some (cs.take (cs.length - tail.length)) else none

end CodeGraph.Text
