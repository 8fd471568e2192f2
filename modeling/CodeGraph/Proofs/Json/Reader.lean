import CodeGraph.Json.Basic
import CodeGraph.Proofs.Text
import CodeGraph.Toml.Quoted
import Mathlib.Data.List.Forall2
import Mathlib.Data.List.TakeWhile

/-!
# Reading JSON texts

A reader of JSON texts gives the value that a text was written from, in whichever of the two forms
it was written. Readers follow a value only to some depth, and what they make of numbers and of
repeated names is their own affair, so this is asked for values without either that are not nested
deeper than that.

One such reader is given here, so that there is one. It goes down into a value one level at a time:
what stands between the brackets of a level is a sequence of parts with commas between them, whether
the parts are values or values with names. The two written forms differ in their spaces only, and
the reader passes over these.

## Main Definitions

* `Json.Fits`: a value without numbers and repeated names that is nested at most some levels deep.
* `Json.ReadsBack`: a reader gives the values that texts were written from.
* `Json.value?`, `Json.ofText?`: a reader.
* `Json.Reads`: the reader gives a value for a text, whatever follows the text.
* `Json.Layout`: a way to write values, up to its spaces.

## Main Statements

* `Json.unquote?_quote`: quoted texts are read back.
* `Json.PartReader.bracketed?_boxed`: so are sequences, when their parts are.
* `Json.Layout.reads`: so are values, in whichever way they are written.
* `Json.readsBack_ofText?`: the reader reads back.
-/

namespace CodeGraph.Json

/-! ### What is read back -/

/-- A value without numbers and without objects that repeat a name, nested at most `depth` levels
deep. -/
def Fits : (depth : Nat) → Json → Prop
  | _, null | _, bool _ | _, str _ => True
  | _, number _ => False
  | 0, arr _ | 0, obj _ => False
  | depth + 1, arr items => ∀ item ∈ items, Fits depth item
  | depth + 1, obj fields =>
    (fields.map Prod.fst).Nodup ∧ ∀ field ∈ fields, Fits depth field.2

@[simp] theorem fits_bool (depth : Nat) (value : Bool) : Fits depth (bool value) := by
  cases depth <;> trivial

@[simp] theorem fits_str (depth : Nat) (text : String) : Fits depth (str text) := by
  cases depth <;> trivial

/-- How many levels of arrays and objects a reader follows. -/
def nestingLimit : Nat := 127

/-- A reader gives the values that texts were written from. -/
structure ReadsBack (read : String → Option Json) : Prop where
  /-- From the form without blanks. -/
  compact : ∀ value, Fits nestingLimit value → read value.compact = some value
  /-- From the indented form. -/
  pretty : ∀ value, Fits nestingLimit value → read value.pretty = some value

/-! ### Spaces -/

/-- Whether a character may stand between the parts of a text. -/
def isSpace (c : Char) : Bool := c = ' ' || c = '\n' || c = '\r' || c = '\t'

/-- What is left after spaces. -/
def skip (cs : List Char) : List Char := cs.dropWhile isSpace

/-- Only spaces. -/
def Spaces (cs : List Char) : Prop := ∀ c ∈ cs, isSpace c = true

theorem spaces_nil : Spaces [] := by
  intro c present
  cases present

/-- Blanks in front are passed over, whatever follows. -/
theorem skip_append {spaces : List Char} (blank : Spaces spaces) (cs : List Char) :
    skip (spaces ++ cs) = skip cs :=
  List.dropWhile_append_of_pos blank

/-- A sign that is no blank is not passed over. -/
theorem skip_cons {c : Char} (sign : isSpace c = false) (cs : List Char) :
    skip (c :: cs) = c :: cs :=
  List.dropWhile_cons_of_neg (by simp [sign])

/-! ### Quoted texts -/

/-- The character that a letter after a backslash stands for. -/
def unescape? : Char → Option Char
  | '"' => some '"'
  | '\\' => some '\\'
  | '/' => some '/'
  | 'b' => some (Char.ofNat 0x08)
  | 'f' => some (Char.ofNat 0x0C)
  | 'n' => some '\n'
  | 'r' => some '\r'
  | 't' => some '\t'
  | _ => none

/-- A quoted text without the opening quote: the text and what follows the closing quote. -/
def unquote? : List Char → Option (List Char × List Char)
  | [] => none
  | '"' :: rest => some ([], rest)
  | '\\' :: 'u' :: a :: b :: c :: d :: rest => do
    let digits ← [a, b, c, d].mapM Text.hexadecimal?
    let sign ← Toml.charOf? (Text.numberOf 16 digits)
    (unquote? rest).map fun (text, rest) => (sign :: text, rest)
  | '\\' :: letter :: rest => do
    let sign ← unescape? letter
    (unquote? rest).map fun (text, rest) => (sign :: text, rest)
  | c :: rest =>
    if c.toNat < 0x20 then none
    else (unquote? rest).map fun (text, rest) => (c :: text, rest)

/-! ### Sequences -/

section Sequence

variable {α : Type}

/-- Parts with commas between them up to a closing bracket, and what follows it. The first argument
bounds the number of parts. -/
def parts? (part? : List Char → Option (α × List Char)) (closing : Char) :
    Nat → List Char → Option (List α × List Char)
  | 0, _ => none
  | more + 1, cs => do
    let (first, rest) ← part? cs
    match skip rest with
    | [] => none
    | c :: rest =>
      if c = closing then some ([first], rest)
      else if c = ',' then
        (parts? part? closing more rest).map fun (others, rest) => (first :: others, rest)
      else none

/-- What stands after an opening bracket: no part, or parts with commas between them. -/
def bracketed? (part? : List Char → Option (α × List Char)) (closing : Char) (cs : List Char) :
    Option (List α × List Char) :=
  match skip cs with
  | [] => none
  | c :: rest => if c = closing then some ([], rest) else parts? part? closing cs.length cs

end Sequence

/-! ### Values -/

/-- A value without brackets, and what follows it. -/
def scalar? : List Char → Option (Json × List Char)
  | 'n' :: 'u' :: 'l' :: 'l' :: rest => some (null, rest)
  | 't' :: 'r' :: 'u' :: 'e' :: rest => some (bool true, rest)
  | 'f' :: 'a' :: 'l' :: 's' :: 'e' :: rest => some (bool false, rest)
  | '"' :: rest => (unquote? rest).map fun (text, rest) => (str (String.ofList text), rest)
  | _ => none

/-- A name, a colon and a value, and what follows them. -/
def member? (value? : List Char → Option (Json × List Char)) (cs : List Char) :
    Option ((String × Json) × List Char) :=
  match skip cs with
  | '"' :: rest => do
    let (name, rest) ← unquote? rest
    match skip rest with
    | ':' :: rest => (value? rest).map fun (value, rest) => ((String.ofList name, value), rest)
    | _ => none
  | _ => none

/-- A value that is nested at most `depth` levels deep, and what follows it. -/
def value? : (depth : Nat) → List Char → Option (Json × List Char)
  | 0, cs => scalar? (skip cs)
  | depth + 1, cs =>
    match skip cs with
    | '[' :: rest =>
      (bracketed? (value? depth) ']' rest).map fun (items, rest) => (arr items, rest)
    | '\x7b' :: rest =>
      (bracketed? (member? (value? depth)) '\x7d' rest).map fun (fields, rest) =>
        (obj fields, rest)
    | cs => scalar? cs

/-- The value of a text, when there is nothing else in it. -/
def ofText? (text : String) : Option Json :=
  match value? nestingLimit text.toList with
  | some (value, rest) => if skip rest = [] then some value else none
  | none => none

/-! ### Quoted texts are read back -/

/-- A written hexadecimal digit is read as its value. -/
theorem hexadecimal?_hexDigit (n : Nat) : Text.hexadecimal? (Text.hexDigit n) = some (n % 16) := by
  have small : n % 16 < 16 := Nat.mod_lt n (by decide)
  have all : ∀ digit < 16, Text.hexadecimal? (if digit < 10 then Char.ofNat (48 + digit)
      else Char.ofNat (87 + digit)) = some digit := by decide
  exact all (n % 16) small

/-- A character that is written as its number is read back. -/
theorem unquote?_code {c : Char} (control : c.toNat < 0x20) (rest : List Char) :
    unquote? ('\\' :: 'u' :: (Text.hexDigits 4 c.toNat ++ rest)) =
      (unquote? rest).map fun (text, rest) => (c :: text, rest) := by
  have number : Text.numberOf 16 [c.toNat / 16 / 16 / 16 % 16, c.toNat / 16 / 16 % 16,
      c.toNat / 16 % 16, c.toNat % 16] = c.toNat := by
    simp only [Text.numberOf, List.foldl_cons, List.foldl_nil]
    omega
  have valid : Toml.charOf? c.toNat = some c := by
    rw [Toml.charOf?, if_pos (show c.toNat.isValidChar from c.valid), Char.ofNat_toNat]
  have digits : Text.hexDigits 4 c.toNat = [Text.hexDigit (c.toNat / 16 / 16 / 16),
      Text.hexDigit (c.toNat / 16 / 16), Text.hexDigit (c.toNat / 16), Text.hexDigit c.toNat] := rfl
  rw [digits]
  simp only [List.cons_append, List.nil_append, unquote?, List.mapM_cons, List.mapM_nil,
    hexadecimal?_hexDigit, Option.pure_def, Option.bind_eq_bind, Option.bind_some, number, valid]

/-- Every character is read back from the way it is written. -/
theorem unquote?_escape (c : Char) (rest : List Char) :
    unquote? (escape c ++ rest) = (unquote? rest).map fun (text, rest) => (c :: text, rest) := by
  have coded : ∀ {n : Nat}, c.toNat = n → c = Char.ofNat n := by
    rintro n rfl
    exact (Char.ofNat_toNat c).symm
  rw [escape]
  split_ifs with isQuote isBackslash isBackspace isFormFeed isNewline isReturn isTab isControl
  · subst isQuote
    simp [unquote?, unescape?]
  · subst isBackslash
    simp [unquote?, unescape?]
  · obtain rfl := coded isBackspace
    simp [unquote?, unescape?]
  · obtain rfl := coded isFormFeed
    simp [unquote?, unescape?]
  · subst isNewline
    simp [unquote?, unescape?]
  · subst isReturn
    simp [unquote?, unescape?]
  · subst isTab
    simp [unquote?, unescape?]
  · exact unquote?_code isControl rest
  · -- What is left stands for itself.
    simp [unquote?, isBackslash, isControl]

/-- A quoted text is read back. -/
theorem unquote?_quote (text : List Char) (rest : List Char) :
    unquote? (text.flatMap escape ++ '"' :: rest) = some (text, rest) := by
  induction text with
  | nil => simp [unquote?]
  | cons c text inductionHypothesis =>
    rw [List.flatMap_cons, List.append_assoc, unquote?_escape, inductionHypothesis]
    rfl

/-! ### Sequences are read back -/

/-- Pieces with commas between them in brackets, with spaces before each piece and after the last
one. There are no spaces between brackets without pieces. -/
def boxed (opening closing : Char) (before last : List Char) : List (List Char) → List Char
  | [] => [opening, closing]
  | piece :: pieces =>
    opening ::
      (before ++ (List.intercalate (',' :: before) (piece :: pieces) ++ (last ++ [closing])))

section Sequence

variable {α : Type} {part? : List Char → Option (α × List Char)} {closing : Char}

/-- A reader of the parts of a sequence. -/
structure PartReader (part? : List Char → Option (α × List Char)) (closing : Char) : Prop where
  /-- It passes over spaces in front of a part. -/
  spaces : ∀ {spaces}, Spaces spaces → ∀ cs, part? (spaces ++ cs) = part? cs
  /-- There is no part at the end of a text. -/
  ends : part? [] = none
  /-- There is no part at the closing bracket. -/
  stops : ∀ cs, part? (closing :: cs) = none
  /-- The closing bracket is no comma. -/
  notComma : closing ≠ ','
  /-- The closing bracket is no space. -/
  notSpace : isSpace closing = false

namespace PartReader

/-- A reader of parts does not mind blanks that were passed over before. -/
theorem skip_eq (reader : PartReader part? closing) (cs : List Char) :
    part? (skip cs) = part? cs := by
  have blank : Spaces (cs.takeWhile isSpace) := fun c present => List.mem_takeWhile_imp present
  have cut : cs = cs.takeWhile isSpace ++ skip cs := List.takeWhile_append_dropWhile.symm
  conv_rhs => rw [cut, reader.spaces blank]

theorem parts?_spaces (reader : PartReader part? closing) {spaces : List Char}
    (blank : Spaces spaces) (bound : Nat) (cs : List Char) :
    parts? part? closing bound (spaces ++ cs) = parts? part? closing bound cs := by
  cases bound with
  | zero => rfl
  | succ bound => rw [parts?, parts?, reader.spaces blank]

/-- Parts that are read back one by one are read back as a sequence. -/
theorem parts?_intercalate (reader : PartReader part? closing) {next last : List Char}
    (blankNext : Spaces next) (blankLast : Spaces last) {items : List α}
    {pieces : List (List Char)}
    (read : List.Forall₂ (fun item piece => ∀ rest, part? (piece ++ rest) = some (item, rest))
      items pieces)
    (some : items ≠ []) {bound : Nat} (enough : items.length ≤ bound) (rest : List Char) :
    parts? part? closing bound
        (List.intercalate (',' :: next) pieces ++ (last ++ closing :: rest)) =
      .some (items, rest) := by
  induction read generalizing bound with
  | nil => exact absurd rfl some
  | @cons item piece items pieces here later inductionHypothesis =>
    cases bound with
    | zero => cases enough
    | succ bound =>
      cases later with
      | nil =>
        rw [List.intercalate_singleton, parts?, here]
        simp [skip_append blankLast, skip_cons reader.notSpace]
      | cons hereNext laterNext =>
        have others := inductionHypothesis (by simp) (Nat.le_of_succ_le_succ enough)
        rw [List.intercalate_cons_cons, List.append_assoc, List.append_assoc, parts?, here]
        simp only [List.cons_append, Option.bind_eq_bind, Option.bind_some,
          skip_cons (show isSpace ',' = false by decide), if_neg (Ne.symm reader.notComma),
          if_true, reader.parts?_spaces blankNext, others, Option.map_some]

/-- A sequence has fewer parts than signs, so the length of the text bounds the reading. -/
theorem length_le_length_intercalate (sep : List Char) (pieces : List (List Char)) (c : Char) :
    pieces.length ≤ (List.intercalate (c :: sep) pieces).length + 1 := by
  induction pieces with
  | nil => simp
  | cons piece pieces inductionHypothesis =>
    cases pieces with
    | nil => simp
    | cons next pieces =>
      rw [List.intercalate_cons_cons]
      simp only [List.length_append, List.length_cons] at inductionHypothesis ⊢
      omega

/-- What stands between brackets is read back when each of its parts is. -/
theorem bracketed?_boxed (reader : PartReader part? closing) (opening : Char)
    {before last : List Char} (blankBefore : Spaces before) (blankLast : Spaces last)
    {items : List α} {pieces : List (List Char)}
    (read : List.Forall₂ (fun item piece => ∀ rest, part? (piece ++ rest) = some (item, rest))
      items pieces) (rest : List Char) :
    ∃ inner, boxed opening closing before last pieces ++ rest = opening :: inner ∧
      bracketed? part? closing inner = some (items, rest) := by
  cases read with
  | nil =>
    refine ⟨closing :: rest, rfl, ?_⟩
    rw [bracketed?, skip_cons reader.notSpace]
    exact if_pos rfl
  | @cons item piece items pieces here later =>
    have length := later.length_eq
    have bound := length_le_length_intercalate before (piece :: pieces) ','
    refine ⟨before ++ (List.intercalate (',' :: before) (piece :: pieces) ++
      (last ++ closing :: rest)), by simp [boxed], ?_⟩
    generalize isText : before ++ (List.intercalate (',' :: before) (piece :: pieces) ++
      (last ++ closing :: rest)) = text
    have whole : parts? part? closing text.length text = some (item :: items, rest) := by
      rw [← isText, reader.parts?_spaces blankBefore]
      refine reader.parts?_intercalate blankBefore blankLast (.cons here later) (by simp) ?_ rest
      simp only [List.length_append, List.length_cons] at bound ⊢
      omega
    -- Where parts are read there is a part, so the text is neither at its end nor at the bracket.
    have there : part? (skip text) ≠ none := by
      intro nothing
      rw [reader.skip_eq] at nothing
      cases text with
      | nil => cases whole
      | cons c cs =>
        rw [List.length_cons, parts?, nothing] at whole
        cases whole
    rw [bracketed?]
    cases cut : skip text with
    | nil => exact absurd (cut ▸ reader.ends) there
    | cons c cs =>
      by_cases isClosing : c = closing
      · subst isClosing
        exact absurd (cut ▸ reader.stops cs) there
      · exact (if_neg isClosing).trans whole

end PartReader

end Sequence

/-! ### Values are read back -/

/-- The reader gives a value for a text, whatever follows the text. -/
def Reads (depth : Nat) (value : Json) (text : List Char) : Prop :=
  ∀ rest, value? depth (text ++ rest) = some (value, rest)

/-- Values may be the parts of an array. -/
theorem partReader_value? (depth : Nat) : PartReader (value? depth) ']' where
  spaces := by
    intro spaces blank cs
    cases depth with
    | zero => rw [value?, value?, skip_append blank]
    | succ depth => rw [value?, value?, skip_append blank]
  ends := by cases depth <;> rfl
  stops := by
    intro cs
    cases depth <;> rfl
  notComma := by decide
  notSpace := by decide

/-- Names with values may be the parts of an object. -/
theorem partReader_member? (value? : List Char → Option (Json × List Char)) :
    PartReader (member? value?) '\x7d' where
  spaces := by
    intro spaces blank cs
    rw [member?, member?, skip_append blank]
  ends := rfl
  stops _ := rfl
  notComma := by decide
  notSpace := by decide

theorem toList_quote (text : String) :
    (quote text).toList = '"' :: (text.toList.flatMap escape ++ ['"']) := by
  simp [quote]

theorem reads_null (depth : Nat) : Reads depth null "null".toList := by
  intro rest
  cases depth <;> rfl

theorem reads_bool (depth : Nat) (value : Bool) :
    Reads depth (bool value) (if value then "true" else "false").toList := by
  intro rest
  cases value <;> cases depth <;> rfl

/-- A quoted text is read back, with all its escapes. -/
theorem reads_str (depth : Nat) (text : String) : Reads depth (str text) (quote text).toList := by
  intro rest
  have start : ∀ cs, value? depth ('"' :: cs) = scalar? ('"' :: cs) := by
    intro cs
    cases depth <;> rfl
  rw [toList_quote, List.cons_append, start, scalar?, List.append_assoc, List.cons_append,
    List.nil_append, unquote?_quote]
  simp

section Level

variable {depth : Nat} {before last : List Char}

/-- An array is read back when its items are, in any layout. -/
theorem reads_arr {items : List Json} {pieces : List (List Char)} (blankBefore : Spaces before)
    (blankLast : Spaces last) (read : List.Forall₂ (Reads depth) items pieces) :
    Reads (depth + 1) (arr items) (boxed '[' ']' before last pieces) := by
  intro rest
  obtain ⟨inner, opened, closed⟩ :=
    (partReader_value? depth).bracketed?_boxed '[' blankBefore blankLast read rest
  rw [opened, value?, skip_cons (by decide)]
  simp [closed]

/-- A value with a name is read back when the value is. -/
theorem member?_field {value : Json} {gap text : List Char} (blank : Spaces gap)
    (read : Reads depth value text) (name : String) (rest : List Char) :
    member? (value? depth) ((quote name).toList ++ ':' :: (gap ++ text) ++ rest) =
      some ((name, value), rest) := by
  have here : value? depth (gap ++ (text ++ rest)) = some (value, rest) := by
    rw [(partReader_value? depth).spaces blank, read rest]
  rw [toList_quote, member?, List.cons_append, List.cons_append, skip_cons (by decide)]
  simp [unquote?_quote, skip_cons (show isSpace ':' = false by decide), here]

/-- An object is read back when the values of its fields are, in any layout. -/
theorem reads_obj {fields : List (String × Json)} {pieces : List (List Char)} {gap : List Char}
    (blankBefore : Spaces before) (blankLast : Spaces last) (blankGap : Spaces gap)
    (read : List.Forall₂ (fun field piece => ∃ text, Reads depth field.2 text ∧
      piece = (quote field.1).toList ++ ':' :: (gap ++ text)) fields pieces) :
    Reads (depth + 1) (obj fields) (boxed '\x7b' '\x7d' before last pieces) := by
  intro rest
  have members : List.Forall₂ (fun field piece => ∀ rest,
      member? (value? depth) (piece ++ rest) = some (field, rest)) fields pieces := by
    refine read.imp ?_
    rintro field piece ⟨text, readText, isPiece⟩ rest
    rw [isPiece]
    exact member?_field blankGap readText field.1 rest
  obtain ⟨inner, opened, closed⟩ :=
    (partReader_member? (value? depth)).bracketed?_boxed '\x7b' blankBefore blankLast members rest
  rw [opened, value?, skip_cons (by decide)]
  simp [closed]

end Level

/-! ### Both written forms are read back -/

/-- A way to write values at each level. Such ways differ in their spaces only: in what a line of a
level starts with, and in what stands after the colon of a field. -/
structure Layout (form : Nat → Json → List Char) (line : Nat → List Char) (gap : List Char) :
    Prop where
  /-- Lines start with spaces. -/
  line_spaces : ∀ level, Spaces (line level)
  /-- Spaces stand after a colon. -/
  gap_spaces : Spaces gap
  /-- Values without brackets are written alike on all levels. -/
  null_eq : ∀ level, form level null = "null".toList
  bool_eq : ∀ level value, form level (bool value) = (if value then "true" else "false").toList
  str_eq : ∀ level text, form level (str text) = (quote text).toList
  /-- The items of an array stand on the next level. -/
  arr_eq : ∀ level items, form level (arr items) =
    boxed '[' ']' (line (level + 1)) (line level) (items.map (form (level + 1)))
  /-- So do the fields of an object, each with its name. -/
  obj_eq : ∀ level fields, form level (obj fields) =
    boxed '\x7b' '\x7d' (line (level + 1)) (line level) (fields.map fun field =>
      (quote field.1).toList ++ ':' :: (gap ++ form (level + 1) field.2))

/-- What is written in some way is read back. -/
theorem Layout.reads {form : Nat → Json → List Char} {line : Nat → List Char} {gap : List Char}
    (layout : Layout form line gap) {depth : Nat} {value : Json} (fits : Fits depth value)
    (level : Nat) : Reads depth value (form level value) := by
  have spaces := layout.line_spaces
  -- Each bracket takes the reader one level down.
  induction depth, value using Fits.induct generalizing level with
  | case1 depth => exact layout.null_eq level ▸ reads_null depth
  | case2 depth value => exact layout.bool_eq level value ▸ reads_bool depth value
  | case3 depth text => exact layout.str_eq level text ▸ reads_str depth text
  | case4 depth text => cases depth <;> exact fits.elim
  | case5 items => exact fits.elim
  | case6 fields => exact fits.elim
  | case7 depth items inductionHypothesis =>
    rw [layout.arr_eq]
    refine reads_arr (spaces _) (spaces _) ?_
    rw [List.forall₂_map_right_iff, List.forall₂_same]
    intro item present
    exact inductionHypothesis item (fits item present) (level + 1)
  | case8 depth fields inductionHypothesis =>
    rw [layout.obj_eq]
    refine reads_obj (spaces _) (spaces _) layout.gap_spaces ?_
    rw [List.forall₂_map_right_iff, List.forall₂_same]
    intro field present
    exact ⟨_, inductionHypothesis field (fits.2 field present) (level + 1), rfl⟩

/-- The items of an array are written one by one. -/
theorem compactItems_eq_map (items : List Json) : compactItems items = items.map compact := by
  induction items with
  | nil => rfl
  | cons item items inductionHypothesis =>
    rw [compactItems, inductionHypothesis, List.map_cons]

theorem compactFields_eq_map (fields : List (String × Json)) :
    compactFields fields = fields.map fun field => quote field.1 ++ ":" ++ field.2.compact := by
  induction fields with
  | nil => rfl
  | cons field fields inductionHypothesis =>
    rw [compactFields, inductionHypothesis, List.map_cons]

theorem prettyItems_eq_map (level : Nat) (items : List Json) :
    prettyItems level items = items.map (prettyAt level) := by
  induction items with
  | nil => rfl
  | cons item items inductionHypothesis =>
    rw [prettyItems, inductionHypothesis, List.map_cons]

theorem prettyFields_eq_map (level : Nat) (fields : List (String × Json)) :
    prettyFields level fields =
      fields.map fun field => quote field.1 ++ ": " ++ prettyAt level field.2 := by
  induction fields with
  | nil => rfl
  | cons field fields inductionHypothesis =>
    rw [prettyFields, inductionHypothesis, List.map_cons]

section Bracket

variable {opening closing : String} {o c : Char}

/-- The compact form is a layout without blanks. -/
theorem toList_joined (isOpening : opening.toList = [o]) (isClosing : closing.toList = [c])
    (pieces : List String) :
    (opening ++ String.intercalate "," pieces ++ closing).toList =
      boxed o c [] [] (pieces.map String.toList) := by
  cases pieces with
  | nil => simp [boxed, isOpening, isClosing]
  | cons piece pieces => simp [boxed, isOpening, isClosing, String.toList_intercalate]

/-- The form with lines is a layout with a new line before each part and before the end. -/
theorem toList_block (isOpening : opening.toList = [o]) (isClosing : closing.toList = [c])
    (level : Nat) (pieces : List String) :
    (block level opening closing pieces).toList =
      boxed o c (newline (level + 1)).toList (newline level).toList
        (pieces.map String.toList) := by
  cases pieces with
  | nil => simp [block, boxed, isOpening, isClosing]
  | cons piece pieces => simp [block, boxed, isOpening, isClosing, String.toList_intercalate]

end Bracket

/-- The form without blanks has no spaces anywhere. -/
theorem layout_compact : Layout (fun _ value => value.compact.toList) (fun _ => []) [] where
  line_spaces _ := spaces_nil
  gap_spaces := spaces_nil
  null_eq _ := rfl
  bool_eq _ value := by rw [compact]
  str_eq _ text := by rw [compact]
  arr_eq _ items := by
    rw [compact, compactItems_eq_map, toList_joined rfl rfl, List.map_map]
    rfl
  obj_eq _ fields := by
    rw [compact, compactFields_eq_map, toList_joined rfl rfl, List.map_map]
    refine congrArg (boxed _ _ _ _) (List.map_congr_left ?_)
    intro field _
    simp

/-- The indented form starts a line with a new line and the blanks of its level. -/
theorem layout_pretty : Layout (fun level value => (prettyAt level value).toList)
    (fun level => (newline level).toList) [' '] where
  line_spaces := by
    intro level c present
    simp only [newline, String.toList_append, String.toList_ofList, List.mem_append] at present
    obtain isBreak | isBlank := present
    · obtain rfl : c = '\n' := by simpa using isBreak
      decide
    · rw [List.eq_of_mem_replicate isBlank]
      decide
  gap_spaces := by
    intro c present
    obtain rfl := List.mem_singleton.1 present
    decide
  null_eq _ := by rw [prettyAt]
  bool_eq _ value := by rw [prettyAt]
  str_eq _ text := by rw [prettyAt]
  arr_eq level items := by
    rw [prettyAt, prettyItems_eq_map, toList_block rfl rfl, List.map_map]
    rfl
  obj_eq level fields := by
    rw [prettyAt, prettyFields_eq_map, toList_block rfl rfl, List.map_map]
    refine congrArg (boxed _ _ _ _) (List.map_congr_left ?_)
    intro field _
    simp

/-- The whole text of a value that is read back. -/
theorem ofText?_eq_some {value : Json} {text : String}
    (read : Reads nestingLimit value text.toList) : ofText? text = some value := by
  have whole := read []
  rw [List.append_nil] at whole
  rw [ofText?, whole]
  rfl

/-- The reader reads back. -/
theorem readsBack_ofText? : ReadsBack ofText? where
  compact _ fits := ofText?_eq_some (layout_compact.reads fits 0)
  pretty _ fits := ofText?_eq_some (layout_pretty.reads fits 0)

end CodeGraph.Json
