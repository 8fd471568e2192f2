/-!
# Lists keyed by a field

A list in which each key occurs once, in the order in which keys were first put. Putting a value
under a key that is there already replaces the old value in its place. Tables of names, graphs under
assembly and the identifier allocator are all kept this way.

## Main Definitions

* `Keyed.upsert`: puts a record into a list of records that carry their own key.
* `Keyed.keepFirst`: the first record of each key.
* `Keyed.Table`, `Keyed.put`, `Keyed.get?`: the same for pairs of a key and a value.
* `Keyed.Shelf`, `Keyed.Shelf.put`: records beside a table of their positions, by which a put finds
  the record to replace.
-/

namespace CodeGraph.Keyed

/-- Puts a record into a list: in place of the first record with the same key, or at the end. -/
def upsert {α κ : Type} [DecidableEq κ] (key : α → κ) : List α → α → List α
  | [], new => [new]
  | old :: rest, new => if key old = key new then new :: rest else old :: upsert key rest new

/-- Puts a record at the end of a list that has no record with the same key. -/
def insertNew {α κ : Type} [DecidableEq κ] (key : α → κ) (kept : List α) (new : α) : List α :=
  if key new ∈ kept.map key then kept else kept ++ [new]

/-- Records without those whose key came before. -/
def keepFirst {α κ : Type} [DecidableEq κ] (key : α → κ) (records : List α) : List α :=
  records.foldl (insertNew key) []

/-- A list of pairs of a key and a value. -/
abbrev Table (κ α : Type) := List (κ × α)

variable {κ α : Type} [DecidableEq κ]

/-- The keys of a table, in the order in which they were first put. -/
def keys (table : Table κ α) : List κ := table.map Prod.fst

/-- Puts a value under a key, in place of the value that was there. -/
def put (table : Table κ α) (key : κ) (value : α) : Table κ α :=
  upsert Prod.fst table (key, value)

/-- The value under a key. -/
def get? (table : Table κ α) (key : κ) : Option α :=
  (table.find? fun entry => entry.1 = key).map Prod.snd

omit [DecidableEq κ] in
theorem keys_cons (entry : κ × α) (table : Table κ α) :
    keys (entry :: table) = entry.1 :: keys table := rfl

theorem get?_cons (entry : κ × α) (table : Table κ α) (key : κ) :
    get? (entry :: table) key = if entry.1 = key then some entry.2 else get? table key := by
  by_cases h : entry.1 = key <;> simp [get?, h]

theorem put_cons (entry : κ × α) (table : Table κ α) (key : κ) (value : α) :
    put (entry :: table) key value =
      if entry.1 = key then (key, value) :: table else entry :: put table key value := rfl

theorem mem_keys_of_isSome (table : Table κ α) {key : κ} (h : (get? table key).isSome) :
    key ∈ keys table := by
  induction table with
  | nil => simp [get?] at h
  | cons entry rest ih =>
    rw [get?_cons] at h
    by_cases he : entry.1 = key
    · simp [keys_cons, he]
    · rw [if_neg he] at h
      exact List.mem_cons_of_mem _ (ih h)

theorem keys_put_of_isSome (table : Table κ α) {key : κ} {value : α}
    (h : (get? table key).isSome) : keys (put table key value) = keys table := by
  induction table with
  | nil => simp [get?] at h
  | cons entry rest ih =>
    rw [get?_cons] at h
    rw [put_cons]
    by_cases he : entry.1 = key
    · simp [keys_cons, he]
    · rw [if_neg he] at h
      rw [if_neg he, keys_cons, keys_cons, ih h]

/-! ### Positions -/

/-- Records beside the position of each key. -/
structure Shelf (α κ : Type) where
  /-- The records, in the order in which their keys were first put. -/
  records : List α := []
  /-- The position of the record of each key. -/
  positions : Table κ Nat := []

/-- Puts a record at the position of its key, or at the end when the key is new. -/
def Shelf.put (key : α → κ) (shelf : Shelf α κ) (new : α) : Shelf α κ :=
  match get? shelf.positions (key new) with
  | some position => { shelf with records := shelf.records.set position new }
  | none =>
    { records := shelf.records ++ [new]
      positions := Keyed.put shelf.positions (key new) shelf.records.length }

end CodeGraph.Keyed
