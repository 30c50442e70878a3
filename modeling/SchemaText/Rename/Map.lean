import SchemaText.Table.Column

/-!
# Rename maps

What becomes of the columns of a table that is rebuilt: each column that the map mentions
gets a new name or is dropped. Names are compared without regard to case, and a later entry
for a name replaces an earlier one.

## Main definitions

* `Fate`: what becomes of a column.
* `RenameMap`: the map, with `RenameMap.insert`, `RenameMap.lookup` and `RenameMap.size`.
* `RenameMap.ofPositions`: the map from the columns of a table to edited names, by position.
* `RenameMap.folded`: the entries with their names in small letters.

## Main results

* `RenameMap.lookup_insert`: what a map says after an insertion.
* `RenameMap.lookup_eq_folded`, `RenameMap.folded_insert`: a lookup and an insertion need no
  more of the names than their small letters.
* `RenameMap.lookup_congr`: the case of a name does not matter.
-/

namespace SchemaText

/-- What becomes of a column. -/
inductive Fate
  | renamed (name : String)
  | dropped
  deriving DecidableEq, Repr

/-- What becomes of the columns of a table. -/
structure RenameMap where
  /-- The columns that the map mentions, the latest first. -/
  entries : List (String × Fate) := []
  /-- No column is mentioned twice. -/
  distinct : entries.Pairwise fun a b => Text.same a.1 b.1 = false := by exact .nil

namespace RenameMap

/-- The map that mentions no column. -/
def empty : RenameMap := {}

/-- The map with a new entry for a column. -/
def insert (map : RenameMap) (name : String) (fate : Fate) : RenameMap where
  entries := (name, fate) :: map.entries.filter fun entry => !Text.same name entry.1
  distinct := by
    refine .cons (fun entry member => ?_) (map.distinct.filter _)
    simpa using (List.mem_filter.1 member).2

/-- What becomes of the column of this name; none if the map does not mention it. -/
def lookup (map : RenameMap) (name : String) : Option Fate :=
  (map.entries.find? fun entry => Text.same name entry.1).map (·.2)

/-- The number of columns that the map mentions. -/
def size (map : RenameMap) : Nat :=
  map.entries.length

/-- Whether the map mentions no column. -/
def isEmpty (map : RenameMap) : Bool :=
  map.entries.isEmpty

/-- Adds the columns of a table, each with the edited name at its position. A column without
one, in the list or beyond its end, is dropped. -/
def insertAll (map : RenameMap) : List Column → List (Option String) → RenameMap
  | [], _ => map
  | column :: columns, some name :: edited =>
    (map.insert column.name (.renamed name)).insertAll columns edited
  | column :: columns, none :: edited =>
    (map.insert column.name .dropped).insertAll columns edited
  | column :: columns, [] => (map.insert column.name .dropped).insertAll columns []

/-- The map from the columns of a table to the edited names at their positions. -/
def ofPositions (columns : List Column) (edited : List (Option String)) : RenameMap :=
  empty.insertAll columns edited

/-! ### Lookup -/

/-- The empty map says nothing of any name. -/
@[simp] theorem lookup_empty (name : String) : empty.lookup name = none := rfl

/-- A new entry answers for its own name, in any case; of every other name the map says what
it said before. -/
theorem lookup_insert (map : RenameMap) (name other : String) (fate : Fate) :
    (map.insert name fate).lookup other =
      if Text.same name other then some fate else map.lookup other := by
  simp only [lookup, insert, List.find?_cons, Text.same_comm other name]
  cases h : Text.same name other with
  | true => rfl
  | false =>
    simp only [Bool.false_eq_true, if_false, List.find?_filter]
    congr 2
    funext entry
    by_cases hit : Text.same other entry.1 = true
    · have : Text.same name entry.1 = false := by
        rw [Bool.eq_false_iff]
        intro also
        rw [Text.same_comm] at hit
        exact absurd (Text.same_trans also hit) (by simp [h])
      simp [this, hit]
    · simp [hit]

/-- The case of the name that is looked up does not matter. -/
theorem lookup_congr (map : RenameMap) {s t : String} (h : Text.same s t = true) :
    map.lookup s = map.lookup t := by
  simp only [lookup, Text.same, Text.same_iff.1 h]

/-! ### Names in small letters -/

/-- The entries with their names in small letters, the latest first. -/
def folded (map : RenameMap) : List (List Char × Fate) :=
  map.entries.map fun entry => (Text.fold entry.1, entry.2)

@[simp] theorem folded_empty : empty.folded = [] := rfl

/-- **A lookup goes by small letters**: the name in small letters is looked up among those of
the entries. -/
theorem lookup_eq_folded (map : RenameMap) (name : String) :
    map.lookup name = map.folded.lookup (Text.fold name) := by
  rw [lookup, folded]
  induction map.entries with
  | nil => rfl
  | cons entry entries ih =>
      rw [List.find?_cons, List.map_cons, List.lookup_cons, ← ih, Text.same]
      split <;> rfl

/-- **An insertion goes by small letters**: the new entry replaces the one whose name has the
same small letters. -/
theorem folded_insert (map : RenameMap) (name : String) (fate : Fate) :
    (map.insert name fate).folded =
      (Text.fold name, fate) :: map.folded.filter fun entry =>
        !(Text.fold name == entry.1) := by
  simp only [folded, insert, List.map_cons, List.filter_map]
  rfl

end RenameMap

end SchemaText
