import Mathlib.Data.Finset.Card
import SchemaText.Rename.Map

/-!
# The latest entry counts

A rename map is filled entry by entry, and an entry replaces what was said before about a
column of the same name, in any case. So what the map says of a name is what the latest entry
for it says, and there are as many entries in the end as different names.

When the columns of a table are paired with edited names by position, the entries come in the
order of the columns, so that of several columns with one name the last one counts.

## Main definitions

* `RenameMap.ofList`: the map that is filled with some entries, one after the other.
* `RenameMap.IsLatest`: what the latest entry for a name says.
* `Fate.atPosition`: what becomes of the column at a position.

## Main results

* `RenameMap.lookup_ofList`, `RenameMap.lookup_ofList_eq_none`: what the map says of a name.
* `RenameMap.size_ofList`: the number of names it mentions.
* `RenameMap.folded_ofList`, `RenameMap.lookup_ofList_congr`: the case of the names does not
  matter, neither of those that are entered nor of the one that is looked up.
* `RenameMap.ofPositions_eq_ofList`: columns and edited names are entries in the order of
  columns.
* `RenameMap.latest_counts`: **the latest entry counts**, whatever the case of the names.
-/

namespace SchemaText

/-- What becomes of the column at a position; it is dropped if it has no edited name. -/
def Fate.atPosition (edited : List (Option String)) (i : Nat) : Fate :=
  edited[i]?.join.elim .dropped .renamed

namespace RenameMap

variable {entries : List (String × Fate)} {name other : String} {fate said : Fate}
  {columns : List Column} {edited : List (Option String)} {map : RenameMap}

/-- The map that is filled with some entries, one after the other. -/
def ofList (entries : List (String × Fate)) : RenameMap :=
  entries.foldl (fun map entry => map.insert entry.1 entry.2) empty

/-- The latest entry for a name says this: no entry after it is for the same name. -/
def IsLatest (entries : List (String × Fate)) (name : String) (fate : Fate) : Prop :=
  ∃ i other, entries[i]? = some (other, fate) ∧ Text.same other name = true ∧
    ∀ (j : Nat) (entry : String × Fate), i < j → entries[j]? = some entry →
      Text.same entry.1 name = false

/-- Without entries the map is empty. -/
@[simp] theorem ofList_nil : ofList [] = empty := rfl

/-- The last entry is inserted last. -/
theorem ofList_append_singleton :
    ofList (entries ++ [(other, said)]) = (ofList entries).insert other said :=
  List.foldl_append

/-! ### Lookup -/

/-- An entry at the end is the latest one for its own name, and for no other. -/
theorem isLatest_append_singleton :
    IsLatest (entries ++ [(other, said)]) name fate ↔
      if Text.same other name then said = fate else IsLatest entries name fate := by
  have before {j : Nat} {entry : String × Fate} (found : entries[j]? = some entry) :
      (entries ++ [(other, said)])[j]? = some entry := by
    obtain ⟨bound, -⟩ := List.getElem?_eq_some_iff.1 found
    rw [List.getElem?_append_left bound, found]
  have place {j : Nat} {entry : String × Fate}
      (found : (entries ++ [(other, said)])[j]? = some entry) :
      entries[j]? = some entry ∨ (j = entries.length ∧ entry = (other, said)) := by
    rcases Nat.lt_trichotomy j entries.length with bound | rfl | beyond
    · exact .inl (List.getElem?_append_left bound ▸ found)
    · exact .inr ⟨rfl, by simpa using found.symm⟩
    · rw [List.getElem?_eq_none (by simp; omega)] at found
      exact absurd found (by simp)
  cases same : Text.same other name with
  | true =>
      rw [if_pos rfl]
      constructor
      · rintro ⟨i, o, found, -, last⟩
        rcases place found with old | ⟨-, new⟩
        · obtain ⟨bound, -⟩ := List.getElem?_eq_some_iff.1 old
          exact absurd (last _ _ bound List.getElem?_concat_length) (by simp [same])
        · exact (congrArg Prod.snd new).symm
      · rintro rfl
        refine ⟨_, other, List.getElem?_concat_length, same, fun j entry later found => ?_⟩
        rw [List.getElem?_eq_none (by simp; omega)] at found
        exact absurd found (by simp)
  | false =>
      rw [if_neg Bool.false_ne_true]
      constructor
      · rintro ⟨i, o, found, named, last⟩
        rcases place found with old | ⟨-, new⟩
        · exact ⟨i, o, old, named, fun j entry later found =>
            last j entry later (before found)⟩
        · obtain ⟨rfl, -⟩ := Prod.mk.inj new
          exact absurd named (by simp [same])
      · rintro ⟨i, o, found, named, last⟩
        refine ⟨i, o, before found, named, fun j entry later found => ?_⟩
        rcases place found with old | ⟨-, rfl⟩
        · exact last j entry later old
        · exact same

/-- **The map says of a name what the latest entry for it says.** -/
theorem lookup_ofList : (ofList entries).lookup name = some fate ↔
    IsLatest entries name fate := by
  induction entries using List.reverseRecOn with
  | nil => simp [IsLatest]
  | append_singleton entries entry ih =>
      rw [ofList_append_singleton, lookup_insert, isLatest_append_singleton, ← ih]
      split
      · exact Option.some_inj
      · exact Iff.rfl

/-- The map does not mention a name that no entry is for. -/
theorem lookup_ofList_eq_none :
    (ofList entries).lookup name = none ↔
      ∀ entry ∈ entries, Text.same entry.1 name = false := by
  induction entries using List.reverseRecOn with
  | nil => simp
  | append_singleton entries entry ih =>
      rw [ofList_append_singleton, lookup_insert, List.forall_mem_append,
        List.forall_mem_singleton, ← ih]
      cases Text.same entry.1 name <;> simp

/-! ### Names in small letters -/

/-- **A map is filled by the names in small letters**: each entry goes in front of the
entries for other small letters. -/
theorem folded_ofList : (ofList entries).folded =
    (entries.map fun entry => (Text.fold entry.1, entry.2)).foldl
      (fun map entry => entry :: map.filter fun other => !(entry.1 == other.1)) [] := by
  induction entries using List.reverseRecOn with
  | nil => rfl
  | append_singleton entries entry ih =>
      rw [ofList_append_singleton, folded_insert, ih, List.map_append, List.foldl_append]
      rfl

/-- Maps agree on a name if it has the same small letters in both lookups and if the maps are
filled with entries of the same small letters. -/
theorem lookup_ofList_congr {others : List (String × Fate)}
    (filled : entries.map (fun entry => (Text.fold entry.1, entry.2)) =
      others.map fun entry => (Text.fold entry.1, entry.2))
    (asked : Text.fold name = Text.fold other) :
    (ofList entries).lookup name = (ofList others).lookup other := by
  rw [lookup_eq_folded, lookup_eq_folded, folded_ofList, folded_ofList, filled, asked]

/-! ### Size -/

/-- The names that the map mentions, in small letters. -/
def names (map : RenameMap) : List (List Char) :=
  map.entries.map fun entry => Text.fold entry.1

/-- No two entries of a map have the same name, in any case. -/
theorem nodup_names (map : RenameMap) : map.names.Nodup :=
  List.pairwise_map.2 <| map.distinct.imp fun apart =>
    mt Text.same_iff.2 (Bool.eq_false_iff.1 apart)

/-- An insertion adds its own name and loses none. -/
theorem mem_names_insert {folded : List Char} :
    folded ∈ (map.insert name fate).names ↔ folded = Text.fold name ∨ folded ∈ map.names := by
  simp only [names, insert, List.map_cons, List.mem_cons, List.mem_map, List.mem_filter]
  refine or_congr_right' fun other => ⟨?_, ?_⟩
  · rintro ⟨entry, ⟨member, -⟩, rfl⟩
    exact ⟨entry, member, rfl⟩
  · rintro ⟨entry, member, rfl⟩
    refine ⟨entry, ⟨member, ?_⟩, rfl⟩
    rw [Bool.not_eq_true', Bool.eq_false_iff]
    exact fun same => other (Text.same_iff.1 same).symm

/-- The names of the map are those of the entries, in any case. -/
theorem mem_names_ofList {folded : List Char} :
    folded ∈ (ofList entries).names ↔ folded ∈ entries.map fun entry => Text.fold entry.1 := by
  induction entries using List.reverseRecOn with
  | nil => exact Iff.rfl
  | append_singleton entries entry ih =>
      rw [ofList_append_singleton, mem_names_insert, ih, List.map_append, List.mem_append,
        List.map_singleton, List.mem_singleton, or_comm]

/-- **The map mentions as many columns as there are different names.** -/
theorem size_ofList :
    (ofList entries).size = (entries.map fun entry => Text.fold entry.1).toFinset.card := by
  have same : (ofList entries).names.toFinset =
      (entries.map fun entry => Text.fold entry.1).toFinset := by
    ext folded
    rw [List.mem_toFinset, List.mem_toFinset, mem_names_ofList]
  rw [← same, List.toFinset_card_of_nodup (nodup_names _), names, List.length_map, size]

/-! ### Columns and edited names -/

/-- **Columns and edited names** are entries in the order of the columns. -/
theorem ofPositions_eq_ofList : ofPositions columns edited =
    ofList (columns.mapIdx fun i column => (column.name, Fate.atPosition edited i)) := by
  rw [ofPositions, ofList]
  -- The entries of the columns that are left go into the map that has been filled so far.
  generalize empty = map
  induction columns generalizing map edited with
  | nil => rfl
  | cons column columns ih =>
      rw [List.mapIdx_cons, List.foldl_cons]
      cases edited with
      | nil => exact ih _
      | cons name edited =>
          cases name with
          | none => exact ih _
          | some name => exact ih _

/-- For the entries of the columns, the latest one for a name is that of the last column with
this name. -/
theorem isLatest_mapIdx : IsLatest
      (columns.mapIdx fun i column => (column.name, Fate.atPosition edited i)) name fate ↔
    ∃ i column, columns[i]? = some column ∧ Text.same column.name name = true ∧
      (∀ j later, i < j → columns[j]? = some later → Text.same later.name name = false) ∧
      fate = Fate.atPosition edited i := by
  simp only [IsLatest, List.getElem?_mapIdx, Option.map_eq_some_iff]
  constructor
  · rintro ⟨i, _, ⟨column, found, entry⟩, same, last⟩
    obtain ⟨rfl, rfl⟩ := Prod.mk.inj entry
    exact ⟨i, column, found, same, fun j later after position =>
      last j _ after ⟨later, position, rfl⟩, rfl⟩
  · rintro ⟨i, column, found, same, last, rfl⟩
    refine ⟨i, column.name, ⟨column, found, rfl⟩, same, ?_⟩
    rintro j _ after ⟨later, position, rfl⟩
    exact last j later after position

/-- **The latest entry counts.** Of a name the map says what the latest entry for it says,
whatever the case of the letters, and nothing if there is none; it mentions as many columns
as there are different names among the entries. So the last column of a name decides, where
columns are paired with edited names by position: it gets the edited name, or is dropped if
it has none. -/
theorem latest_counts (entries : List (String × Fate)) (columns : List Column)
    (edited : List (Option String)) (name : String) :
    (∀ fate, (ofList entries).lookup name = some fate ↔ IsLatest entries name fate) ∧
    ((ofList entries).lookup name = none ↔
      ∀ entry ∈ entries, Text.same entry.1 name = false) ∧
    (ofList entries).size = (entries.map fun entry => Text.fold entry.1).toFinset.card ∧
    (∀ fate, (ofPositions columns edited).lookup name = some fate ↔
      ∃ i column, columns[i]? = some column ∧ Text.same column.name name = true ∧
        (∀ j later, i < j → columns[j]? = some later → Text.same later.name name = false) ∧
        fate = Fate.atPosition edited i) ∧
    ((ofPositions columns edited).lookup name = none ↔
      ∀ column ∈ columns, Text.same column.name name = false) := by
  refine ⟨fun fate => lookup_ofList, lookup_ofList_eq_none, size_ofList, fun fate => ?_, ?_⟩
  · rw [ofPositions_eq_ofList, lookup_ofList, isLatest_mapIdx]
  · rw [ofPositions_eq_ofList, lookup_ofList_eq_none]
    simp only [List.mem_mapIdx, List.forall_mem_iff_getElem]
    constructor
    · intro apart i bound
      exact apart _ ⟨i, bound, rfl⟩
    · rintro apart _ ⟨i, bound, rfl⟩
      exact apart i bound

/-- The last of two columns whose names differ in case only has no edited name, and is
dropped. -/
example : (ofPositions [Column.new "a", Column.new "A"] [some "b"]).lookup "a" = some .dropped := by
  decide

end RenameMap

end SchemaText
