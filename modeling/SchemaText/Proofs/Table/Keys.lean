import SchemaText.Statement.Draft

/-!
# The primary key of a table

The primary key is noted in three places: in the list of its positions, on its members, and on
the member that is the whole key. Putting a column into the key changes all three and nothing
else.

## Main definitions

* `Column.unkeyed`: a column without what it says about the key.
* `Table.HasKeys`: the three places agree.

## Main results

* `Table.map_unkeyed_setKeyMember`, `Draft.map_unkeyed_enterKey`: columns only change in what
  they say about the key.
* `Table.HasKeys.setKeyMember`, `Draft.hasKeys_enterKey`: **the three places go on agreeing**.
-/

namespace SchemaText

variable {table : Table} {column : Column} {columns : List Column} {i : Nat}

/-! ### Columns without a key -/

/-- A column without what it says about the key. -/
def Column.unkeyed (column : Column) : Column :=
  { column with
    inKey := false, isWholeKey := false, columnDesc := false, tableDesc := false,
    autoincrement := false }

/-- What a change of one entry keeps, the list keeps. -/
theorem map_modify_eq {α β : Type} {g : α → β} {f : α → α} (h : ∀ a, g (f a) = g a)
    (l : List α) (i : Nat) : (l.modify i f).map g = l.map g := by
  induction l generalizing i with
  | nil => cases i <;> rfl
  | cons a l ih =>
      cases i with
      | zero => rw [List.modify_zero_cons, List.map_cons, List.map_cons, h]
      | succ i => rw [List.modify_succ_cons, List.map_cons, List.map_cons, ih]

/-- A change of the last entry. -/
theorem modify_length_append {α : Type} (f : α → α) (l : List α) (a : α) :
    (l ++ [a]).modify l.length f = l ++ [f a] := by
  induction l with
  | nil => rfl
  | cons b l ih => rw [List.cons_append, List.length_cons, List.modify_succ_cons, ih]; rfl

/-- A change at the last position changes the last entry. -/
theorem modify_last {α : Type} (f : α → α) (l : List α) (a : α) :
    (l ++ [a]).modify ((l ++ [a]).length - 1) f = l ++ [f a] := by
  rw [List.length_append, List.length_singleton, Nat.add_sub_cancel, modify_length_append]

/-- A change of the last column leaves the columns before it. -/
theorem Table.modifyColumn_last (table : Table) (ne : table.columns ≠ [])
    (f : Column → Column) :
    ∃ columns last, table.columns = columns ++ [last] ∧
      (table.modifyColumn (table.columns.length - 1) f).columns = columns ++ [f last] := by
  obtain ⟨columns, last, split⟩ : ∃ columns last, table.columns = columns ++ [last] :=
    ⟨_, _, (List.dropLast_concat_getLast ne).symm⟩
  refine ⟨columns, last, split, ?_⟩
  rw [modifyColumn, split]
  exact modify_last f columns last

/-- Marking the whole key changes nothing apart from the key. -/
theorem Column.map_unkeyed_markWhole :
    (markWhole columns).map unkeyed = columns.map unkeyed := by
  rw [markWhole, List.map_map]
  rfl

/-- The key list does not matter to the rest of a column. -/
theorem Table.map_unkeyed_setKeyMember (table : Table) (i : Nat) (member : Bool) :
    (table.setKeyMember i member).columns.map Column.unkeyed =
      table.columns.map Column.unkeyed := by
  rcases Nat.lt_or_ge i table.columns.length with old | out
  · rw [columns_setKeyMember old, Column.map_unkeyed_markWhole, map_modify_eq]
    intro c
    cases member <;> rfl
  · rw [setKeyMember_of_le out]

/-- A column of a key list as `enterKey` marks it. -/
def KeyPart.mark (autoincrement : Bool) (part : KeyPart) (column : Column) : Column :=
  { column with
    tableDesc := part.descending
    autoincrement := column.autoincrement || autoincrement }

/-- Puts the column of a key list into the key. -/
def Table.enterPart (autoincrement : Bool) (part : KeyPart) (table : Table)
    (i : Nat) : Table :=
  (table.setKeyMember i true).modifyColumn i (part.mark autoincrement)

/-- The equation of `enterKey`: one column after the other, up to the first that is unknown. -/
theorem Draft.enterKey_cons (autoincrement : Bool) (part : KeyPart) (parts : List KeyPart)
    (table : Table) :
    enterKey autoincrement (part :: parts) table =
      match table.columnIndex? part.name with
      | none => (table, some part.name)
      | some index =>
          enterKey autoincrement parts (table.enterPart autoincrement part index) :=
  rfl

/-- What every member keeps that enters the key, a whole key list keeps. -/
theorem Draft.enterKey_induction {P : Table → Prop} {autoincrement : Bool}
    (enter : ∀ part table i, table.columnIndex? part.name = some i → P table →
      P (table.enterPart autoincrement part i))
    (parts : List KeyPart) (holds : P table) : P (enterKey autoincrement parts table).1 := by
  induction parts generalizing table with
  | nil => exact holds
  | cons part parts ih =>
      rw [enterKey_cons]
      cases found : table.columnIndex? part.name with
      | none => exact holds
      | some i => exact ih (enter part table i found holds)

/-- A key list changes nothing of the columns apart from the key. -/
theorem Draft.map_unkeyed_enterKey (autoincrement : Bool) (parts : List KeyPart)
    (table : Table) :
    (enterKey autoincrement parts table).1.columns.map Column.unkeyed =
      table.columns.map Column.unkeyed := by
  refine enterKey_induction (P := fun t => t.columns.map Column.unkeyed = _) ?_ parts rfl
  intro part t i _ same
  rw [← same, ← t.map_unkeyed_setKeyMember i true]
  exact map_modify_eq (f := part.mark autoincrement) (fun _ => rfl) _ i

/-- Only the columns and the list of positions change with the key. -/
theorem Table.setKeyMember_frame (table : Table) (i : Nat) (member : Bool) :
    ∃ columns key, table.setKeyMember i member =
      { table with columns := columns, primaryKey := key } := by
  rcases Nat.lt_or_ge i table.columns.length with old | out
  · exact ⟨_, _, setKeyMember_of_lt old member⟩
  · exact ⟨table.columns, table.primaryKey, setKeyMember_of_le out member⟩

/-- Only the columns and the list of positions change with a key list. -/
theorem Draft.enterKey_frame (autoincrement : Bool) (parts : List KeyPart) (table : Table) :
    ∃ columns key, (enterKey autoincrement parts table).1 =
      { table with columns := columns, primaryKey := key } := by
  refine enterKey_induction (P := fun t => ∃ columns key, t =
    { table with columns := columns, primaryKey := key }) ?_ parts
    ⟨table.columns, table.primaryKey, rfl⟩
  rintro part t i - ⟨columns, key, rfl⟩
  obtain ⟨columns, key, same⟩ := Table.setKeyMember_frame
    { table with columns := columns, primaryKey := key } i true
  exact ⟨_, _, by rw [Table.enterPart, same]; rfl⟩

/-! ### The places of the key -/

namespace Table

/-- The position that enters the key is listed, whether it was or not. -/
theorem mem_primaryKey_setKeyMember_true (old : i < table.columns.length) {j : Nat} :
    j ∈ (table.setKeyMember i true).primaryKey ↔ j ∈ table.primaryKey ∨ j = i := by
  rw [primaryKey_setKeyMember_true old]
  split
  · rename_i listed
    refine ⟨.inl, ?_⟩
    rintro (member | rfl)
    · exact member
    · simpa using listed
  · rw [List.mem_append, List.mem_singleton]

/-- Once a column has joined, there is a key. -/
theorem primaryKey_setKeyMember_ne_nil (old : i < table.columns.length) :
    (table.setKeyMember i true).primaryKey ≠ [] :=
  List.ne_nil_of_mem ((mem_primaryKey_setKeyMember_true old).2 (.inr rfl))

/-- Only the column at the position enters or leaves the key. -/
theorem exists_inKey_setKeyMember (old : i < table.columns.length) {member : Bool} {j : Nat}
    {column : Column} (found : (table.setKeyMember i member).columns[j]? = some column) :
    ∃ before, table.columns[j]? = some before ∧
      column.inKey = if i = j then member else before.inKey := by
  rw [columns_setKeyMember old, Column.getElem?_markWhole, List.getElem?_modify] at found
  obtain ⟨marked, entry, rfl⟩ := Option.map_eq_some_iff.1 found
  obtain ⟨before, position, rfl⟩ := Option.map_eq_some_iff.1 entry
  refine ⟨before, position, ?_⟩
  split
  · cases member <;> rfl
  · rfl

/-- After every change of the key, the only member is noted as the whole key. -/
theorem isWholeKey_setKeyMember (old : i < table.columns.length) {member : Bool} :
    ∀ column ∈ (table.setKeyMember i member).columns, column.isWholeKey =
      (column.inKey && (table.setKeyMember i member).columns.countP (·.inKey) == 1) := by
  rw [columns_setKeyMember old, Column.countP_inKey_markWhole]
  intro column found
  obtain ⟨before, -, rfl⟩ := List.mem_map.1 found
  rfl

end Table

/-- The list of positions, its members and the member that is the whole key agree; without a
member there is no conflict clause. -/
structure Table.HasKeys (table : Table) : Prop where
  /-- No position is listed twice. -/
  nodup : table.primaryKey.Nodup
  /-- A listed position is that of a column. -/
  range : ∀ i ∈ table.primaryKey, i < table.columns.length
  /-- The members are those that are listed. -/
  members : ∀ i column, table.columns[i]? = some column →
    (column.inKey = true ↔ i ∈ table.primaryKey)
  /-- The only member is the whole key. -/
  whole : ∀ column ∈ table.columns,
    column.isWholeKey = (column.inKey && table.columns.countP (·.inKey) == 1)
  /-- A conflict clause belongs to a key. -/
  conflict : table.keyConflict ≠ none → table.primaryKey ≠ []

namespace Table.HasKeys

/-- A table without columns has no key. -/
theorem of_nil (columns : table.columns = []) (key : table.primaryKey = [])
    (conflict : table.keyConflict = none) : table.HasKeys where
  nodup := key ▸ List.nodup_nil
  range := by simp [key]
  members := by simp [columns]
  whole := by simp [columns]
  conflict := fun some => absurd conflict some

/-- Only what columns note about the key and the list of positions matter. -/
theorem congr (h : table.HasKeys) {other : Table}
    (notes : other.columns.map (fun c => (c.inKey, c.isWholeKey)) =
      table.columns.map fun c => (c.inKey, c.isWholeKey))
    (key : other.primaryKey = table.primaryKey)
    (conflict : other.keyConflict ≠ none → table.primaryKey ≠ []) : other.HasKeys := by
  have length : other.columns.length = table.columns.length := by
    simpa using congrArg List.length notes
  have same {i : Nat} {c : Column} (found : other.columns[i]? = some c) :
      ∃ d, table.columns[i]? = some d ∧ d.inKey = c.inKey ∧ d.isWholeKey = c.isWholeKey := by
    have at_ := congrArg (·[i]?) notes
    simp only [List.getElem?_map, found, Option.map_some] at at_
    obtain ⟨d, member, pair⟩ := Option.map_eq_some_iff.1 at_.symm
    exact ⟨d, member, (Prod.mk.inj pair).1, (Prod.mk.inj pair).2⟩
  have count : other.columns.countP (·.inKey) = table.columns.countP (·.inKey) := by
    have := congrArg (List.countP (·.1)) notes
    rwa [List.countP_map, List.countP_map] at this
  constructor
  · rw [key]
    exact h.nodup
  · rw [key, length]
    exact h.range
  · intro i c found
    obtain ⟨d, member, inKey, -⟩ := same found
    rw [key, ← inKey]
    exact h.members i d member
  · intro c member
    obtain ⟨i, found⟩ := List.mem_iff_getElem?.1 member
    obtain ⟨d, position, inKey, whole⟩ := same found
    rw [count, ← inKey, ← whole]
    exact h.whole d (List.mem_of_getElem? position)
  · rw [key]
    exact conflict

/-- Changing a column in other respects keeps the key. -/
theorem modifyColumn (h : table.HasKeys) {f : Column → Column}
    (keeps : ∀ c, (f c).inKey = c.inKey ∧ (f c).isWholeKey = c.isWholeKey) :
    (table.modifyColumn i f).HasKeys := by
  refine h.congr (map_modify_eq (fun c => ?_) _ i) rfl h.conflict
  rw [(keeps c).1, (keeps c).2]

/-- A new column is not in the key. -/
theorem addColumn (h : table.HasKeys) (name : String) :
    { table with columns := table.columns ++ [Column.new name] }.HasKeys where
  nodup := h.nodup
  range := fun i member => by
    have := h.range i member
    simp only [List.length_append, List.length_singleton]
    omega
  members := fun i c found => by
    by_cases old : i < table.columns.length
    · rw [List.getElem?_append_left old] at found
      exact h.members i c found
    · rw [List.getElem?_append_right (by omega), List.getElem?_singleton] at found
      split at found
      · obtain rfl := Option.some.inj found
        refine ⟨fun key => absurd key Bool.false_ne_true, fun key => ?_⟩
        exact absurd (h.range i key) old
      · exact absurd found (by simp)
  whole := fun c member => by
    rw [List.countP_append]
    rcases List.mem_append.1 member with member | member
    · simpa [Column.new] using h.whole c member
    · obtain rfl := List.mem_singleton.1 member
      rfl
  conflict := h.conflict

/-- **A column that enters the key** is noted in all places. -/
theorem setKeyMember (h : table.HasKeys) (old : i < table.columns.length) :
    (table.setKeyMember i true).HasKeys where
  nodup := by
    rw [primaryKey_setKeyMember_true old]
    split
    · exact h.nodup
    · rename_i new
      refine List.nodup_append.2 ⟨h.nodup, by simp, fun j listed k last same => ?_⟩
      obtain rfl := List.mem_singleton.1 last
      exact new (by simpa [same] using listed)
  range := fun j member => by
    rw [length_setKeyMember]
    rcases (mem_primaryKey_setKeyMember_true old).1 member with listed | rfl
    · exact h.range j listed
    · exact old
  members := fun j c found => by
    obtain ⟨before, position, inKey⟩ := exists_inKey_setKeyMember old found
    rw [mem_primaryKey_setKeyMember_true old, inKey]
    by_cases entered : i = j
    · simp [entered]
    · rw [if_neg entered, h.members j before position]
      exact (or_iff_left (Ne.symm entered)).symm
  whole := isWholeKey_setKeyMember old
  conflict := fun _ => primaryKey_setKeyMember_ne_nil old

/-- Without a key there is no conflict clause. -/
theorem keyConflict_eq_none (h : table.HasKeys) (empty : table.primaryKey = []) :
    table.keyConflict = none :=
  Classical.byContradiction fun resolved => h.conflict resolved empty

end Table.HasKeys

/-- A key list that is put into the key is noted in all places. -/
theorem Draft.hasKeys_enterKey (h : table.HasKeys) (autoincrement : Bool)
    (parts : List KeyPart) : (enterKey autoincrement parts table).1.HasKeys := by
  refine enterKey_induction (fun part t i found holds => ?_) parts h
  obtain ⟨old, -⟩ := List.findIdx?_eq_some_iff_getElem.1 found
  exact (holds.setKeyMember old).modifyColumn fun _ => ⟨rfl, rfl⟩

/-- Once an entry of a key list is in place, there is a key. -/
theorem Table.primaryKey_enterPart_ne_nil {autoincrement : Bool} {part : KeyPart}
    (old : i < table.columns.length) :
    (table.enterPart autoincrement part i).primaryKey ≠ [] :=
  primaryKey_setKeyMember_ne_nil old

/-- With at least one column, the key is not empty afterwards. -/
theorem Draft.primaryKey_enterKey_ne_nil {autoincrement : Bool} {parts : List KeyPart}
    {entered : Table} (ne : parts ≠ [])
    (h : enterKey autoincrement parts table = (entered, none)) : entered.primaryKey ≠ [] := by
  have enters {part : KeyPart} {t : Table} {i : Nat} (found : t.columnIndex? part.name = some i) :
      (t.enterPart autoincrement part i).primaryKey ≠ [] := by
    obtain ⟨old, -⟩ := List.findIdx?_eq_some_iff_getElem.1 found
    exact Table.primaryKey_enterPart_ne_nil old
  cases parts with
  | nil => exact absurd rfl ne
  | cons part parts =>
      rw [enterKey_cons] at h
      split at h
      · exact absurd (Prod.mk.inj h).2 (by simp)
      · rename_i i found
        have holds := enterKey_induction (P := fun t => t.primaryKey ≠ [])
          (fun part t i found _ => enters found) parts (enters found)
        rwa [h] at holds

end SchemaText
