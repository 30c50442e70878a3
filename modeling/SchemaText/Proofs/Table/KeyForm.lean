import SchemaText.Proofs.Table.Arrangement

/-!
# Keys that are declared once

The clauses `PRIMARY KEY` of a statement are the steps of the parser that read these two words.
Where there is at most one of them, the key has one of two forms: a column declares it, or a
key list does.

## Main definitions

* `keyClauses`: how often a primary key is declared.
* `Table.IsColumnKey`, `Table.IsListKey`: the two forms.

## Main results

* `Settles.keyForm`, `Takes.keyForm`: **every step keeps the form** as long as there is at most
  one clause.
-/

namespace SchemaText

/-! ### What columns note about the key -/

/-- What a column notes about the key. -/
structure KeyNotes where
  /-- Whether the column is a member. -/
  inKey : Bool := false
  /-- Whether it is the only member. -/
  isWholeKey : Bool := false
  /-- Whether the column itself declares the key as descending. -/
  columnDesc : Bool := false
  /-- Whether the key list orders the column as descending. -/
  tableDesc : Bool := false
  /-- Whether the key is `AUTOINCREMENT`. -/
  autoincrement : Bool := false
  deriving DecidableEq

/-- What the column notes about the key. -/
def Column.notes (column : Column) : KeyNotes :=
  ⟨column.inKey, column.isWholeKey, column.columnDesc, column.tableDesc, column.autoincrement⟩

/-- What the columns note about the key. -/
def Table.notes (table : Table) : List KeyNotes :=
  table.columns.map Column.notes

/-! ### Forms of keys -/

namespace Table

variable {table other : Table} {i : Nat}

/-- There is no key, and no column says anything about it. -/
structure IsKeyless (table : Table) : Prop where
  /-- The key is empty. -/
  key : table.primaryKey = []
  /-- No column is a member. -/
  blank : ∀ notes ∈ table.notes, notes = {}

/-- The column at a position declares the key. -/
structure IsColumnKey (table : Table) (i : Nat) : Prop where
  /-- The column is the key. -/
  key : table.primaryKey = [i]
  /-- No other column says anything about it. -/
  blank : ∀ j notes, table.notes[j]? = some notes → j ≠ i → notes = {}
  /-- No key list orders the column. -/
  tableDesc : ∀ notes, table.notes[i]? = some notes → notes.tableDesc = false

/-- A key list declares the key, or there is none. -/
structure IsListKey (table : Table) (autoincrement : Bool) : Prop where
  /-- The members have `AUTOINCREMENT` in common. -/
  members : ∀ j notes, table.notes[j]? = some notes → j ∈ table.primaryKey →
    notes.columnDesc = false ∧ notes.autoincrement = autoincrement
  /-- No other column says anything about the key. -/
  blank : ∀ j notes, table.notes[j]? = some notes → j ∉ table.primaryKey → notes = {}

/-- The key is declared at most once. -/
def HasOneKey (table : Table) : Prop :=
  (∃ i, table.IsColumnKey i) ∨ ∃ autoincrement, table.IsListKey autoincrement

/-- Without a key there is an empty key list, whatever is said of it. -/
theorem IsKeyless.isListKey (h : table.IsKeyless) (autoincrement : Bool) :
    table.IsListKey autoincrement where
  members := by simp [h.key]
  blank := fun _ _ found _ => h.blank _ (List.mem_of_getElem? found)

section Congr

variable (key : other.primaryKey = table.primaryKey) (notes : other.notes = table.notes)

include key notes

/-- Whether there is a key shows in the key and the notes of the columns alone. -/
theorem IsKeyless.congr (h : table.IsKeyless) : other.IsKeyless :=
  ⟨key.trans h.key, notes ▸ h.blank⟩

/-- Whether a column is the key shows there as well. -/
theorem IsColumnKey.congr (h : table.IsColumnKey i) : other.IsColumnKey i :=
  ⟨key.trans h.key, notes ▸ h.blank, notes ▸ h.tableDesc⟩

/-- Whether one declaration accounts for the key shows there as well. -/
theorem HasOneKey.congr (h : table.HasOneKey) : other.HasOneKey := by
  rcases h with ⟨i, h⟩ | ⟨autoincrement, h⟩
  · exact .inl ⟨i, h.congr key notes⟩
  · exact .inr ⟨autoincrement, key ▸ notes ▸ h.members, key ▸ notes ▸ h.blank⟩

end Congr

/-- A change that keeps the notes of a column keeps those of all. -/
theorem notes_modifyColumn {f : Column → Column} (h : ∀ c, (f c).notes = c.notes) :
    (table.modifyColumn i f).notes = table.notes :=
  map_modifyColumn h table i

/-- What the columns note once a column entered the key. -/
theorem getElem?_notes_setKeyMember (old : i < table.columns.length) :
    ∃ single : Bool, ∀ j : Nat, (table.setKeyMember i true).notes[j]? =
      table.notes[j]?.map fun n : KeyNotes =>
        { n with inKey := n.inKey || i == j, isWholeKey := (n.inKey || i == j) && single } := by
  refine ⟨(table.columns.modify i (Column.withKeyMember true)).countP (·.inKey) == 1, ?_⟩
  intro j
  rw [notes, notes, columns_setKeyMember old, List.getElem?_map, List.getElem?_map,
    Column.getElem?_markWhole, List.getElem?_modify]
  cases table.columns[j]? with
  | none => rfl
  | some c =>
      by_cases same : i = j
      · simp [same, Column.notes, Column.withKeyMember]
      · simp [same, beq_eq_false_iff_ne.2 same, Column.notes]

/-- A column that declares the key. -/
theorem IsKeyless.setKeyMember (h : table.IsKeyless) (old : i < table.columns.length) :
    (table.setKeyMember i true).IsColumnKey i := by
  obtain ⟨single, entered⟩ := getElem?_notes_setKeyMember old
  constructor
  · rw [primaryKey_setKeyMember_true old, h.key]
    rfl
  · intro j notes found other
    rw [entered] at found
    obtain ⟨n, position, rfl⟩ := Option.map_eq_some_iff.1 found
    rw [h.blank n (List.mem_of_getElem? position)]
    simp [Ne.symm other]
  · intro notes found
    rw [entered] at found
    obtain ⟨n, position, rfl⟩ := Option.map_eq_some_iff.1 found
    rw [h.blank n (List.mem_of_getElem? position)]

/-- A key list that is put into an empty key. -/
theorem IsKeyless.enterKey (h : table.IsKeyless) (autoincrement : Bool)
    (parts : List KeyPart) :
    (Draft.enterKey autoincrement parts table).1.IsListKey autoincrement := by
  refine Draft.enterKey_induction (P := fun t => t.IsListKey autoincrement)
    (fun part t i found holds => ?_) parts (h.isListKey autoincrement)
  obtain ⟨old, -⟩ := List.findIdx?_eq_some_iff_getElem.1 found
  obtain ⟨single, entered⟩ := getElem?_notes_setKeyMember old
  have key (j : Nat) : j ∈ (t.enterPart autoincrement part i).primaryKey ↔
      j ∈ t.primaryKey ∨ j = i := by
    change j ∈ (t.setKeyMember i true).primaryKey ↔ _
    rw [primaryKey_setKeyMember_true old]
    split
    · rename_i listed
      refine ⟨.inl, ?_⟩
      rintro (member | rfl)
      · exact member
      · simpa using listed
    · rw [List.mem_append, List.mem_singleton]
  have noted (j : Nat) : (t.enterPart autoincrement part i).notes[j]? =
      (t.setKeyMember i true).notes[j]?.map fun n : KeyNotes => if i = j
        then { n with
          tableDesc := part.descending, autoincrement := n.autoincrement || autoincrement }
        else n := by
    rw [notes, notes, List.getElem?_map, List.getElem?_map]
    change ((t.setKeyMember i true).columns.modify i _)[j]?.map _ = _
    rw [List.getElem?_modify]
    cases (t.setKeyMember i true).columns[j]? with
    | none => rfl
    | some c => by_cases same : i = j <;> simp [same, Column.notes, KeyPart.mark]
  constructor
  · intro j notes position member
    rw [noted, entered, Option.map_map] at position
    obtain ⟨n, before, rfl⟩ := Option.map_eq_some_iff.1 position
    rcases (key j).1 member with old | rfl
    · have members := holds.members j n before old
      by_cases same : i = j <;> simp [same, members]
    · by_cases old : j ∈ t.primaryKey
      · simp [holds.members j n before old]
      · simp [holds.blank j n before old]
  · intro j notes position other
    rw [noted, entered, Option.map_map] at position
    obtain ⟨n, before, rfl⟩ := Option.map_eq_some_iff.1 position
    obtain ⟨old, different⟩ := not_or.1 (mt (key j).2 other)
    rw [holds.blank j n before old]
    simp [Ne.symm different]

/-- A key list that is entered gives the key its form. -/
theorem IsKeyless.hasOneKey_enterKey {autoincrement : Bool} {parts : List KeyPart}
    (h : table.IsKeyless)
    (entered : Draft.enterKey autoincrement parts table = (other, none)) :
    other.HasOneKey := by
  have form := h.enterKey autoincrement parts
  rw [entered] at form
  exact .inr ⟨autoincrement, form⟩

/-- A new column says nothing about the key. -/
theorem notes_addColumn (table : Table) (name : String) :
    { table with columns := table.columns ++ [Column.new name] }.notes =
      table.notes ++ [({} : KeyNotes)] :=
  List.map_append

/-- A new column brings no key. -/
theorem IsKeyless.addColumn (h : table.IsKeyless) (name : String) :
    { table with columns := table.columns ++ [Column.new name] }.IsKeyless := by
  refine ⟨h.key, ?_⟩
  rw [notes_addColumn]
  exact List.forall_mem_append.2 ⟨h.blank, by simp⟩

/-- A new column leaves the key to its declaration. -/
theorem HasOneKey.addColumn (h : table.HasOneKey) (keys : table.HasKeys) (name : String) :
    { table with columns := table.columns ++ [Column.new name] }.HasOneKey := by
  have noted {j : Nat} {notes : KeyNotes}
      (found : (table.notes ++ [({} : KeyNotes)])[j]? = some notes) :
      table.notes[j]? = some notes ∨ j = table.columns.length ∧ notes = {} := by
    rcases Nat.lt_or_ge j table.notes.length with old | new
    · rw [List.getElem?_append_left old] at found
      exact .inl found
    · rw [List.getElem?_append_right new, List.getElem?_singleton] at found
      split at found
      · rename_i first
        have length : table.notes.length = table.columns.length := List.length_map _
        exact .inr ⟨by omega, (Option.some.inj found).symm⟩
      · exact absurd found (by simp)
  rcases h with ⟨i, h⟩ | ⟨autoincrement, h⟩
  · refine .inl ⟨i, h.key, ?_, ?_⟩
    · rw [notes_addColumn]
      intro j notes found other
      rcases noted found with old | ⟨-, rfl⟩
      · exact h.blank j notes old other
      · rfl
    · rw [notes_addColumn]
      intro notes found
      rcases noted found with old | ⟨-, rfl⟩
      · exact h.tableDesc notes old
      · rfl
  · refine .inr ⟨autoincrement, ?_, ?_⟩
    · rw [notes_addColumn]
      intro j notes found member
      rcases noted found with old | ⟨rfl, -⟩
      · exact h.members j notes old member
      · exact absurd (keys.range _ member) (Nat.lt_irrefl _)
    · rw [notes_addColumn]
      intro j notes found other
      rcases noted found with old | ⟨-, rfl⟩
      · exact h.blank j notes old other
      · rfl

/-- The column that declares the key says more about it. -/
theorem IsColumnKey.modifyColumn {f : Column → Column} (h : table.IsColumnKey i)
    (keeps : ∀ c, (f c).notes.tableDesc = c.notes.tableDesc) :
    (table.modifyColumn i f).IsColumnKey i := by
  have noted (j : Nat) : (table.modifyColumn i f).notes[j]? =
      (table.columns.modify i f)[j]?.map Column.notes := List.getElem?_map ..
  constructor
  · exact h.key
  · intro j notes found other
    rw [noted, List.getElem?_modify] at found
    refine h.blank j notes ?_ other
    rw [Table.notes, List.getElem?_map, ← found]
    simp [Ne.symm other]
  · intro notes found
    rw [noted, List.getElem?_modify] at found
    obtain ⟨_, changed, rfl⟩ := Option.map_eq_some_iff.1 found
    obtain ⟨c, position, rfl⟩ := Option.map_eq_some_iff.1 changed
    rw [if_pos rfl, keeps]
    exact h.tableDesc c.notes (by rw [Table.notes, List.getElem?_map, position]; rfl)

end Table

/-! ### Clauses -/

/-- The states right after the words `PRIMARY KEY`. -/
def State.opensKey : State → Bool
  | .column .primaryKey | .constraint .primaryKey => true
  | _ => false

/-- How often a primary key is declared. -/
def keyClauses (transitions : List Transition) : Nat :=
  transitions.countP fun transition => transition.target.opensKey

/-- The states after the words `PRIMARY KEY` in a column. -/
def State.isAfterKey : State → Bool
  | .column .primaryKey | .column .primaryOrdered | .column .primaryResolved
  | .column (.conflictOn .primaryKey) | .column (.conflictAction .primaryKey) => true
  | _ => false

/-- The form of the key after this many clauses: without a clause there is no key; with one,
the key has its form unless its list is still being read, and in the column that declares it
the key is the column. -/
structure Draft.HasKeyForm (count : Nat) (state : State) (draft : Draft) : Prop where
  /-- Without a clause no key list is read. -/
  unread : count = 0 → draft.key.isPrimary = false ∧ state.isAfterKey = false
  /-- Without a clause there is no key. -/
  keyless : count = 0 → ∀ table, draft.statement = some (.table table) → table.IsKeyless
  /-- A key list is put into an empty key. -/
  pending : count = 1 → draft.key.isPrimary = true →
    ∀ table, draft.statement = some (.table table) → table.IsKeyless
  /-- The key has its form once it was read. -/
  form : count = 1 → draft.key.isPrimary = false →
    ∀ table, draft.statement = some (.table table) → table.HasOneKey
  /-- A column declares itself as the key. -/
  column : count = 1 → state.isAfterKey = true →
    ∀ table, draft.statement = some (.table table) →
      table.IsColumnKey (table.columns.length - 1)

section Steps

variable {count : Nat} {state target : State} {draft after : Draft} {token : Token}
  {rest : List Token}

namespace Draft.HasKeyForm

/-- Only the key of the table and the key list that is being read matter. -/
theorem congr (h : draft.HasKeyForm count state)
    (same : ∀ other, after.statement = some (.table other) →
      ∃ table, draft.statement = some (.table table) ∧ other.primaryKey = table.primaryKey ∧
        other.notes = table.notes)
    (primary : after.key.isPrimary = draft.key.isPrimary)
    (later : target.isAfterKey = true → state.isAfterKey = true) :
    after.HasKeyForm count target where
  unread := fun none => by
    obtain ⟨unread, before⟩ := h.unread none
    refine ⟨primary.trans unread, ?_⟩
    rw [← Bool.not_eq_true]
    exact fun reached => Bool.false_ne_true (before.symm.trans (later reached))
  keyless := fun none other found => by
    obtain ⟨table, old, key, notes⟩ := same other found
    exact (h.keyless none table old).congr key notes
  pending := fun one reading other found => by
    obtain ⟨table, old, key, notes⟩ := same other found
    exact (h.pending one (primary ▸ reading) table old).congr key notes
  form := fun one read other found => by
    obtain ⟨table, old, key, notes⟩ := same other found
    exact (h.form one (primary ▸ read) table old).congr key notes
  column := fun one reached other found => by
    obtain ⟨table, old, key, notes⟩ := same other found
    have length : other.columns.length = table.columns.length := by
      simpa [Table.notes] using congrArg List.length notes
    rw [length]
    exact (h.column one (later reached) table old).congr key notes

/-- A change of the table that keeps key and notes keeps the form of the key. -/
theorem changeTable {f : Table → Table} (h : draft.HasKeyForm count state)
    (changed : draft.changeTable f = some after)
    (keeps : ∀ table, (f table).primaryKey = table.primaryKey ∧ (f table).notes = table.notes)
    (later : target.isAfterKey = true → state.isAfterKey = true) :
    after.HasKeyForm count target := by
  obtain ⟨table, found, rfl⟩ := changeTable_eq_some changed
  refine h.congr ?_ rfl later
  rintro _ ⟨⟩
  exact ⟨table, found, keeps table⟩

/-- A change of the last column that keeps its notes keeps the form of the key. -/
theorem changeColumn {f : Column → Column} (h : draft.HasKeyForm count state)
    (changed : draft.changeColumn f = some after) (keeps : ∀ c, (f c).notes = c.notes)
    (later : target.isAfterKey = true → state.isAfterKey = true) :
    after.HasKeyForm count target := by
  obtain ⟨table, found, -, rfl⟩ := changeColumn_eq_some changed
  refine h.congr ?_ rfl later
  rintro _ ⟨⟩
  exact ⟨table, found, rfl, Table.notes_modifyColumn keeps⟩

/-- The column that declares the key says more about it. -/
theorem changeKey {f : Column → Column} (h : draft.HasKeyForm count state)
    (changed : draft.changeColumn f = some after) (reached : state.isAfterKey = true)
    (keeps : ∀ c, (f c).notes.tableDesc = c.notes.tableDesc) :
    after.HasKeyForm count target := by
  obtain ⟨table, found, -, rfl⟩ := changeColumn_eq_some changed
  have ne (none : count = 0) : False :=
    Bool.false_ne_true ((h.unread none).2.symm.trans reached)
  have column (one : count = 1) : (table.modifyColumn (table.columns.length - 1) f).IsColumnKey
      (table.columns.length - 1) := (h.column one reached table found).modifyColumn keeps
  refine ⟨fun none => (ne none).elim, fun none => (ne none).elim, ?_, ?_, ?_⟩
  · intro one reading
    have keyless := (h.pending one reading table found).key
    rw [(h.column one reached table found).key] at keyless
    exact absurd keyless (by simp)
  · rintro one - _ ⟨⟩
    exact .inl ⟨_, column one⟩
  · rintro one - _ ⟨⟩
    rw [length_modifyColumn]
    exact column one

/-- A key list that is complete gives the key its form. -/
theorem finishKey (h : draft.HasKeyForm count state)
    (finished : draft.finishKey = (after, none)) :
    after.HasKeyForm count (.constraint .done) := by
  obtain ⟨table, entered, found, rfl, cases⟩ := finishKey_eq_none finished
  rcases cases with ⟨reading, members, entering, rfl⟩ | ⟨read, rfl⟩
  · refine ⟨fun none => ?_, fun none => ?_, by simp, ?_, fun _ reached => ?_⟩
    · exact absurd (reading.symm.trans (h.unread none).1) (by simp)
    · exact absurd (reading.symm.trans (h.unread none).1) (by simp)
    · rintro one - _ ⟨⟩
      have formed := (h.pending one reading table found).hasOneKey_enterKey entering
      exact Table.HasOneKey.congr (by exact rfl) (by exact rfl) formed
    · exact absurd reached Bool.false_ne_true
  · refine h.congr ?_ read.symm fun reached => absurd reached Bool.false_ne_true
    rintro _ ⟨⟩
    refine ⟨table, found, ?_⟩
    obtain ⟨i, -, put⟩ | ⟨-, put⟩ := Draft.enterUnique_cases draft.key table <;> rw [put]
    · exact ⟨rfl, Table.notes_modifyColumn (by exact fun _ => rfl)⟩
    · exact ⟨rfl, rfl⟩

/-- A table that has just been begun has no key. -/
theorem beginTable {s : OpeningState} (h : draft.HasKeyForm count (.opening s)) :
    ({ draft with
        statement := some (.table { Table.new "" with isTemporary := draft.temporary }) } :
      Draft).HasKeyForm count (.tableName .begun) := by
  have keyless : { Table.new "" with isTemporary := draft.temporary }.IsKeyless :=
    ⟨rfl, by simp [Table.notes, Table.new]⟩
  refine ⟨fun none => ⟨(h.unread none).1, rfl⟩, ?_, ?_, ?_, by simp [State.isAfterKey]⟩
  · rintro - _ ⟨⟩
    exact keyless
  · rintro - - _ ⟨⟩
    exact keyless
  · rintro - - _ ⟨⟩
    exact .inr ⟨false, keyless.isListKey false⟩

/-- A new column is no member of the key. -/
theorem addColumn {name : String} (h : draft.HasKeyForm count (.column .begun))
    (keys : ∀ table, draft.statement = some (.table table) → table.HasKeys)
    (changed : { draft with typeTokens := [] }.changeTable (fun table =>
      { table with columns := table.columns ++ [Column.new name] }) = some after) :
    after.HasKeyForm count (.column .type) := by
  obtain ⟨table, found, rfl⟩ := changeTable_eq_some changed
  refine ⟨fun none => ⟨(h.unread none).1, rfl⟩, ?_, ?_, ?_, by simp [State.isAfterKey]⟩
  · rintro none _ ⟨⟩
    exact (h.keyless none table found).addColumn name
  · rintro one reading _ ⟨⟩
    exact (h.pending one reading table found).addColumn name
  · rintro one read _ ⟨⟩
    exact (h.form one read table found).addColumn (keys table found) name

/-- The first clause, at a column: the column is the key. -/
theorem beginKey {table : Table} (h : draft.HasKeyForm count (.column .primary))
    (found : draft.statement = some (.table table)) (ne : table.columns ≠ [])
    (changed : draft.changeTable (·.setKeyMember (table.columns.length - 1) true) = some after) :
    after.HasKeyForm (count + 1) (.column .primaryKey) := by
  obtain ⟨_, same, rfl⟩ := changeTable_eq_some changed
  obtain rfl := table_unique found same
  have old := Nat.sub_one_lt (mt List.length_eq_zero_iff.1 ne)
  have column (one : count + 1 = 1) :=
    (h.keyless (Nat.succ.inj one) _ found).setKeyMember old
  refine ⟨fun none => absurd none (Nat.succ_ne_zero count),
    fun none => absurd none (Nat.succ_ne_zero count), ?_, ?_, ?_⟩
  · intro one reading
    exact absurd (reading.symm.trans (h.unread (Nat.succ.inj one)).1) (by simp)
  · rintro one - _ ⟨⟩
    exact .inl ⟨_, column one⟩
  · rintro one - _ ⟨⟩
    rw [Table.length_setKeyMember]
    exact column one

/-- The first clause, at a key list: the list is read while there is no key. -/
theorem openPrimary (h : draft.HasKeyForm count (.constraint .primary)) :
    ({ draft with key := { isPrimary := true } } : Draft).HasKeyForm (count + 1)
      (.constraint .primaryKey) where
  unread none := absurd none (Nat.succ_ne_zero count)
  keyless none := absurd none (Nat.succ_ne_zero count)
  pending one _ := h.keyless (Nat.succ.inj one)
  form _ read := absurd read (by simp)
  column _ reached := absurd reached Bool.false_ne_true

/-- A unique list does not touch the key; a key list that was being read was empty. -/
theorem openUnique (h : draft.HasKeyForm count (.constraint .done)) :
    ({ draft with key := {} } : Draft).HasKeyForm count (.constraint .unique) where
  unread _ := ⟨rfl, rfl⟩
  keyless := h.keyless
  pending _ reading := absurd reading (by simp)
  form := by
    intro one _ table found
    cases reading : draft.key.isPrimary with
    | true => exact .inr ⟨false, (h.pending one reading table found).isListKey false⟩
    | false => exact h.form one reading table found
  column _ reached := absurd reached Bool.false_ne_true

end Draft.HasKeyForm

/-- What is complete keeps the form of the key. -/
theorem Settles.keyForm (h : Settles state draft target after)
    (form : draft.HasKeyForm count state) :
    after.HasKeyForm count target := by
  have same (table : Table) (found : draft.statement = some (.table table)) :
      ∃ t, draft.statement = some (.table t) ∧ table.primaryKey = t.primaryKey ∧
        table.notes = t.notes := ⟨table, found, rfl, rfl⟩
  have reopened (s : State) : (draft.openReference .column).HasKeyForm count s ↔
      draft.HasKeyForm count s :=
    ⟨fun h => ⟨h.1, h.2, h.3, h.4, h.5⟩, fun h => ⟨h.1, h.2, h.3, h.4, h.5⟩⟩
  cases h with
  | refl => exact form
  | column | constraint | firstConstraint =>
      exact form.congr same rfl (by simp [State.isAfterKey])
  | key finished => exact form.finishKey finished
  | @columnReference s draft after settled owner finished =>
      exact ((reopened _).2 form).changeColumn (finishReference_column owner finished)
        (fun _ => rfl) (by simp [State.isAfterKey])
  | @tableReference s draft after columns settled owner finished =>
      refine ((reopened _).2 form).changeTable (finishReference_table owner finished)
        (fun table => ?_) (by simp [State.isAfterKey])
      obtain ⟨i, -, put⟩ | ⟨-, put⟩ := Draft.enterForeignKey_cases _ _ table <;> rw [put]
      · exact ⟨rfl, Table.notes_modifyColumn (by exact fun _ => rfl)⟩
      · exact ⟨rfl, rfl⟩

/-- Where the draft stays as it is, the words `PRIMARY KEY` are not read. -/
theorem isAfterKey_passes (passes : state.passes target = true) :
    (target.isAfterKey = true → state.isAfterKey = true) ∧ target.opensKey = false := by
  revert passes
  fun_cases State.passes state target <;> intro passes <;> first
    | exact ⟨id, rfl⟩
    | exact ⟨fun reached => absurd reached Bool.false_ne_true, rfl⟩
    | exact absurd passes Bool.false_ne_true
    | obtain rfl := beq_iff_eq.1 passes
      rename_i owner
      cases owner <;> exact ⟨id, rfl⟩

/-- **Every token that is taken keeps the form of the key**, or begins a clause. -/
theorem Takes.keyForm (h : Takes token rest state draft target after)
    (keys : ∀ table, draft.statement = some (.table table) → table.HasKeys)
    (form : draft.HasKeyForm count state) :
    after.HasKeyForm (count + if target.opensKey then 1 else 0) target := by
  have same (other : Table) (found : draft.statement = some (.table other)) :
      ∃ table, draft.statement = some (.table table) ∧ other.primaryKey = table.primaryKey ∧
        other.notes = table.notes := ⟨other, found, rfl, rfl⟩
  have closed (no : target.opensKey = false) (h : after.HasKeyForm count target) :
      after.HasKeyForm (count + if target.opensKey then 1 else 0) target := by
    rwa [no, if_neg Bool.false_ne_true]
  have inside : ({ draft with body := [], depth := draft.depth - 1 } : Draft).HasKeyForm count
      state := form.congr same rfl id
  cases h with
  | pass passes =>
      obtain ⟨later, no⟩ := isAfterKey_passes passes
      exact closed no (form.congr same rfl later)
  | beginTable => exact closed rfl form.beginTable
  | beginIndex =>
      refine closed rfl (form.congr ?_ rfl (by simp [State.isAfterKey]))
      rintro _ ⟨⟩
  | nameTable _ _ changed | guardTable changed | tableSchema changed | strict _ changed
  | withoutRowid changed =>
      exact closed rfl (form.changeTable changed (fun _ => ⟨rfl, rfl⟩) (by simp [State.isAfterKey]))
  | nameIndex _ _ changed | guardIndex changed | indexSchema changed | indexTable _ changed
  | terms _ changed | predicate _ _ changed =>
      obtain ⟨index, -, rfl⟩ := changeIndex_eq_some changed
      refine closed rfl (form.congr ?_ rfl (by simp [State.isAfterKey]))
      rintro _ ⟨⟩
  | addColumn _ _ changed => exact closed rfl (form.addColumn keys changed)
  | @extendType s target draft after taken changed =>
      have no : (State.column target).opensKey = false ∧
          (State.column target).isAfterKey = false := by
        cases taken <;> exact ⟨rfl, rfl⟩
      have typed :
          ({ draft with typeTokens := draft.typeTokens ++ [token] } : Draft).HasKeyForm count
            (.column s) := form.congr same rfl id
      exact closed no.1 (typed.changeColumn changed (fun _ => rfl) (by simp [no.2]))
  | beginKey found ne changed => exact form.beginKey found ne changed
  | orderKey changed => exact closed rfl (form.changeKey changed rfl fun _ => rfl)
  | @autoincrement s draft after place changed =>
      refine closed rfl (form.changeKey changed ?_ fun _ => rfl)
      rcases ColumnState.eq_of_isAfterKey place with rfl | rfl | rfl <;> rfl
  | resolveKey changed =>
      exact closed rfl (form.changeTable changed (fun _ => ⟨rfl, rfl⟩) fun _ => rfl)
  | notNull changed | collate _ changed | resolveNotNull changed | unique changed
  | resolveUnique changed | default _ changed | storage changed =>
      exact closed rfl (form.changeColumn changed (fun _ => rfl) (by simp [State.isAfterKey]))
  | openBody opens =>
      cases opens <;> exact closed rfl (form.congr same rfl (by simp [State.isAfterKey]))
  | body isBody taken =>
      obtain ⟨depth, -, rfl⟩ := takeBody_eq_none taken
      refine closed ?_ (form.congr same rfl id)
      rcases State.eq_of_isBody isBody with rfl | rfl | rfl <;> rfl
  | check closes taken changed =>
      obtain ⟨-, -, -, rfl⟩ := takeBody_eq_some taken
      cases closes <;>
        exact closed rfl (inside.changeTable changed (fun _ => ⟨rfl, rfl⟩)
          (by simp [State.isAfterKey]))
  | generated taken changed =>
      obtain ⟨-, -, -, rfl⟩ := takeBody_eq_some taken
      exact closed rfl (inside.changeColumn changed (fun _ => rfl) (by simp [State.isAfterKey]))
  | openPrimary => exact form.openPrimary
  | openUnique => exact closed rfl form.openUnique
  | keyCollate _ changed | keyOrder _ changed =>
      obtain ⟨-, rfl⟩ := changeLastPart_eq_some changed
      exact closed rfl (form.congr same rfl (by simp [State.isAfterKey]))
  | @keyConflict draft after action finished =>
      have resolved : ({ draft with key := { draft.key with conflict := some action } } :
          Draft).HasKeyForm count (.constraint .keyConflict) := form.congr same rfl id
      exact closed rfl (resolved.finishKey finished)
  | _ => exact closed rfl (form.congr same rfl (by simp [State.isAfterKey]))

end Steps

end SchemaText
