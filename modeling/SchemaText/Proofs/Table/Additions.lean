import SchemaText.Proofs.Statement.Parallel
import SchemaText.Proofs.Table.KeyForm
import SchemaText.Proofs.Table.ReferenceCount

/-!
# Constraints that a single column gets

A reference, a unique key or the primary key of a single column can be declared in the
definition of the column or for the table as a whole. Either way the same is noted about the
column. What the definitions of later columns note is noted elsewhere, so that it does not
matter whether it is noted before or after.

## Main definitions

* `Addition`: what a column gets, and `Addition.apply`: the table with it.
* `Addition.Fits`: the column has nothing of the kind yet.
* `Addition.Earlier`: a table and the same one with an addition to a column before the last.

## Main results

* `Addition.keptByColumns`, `Addition.keptByKeys`: **additions do not meet** the definitions of
  later columns.
* `Table.setKeyMember_of_isKeyless`: the first member of the key.
* `Addition.enterForeignKey_eq`, `Addition.enterUnique_eq`, `Addition.enterKey_eq`: **what is
  declared for the table** is noted about the column.
-/

namespace SchemaText

variable {table other : Table} {column : Column} {i : Nat} {name : String}

/-! ### Changes of one column -/

/-- A change of an entry does not meet what is appended. -/
theorem modify_append_of_lt {α : Type} {f : α → α} {l l' : List α} (old : i < l.length) :
    (l ++ l').modify i f = l.modify i f ++ l' := by
  refine List.ext_getElem? fun j => ?_
  have length : (l.modify i f).length = l.length := List.length_modify ..
  by_cases before : j < l.length
  · rw [List.getElem?_modify, List.getElem?_append_left before,
      List.getElem?_append_left (length ▸ before), List.getElem?_modify]
  · have later : i ≠ j := by omega
    rw [List.getElem?_modify_ne _ _ later, List.getElem?_append_right (Nat.not_lt.1 before),
      List.getElem?_append_right (length ▸ Nat.not_lt.1 before), length]

/-- Only the column that is changed matters. -/
theorem Table.modifyColumn_congr {f g : Column → Column}
    (same : ∀ column, table.columns[i]? = some column → f column = g column) :
    table.modifyColumn i f = table.modifyColumn i g := by
  refine congrArg (fun columns => { table with columns := columns }) (List.ext_getElem? fun j => ?_)
  rw [List.getElem?_modify, List.getElem?_modify]
  by_cases here : i = j
  · subst here
    cases found : table.columns[i]? with
    | none => rfl
    | some column => simp [same column found]
  · simp [here]

/-- A change that changes nothing. -/
theorem Table.modifyColumn_eq_self {f : Column → Column}
    (same : ∀ column, table.columns[i]? = some column → f column = column) :
    table.modifyColumn i f = table := by
  rw [modifyColumn_congr (g := id) same, modifyColumn, List.modify_id]

/-- Two changes of one column. -/
theorem Table.modifyColumn_modifyColumn (table : Table) (f g : Column → Column) :
    (table.modifyColumn i f).modifyColumn i g = table.modifyColumn i (g ∘ f) :=
  congrArg (fun columns => { table with columns := columns }) (List.modify_modify_eq f g i _)

/-- Which column is the whole key is noted before or after a change that leaves the key. -/
theorem markWhole_modify {f : Column → Column} {columns : List Column}
    (apart : ∀ c, (f c).inKey = c.inKey)
    (whole : ∀ c w, f { c with isWholeKey := w } = { f c with isWholeKey := w }) :
    Column.markWhole (columns.modify i f) = (Column.markWhole columns).modify i f := by
  have count : (columns.modify i f).countP (·.inKey) = columns.countP (·.inKey) := by
    have same := congrArg (List.countP id) (map_modify_eq apart columns i)
    rwa [List.countP_map, List.countP_map] at same
  refine List.ext_getElem? fun j => ?_
  rw [Column.getElem?_markWhole, count, List.getElem?_modify, List.getElem?_modify,
    Column.getElem?_markWhole]
  cases columns[j]? with
  | none => rfl
  | some c =>
      have marked (w : Bool) : f { c with isWholeKey := c.inKey && w } =
          { f c with isWholeKey := (f c).inKey && w } := by rw [apart, whole]
      by_cases here : i = j <;> simp [here, marked]

/-! ### Additions -/

/-- A constraint that a single column gets. -/
inductive Addition
  /-- The column refers to a parent table. -/
  | reference (reference : Reference)
  /-- The column is unique, with this conflict clause. -/
  | unique (conflict : Option ConflictAction)
  /-- The column is the primary key, with this conflict clause. -/
  | key (autoincrement : Bool) (conflict : Option ConflictAction)

namespace Addition

/-- The column with the addition. -/
def mark : Addition → Column → Column
  | reference r, column => { column with references := some r }
  | unique conflict, column => { column with unique := true, uniqueConflict := conflict }
  | key autoincrement _, column =>
    { column with inKey := true, isWholeKey := true, autoincrement := autoincrement }

/-- The table with the addition to the column at a position. -/
def apply (addition : Addition) (i : Nat) (table : Table) : Table :=
  match addition with
  | key _ conflict =>
    { table.modifyColumn i addition.mark with
      primaryKey := [i], keyConflict := conflict.or table.keyConflict }
  | _ => table.modifyColumn i addition.mark

/-- The column has nothing of the kind yet. Of the key nothing is said here. -/
def Fits : Addition → Column → Prop
  | reference _, column => column.references = none
  | unique _, column => column.uniqueConflict = none
  | key _ _, _ => True

/-- Whether the addition is the primary key. -/
def isKey : Addition → Bool
  | key _ _ => true
  | _ => false

/-- A table, and the same one with the addition to a column that is not the last. -/
structure Earlier (addition : Addition) (i : Nat) (table other : Table) : Prop where
  /-- The column is not the last. -/
  before : i + 1 < table.columns.length
  /-- The column has nothing of the kind yet. -/
  fits : ∀ column, table.columns[i]? = some column → addition.Fits column
  /-- The other table has the addition. -/
  added : other = addition.apply i table

variable (addition : Addition)

/-- An addition marks one column and leaves the others alone. -/
theorem columns_apply (table : Table) :
    (addition.apply i table).columns = table.columns.modify i addition.mark := by
  cases addition <;> rfl

/-- An addition adds no column. -/
theorem length_apply (table : Table) :
    (addition.apply i table).columns.length = table.columns.length := by
  rw [columns_apply, List.length_modify]

/-- An addition renames no column. -/
theorem columnNames_apply (table : Table) :
    (addition.apply i table).columnNames = table.columnNames := by
  rw [Table.columnNames, columns_apply]
  exact map_modify_eq (fun c => by cases addition <;> rfl) _ _

/-- Other columns are changed before or after. -/
theorem apply_columns {columns : List Column} (table : Table) :
    addition.apply i { table with columns := columns } =
      { addition.apply i table with columns := columns.modify i addition.mark } := by
  cases addition <;> rfl

/-- An addition may be made before or after the conditions are set. -/
theorem apply_checks {checks : List String} (table : Table) :
    addition.apply i { table with checks := checks } =
      { addition.apply i table with checks := checks } := by
  cases addition <;> rfl

/-- An addition changes no condition. -/
theorem checks_apply (table : Table) : (addition.apply i table).checks = table.checks := by
  cases addition <;> rfl

variable {addition}

/-- A column joins the table. -/
theorem earlier_addColumn (last : i + 1 ≤ table.columns.length)
    (fits : ∀ column, table.columns[i]? = some column → addition.Fits column)
    (column : Column) :
    addition.Earlier i { table with columns := table.columns ++ [column] }
      { addition.apply i table with
        columns := (addition.apply i table).columns ++ [column] } where
  before := by simp; omega
  fits := fun found position =>
    fits found (by rwa [List.getElem?_append_left last] at position)
  added := by
    refine ((addition.apply_columns table).trans ?_).symm
    rw [modify_append_of_lt last, columns_apply]

/-- **The definitions of later columns** do not meet an addition. -/
theorem keptByColumns : KeptByColumns (addition.Earlier i) where
  length related := by rw [related.added, length_apply]
  add related column := by
    obtain ⟨before, fits, rfl⟩ := related
    exact earlier_addColumn (Nat.le_of_lt before) fits column
  change := by
    rintro table _ ⟨before, fits, rfl⟩ f
    have apart : i ≠ table.columns.length - 1 := by omega
    refine ⟨by rwa [length_modifyColumn], fun column found => fits column ?_, ?_⟩
    · change (table.columns.modify _ f)[i]? = some column at found
      rwa [List.getElem?_modify_ne _ _ apart.symm] at found
    · refine ((addition.apply_columns table).trans ?_).symm
      rw [length_apply, List.modify_modify_ne _ _ _ apart.symm, ← columns_apply]
      rfl
  check := by
    rintro table _ ⟨before, fits, rfl⟩ condition
    refine ⟨before, fits, ((addition.apply_checks table).trans ?_).symm⟩
    rw [checks_apply]

/-- **The key of a later column** does not meet an addition that is no key. -/
theorem keptByKeys (notKey : addition.isKey = false) : KeptByKeys (addition.Earlier i) where
  declare := by
    rintro table _ ⟨before, fits, rfl⟩
    have apart : i ≠ table.columns.length - 1 := by omega
    have last : table.columns.length - 1 < table.columns.length := by omega
    refine ⟨by rwa [Table.length_setKeyMember], fun column found => ?_, ?_⟩
    · rw [Table.columns_setKeyMember last, Column.getElem?_markWhole,
        List.getElem?_modify_ne _ _ apart.symm] at found
      obtain ⟨old, position, rfl⟩ := Option.map_eq_some_iff.1 found
      have held := fits old position
      cases addition <;> exact held
    · have marks (columns : List Column) : Column.markWhole (columns.modify i addition.mark) =
          (Column.markWhole columns).modify i addition.mark := by
        cases addition with
        | key => exact absurd notKey (by simp [isKey])
        | reference | unique => exact markWhole_modify (fun _ => rfl) fun _ _ => rfl
      have key : (addition.apply i table).primaryKey = table.primaryKey := by
        cases addition with
        | key => exact absurd notKey (by simp [isKey])
        | reference | unique => rfl
      have still : table.columns.length - 1 < (addition.apply i table).columns.length := by
        rwa [length_apply]
      rw [length_apply, Table.setKeyMember_of_lt still, key, columns_apply,
        List.modify_modify_ne _ _ _ apart, marks, Table.setKeyMember_of_lt last]
      cases addition with
      | key => exact absurd notKey (by simp [isKey])
      | reference | unique => rfl
  resolve := by
    rintro table _ ⟨before, fits, rfl⟩ action
    refine ⟨before, fits, ?_⟩
    cases addition with
    | key => exact absurd notKey (by simp [isKey])
    | reference | unique => rfl

end Addition

/-! ### The first member of the key -/

/-- What a column says about the key in a table without one. -/
theorem Table.IsKeyless.blank_column (keyless : table.IsKeyless)
    (found : table.columns[i]? = some column) :
    column.inKey = false ∧ column.isWholeKey = false ∧ column.columnDesc = false ∧
      column.tableDesc = false ∧ column.autoincrement = false := by
  have blank := keyless.blank column.notes
    (List.mem_map_of_mem (List.mem_of_getElem? found))
  exact ⟨congrArg KeyNotes.inKey blank, congrArg KeyNotes.isWholeKey blank,
    congrArg KeyNotes.columnDesc blank, congrArg KeyNotes.tableDesc blank,
    congrArg KeyNotes.autoincrement blank⟩

/-- The column as the whole key. -/
def Column.asKey (column : Column) : Column :=
  { column with inKey := true, isWholeKey := true }

/-- The table with the column at a position as its whole key. -/
def Table.keyedBy (table : Table) (i : Nat) : Table :=
  { table.modifyColumn i Column.asKey with primaryKey := [i] }

/-- **The first member of the key** is the whole key. -/
theorem Table.setKeyMember_of_isKeyless (keyless : table.IsKeyless)
    (old : i < table.columns.length) : table.setKeyMember i true = table.keyedBy i := by
  have none : table.columns.countP (·.inKey) = 0 := by
    rw [List.countP_eq_zero]
    intro c member
    obtain ⟨j, found⟩ := List.mem_iff_getElem?.1 member
    simp [(keyless.blank_column found).1]
  have count : (table.columns.modify i (Column.withKeyMember true)).countP (·.inKey) = 1 := by
    rw [countP_modify (List.getElem?_eq_getElem old)
      (keyless.blank_column (List.getElem?_eq_getElem old)).1 rfl, none]
  have columns : Column.markWhole (table.columns.modify i (Column.withKeyMember true)) =
      table.columns.modify i Column.asKey := by
    refine List.ext_getElem? fun j => ?_
    rw [Column.getElem?_markWhole, count, List.getElem?_modify, List.getElem?_modify]
    cases found : table.columns[j]? with
    | none => rfl
    | some c =>
        obtain ⟨inKey, isWholeKey, -⟩ := keyless.blank_column found
        by_cases here : i = j
        · simp [here, Column.withKeyMember, Column.asKey]
        · cases c
          dsimp only at inKey isWholeKey
          subst inKey isWholeKey
          simp [here]
  rw [setKeyMember_of_lt old, columns, keyless.key]
  rfl

/-- The column that is the key has nothing to say about its order and is not `AUTOINCREMENT`. -/
theorem Table.IsKeyless.keyedBy (keyless : table.IsKeyless)
    (found : (table.keyedBy i).columns[i]? = some column) :
    column.columnDesc = false ∧ column.tableDesc = false ∧ column.autoincrement = false := by
  change (table.columns.modify i Column.asKey)[i]? = some column at found
  rw [List.getElem?_modify_eq] at found
  obtain ⟨old, position, rfl⟩ := Option.map_eq_some_iff.1 found
  exact (keyless.blank_column position).2.2

namespace Addition

/-- The key of a column is declared in two steps: the column is the key, and what is said
about the key is noted. -/
theorem apply_key (autoincrement : Bool) (conflict : Option ConflictAction) :
    (key autoincrement conflict).apply i table =
      { (table.keyedBy i).modifyColumn i fun c =>
        { c with autoincrement := autoincrement } with
        keyConflict := conflict.or table.keyConflict } :=
  congrArg (fun t : Table =>
      { t with primaryKey := [i], keyConflict := conflict.or t.keyConflict })
    (table.modifyColumn_modifyColumn Column.asKey
      fun c => { c with autoincrement := autoincrement }).symm

/-! ### Constraints of the table -/

variable (known : table.columnIndex? name = some i)

include known

/-- A foreign key of a column that has no reference is its reference. -/
theorem enterForeignKey_eq {r : Reference}
    (fits : ∀ column, table.columns[i]? = some column → column.references = none) :
    Draft.enterForeignKey [name] r table = (reference r).apply i table := by
  obtain ⟨old, -⟩ := List.findIdx?_eq_some_iff_getElem.1 known
  have free : table.columns[i]?.any (·.references.isNone) = true := by
    rw [List.getElem?_eq_getElem old]
    simp [fits _ (List.getElem?_eq_getElem old)]
  have lone : Draft.loneChild? [name] table = some i := by
    simp [Draft.loneChild?, known, free]
  rw [Draft.enterForeignKey, lone]
  rfl

/-- A unique key with nothing but a column makes it unique. -/
theorem enterUnique_eq {key : PendingKey} (columns : key.columns = [⟨name, none, false⟩]) :
    Draft.enterUnique key table = (unique key.conflict).apply i table := by
  have lone : Draft.loneColumn? key.columns table = some i := by
    simp [Draft.loneColumn?, columns, known]
  rw [Draft.enterUnique, lone]
  rfl

/-- A primary key with nothing but a column makes it the key. -/
theorem enterKey_eq (keyless : table.IsKeyless) (autoincrement : Bool)
    (conflict : Option ConflictAction) : ∃ entered,
      Draft.enterKey autoincrement [⟨name, none, false⟩] table = (entered, none) ∧
        { entered with keyConflict := conflict.or entered.keyConflict } =
          (key autoincrement conflict).apply i table := by
  obtain ⟨old, -⟩ := List.findIdx?_eq_some_iff_getElem.1 known
  refine ⟨_, by rw [Draft.enterKey, known]; rfl, ?_⟩
  rw [Table.setKeyMember_of_isKeyless keyless old, apply_key]
  have noted : (table.keyedBy i).modifyColumn i (fun c =>
        { c with tableDesc := false, autoincrement := c.autoincrement || autoincrement }) =
      (table.keyedBy i).modifyColumn i fun c => { c with autoincrement := autoincrement } :=
    Table.modifyColumn_congr fun column found => by
      obtain ⟨-, tableDesc, plain⟩ := keyless.keyedBy found
      simp [plain, ← tableDesc]
  exact congrArg (fun t : Table => { t with keyConflict := conflict.or t.keyConflict }) noted

end Addition

end SchemaText
