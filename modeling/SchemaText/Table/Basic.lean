import SchemaText.Table.Column

/-!
# Tables

A table as a `CREATE TABLE` statement defines it.

The primary key is a list of positions in the list of columns, in key order.

## Main definitions

* `KeyPart`, `UniqueKey`, `ForeignKey`: the constraints of a table.
* `Table`: a table, with `Table.new`.
* `Table.columnIndex?`, `Table.column?`: columns by name, in any case.
* `Table.setKeyMember`: puts a column into the primary key or takes it out.
* `Table.inlineKey?`: the key column that is declared as such in its own definition.

## Main results

* `Table.primaryKey_setKeyMember_true`, `Table.primaryKey_setKeyMember_false`: what happens
  to the key list.
* `Table.length_setKeyMember`: the columns stay.
-/

namespace SchemaText

/-- A column in a key list. -/
structure KeyPart where
  /-- The name of the column. -/
  name : String
  /-- The collation, if one is named. -/
  collation : Option String := none
  /-- Whether the order is descending. -/
  descending : Bool := false
  deriving DecidableEq, Repr

/-- A `UNIQUE` constraint of a table that is no constraint of a single column. -/
structure UniqueKey where
  /-- The columns in key order. -/
  columns : List KeyPart
  /-- The conflict clause, if there is one. -/
  onConflict : Option ConflictAction
  deriving DecidableEq, Repr

/-- A `FOREIGN KEY` constraint of a table that is no constraint of a single column. -/
structure ForeignKey where
  /-- The child columns. -/
  columns : List String
  /-- What they refer to. -/
  references : Reference
  deriving DecidableEq, Repr

/-- A table. -/
structure Table where
  /-- Whether the table is temporary. -/
  isTemporary : Bool := false
  /-- Whether the statement says `IF NOT EXISTS`. -/
  ifNotExists : Bool := false
  /-- The schema that qualifies the name, if any. -/
  schema : Option String := none
  /-- The name. -/
  name : String
  /-- The columns in the order of their definitions. -/
  columns : List Column := []
  /-- The positions of the key columns, in key order. -/
  primaryKey : List Nat := []
  /-- The conflict clause of the primary key, if there is one. -/
  keyConflict : Option ConflictAction := none
  /-- The unique keys. -/
  uniques : List UniqueKey := []
  /-- The foreign keys. -/
  foreignKeys : List ForeignKey := []
  /-- The `CHECK` conditions as SQL text, those of columns included. -/
  checks : List String := []
  /-- Whether rows have an implicit number. -/
  hasRowid : Bool := true
  /-- Whether types are enforced. -/
  isStrict : Bool := false
  deriving DecidableEq, Repr

namespace Table

/-- A table with no columns. -/
def new (name : String) : Table where
  name := name

/-! ### Columns by name -/

/-- The position of the first column of this name, in any case. -/
def columnIndex? (table : Table) (name : String) : Option Nat :=
  table.columns.findIdx? (·.isNamed name)

/-- The first column of this name, in any case. -/
def column? (table : Table) (name : String) : Option Column :=
  table.columns.find? (·.isNamed name)

/-- The column names in the order of their definitions. -/
def columnNames (table : Table) : List String :=
  table.columns.map (·.name)

/-- The table with one column changed; a position out of range changes nothing. -/
def modifyColumn (table : Table) (index : Nat) (f : Column → Column) : Table :=
  { table with columns := table.columns.modify index f }

/-! ### The primary key -/

/-- The key columns in key order. -/
def keyColumns (table : Table) : List Column :=
  table.primaryKey.filterMap (table.columns[·]?)

/-- Puts the column at a position into the primary key, at its end, or takes it out. A
position out of range changes nothing. -/
def setKeyMember (table : Table) (index : Nat) (member : Bool) : Table :=
  if index < table.columns.length then
    { table with
      columns := Column.markWhole (table.columns.modify index (Column.withKeyMember member))
      primaryKey :=
        if member then
          if table.primaryKey.contains index then table.primaryKey
          else table.primaryKey ++ [index]
        else
          table.primaryKey.filter (· != index) }
  else
    table

/-- The position of the key column whose own definition declares the key: the only member,
if it is `AUTOINCREMENT` or declares itself as descending. As an entry of a key list, a
descending `INTEGER` column would become another name for the row number. -/
def inlineKey? (table : Table) : Option Nat :=
  match table.primaryKey with
  | [index] =>
    if table.columns[index]?.any fun column => column.autoincrement || column.columnDesc then
      some index
    else
      none
  | _ => none

/-! ### Basic reductions -/

/-- A position out of range changes nothing. -/
theorem setKeyMember_of_le {table : Table} {index : Nat} (h : table.columns.length ≤ index)
    (member : Bool) : table.setKeyMember index member = table := by
  simp [setKeyMember, Nat.not_lt.2 h]

/-- What an edit at a position in range changes, all at once. -/
theorem setKeyMember_of_lt {table : Table} {index : Nat} (h : index < table.columns.length)
    (member : Bool) : table.setKeyMember index member =
      { table with
        columns := Column.markWhole (table.columns.modify index (Column.withKeyMember member))
        primaryKey :=
          if member then
            if table.primaryKey.contains index then table.primaryKey
            else table.primaryKey ++ [index]
          else
            table.primaryKey.filter (· != index) } :=
  if_pos h

/-- An edit of the key adds and removes no column. -/
@[simp] theorem length_setKeyMember (table : Table) (index : Nat) (member : Bool) :
    (table.setKeyMember index member).columns.length = table.columns.length := by
  rcases Nat.lt_or_ge index table.columns.length with old | out
  · simp [setKeyMember_of_lt old]
  · rw [setKeyMember_of_le out]

/-- Only the column at the position has its membership changed, and all are marked anew. -/
theorem columns_setKeyMember {table : Table} {index : Nat} (h : index < table.columns.length)
    (member : Bool) : (table.setKeyMember index member).columns =
      Column.markWhole (table.columns.modify index (Column.withKeyMember member)) := by
  rw [setKeyMember_of_lt h]

/-- A column joins the key at its end, unless it is in it already. -/
theorem primaryKey_setKeyMember_true {table : Table} {index : Nat}
    (h : index < table.columns.length) :
    (table.setKeyMember index true).primaryKey =
      if table.primaryKey.contains index then table.primaryKey
      else table.primaryKey ++ [index] := by
  rw [setKeyMember_of_lt h, if_pos rfl]

/-- A column leaves the key wherever it stands in it. -/
theorem primaryKey_setKeyMember_false {table : Table} {index : Nat}
    (h : index < table.columns.length) :
    (table.setKeyMember index false).primaryKey = table.primaryKey.filter (· != index) := by
  rw [setKeyMember_of_lt h, if_neg Bool.false_ne_true]

end Table

end SchemaText
