import SchemaText.Rename.Retarget
import SchemaText.Table.Basic

/-!
# Rebuilding a table

A table is rebuilt under a new name with an edited list of column names. A column that the
edited list leaves out keeps its name but leaves the primary key.

## Main definitions

* `Table.rebuild`: the table under its new name.
* `Index.follow`: an index moved to the rebuilt table.
-/

namespace SchemaText

/-- What the edited list makes of the column at a position. -/
def Table.editColumn (edited : List (Option String)) (index : Nat) (table : Table) : Table :=
  match edited[index]? with
  | some (some name) => table.modifyColumn index fun column => { column with name := name }
  | _ => table.setKeyMember index false

/-- The table under a new name, its columns edited from the last to the first. -/
def Table.rebuild (table : Table) (name : String) (edited : List (Option String)) : Table :=
  (List.range table.columns.length).foldr (Table.editColumn edited) { table with name := name }

/-- An index of a table, moved to the table rebuilt under a new name. -/
def Index.follow (index : Index) (table : Table) (name : String)
    (edited : List (Option String)) : Substituted Index :=
  index.retarget name (.ofPositions table.columns edited)

end SchemaText
