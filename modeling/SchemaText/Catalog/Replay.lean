import SchemaText.Catalog.Execute
import SchemaText.Rename.Retarget

/-!
# Replaying an index

An index of a table is created again on another table, with its columns renamed.

## Main definitions

* `Catalog.Replay`: the statement that was executed, and the catalogue after it.
* `Catalog.replay`: replays an index unless it uses a dropped column.

-/

namespace SchemaText

namespace Catalog

/-- An index that has been created again. -/
structure Replay where
  /-- The statement that was executed. -/
  sql : String
  /-- The catalogue after it. -/
  catalog : Catalog
  deriving DecidableEq, Repr

/-- Creates an index on a table, with its columns renamed; nothing if it uses a column that
the map drops. -/
def replay (catalog : Catalog) (index : Index) (table : String) (map : RenameMap) :
    Except CatalogError (Option Replay) :=
  let moved := index.retarget table map
  match moved.fault with
  | some _ => .ok none
  | none =>
    match catalog.execute moved.value.sql with
    | .ok after => .ok (some ⟨moved.value.sql, after⟩)
    | .error reason => .error reason

/-- The keys of the index that was created. -/
def Replay.keys (replay : Replay) (index : Index) : List KeyEntry :=
  ((replay.catalog.index? index.name).map (·.keys)).getD []

end Catalog

end SchemaText
