import SchemaText.Catalog.Agreement
import SchemaText.Catalog.Replay
import SchemaText.Sample.Table

/-!
# Sample replays

A sample table with an index on it. The table is rebuilt with every column renamed and
perhaps one dropped, and the index is replayed on the rebuilt table. That has to succeed
unless the index uses the dropped column.

## Main definitions

* `SampleReplay`: the description of a table, an index and a dropped column.
* `SampleReplay.indexSql`, `SampleReplay.renames`: the index, and what becomes of the columns.
* `SampleReplay.usesDropped`: whether the index is on the dropped column.
* `SampleReplay.check`: whether the replay goes as it should.
-/

namespace SchemaText

/-- A sample table with an index that is replayed. -/
structure SampleReplay where
  /-- The table. -/
  table : SampleTable
  /-- The positions of the indexed columns, to be taken modulo the number of columns, each
  with whether the column is indexed in small letters. -/
  keys : List (Nat × Bool)
  /-- The position of the column that the condition tests, if there is a condition. -/
  predicate : Option Nat
  /-- The position of the column that is dropped, if one is. -/
  dropped : Option Nat
  deriving DecidableEq, Repr

/-- What can be wrong with a replay. -/
inductive ReplayFinding
  /-- The index does not parse. -/
  | unreadable (index : String)
  /-- The database refuses the replayed index. -/
  | refused (index : String) (reason : CatalogError)
  /-- The index was replayed though it uses the dropped column, or left out though it does
  not. -/
  | wronglyReplayed (index : String) (replayed : Option String)
  /-- The replayed index has fewer or more keys. -/
  | keyCount (replayed : String)
  deriving DecidableEq, Repr

/-- The finding in words. -/
def ReplayFinding.message : ReplayFinding → String
  | unreadable index => "Catalog index " ++ Text.quoted index ++ " did not parse"
  | refused index reason =>
    "SQLite rejects the replay of " ++ Text.quoted index ++ ": " ++ reason.message
  | wronglyReplayed index replayed =>
    Catalog.unequal
      ("Replay of " ++ Text.quoted index ++ " gave " ++ Text.quotedOption replayed)
  | keyCount replayed => Catalog.unequal ("Replayed " ++ Text.quotedOption (some replayed))

namespace SampleReplay

/-! ### The index -/

/-- The names of the columns. -/
def names (replay : SampleReplay) : List String :=
  replay.table.usableColumns.map (·.name)

/-- The column that a position picks. -/
def pick (replay : SampleReplay) (position : Nat) : Nat :=
  position % replay.names.length

/-- The name of the column that a position picks, in quotes. -/
def pickedName (replay : SampleReplay) (position : Nat) : String :=
  Text.quotedName (replay.names[replay.pick position]?.getD "")

/-- A term of the index. -/
def keySql (replay : SampleReplay) (key : Nat × Bool) : String :=
  if key.2 then "lower(" ++ replay.pickedName key.1 ++ ")" else replay.pickedName key.1

/-- The statement that defines the index. -/
def indexSql (replay : SampleReplay) : String :=
  "CREATE INDEX fuzzed_index ON \"fuzzed\" ("
    ++ ", ".intercalate (replay.keys.map replay.keySql) ++ ")"
    ++ replay.predicate.elim "" fun position =>
      " WHERE " ++ replay.pickedName position ++ " IS NOT NULL"

/-! ### The rebuilt table -/

/-- Whether the column at an index is dropped. -/
def drops (replay : SampleReplay) (index : Nat) : Bool :=
  replay.dropped.any fun position => replay.pick position == index

/-- The name of a column in the rebuilt table. -/
def newName (name : String) : String :=
  "new_" ++ name

/-- The columns of the rebuilt table, under their new names. -/
def keptNames (replay : SampleReplay) : List String :=
  (replay.names.zipIdx.filter fun column => !replay.drops column.2).map (newName ·.1)

/-- What becomes of the columns. -/
def renames (replay : SampleReplay) : RenameMap :=
  replay.names.zipIdx.foldl
    (fun map column =>
      map.insert column.1 (if replay.drops column.2 then .dropped else .renamed (newName column.1)))
    .empty

/-- The statement that defines the rebuilt table. -/
def rebuiltSql (replay : SampleReplay) : String :=
  "CREATE TABLE rebuilt (" ++ ", ".intercalate (replay.keptNames.map Text.quotedName) ++ ")"

/-- Whether a key or the condition of the index is on the dropped column. -/
def usesDropped (replay : SampleReplay) : Bool :=
  replay.keys.any (fun key => replay.drops (replay.pick key.1))
    || replay.predicate.any fun position => replay.drops (replay.pick position)

/-! ### The check -/

/-- Replays an index that the database has accepted on the rebuilt table. -/
def checkReplay (replay : SampleReplay) (catalog : Catalog) : Except ReplayFinding Unit :=
  match (Statement.parse replay.indexSql).toOption.bind Statement.index? with
  | none => .error (.unreadable replay.indexSql)
  | some index =>
    match catalog.replay index "rebuilt" replay.renames with
    | .error reason => .error (.refused replay.indexSql reason)
    | .ok replayed =>
      if replayed.isNone != replay.usesDropped then
        .error (.wronglyReplayed replay.indexSql (replayed.map (·.sql)))
      else
        match replayed with
        | none => .ok ()
        | some done =>
          if (done.keys index).length = replay.keys.length then .ok ()
          else .error (.keyCount done.sql)

/-- Creates the table and its index, rebuilds the table and replays the index. There is
nothing to check where one of the statements cannot be written or is refused. -/
def check (replay : SampleReplay) : Except ReplayFinding Unit :=
  match replay.table.sql? "fuzzed" with
  | none => .ok ()
  | some tableSql =>
    if replay.keys.isEmpty || replay.keptNames.isEmpty then .ok ()
    else
      match Catalog.empty.runAll [tableSql, replay.indexSql, replay.rebuiltSql] with
      | .error _ => .ok ()
      | .ok catalog => replay.checkReplay (catalog.dropIndex "fuzzed_index")

end SampleReplay

end SchemaText
