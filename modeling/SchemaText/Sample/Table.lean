import SchemaText.Text.CaseFold
import SchemaText.Text.Quoted

/-!
# Sample tables

Descriptions of tables from which statements are written for testing. Any description is
allowed: columns that no table could have are left out, and key positions are taken modulo
the number of columns.

## Main definitions

* `SampleType`, `SampleDefault`, `SampleColumn`, `SampleTable`: the descriptions.
* `SampleTable.usableColumns`: the columns that are written.
* `SampleTable.sql?`: the statement, if there is a column to write.

-/

namespace SchemaText

/-- The type of a sample column. -/
inductive SampleType
  | untyped
  | integer
  | text
  | real
  | blob
  | varchar (width : Nat)
  | decimal (precision : Nat) (scale : Int)
  | doublePrecision
  deriving DecidableEq, Repr

/-- The default value of a sample column. -/
inductive SampleDefault
  | null
  | integer (value : Int)
  | text (content : String)
  | sum (first second : Int)
  | currentTimestamp
  deriving DecidableEq, Repr

/-- A sample column. -/
structure SampleColumn where
  /-- The name, which is always written in double quotes. -/
  name : String
  /-- The declared type. -/
  type : SampleType
  /-- Whether the column is `NOT NULL`. -/
  notNull : Bool
  /-- Whether the column is `UNIQUE`. -/
  unique : Bool
  /-- Whether the column is `COLLATE NOCASE`. -/
  nocase : Bool
  /-- The default value, if there is one. -/
  default : Option SampleDefault
  deriving DecidableEq, Repr

/-- A sample table. -/
structure SampleTable where
  /-- The columns, usable or not. -/
  columns : List SampleColumn
  /-- The positions of the key columns, to be taken modulo the number of columns. -/
  primaryKey : List Nat
  /-- Whether the first key column is descending. -/
  descending : Bool
  /-- Whether the table is `WITHOUT ROWID`. -/
  withoutRowid : Bool
  deriving DecidableEq, Repr

/-! ### Columns -/

/-- The type as it is written after the name. -/
def SampleType.sql : SampleType → String
  | untyped => ""
  | integer => " INTEGER"
  | text => " TEXT"
  | real => " REAL"
  | blob => " BLOB"
  | varchar width => " VARCHAR(" ++ toString width ++ ")"
  | decimal precision scale =>
      " DECIMAL(" ++ toString precision ++ ", " ++ toString scale ++ ")"
  | doublePrecision => " DOUBLE PRECISION"

/-- Whether a text holds the character NUL, which no statement can. -/
def Text.holdsNul (s : String) : Bool :=
  s.toList.contains '\x00'

/-- The default value as it is written; none for a text that cannot be written. -/
def SampleDefault.sql? : SampleDefault → Option String
  | null => some "NULL"
  | integer value => some (toString value)
  | text content => if Text.holdsNul content then none else some (Text.enclose '\x27' content)
  | sum first second => some ("(" ++ toString first ++ " + " ++ toString second ++ ")")
  | currentTimestamp => some "CURRENT_TIMESTAMP"

/-- A name in double quotes. -/
def Text.quotedName (name : String) : String :=
  Text.enclose '\x22' name

/-- The definition of a column. -/
def SampleColumn.sql (column : SampleColumn) : String :=
  Text.quotedName column.name ++ column.type.sql
    ++ (if column.notNull then " NOT NULL" else "")
    ++ (if column.unique then " UNIQUE" else "")
    ++ (if column.nocase then " COLLATE NOCASE" else "")
    ++ (column.default.bind SampleDefault.sql?).elim "" (" DEFAULT " ++ ·)

/-! ### Tables -/

namespace SampleTable

/-- Adds a column to those that are written, unless its name is empty, holds NUL or is taken. -/
def addUsable (kept : List SampleColumn) (column : SampleColumn) : List SampleColumn :=
  if column.name.isEmpty || Text.holdsNul column.name
      || kept.any fun other => Text.same other.name column.name then
    kept
  else
    kept ++ [column]

/-- The columns that are written, in order. -/
def usableColumns (table : SampleTable) : List SampleColumn :=
  table.columns.foldl addUsable []

/-- Adds a name to the key, unless it is there already. -/
def addKeyName (names key : List String) (position : Nat) : List String :=
  match names[position % names.length]? with
  | some name => if key.contains name then key else key ++ [name]
  | none => key

/-- The names of the key columns, in key order. -/
def keyNames (table : SampleTable) : List String :=
  table.primaryKey.foldl (addKeyName (table.usableColumns.map (·.name))) []

/-- The key list, if there is a key. -/
def keySql (table : SampleTable) : List String :=
  match table.keyNames with
  | [] => []
  | first :: others =>
    let first := Text.quotedName first ++ if table.descending then " DESC" else ""
    ["PRIMARY KEY (" ++ ", ".intercalate (first :: others.map Text.quotedName) ++ ")"]

/-- The statement that defines the table under a name; none if there is no usable column. -/
def sql? (table : SampleTable) (name : String) : Option String :=
  if table.usableColumns.isEmpty then none
  else
    some <|
      "CREATE TABLE " ++ Text.quotedName name ++ " ("
        ++ ", ".intercalate (table.usableColumns.map SampleColumn.sql ++ table.keySql) ++ ")"
        ++ if table.withoutRowid then " WITHOUT ROWID" else ""

end SampleTable

end SchemaText
