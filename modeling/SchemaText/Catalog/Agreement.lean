import SchemaText.Catalog.Execute
import SchemaText.Statement.Parser

/-!
# Agreement with the catalogue

Two checks of what this library says of a statement against what a database makes of it. A
parsed table has to agree with its entry in the catalogue, column by column. Statements that
are parsed and written again have to make the same columns and indexes as before.

## Main definitions

* `Catalog.Finding`: a disagreement, with `Catalog.Finding.message`.
* `Catalog.headline`: a message without its details.
* `Catalog.checkTable`: whether a parsed table agrees with the catalogue.
* `Catalog.checkWritten`: whether written statements make what the given ones make.

-/

namespace SchemaText

namespace Catalog

/-- A disagreement. -/
inductive Finding
  /-- The statement is no whole table definition. -/
  | notTable (sql : String)
  /-- The database refuses the statement. -/
  | refused
  /-- The columns have other names. -/
  | columnNames (sql : String)
  /-- A column has another type. -/
  | type (column : String)
  /-- A column is `NOT NULL` at one side only. -/
  | notNull (column : String)
  /-- A column has a default value at one side only. -/
  | defaultPresence (column : String)
  /-- A column has another position in the primary key. -/
  | keyPosition (column : String)
  /-- A column is generated at one side only. -/
  | generated (column : String)
  /-- The database accepts a statement that the parser does not. -/
  | unreadable (sql : String) (error : ParseError)
  /-- The database refuses a written statement. -/
  | writtenRefused (sql : String) (reason : CatalogError)
  /-- The written statements make other columns. -/
  | columns (written : List String)
  /-- The written statements make other indexes. -/
  | indexes (written : List String)
  deriving DecidableEq, Repr

/-- What two unequal sides are reported as. -/
def unequal (text : String) : String :=
  "assertion `left == right` failed: " ++ text

/-- The finding in words. -/
def Finding.message : Finding → String
  | notTable sql => "Expected a complete CREATE TABLE for " ++ Text.quoted sql
  | refused => "SQLite rejected the statement"
  | columnNames sql => unequal ("Column names differ for " ++ Text.quoted sql)
  | type column => unequal ("Type of " ++ column ++ " differs")
  | notNull column => unequal ("NOT NULL of " ++ column ++ " differs")
  | defaultPresence column => unequal ("Default presence of " ++ column ++ " differs")
  | keyPosition column => unequal ("Key position of " ++ column ++ " differs")
  | generated column => unequal ("Generated flag of " ++ column ++ " differs")
  | unreadable sql error =>
    "SQLite accepts " ++ Text.quoted sql ++ " but parsing failed: " ++ error.message
  | writtenRefused sql reason =>
    "SQLite rejects rendered " ++ Text.quoted sql ++ ": " ++ reason.message
  | columns written => unequal ("Columns differ, rendered as " ++ Text.quotedList written)
  | indexes written => unequal ("Indexes differ, rendered as " ++ Text.quotedList written)

/-- The text before the first of some marks. -/
def cutBefore (marks : List (List Char)) : List Char → List Char
  | [] => []
  | c :: r => if marks.any (·.isPrefixOf (c :: r)) then [] else c :: cutBefore marks r

/-- A message without its details, which begin on a new line or after one of two marks. -/
def headline (message : String) : String :=
  String.ofList (cutBefore [['\n'], ", got ".toList, ": Sql".toList] message.toList)

/-- The table that a whole text defines. -/
def parseTable (sql : String) : Except Finding Table :=
  match (Statement.parse sql).toOption.bind Statement.table? with
  | some table => .ok table
  | none => .error (.notTable sql)

/-- The text in capital letters and without white space, as types and default values are
compared. -/
def normalized (text : String) : String :=
  String.ofList ((text.toList.filter fun c => !Text.isSpace c).map Char.toUpper)

/-! ### Parsed tables -/

/-- Compares one thing at both sides. -/
def agree {α : Type} [DecidableEq α] (left right : α) (finding : Finding) :
    Except Finding Unit :=
  if left = right then .ok () else .error finding

/-- Compares a column of a parsed table with its entry. The key columns of a table without
row numbers hold no `NULL` whether they say so or not. -/
def checkColumn (table : Table) (index : Nat) (column : Column) (entry : ColumnEntry) :
    Except Finding Unit := do
  agree (normalized column.type) (normalized entry.type) (.type column.name)
  if table.hasRowid || !column.inKey then
    agree column.notNull entry.notNull (.notNull column.name)
  agree column.default.isSome entry.default.isSome (.defaultPresence column.name)
  let position := ((table.primaryKey.findIdx? (· == index)).map (· + 1)).getD 0
  agree position entry.keyPosition (.keyPosition column.name)
  agree column.generated.isSome entry.generated.isSome (.generated column.name)

/-- Compares the columns of a parsed table, from a position on, with their entries. -/
def checkColumns (table : Table) (index : Nat) :
    List Column → List ColumnEntry → Except Finding Unit
  | column :: columns, entry :: entries => do
    checkColumn table index column entry
    checkColumns table (index + 1) columns entries
  | _, _ => .ok ()

/-- Checks that the parsed table of a statement agrees with what a new database makes of the
statement. -/
def checkTable (sql : String) : Except Finding Unit := do
  let table ← parseTable sql
  match empty.execute sql with
  | .error _ => throw .refused
  | .ok catalog =>
    let entries := ((catalog.table? table.name).map (·.columns)).getD []
    agree table.columnNames (entries.map (·.name)) (.columnNames sql)
    checkColumns table 0 table.columns entries

/-! ### Written statements -/

/-- A column as two definitions of it are compared. -/
def ColumnEntry.normalized (column : ColumnEntry) : ColumnEntry :=
  { column with
    type := Catalog.normalized column.type
    default := column.default.map Catalog.normalized
    collation := "" }

/-- The columns of the table of a name, as they are compared. -/
def comparedColumns (catalog : Catalog) (table : String) : List ColumnEntry :=
  ((catalog.table? table).map (·.columns)).getD [] |>.map ColumnEntry.normalized

/-- The indexes of the table of a name, as they are compared. -/
def comparedIndexes (catalog : Catalog) (table : String) : List IndexEntry :=
  ((catalog.table? table).map (·.sortedIndexes)).getD [] |>.map fun index =>
    { index with name := none }

/-- What statements are written as once they have been parsed. -/
def rewritten (sqls : List String) : Except Finding (List String) :=
  sqls.mapM fun sql =>
    match Statement.parse sql with
    | .ok statement => .ok statement.sql
    | .error error => .error (.unreadable sql error)

/-- Executes written statements in a new database. -/
def executeWritten (sqls : List String) : Except Finding Catalog :=
  sqls.foldlM (fun catalog sql => (catalog.execute sql).mapError (.writtenRefused sql)) empty

/-- Checks that statements, written again after parsing, make the same columns and indexes.
Statements that the database refuses are not checked. The first one defines the table. -/
def checkWritten (sqls : List String) : Except Finding Unit := do
  match empty.runAll sqls with
  | .error _ => return
  | .ok before =>
    let written ← rewritten sqls
    let after ← executeWritten written
    match sqls with
    | [] => return
    | first :: _ =>
      let table ← parseTable first
      agree (before.comparedColumns table.name) (after.comparedColumns table.name)
        (.columns written)
      agree (before.comparedIndexes table.name) (after.comparedIndexes table.name)
        (.indexes written)

end Catalog

end SchemaText
