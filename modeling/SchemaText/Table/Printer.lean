import SchemaText.Table.Basic
import SchemaText.Token.Spelling

/-!
# Writing tables

The tokens of a `CREATE TABLE` statement. Constraints come in a fixed order: those of a
column in its definition, then the key list, the unique keys, the conditions and the
foreign keys of the table. Stored SQL text is written token by token.

## Main definitions

* `Token.commaList`, `Token.nameList`, `Token.qualified`: parts of many statements.
* `Column.tokens`, `Table.tokens`: a column definition, and the whole statement.
* `Table.sql`: the text of the statement.
-/

namespace SchemaText

/-! ### Parts of statements -/

namespace Token

/-- Pieces separated by commas. -/
def commaList : List (List Token) → List Token
  | [] => []
  | [piece] => piece
  | piece :: pieces => piece ++ comma :: commaList pieces

/-- Keywords in a row. -/
def words (keywords : List Keyword) : List Token :=
  keywords.map ofKeyword

/-- A sequence in parentheses. -/
def inParens (inner : List Token) : List Token :=
  openParen :: inner ++ [closeParen]

/-- Names in parentheses. -/
def nameList (names : List String) : List Token :=
  inParens (commaList (names.map fun n => [name n]))

/-- A name, after its schema if it has one. -/
def qualified (schema : Option String) (object : String) : List Token :=
  match schema with
  | some s => [name s, dot, name object]
  | none => [name object]

/-- `IF NOT EXISTS`, if asked for. -/
def existsGuard (asked : Bool) : List Token :=
  if asked then words [.IF, .NOT, .EXISTS] else []

/-- A single piece has no comma. -/
@[simp] theorem commaList_singleton (piece : List Token) : commaList [piece] = piece := rfl

/-- A comma stands between a piece and the next one. -/
theorem commaList_cons {pieces : List (List Token)} (piece : List Token) (h : pieces ≠ []) :
    commaList (piece :: pieces) = piece ++ comma :: commaList pieces := by
  cases pieces with
  | nil => exact absurd rfl h
  | cons next pieces => rfl

end Token

open Token

/-! ### Constraints -/

/-- A conflict clause, if there is one. -/
def ConflictAction.clause : Option ConflictAction → List Token
  | some action => words [.ON, .CONFLICT, action.keyword]
  | none => []

/-- A collation clause, if a collation is named. -/
def Token.collate : Option String → List Token
  | some collation => [ofKeyword .COLLATE, name collation]
  | none => []

/-- The tokens of a default value. -/
def DefaultValue.tokens (value : DefaultValue) : List Token :=
  if value.isQuoted then [string value.text] else tokenize value.text

/-- The tokens of a reference, with its clauses. -/
def Reference.tokens (reference : Reference) : List Token :=
  [ofKeyword .REFERENCES, name reference.table]
    ++ (if reference.columns.isEmpty then [] else nameList reference.columns)
    ++ tokenize reference.clauses

/-- The tokens of the rule of a generated column. -/
def Generated.tokens (rule : Generated) : List Token :=
  (if rule.always then words [.GENERATED, .ALWAYS] else [])
    ++ ofKeyword .AS :: inParens (tokenize rule.expression)
    ++ match rule.storage with
      | some .stored => [ofKeyword .STORED]
      | some .virtual => [ofKeyword .VIRTUAL]
      | none => []

/-- The tokens of a primary key that the column itself declares. -/
def Column.keyTokens (column : Column) (onConflict : Option ConflictAction) : List Token :=
  words [.PRIMARY, .KEY]
    ++ (if column.isDescending then [ofKeyword .DESC] else [])
    ++ ConflictAction.clause onConflict
    ++ (if column.autoincrement then [ofKeyword .AUTOINCREMENT] else [])

/-- The tokens of a column definition. With `key`, the column declares the primary key, with
that conflict clause. -/
def Column.tokens (column : Column) (key : Option (Option ConflictAction)) : List Token :=
  Token.name column.name :: tokenize column.type
    ++ key.elim [] column.keyTokens
    ++ (if column.notNull then
        words [.NOT, .NULL] ++ ConflictAction.clause column.notNullConflict else [])
    ++ (if column.unique then
        ofKeyword .UNIQUE :: ConflictAction.clause column.uniqueConflict else [])
    ++ column.default.elim [] (ofKeyword .DEFAULT :: ·.tokens)
    ++ collate column.collation
    ++ column.references.elim [] Reference.tokens
    ++ column.generated.elim [] Generated.tokens

/-- A column in a key list. -/
def KeyPart.tokens (part : KeyPart) : List Token :=
  Token.name part.name :: collate part.collation
    ++ (if part.descending then [ofKeyword .DESC] else [])

/-- The tokens of a unique key. -/
def UniqueKey.tokens (key : UniqueKey) : List Token :=
  ofKeyword .UNIQUE :: inParens (commaList (key.columns.map KeyPart.tokens))
    ++ ConflictAction.clause key.onConflict

/-- The tokens of a foreign key. -/
def ForeignKey.tokens (key : ForeignKey) : List Token :=
  words [.FOREIGN, .KEY] ++ nameList key.columns ++ key.references.tokens

/-- The tokens of a condition. -/
def Table.checkTokens (condition : String) : List Token :=
  ofKeyword .CHECK :: inParens (tokenize condition)

/-! ### The statement -/

namespace Table

/-- The tokens of a key list over these columns. -/
def keyListTokens (members : List Column) (onConflict : Option ConflictAction) : List Token :=
  words [.PRIMARY, .KEY]
    ++ inParens
      (commaList (members.map fun member =>
        Token.name member.name :: if member.isDescending then [ofKeyword .DESC] else [])
        ++ if members.any (·.autoincrement) then [ofKeyword .AUTOINCREMENT] else [])
    ++ ConflictAction.clause onConflict

/-- The column definitions. -/
def columnTokens (table : Table) : List (List Token) :=
  let inlined := table.inlineKey?
  table.columns.mapIdx fun i column =>
    column.tokens (if inlined = some i then some table.keyConflict else none)

/-- The constraints of the table. -/
def constraintTokens (table : Table) : List (List Token) :=
  (if table.inlineKey?.isNone && !table.primaryKey.isEmpty then
    [keyListTokens table.keyColumns table.keyConflict] else [])
    ++ table.uniques.map UniqueKey.tokens
    ++ table.checks.map checkTokens
    ++ table.foreignKeys.map ForeignKey.tokens

/-- The table options. -/
def optionTokens (table : Table) : List Token :=
  commaList
    ((if table.hasRowid then [] else [words [.WITHOUT, .ROWID]])
      ++ if table.isStrict then [[ofKeyword .STRICT]] else [])

/-- The tokens of the statement that defines the table. A comma stands before every
constraint, even in a table without columns. -/
def tokens (table : Table) : List Token :=
  ofKeyword .CREATE :: (if table.isTemporary then [ofKeyword .TEMP] else [])
    ++ ofKeyword .TABLE :: existsGuard table.ifNotExists
    ++ qualified table.schema table.name
    ++ inParens (commaList table.columnTokens ++ table.constraintTokens.flatMap (comma :: ·))
    ++ table.optionTokens

/-- The text of the statement that defines the table. -/
def sql (table : Table) : String :=
  render table.tokens

end Table

end SchemaText
