import SchemaText.Keyword

/-!
# Columns

A column of a table: its name, its declared type and its constraints.

Whether a column belongs to the primary key of its table is noted on the column as well as
in the key list of the table; `Table.setKeyMember` changes both.

## Main definitions

* `ConflictAction`: what an `ON CONFLICT` clause asks for.
* `DefaultValue`, `Reference`, `Generated`: the constraints that carry data.
* `Column`: a column, with `Column.new`, `Column.isNamed` and `Column.isDescending`.
* `Column.markWhole`: notes on every column whether it is the whole key.

## Main results

* `ConflictAction.ofKeyword?_keyword`: an action is read back from its keyword.
-/

namespace SchemaText

/-- What happens to a statement that violates a constraint. -/
inductive ConflictAction
  | rollback
  | abort
  | fail
  | ignore
  | replace
  deriving DecidableEq, Repr

namespace ConflictAction

/-- The keyword of an action. -/
def keyword : ConflictAction → Keyword
  | rollback => .ROLLBACK
  | abort => .ABORT
  | fail => .FAIL
  | ignore => .IGNORE
  | replace => .REPLACE

/-- The action that a keyword names. -/
def ofKeyword? : Keyword → Option ConflictAction
  | .ROLLBACK => some rollback
  | .ABORT => some abort
  | .FAIL => some fail
  | .IGNORE => some ignore
  | .REPLACE => some replace
  | _ => none

/-- Every conflict action is found again by its keyword. -/
@[simp] theorem ofKeyword?_keyword (action : ConflictAction) :
    ofKeyword? action.keyword = some action := by
  cases action <;> rfl

end ConflictAction

/-- The value of a column in rows that do not give one. -/
structure DefaultValue where
  /-- The content of a text literal if `isQuoted`, else SQL text. -/
  text : String
  /-- Whether the value is computed when a row is inserted. -/
  isExpression : Bool
  /-- Whether `text` is the content of a text literal. -/
  isQuoted : Bool
  deriving DecidableEq, Repr

/-- A reference to the key of a parent table. -/
structure Reference where
  /-- The parent table. -/
  table : String
  /-- The parent columns; none if the primary key of the parent is meant. -/
  columns : List String
  /-- The `MATCH`, `ON` and `DEFERRABLE` clauses as SQL text. -/
  clauses : String
  deriving DecidableEq, Repr

/-- Whether a generated column is kept in the rows or computed when it is read. -/
inductive Storage
  | stored
  | virtual
  deriving DecidableEq, Repr

/-- The rule that computes a generated column. -/
structure Generated where
  /-- The text between the parentheses. -/
  expression : String
  /-- Whether `GENERATED ALWAYS` is spelled out. -/
  always : Bool
  /-- The storage that is asked for, if any. -/
  storage : Option Storage
  deriving DecidableEq, Repr

/-- A column of a table. -/
structure Column where
  /-- The name. -/
  name : String
  /-- The declared type as SQL text, empty if there is none. -/
  type : String := ""
  /-- The collation, if one is named. -/
  collation : Option String := none
  /-- The default value, if there is one. -/
  default : Option DefaultValue := none
  /-- Whether the column is a member of the primary key. -/
  inKey : Bool := false
  /-- Whether the column is the only member of the primary key. -/
  isWholeKey : Bool := false
  /-- Whether the column itself declares its key as descending. -/
  columnDesc : Bool := false
  /-- Whether the key list of the table orders the column as descending. -/
  tableDesc : Bool := false
  /-- Whether the key is `AUTOINCREMENT`. -/
  autoincrement : Bool := false
  /-- Whether the column is `NOT NULL`. -/
  notNull : Bool := false
  /-- Whether the column is `UNIQUE`. -/
  unique : Bool := false
  /-- The reference to a parent table, if there is one. -/
  references : Option Reference := none
  /-- The conflict clause of `NOT NULL`, if there is one. -/
  notNullConflict : Option ConflictAction := none
  /-- The conflict clause of `UNIQUE`, if there is one. -/
  uniqueConflict : Option ConflictAction := none
  /-- The rule of a generated column. -/
  generated : Option Generated := none
  deriving DecidableEq, Repr

namespace Column

/-- A column with no type and no constraints. -/
def new (name : String) : Column where
  name := name

/-- Whether the column has this name, in any case. -/
def isNamed (column : Column) (name : String) : Bool :=
  Text.same column.name name

/-- Whether the key orders the column as descending, at either place. -/
def isDescending (column : Column) : Bool :=
  column.columnDesc || column.tableDesc

/-- The column as a member of the key, or taken out of it together with what it says about
the key. -/
def withKeyMember (member : Bool) (column : Column) : Column :=
  if member then
    { column with inKey := true }
  else
    { column with inKey := false, columnDesc := false, tableDesc := false,
                  autoincrement := false }

/-- Notes on every column whether it is the only one in the key. -/
def markWhole (columns : List Column) : List Column :=
  let members := columns.countP (·.inKey)
  columns.map fun column => { column with isWholeKey := column.inKey && members == 1 }

/-- Marking keeps the number of columns. -/
@[simp] theorem length_markWhole (columns : List Column) :
    (markWhole columns).length = columns.length := by
  simp [markWhole]

/-- A column is the whole key just if it is in the key and no other column is. -/
@[simp] theorem getElem?_markWhole (columns : List Column) (i : Nat) :
    (markWhole columns)[i]? = columns[i]?.map fun column =>
      { column with isWholeKey := column.inKey && columns.countP (·.inKey) == 1 } := by
  simp [markWhole]

/-- The note does not change the members. -/
@[simp] theorem countP_inKey_markWhole (columns : List Column) :
    (markWhole columns).countP (·.inKey) = columns.countP (·.inKey) := by
  rw [markWhole, List.countP_map]
  rfl

end Column

end SchemaText
