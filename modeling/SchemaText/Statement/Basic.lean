import SchemaText.Index.Basic

/-!
# Statements

## Main definitions

* `Statement`: a definition of a table or of an index.
* `Statement.name`, `Statement.table?`, `Statement.index?`: its parts.
* `Statement.tokens`, `Statement.sql`: how it is written.
-/

namespace SchemaText

/-- A statement that defines a table or an index. -/
inductive Statement
  | table (table : Table)
  | index (index : Index)
  deriving DecidableEq, Repr

namespace Statement

/-- The name of what is defined. -/
def name : Statement → String
  | table t => t.name
  | index i => i.name

/-- The table, if one is defined. -/
def table? : Statement → Option Table
  | table t => some t
  | index _ => none

/-- The index, if one is defined. -/
def index? : Statement → Option Index
  | index i => some i
  | table _ => none

/-- The tokens of the statement. -/
def tokens : Statement → List Token
  | table t => t.tokens
  | index i => i.tokens

/-- The text of the statement. -/
def sql (statement : Statement) : String :=
  render statement.tokens

end Statement

end SchemaText
