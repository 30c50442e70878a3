import SchemaText.Expr.Basic
import SchemaText.Table.Printer

/-!
# Indexes

An index as a `CREATE INDEX` statement defines it: the indexed terms are expressions, each
with its collation and order, and a partial index has a condition.

## Main definitions

* `Index`: an index, with `Index.new`.
* `Index.tokens`, `Index.sql`: how the statement is written.
-/

namespace SchemaText

/-- An index. -/
structure Index where
  /-- Whether the index enforces uniqueness. -/
  unique : Bool := false
  /-- Whether the statement says `IF NOT EXISTS`. -/
  ifNotExists : Bool := false
  /-- The schema that qualifies the name, if any. -/
  schema : Option String := none
  /-- The name. -/
  name : String
  /-- The indexed table. -/
  table : String
  /-- The indexed terms. -/
  terms : List Expr := []
  /-- The condition of a partial index. -/
  predicate : Option Expr := none
  deriving DecidableEq, Repr

namespace Index

/-- An index without terms. -/
def new (name table : String) : Index where
  name := name
  table := table

/-- The tokens of the statement that defines the index. -/
def tokens (index : Index) : List Token :=
  Token.ofKeyword .CREATE :: (if index.unique then [Token.ofKeyword .UNIQUE] else [])
    ++ Token.ofKeyword .INDEX :: Token.existsGuard index.ifNotExists
    ++ Token.qualified index.schema index.name
    ++ [Token.ofKeyword .ON, Token.name index.table]
    ++ Token.inParens (Token.commaList (index.terms.map Expr.tokens))
    ++ index.predicate.elim [] (Token.ofKeyword .WHERE :: ·.tokens)

/-- The text of the statement that defines the index. -/
def sql (index : Index) : String :=
  render index.tokens

end Index

end SchemaText
