import SchemaText.Catalog.Basic

/-!
# Why a definition is refused

A database executes a definition as a whole or refuses it. It refuses a text that is no
statement, and a statement that contradicts itself or what the catalogue holds.

## Main definitions

* `Catalog.Scope`: where an expression of a definition stands.
* `CatalogError`: the reasons, with `CatalogError.message`.
* `Catalog.require`: refuses a statement unless a condition holds.
-/

namespace SchemaText

namespace Catalog

/-- Where an expression stands. -/
inductive Scope
  /-- It is a condition on the rows of a table. -/
  | check
  /-- It says which rows an index covers. -/
  | coverage
  /-- It is a term of an index. -/
  | term
  /-- It is the rule of a generated column. -/
  | rule
  /-- It is a result of a query without tables. -/
  | result
  /-- It is an argument of an aggregate in such a result. -/
  | summary
  deriving DecidableEq, Repr

/-- The expressions in this place, in words. -/
def Scope.place : Scope → String
  | check => "CHECK constraints"
  | coverage => "partial index WHERE clauses"
  | term => "index expressions"
  | rule => "generated columns"
  | result | summary => "queries"

end Catalog

/-- Why a statement is refused. -/
inductive CatalogError
  /-- The statement cannot go on with this text. -/
  | unexpected (text : String)
  /-- The statement ends too early. -/
  | incomplete
  /-- No schema has this name. -/
  | unknownSchema (name : String)
  /-- A temporary table names another schema. -/
  | qualifiedTemporary
  /-- The name belongs to the database. -/
  | reservedName (name : String)
  /-- The table exists. -/
  | tableExists (name : String)
  /-- The index exists. -/
  | indexExists (name : String)
  /-- A table was to take the name of an index. -/
  | namedLikeIndex (name : String)
  /-- An index was to take the name of a table. -/
  | namedLikeTable (name : String)
  /-- The indexed table does not exist. -/
  | noTable (name : String)
  /-- A table has two columns of this name. -/
  | duplicateColumn (name : String)
  /-- A name stands for no column. -/
  | noColumn (name : String)
  /-- No collation has this name. -/
  | noCollation (name : String)
  /-- A key of the table is an expression. -/
  | expressionInKey
  /-- A qualified name stands where only columns of one table can. -/
  | qualifiedName (scope : Catalog.Scope)
  /-- No function has this name. -/
  | noFunction (name : String)
  /-- The function takes fewer or more arguments. -/
  | argumentCount (name : String)
  /-- A function whose result varies stands where a value has to last. -/
  | varyingFunction (scope : Catalog.Scope)
  /-- The function may not stand in a definition. -/
  | directFunction (name : String)
  /-- A function of several rows stands where there is one. -/
  | misusedAggregate (name : String)
  /-- A function of neighbouring rows stands where there are none. -/
  | misusedWindow (name : String)
  /-- Only the arguments of an aggregate have an order. -/
  | orderedArguments (name : String)
  /-- A likelihood is no number up to one. -/
  | badLikelihood
  /-- A row stands where a single value has to, or is compared with another number of values. -/
  | misusedRow
  /-- `RAISE` stands outside of a trigger. -/
  | misplacedRaise
  /-- A hexadecimal integer has too many digits. -/
  | hexTooBig (numeral : String)
  /-- A generated column depends on itself. -/
  | generatedLoop (column : String)
  /-- The table has two primary keys. -/
  | secondKey (table : String)
  /-- Only an `INTEGER` primary key can be `AUTOINCREMENT`. -/
  | misplacedAutoincrement
  /-- A table without row numbers has no `AUTOINCREMENT`. -/
  | autoincrementWithoutRowid
  /-- A table without row numbers needs a primary key. -/
  | missingKey (table : String)
  /-- One key has two conflict clauses. -/
  | conflictingActions
  /-- A default value depends on a column. -/
  | variableDefault (column : String)
  /-- A generated column has a default value. -/
  | generatedDefault
  /-- A generated column has two rules or an unknown storage. -/
  | badGenerated (column : String)
  /-- A generated column belongs to the primary key. -/
  | generatedKey
  /-- All columns are generated. -/
  | noPlainColumn
  /-- A strict table has a column without a type. -/
  | missingType (table column : String)
  /-- A strict table has a column of an unknown type. -/
  | unknownType (table column type : String)
  /-- The option means nothing. -/
  | unknownOption (name : String)
  /-- A column refers to more than one parent column. -/
  | manyParents (column table : String)
  /-- A foreign key has fewer or more columns than it refers to. -/
  | parentCount
  /-- A foreign key names no column of the table. -/
  | unknownChild (column : String)
  deriving DecidableEq, Repr

/-- The reason in words. -/
def CatalogError.message : CatalogError → String
  | unexpected text => "near \"" ++ text ++ "\": syntax error"
  | incomplete => "incomplete input"
  | unknownSchema name => "unknown database " ++ name
  | qualifiedTemporary => "temporary table name must be unqualified"
  | reservedName name => "object name reserved for internal use: " ++ name
  | tableExists name => "table " ++ name ++ " already exists"
  | indexExists name => "index " ++ name ++ " already exists"
  | namedLikeIndex name => "there is already an index named " ++ name
  | namedLikeTable name => "there is already a table named " ++ name
  | noTable name => "no such table: " ++ name
  | duplicateColumn name => "duplicate column name: " ++ name
  | noColumn name => "no such column: " ++ name
  | noCollation name => "no such collation sequence: " ++ name
  | expressionInKey => "expressions prohibited in PRIMARY KEY and UNIQUE constraints"
  | qualifiedName scope => "the \".\" operator prohibited in " ++ scope.place
  | noFunction name => "no such function: " ++ name
  | argumentCount name => "wrong number of arguments to function " ++ name ++ "()"
  | varyingFunction scope => "non-deterministic functions prohibited in " ++ scope.place
  | directFunction name => "unsafe use of " ++ name ++ "()"
  | misusedAggregate name => "misuse of aggregate function " ++ name ++ "()"
  | misusedWindow name => "misuse of window function " ++ name ++ "()"
  | orderedArguments name => "ORDER BY may not be used with non-aggregate " ++ name ++ "()"
  | badLikelihood =>
    "second argument to likelihood() must be a constant between 0.0 and 1.0"
  | misusedRow => "row value misused"
  | misplacedRaise => "RAISE() may only be used within a trigger-program"
  | hexTooBig numeral => "hex literal too big: " ++ numeral
  | generatedLoop column => "generated column loop on \"" ++ column ++ "\""
  | secondKey table => "table \"" ++ table ++ "\" has more than one primary key"
  | misplacedAutoincrement => "AUTOINCREMENT is only allowed on an INTEGER PRIMARY KEY"
  | autoincrementWithoutRowid => "AUTOINCREMENT not allowed on WITHOUT ROWID tables"
  | missingKey table => "PRIMARY KEY missing on table " ++ table
  | conflictingActions => "conflicting ON CONFLICT clauses specified"
  | variableDefault column => "default value of column [" ++ column ++ "] is not constant"
  | generatedDefault => "cannot use DEFAULT on a generated column"
  | badGenerated column => "error in generated column \"" ++ column ++ "\""
  | generatedKey => "generated columns cannot be part of the PRIMARY KEY"
  | noPlainColumn => "must have at least one non-generated column"
  | missingType table column => "missing datatype for " ++ table ++ "." ++ column
  | unknownType table column type =>
    "unknown datatype for " ++ table ++ "." ++ column ++ ": \"" ++ type ++ "\""
  | unknownOption name => "unknown table option: " ++ name
  | manyParents column table =>
    "foreign key on " ++ column ++ " should reference only one column of table " ++ table
  | parentCount =>
    "number of columns in foreign key does not match the number of columns in the "
      ++ "referenced table"
  | unknownChild column => "unknown column \"" ++ column ++ "\" in foreign key definition"

/-- Refuses a statement for a reason, unless a condition holds. -/
def Catalog.require (condition : Bool) (reason : CatalogError) : Except CatalogError Unit :=
  if condition then .ok () else .error reason

end SchemaText
