import SchemaText.Catalog.Formula.Reader

/-!
# Definitions as the database reads them

A definition is read into its clauses, in the order of the text. What the clauses mean
together is settled when the definition is executed.

The database reads more than `Statement` does: a type in single quotes, a constraint that
has a name and nothing else, a table that is made from a query. It also reads less, since
every expression has to be well formed.

## Main definitions

* `Catalog.ColumnClause`, `Catalog.TableClause`: the clauses.
* `Catalog.TableDefinition`, `Catalog.IndexDefinition`, `Catalog.Definition`: the definitions.
* `Catalog.Definition.read`: the definition that a sequence of lexemes is.
* `Catalog.statements`: the statements of a text.
-/

namespace SchemaText

namespace Catalog

/-! ### Clauses -/

/-- A clause of a column definition. -/
inductive ColumnClause
  /-- The text of the default value, and its expression if it is in parentheses. -/
  | default (text : String) (value : Option Formula)
  | notNull
  | key (descending autoincrement : Bool) (onConflict : Option ConflictAction)
  | unique (onConflict : Option ConflictAction)
  | check (condition : Formula)
  /-- A reference to a table and to so many columns of it; none if they are not named. -/
  | references (parents : Option Nat) (table : String)
  | collate (collation : String)
  /-- The rule of a generated column, and its storage; none if the storage is unknown. -/
  | generated (rule : Formula) (storage : Option Storage)
  deriving DecidableEq

/-- A definition of a column. -/
structure ColumnDefinition where
  /-- The name. -/
  name : String
  /-- The type as it is written. -/
  type : String
  /-- The clauses, in order. -/
  clauses : List ColumnClause
  deriving DecidableEq

/-- A constraint of a table. -/
inductive TableClause
  | key (terms : List Term) (autoincrement : Bool) (onConflict : Option ConflictAction)
  | unique (terms : List Term) (onConflict : Option ConflictAction)
  | check (condition : Formula)
  /-- Child columns that refer to so many parent columns; none if those are not named. -/
  | foreignKey (columns : List String) (parents : Option Nat)
  deriving DecidableEq

/-- What follows the list of columns. -/
inductive TableOption
  | withoutRowid
  | strict
  deriving DecidableEq, Repr

/-- What a table holds. -/
inductive TableBody
  /-- Columns and constraints. -/
  | columns (columns : List ColumnDefinition) (clauses : List TableClause)
    (options : List TableOption)
  /-- The results of a query without tables: their names and expressions. -/
  | query (results : List (String × Formula))
  deriving DecidableEq

/-- A definition of a table. -/
structure TableDefinition where
  /-- Whether the table belongs to the connection. -/
  isTemporary : Bool
  /-- Whether an existing table of the name is left alone. -/
  ifNotExists : Bool
  /-- The qualifier of the name, if there is one. -/
  schema : Option String
  /-- The name. -/
  name : String
  /-- What the table holds. -/
  body : TableBody
  deriving DecidableEq

/-- A definition of an index. -/
structure IndexDefinition where
  /-- Whether the index enforces uniqueness. -/
  unique : Bool
  /-- Whether an existing index of the name is left alone. -/
  ifNotExists : Bool
  /-- The qualifier of the name, if there is one. -/
  schema : Option String
  /-- The name. -/
  name : String
  /-- The indexed table. -/
  table : String
  /-- The indexed terms. -/
  terms : List Term
  /-- The condition of a partial index. -/
  condition : Option Formula
  deriving DecidableEq

/-- A statement. -/
inductive Definition
  | table (definition : TableDefinition)
  | index (definition : IndexDefinition)
  deriving DecidableEq

/-! ### Parts of clauses -/

namespace Reader

/-- An `ON CONFLICT` clause, if one comes next. -/
def onConflict : Reader (Option ConflictAction) := do
  if ← accept .ON then
    expect .CONFLICT
    match (← peek).bind Token.keyword? |>.bind ConflictAction.ofKeyword? with
    | some action =>
      let _ ← take
      return some action
    | none => refuse
  else
    return none

/-- What is done with the child rows. -/
def childAction : Reader Unit := do
  if ← accept .SET then
    unless ← accept .NULL do expect .DEFAULT
  else if ← accept .NO then
    expect .ACTION
  else
    unless ← accept .CASCADE do expect .RESTRICT

/-- A clause of a reference other than when it is checked. -/
def referenceClause? : Reader (Option Unit) := do
  if ← accept .ON then
    let _ ← takeIf fun token => [Keyword.INSERT, .DELETE, .UPDATE].any token.is
    childAction
    return some ()
  else if ← accept .MATCH then
    let _ ← name
    return some ()
  else
    return none

/-- When a reference is checked, after `DEFERRABLE`. -/
def deferral : Reader Unit := do
  if ← accept .INITIALLY then
    unless ← accept .DEFERRED do expect .IMMEDIATE

/-- The parent of a reference: how many columns are named, if any are, and the table. -/
def parent : Reader (Option Nat × String) := do
  let table ← name
  let columns ←
    if (← peek).any (·.kind == .openParen) then
      some <$> parenthesized (separated name)
    else
      pure none
  let _ ← gather referenceClause?
  return (columns.map List.length, table)

/-- A default value: a literal, a word, or an expression in parentheses. -/
def defaultValue : Reader ColumnClause := do
  let first ← take
  match first.token.kind with
  | .openParen =>
    let value ← formula
    let last ← takeIf (·.kind == .closeParen)
    let inside := first.rest.take (first.rest.length - last.source.length)
    return .default (String.ofList (Text.trimBlanks inside)) (some value)
  | .sign =>
    let value ← takeIf isLiteral
    return .default (String.ofList (first.through value)) none
  | _ =>
    if isLiteral first.token || first.token.isFreeWord || first.token.is .INDEXED then
      return .default first.written none
    else
      throw (.unexpected first.written)
where
  /-- Literals and the words for the time. -/
  isLiteral (token : Token) : Bool :=
    match token.kind with
    | .blobLiteral | .stringLiteral => true
    | _ =>
      (numeral? token).isSome
        || [Keyword.NULL, .CURRENT_DATE, .CURRENT_TIME, .CURRENT_TIMESTAMP].any token.is

/-- The rule of a generated column, and the word after it for its storage. -/
def generatedRule : Reader ColumnClause := do
  let rule ← parenthesized formula
  match ← takeIf? Token.isFreeWord with
  | none => return .generated rule (some .virtual)
  | some word =>
    if word.token.isSpelled "stored" then return .generated rule (some .stored)
    else if word.token.isSpelled "virtual" then return .generated rule (some .virtual)
    else return .generated rule none

/-! ### Clauses -/

/-- The next clause of a column: nothing if none comes next, no clause if it says nothing
that the catalogue shows. -/
def columnClause? : Reader (Option (List ColumnClause)) := do
  if ← accept .CONSTRAINT then
    let _ ← name
    return some []
  else if ← accept .DEFAULT then
    return some [← defaultValue]
  else if ← accept .NULL then
    let _ ← onConflict
    return some []
  else if ← accept .NOT then
    if ← accept .NULL then
      let _ ← onConflict
      return some [.notNull]
    else
      expect .DEFERRABLE
      deferral
      return some []
  else if ← accept .DEFERRABLE then
    deferral
    return some []
  else if ← accept .PRIMARY then
    expect .KEY
    let descending ← order
    let action ← onConflict
    return some [.key descending (← accept .AUTOINCREMENT) action]
  else if ← accept .UNIQUE then
    return some [.unique (← onConflict)]
  else if ← accept .CHECK then
    return some [.check (← parenthesized formula)]
  else if ← accept .REFERENCES then
    let (parents, table) ← parent
    return some [.references parents table]
  else if ← accept .COLLATE then
    return some [.collate (← collation)]
  else if ← accept .GENERATED then
    expect .ALWAYS
    expect .AS
    return some [← generatedRule]
  else if ← accept .AS then
    return some [← generatedRule]
  else
    return none

/-- A definition of a column. -/
def columnDefinition : Reader ColumnDefinition := do
  let columnName ← name
  let type ← typeText
  return ⟨columnName, type, (← gather columnClause?).flatten⟩

/-- The next constraint of a table; nothing if none comes next. -/
def tableClause? : Reader (Option (List TableClause)) := do
  if ← accept .CONSTRAINT then
    let _ ← name
    return some []
  else if ← accept .PRIMARY then
    expect .KEY
    let (terms, autoincrement) ← parenthesized do
      let terms ← separated term
      return (terms, ← accept .AUTOINCREMENT)
    return some [.key terms autoincrement (← onConflict)]
  else if ← accept .UNIQUE then
    let terms ← parenthesized (separated term)
    return some [.unique terms (← onConflict)]
  else if ← accept .CHECK then
    let condition ← parenthesized formula
    let _ ← onConflict
    return some [.check condition]
  else if ← accept .FOREIGN then
    expect .KEY
    let columns ← parenthesized (separated name)
    expect .REFERENCES
    let (parents, _) ← parent
    if ← accept .NOT then
      expect .DEFERRABLE
      deferral
    else if ← accept .DEFERRABLE then
      deferral
    return some [.foreignKey columns parents]
  else
    return none

/-- A constraint of a table, which has to come next, and a comma if one comes after it. -/
def constraintOrComma? : Reader (Option (List TableClause)) := do
  if ← acceptKind .comma then
    match ← tableClause? with
    | some clauses => return some clauses
    | none => refuse
  else
    tableClause?

/-- Whether a constraint of a table comes next rather than a column. -/
def startsConstraint (token : Token) : Bool :=
  [Keyword.CONSTRAINT, .PRIMARY, .UNIQUE, .CHECK, .FOREIGN].any token.is

/-- The columns after the first, up to the comma before the first constraint. -/
def laterColumn? : Reader (Option ColumnDefinition) := do
  match ← get with
  | comma :: next :: _ =>
    if comma.token.kind == .comma && !startsConstraint next.token then
      let _ ← take
      return some (← columnDefinition)
    else
      return none
  | _ => return none

/-- An option of a table. -/
def tableOption : Reader TableOption := do
  if ← accept .WITHOUT then
    let option ← name
    if Text.same option "rowid" then return .withoutRowid else throw (.unknownOption option)
  else
    let option ← name
    if Text.same option "strict" then return .strict else throw (.unknownOption option)

/-! ### Statements -/

/-- A result of a query, named by what is written if it has no name of its own. -/
def resultColumn : Reader (String × Formula) := do
  let before ← get
  let found ← formula
  let after ← get
  if ← accept .AS then
    return (← name, found)
  match ← takeIf? Token.isTypeWord with
  | some label => return (label.token.text, found)
  | none =>
    match before.take (before.length - after.length) with
    | [] => refuse
    | first :: others =>
      return (String.ofList (first.through ((first :: others).getLastD first)), found)

/-- What a table holds. -/
def tableBody : Reader TableBody := do
  if ← accept .AS then
    expect .SELECT
    unless ← accept .DISTINCT do
      let _ ← accept .ALL
    return .query (← separated resultColumn)
  expectKind .openParen
  let first ← columnDefinition
  let others ← gather laterColumn?
  let clauses ←
    if ← acceptKind .comma then
      match ← tableClause? with
      | some clauses => pure (clauses :: (← gather constraintOrComma?))
      | none => refuse
    else
      pure []
  expectKind .closeParen
  let options ← if (← get).isEmpty then pure [] else separated tableOption
  return .columns (first :: others) clauses.flatten options

/-- `IF NOT EXISTS`, if it comes next. -/
def existsGuard : Reader Bool := do
  if ← accept .IF then
    expect .NOT
    expect .EXISTS
    return true
  else
    return false

/-- A name with its qualifier, if it has one. -/
def qualifiedName : Reader (Option String × String) := do
  let first ← name
  if (← takeIf? (· == Token.dot)).isSome then
    return (some first, ← name)
  else
    return (none, first)

/-- A definition of a table, after `TABLE`. -/
def tableDefinition (isTemporary : Bool) : Reader TableDefinition := do
  let ifNotExists ← existsGuard
  let (schema, tableName) ← qualifiedName
  return { isTemporary, ifNotExists, schema, name := tableName, body := ← tableBody }

/-- A definition of an index, after `INDEX`. -/
def indexDefinition (unique : Bool) : Reader IndexDefinition := do
  let ifNotExists ← existsGuard
  let (schema, indexName) ← qualifiedName
  expect .ON
  let table ← name
  let terms ← parenthesized (separated term)
  let condition ← if ← accept .WHERE then some <$> formula else pure none
  return { unique, ifNotExists, schema, name := indexName, table, terms, condition }

/-- A statement. -/
def definition : Reader Definition := do
  expect .CREATE
  if ← accept .UNIQUE then
    expect .INDEX
    return .index (← indexDefinition true)
  else if ← accept .INDEX then
    return .index (← indexDefinition false)
  else
    let isTemporary ← if ← accept .TEMP then pure true else accept .TEMPORARY
    expect .TABLE
    return .table (← tableDefinition isTemporary)

end Reader

/-- The definition that a sequence of lexemes is. -/
def Definition.read (lexemes : List Lexeme) : Except CatalogError Definition := do
  let (found, rest) ← Reader.definition.run lexemes
  match rest with
  | [] => return found
  | lexeme :: _ => throw (.unexpected lexeme.written)

/-- Splits lexemes at the semicolons; what is between two may be empty. -/
def split : List Lexeme → List (List Lexeme)
  | [] => [[]]
  | lexeme :: rest =>
    if lexeme.token == ⟨";", .invalid⟩ then [] :: split rest
    else
      match split rest with
      | [] => [[lexeme]]
      | statement :: statements => (lexeme :: statement) :: statements

/-- The characters with a blank in `/*` at their very end, which begins no comment. -/
def parted : List Char → List Char
  | ['/', '*'] => ['/', ' ', '*']
  | c :: r => c :: parted r
  | [] => []

/-- The statements of a text, which may begin with a byte order mark. -/
def statements (text : String) : List (List Lexeme) :=
  let cs := parted (text.toList.dropWhile (· == '\ufeff'))
  (split (lexemes cs)).filter fun statement => !statement.isEmpty

end Catalog

end SchemaText
