import SchemaText.Catalog.DeclaredType
import SchemaText.Catalog.Keys

/-!
# What a table definition makes

The entry of the catalogue that comes of a table definition, unless the definition
contradicts itself.

## Main definitions

* `Catalog.ColumnDefinition.entry`: what the catalogue shows of a column but for its key.
* `Catalog.TableEntry.withKeys`: a table with its primary key, its unique keys and their
  indexes.
* `Catalog.checkSettled`: refuses virtual columns that are computed from themselves.
* `Catalog.resultNames`: the columns of a table that is made from a query.
* `Catalog.TableDefinition.entry`: what a table definition adds to the catalogue.
-/

namespace SchemaText

namespace Catalog

/-! ### Columns -/

/-- The rule and the storage of a generated column. A column has one rule and then no default
value. -/
def ColumnDefinition.generated? (column : ColumnDefinition) :
    Except CatalogError (Option Storage) :=
  let rules := column.clauses.filterMap fun
    | .generated _ storage => some storage
    | _ => none
  let hasDefault := column.clauses.any fun
    | .default .. => true
    | _ => false
  match rules with
  | [] => .ok none
  | [some storage] => if hasDefault then .error .generatedDefault else .ok (some storage)
  | _ => .error (.badGenerated column.name)

/-- Refuses a clause of a column that no table could have. -/
def ColumnClause.validate (column : String) : ColumnClause → Except CatalogError Unit
  | default _ value =>
    require (value.all (·.isConstant fun _ _ => true)) (.variableDefault column)
  | collate collation => checkCollation collation
  | references parents table => require (parents.all (· == 1)) (.manyParents column table)
  | _ => .ok ()

/-- What the catalogue shows of a column but for its key. The last default value and the last
collation count. -/
def ColumnDefinition.entry (column : ColumnDefinition) : Except CatalogError ColumnEntry := do
  column.clauses.forM (·.validate column.name)
  let collations := column.clauses.filterMap fun
    | .collate collation => some collation
    | _ => none
  let defaults := column.clauses.filterMap fun
    | .default text _ => some text
    | _ => none
  return {
    name := column.name
    type := declaredType column.type
    notNull := column.clauses.contains .notNull
    default := defaults.getLast?
    keyPosition := 0
    generated := ← column.generated?
    collation := collations.getLastD defaultCollation }

/-- Refuses two columns of one name. -/
def checkDistinct : List ColumnEntry → Except CatalogError Unit
  | [] => .ok ()
  | column :: columns => do
    if let some twin := columns.find? fun other => Text.same other.name column.name then
      throw (.duplicateColumn twin.name)
    checkDistinct columns

/-! ### Tables -/

/-- Refuses a column that no strict table has. -/
def ColumnEntry.checkStrict (table : String) (column : ColumnEntry) :
    Except CatalogError Unit :=
  if column.type.isEmpty then .error (.missingType table column.name)
  else require (standardTypes.contains column.type) (.unknownType table column.name column.type)

/-- Refuses an expression of a column that means nothing, and a rule that is computed again
and again but cannot be. -/
def ColumnClause.checkFormulas (table : TableEntry) : ColumnClause → Except CatalogError Unit
  | check condition => table.checkFormula .check condition
  | generated rule (some .virtual) => table.checkValue .rule rule
  | generated rule _ => table.checkFormula .rule rule
  | _ => .ok ()

/-- Refuses a constraint with a name that means nothing. -/
def TableClause.checkFormulas (table : TableEntry) : TableClause → Except CatalogError Unit
  | check condition => table.checkFormula .check condition
  | foreignKey columns parents => do
    require (parents.all (· == columns.length)) .parentCount
    columns.forM fun column =>
      require (table.column? column).isSome (.unknownChild column)
  | _ => .ok ()

/-- The virtual column that a definition makes, and the names that it needs. -/
def ColumnDefinition.needs? (table : TableEntry) (column : ColumnDefinition) :
    Option (String × List String) :=
  column.clauses.findSome? fun
    | .generated rule (some .virtual) => some (column.name, table.needs rule)
    | _ => none

/-- Refuses virtual columns that are computed from themselves. -/
def checkSettled (table : TableEntry) (columns : List ColumnDefinition) :
    Except CatalogError Unit :=
  match unsettled (columns.filterMap (·.needs? table)) with
  | [] => .ok ()
  | (column, _) :: _ => .error (.generatedLoop column)

/-- The position of a column in the primary key, counted from one; zero outside the key. -/
def keyPosition (key : Option KeyRequest) (name : String) : Nat :=
  match key with
  | none => 0
  | some key =>
    match key.keys.findIdx? fun entry => entry.column == some name with
    | some index => index + 1
    | none => 0

/-- The table with its keys: their indexes, and the positions and marks of the key columns.
The primary key of a table without row numbers always has an index, in which no column comes
twice. -/
def TableEntry.withKeys (table : TableEntry) (isStrict : Bool) (requests : List KeyRequest) :
    Except CatalogError TableEntry := do
  let key ← primaryKey? table.name requests
  let isRowNumber := key.any (·.isRowNumber table.columns)
  if let some request := key then
    require (isRowNumber || !request.autoincrement) .misplacedAutoincrement
    require (table.hasRowid || !request.autoincrement) .autoincrementWithoutRowid
    request.keys.forM fun entry =>
      require (!table.columns.any fun column =>
        column.generated.isSome && entry.column == some column.name) .generatedKey
  require (table.hasRowid || key.isSome) (.missingKey table.name)
  let others := if isRowNumber then requests.filter (!·.isPrimary) else requests
  let late := if isRowNumber && !table.hasRowid then key.toList else []
  let merged ← mergeKeys (others ++ late)
  let final := merged.map fun request =>
    if request.isPrimary && !table.hasRowid then
      { request with keys := distinctKeys request.keys }
    else request
  let shown := if isRowNumber && table.hasRowid then key else final.find? (·.isPrimary)
  let filled := !table.hasRowid || isStrict && !isRowNumber
  return { table with
    columns := table.columns.map fun column =>
      let position := keyPosition shown column.name
      { column with
        keyPosition := position
        notNull := column.notNull || filled && position != 0 }
    indexes := final.map KeyRequest.index }

/-- What a table with columns and constraints is. -/
def columnTable (schema : Schema) (name : String) (columns : List ColumnDefinition)
    (clauses : List TableClause) (options : List TableOption) :
    Except CatalogError TableEntry := do
  let entries ← columns.mapM ColumnDefinition.entry
  checkDistinct entries
  require (entries.any (·.generated.isNone)) .noPlainColumn
  let isStrict := options.contains .strict
  if isStrict then entries.forM (·.checkStrict name)
  let table : TableEntry := ⟨schema, name, entries, [], !options.contains .withoutRowid⟩
  let inline := (columns.zip entries).flatMap fun (column, entry) => column.keyRequests entry
  let listed ← clauses.filterMapM (·.keyRequest? table)
  let done ← table.withKeys isStrict (inline ++ listed)
  columns.forM fun column => column.clauses.forM (·.checkFormulas done)
  clauses.forM (·.checkFormulas done)
  checkSettled done columns
  return done

/-! ### Tables made from queries -/

/-- The name without a colon and the digits after it, at its end. -/
def stem (name : String) : List Char :=
  match name.toList.reverse.dropWhile Char.isDigit with
  | ':' :: r => r.reverse
  | _ => name.toList

/-- The name of a result in a table: a number sets it apart from the earlier ones, and a word
for a truth value is no name. -/
def resultName (earlier : List String) (name : String) : String :=
  let plain :=
    if Text.same name "true" || Text.same name "false" then
      "column" ++ toString (earlier.length + 1)
    else name
  let numbered := (List.range (earlier.length + 1)).map fun index =>
    String.ofList (stem plain) ++ ":" ++ toString (index + 1)
  ((plain :: numbered).find? fun candidate => !earlier.any (Text.same candidate)).getD plain

/-- The names of results in a table. -/
def resultNames (names : List String) : List String :=
  names.foldl (fun earlier name => earlier ++ [resultName earlier name]) []

/-- What a table made from a query is: its columns hold what the results are. -/
def queryTable (schema : Schema) (name : String) (results : List (String × Formula)) :
    Except CatalogError TableEntry := do
  let table : TableEntry := ⟨schema, name, [], [], true⟩
  results.forM fun (_, value) => table.checkValue .result value
  let names := resultNames (results.map (·.1))
  let columns := (names.zip results).map fun (column, _, value) =>
    (⟨column, resultType value, false, none, 0, none, defaultCollation⟩ : ColumnEntry)
  return { table with columns }

/-- What a table definition adds to a schema. -/
def TableDefinition.entry (definition : TableDefinition) (schema : Schema) :
    Except CatalogError TableEntry :=
  match definition.body with
  | .columns columns clauses options =>
    columnTable schema definition.name columns clauses options
  | .query results => queryTable schema definition.name results

end Catalog

end SchemaText
