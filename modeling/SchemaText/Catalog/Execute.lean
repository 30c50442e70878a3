import SchemaText.Catalog.Layout

/-!
# Executing definitions

What a database makes of statements that define tables and indexes. A statement is executed
as a whole or refused.

## Main definitions

* `Catalog.IndexDefinition.entry`: what an index definition adds to a table.
* `Catalog.execute`: the catalogue after the statements of a text.
* `Catalog.runAll`: the catalogue after several texts, or the position of the refused one.

-/

namespace SchemaText

namespace Catalog

/-! ### Indexes -/

/-- What an index definition adds to a table. -/
def IndexDefinition.entry (definition : IndexDefinition) (table : TableEntry) :
    Except CatalogError IndexEntry := do
  let keys ← definition.terms.mapM table.key
  definition.condition.forM (table.checkValue .coverage)
  return ⟨some definition.name, .created, definition.unique, definition.condition.isSome, keys⟩

/-! ### Statements -/

/-- The schema that a qualifier names. -/
def findSchema (qualifier : String) : Except CatalogError Schema :=
  match Schema.ofName? qualifier with
  | some schema => .ok schema
  | none => .error (.unknownSchema qualifier)

/-- Refuses a name that belongs to the database. -/
def checkUnreserved (name : String) : Except CatalogError Unit :=
  require (!Text.same (String.ofList (name.toList.take 7)) "sqlite_") (.reservedName name)

/-- The schema of a table that is defined. -/
def TableDefinition.target (definition : TableDefinition) : Except CatalogError Schema := do
  match definition.schema with
  | none => return if definition.isTemporary then .temporary else .main
  | some qualifier =>
    let schema ← findSchema qualifier
    require (!definition.isTemporary || schema == .temporary) .qualifiedTemporary
    return schema

/-- The catalogue after a table definition. -/
def defineTable (catalog : Catalog) (definition : TableDefinition) :
    Except CatalogError Catalog := do
  let schema ← definition.target
  checkUnreserved definition.name
  if (catalog.find? schema definition.name).isSome then
    require definition.ifNotExists (.tableExists definition.name)
    return catalog
  require (!catalog.holdsIndex schema definition.name) (.namedLikeIndex definition.name)
  return catalog.addTable (← definition.entry schema)

/-- The table that an index is defined on; a qualifier of the index is one of the table. -/
def IndexDefinition.target (definition : IndexDefinition) (catalog : Catalog) :
    Except CatalogError TableEntry := do
  let found ←
    match definition.schema with
    | none => pure (catalog.table? definition.table)
    | some qualifier => pure (catalog.find? (← findSchema qualifier) definition.table)
  match found with
  | some table => return table
  | none =>
      throw (.noTable (definition.schema.getD Schema.main.name ++ "." ++ definition.table))

/-- The catalogue after an index definition. -/
def defineIndex (catalog : Catalog) (definition : IndexDefinition) :
    Except CatalogError Catalog := do
  let table ← definition.target catalog
  checkUnreserved definition.name
  require (catalog.find? table.schema definition.name).isNone (.namedLikeTable definition.name)
  if catalog.holdsIndex table.schema definition.name then
    require definition.ifNotExists (.indexExists definition.name)
    return catalog
  return catalog.addIndex table (← definition.entry table)

/-- The catalogue after a statement. -/
def define (catalog : Catalog) (statement : List Lexeme) : Except CatalogError Catalog := do
  match ← Definition.read statement with
  | .table definition => catalog.defineTable definition
  | .index definition => catalog.defineIndex definition

/-- The catalogue after the statements of a text. -/
def execute (catalog : Catalog) (text : String) : Except CatalogError Catalog :=
  (statements text).foldlM define catalog

/-- The catalogue after several texts; if one is refused, its position and the reason. -/
def runAll (catalog : Catalog) : List String → Except (Nat × CatalogError) Catalog
  | [] => .ok catalog
  | text :: texts =>
    match catalog.execute text with
    | .error reason => .error (0, reason)
    | .ok after =>
      match after.runAll texts with
      | .error (position, reason) => .error (position + 1, reason)
      | .ok final => .ok final

end Catalog

end SchemaText
