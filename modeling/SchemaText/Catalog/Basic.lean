import SchemaText.Table.Column

/-!
# The catalogue

What a database knows of its tables once their definitions have been executed: the columns
with their types, constraints and key positions, and the indexes with their keys. A table
has an index for its primary key and for each of its unique keys besides those that are
created on their own; a primary key that is another name for the row number has none.

## Main definitions

* `Catalog.ColumnEntry`, `Catalog.KeyEntry`, `Catalog.IndexEntry`, `Catalog.TableEntry`:
  what is known.
* `Catalog`: all tables, with `Catalog.table?` and `Catalog.index?`.
* `Catalog.TableEntry.sortedIndexes`: the indexes in an order that names do not affect.

-/

namespace SchemaText

namespace Catalog

/-- The schemas of a database. -/
inductive Schema
  /-- The tables of the connection. -/
  | temporary
  /-- The tables of the file. -/
  | main
  deriving DecidableEq, Repr

/-- The schema that a qualifier names. -/
def Schema.ofName? (name : String) : Option Schema :=
  if Text.same name "main" then some .main
  else if Text.same name "temp" then some .temporary
  else none

/-- The name of a schema. -/
def Schema.name : Schema → String
  | temporary => "temp"
  | main => "main"

/-- What is known of a column. -/
structure ColumnEntry where
  /-- The name. -/
  name : String
  /-- The declared type, empty if there is none. -/
  type : String
  /-- Whether the column holds no `NULL`. -/
  notNull : Bool
  /-- The text of the default value, if there is one. -/
  default : Option String
  /-- The position in the primary key, counted from one; zero outside the key. -/
  keyPosition : Nat
  /-- How a generated column is kept; none for a plain column. -/
  generated : Option Storage
  /-- The collation by which the column is compared. -/
  collation : String
  deriving DecidableEq, Repr

/-- A key of an index. -/
structure KeyEntry where
  /-- The column; none for an expression. -/
  column : Option String
  /-- Whether the order is descending. -/
  descending : Bool
  /-- The collation. -/
  collation : String
  deriving DecidableEq, Repr, Ord

/-- Where an index comes from. -/
inductive Origin
  /-- A statement of its own. -/
  | created
  /-- The primary key. -/
  | primaryKey
  /-- A unique key. -/
  | uniqueKey
  deriving DecidableEq, Repr, Ord

/-- What is known of an index. -/
structure IndexEntry where
  /-- The name; none if the index belongs to a key of the table. -/
  name : Option String
  /-- Where it comes from. -/
  origin : Origin
  /-- Whether it enforces uniqueness. -/
  unique : Bool
  /-- Whether it covers only some of the rows. -/
  partly : Bool
  /-- The keys, in order. -/
  keys : List KeyEntry
  deriving DecidableEq, Repr

/-- Whether the index has this name, in any case. -/
def IndexEntry.isNamed (index : IndexEntry) (name : String) : Bool :=
  index.name.any (Text.same name)

/-- The order of indexes by what they are: by origin, uniqueness, coverage and keys, in which
a property that is missing comes first. -/
def IndexEntry.order (first second : IndexEntry) : Ordering :=
  (compare first.origin second.origin).then <|
    (compare first.unique second.unique).then <|
      (compare first.partly second.partly).then <|
        compare first.keys second.keys

/-- What is known of a table. -/
structure TableEntry where
  /-- The schema that holds the table. -/
  schema : Schema
  /-- The name. -/
  name : String
  /-- The columns in the order of their definitions. -/
  columns : List ColumnEntry
  /-- The indexes in the order of their creation. -/
  indexes : List IndexEntry
  /-- Whether rows have an implicit number. -/
  hasRowid : Bool
  deriving DecidableEq, Repr

namespace TableEntry

/-- Whether the table has this name, in any case. -/
def isNamed (table : TableEntry) (name : String) : Bool :=
  Text.same table.name name

/-- The column of this name, in any case. -/
def column? (table : TableEntry) (name : String) : Option ColumnEntry :=
  table.columns.find? fun column => Text.same column.name name

/-- The indexes in an order that does not depend on their names or their creation. -/
def sortedIndexes (table : TableEntry) : List IndexEntry :=
  table.indexes.mergeSort fun first second => (first.order second).isLE

end TableEntry

end Catalog

/-- What a database knows of its tables. -/
structure Catalog where
  /-- The tables in the order of their creation. -/
  tables : List Catalog.TableEntry := []
  deriving DecidableEq, Repr

namespace Catalog

/-- The catalogue of a new database. -/
def empty : Catalog := {}

/-- The table of this name in a schema. -/
def find? (catalog : Catalog) (schema : Schema) (name : String) : Option TableEntry :=
  catalog.tables.find? fun table => table.schema == schema && table.isNamed name

/-- The table of this name; one of the connection hides one of the file. -/
def table? (catalog : Catalog) (name : String) : Option TableEntry :=
  (catalog.find? .temporary name).or (catalog.find? .main name)

/-- Whether a schema holds an index of this name. -/
def holdsIndex (catalog : Catalog) (schema : Schema) (name : String) : Bool :=
  catalog.tables.any fun table =>
    table.schema == schema && table.indexes.any (·.isNamed name)

/-- The index of this name. -/
def index? (catalog : Catalog) (name : String) : Option IndexEntry :=
  catalog.tables.findSome? fun table => table.indexes.find? (·.isNamed name)

/-- The catalogue with one more table. -/
def addTable (catalog : Catalog) (table : TableEntry) : Catalog where
  tables := catalog.tables ++ [table]

/-- The catalogue with one more index on a table. -/
def addIndex (catalog : Catalog) (table : TableEntry) (index : IndexEntry) : Catalog where
  tables := catalog.tables.map fun other =>
    if other.schema == table.schema && other.isNamed table.name then
      { other with indexes := other.indexes ++ [index] }
    else other

/-- The catalogue without the indexes of this name. -/
def dropIndex (catalog : Catalog) (name : String) : Catalog where
  tables := catalog.tables.map fun table =>
    { table with indexes := table.indexes.filter fun index => !index.isNamed name }

end Catalog

end SchemaText
