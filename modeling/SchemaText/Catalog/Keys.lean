import SchemaText.Catalog.Computation
import SchemaText.Catalog.Definition

/-!
# The keys of a table

The primary key and the unique keys of a table come from the clauses of its columns, then
from its own clauses. Each gets an index, but two keys with the same columns and collations
share one. A primary key may be another name for the row number and then has no index.

## Main definitions

* `Catalog.TableEntry.key`: what a term of a key list is as a key of an index.
* `Catalog.KeyRequest`: a key that a clause asks for.
* `Catalog.ColumnDefinition.keyRequests`, `Catalog.TableClause.keyRequest?`: the keys of the
  clauses.
* `Catalog.KeyRequest.isRowNumber`: whether a primary key stands for the row number.
* `Catalog.mergeKeys`: the indexes of all keys.
-/

namespace SchemaText

namespace Catalog

/-! ### The keys of an index -/

namespace Formula

/-- The text of a literal that has to be a column: one that is the whole term but for one
collation. -/
def literal? : Formula → Option String
  | atom (.text content) | node (.collate _) [atom (.text content)] => some content
  | _ => none

/-- The name of the column that a term is, if it is one. -/
def columnName? (formula : Formula) : Option String :=
  match formula.core with
  | atom (.name token) => some token.text
  | _ => formula.literal?

end Formula

/-- Refuses a value that cannot be computed for the rows of a table, or means nothing in its
place. -/
def TableEntry.checkValue (table : TableEntry) (scope : Scope) (formula : Formula) :
    Except CatalogError Unit := do
  table.checkFormula scope formula
  table.checkComputed formula

/-- What a term of a key list is as a key of an index: a column with the collation of the
term or else its own, or an expression. -/
def TableEntry.key (table : TableEntry) (term : Term) : Except CatalogError KeyEntry := do
  let collation? := term.formula.collation?
  collation?.forM checkCollation
  match term.formula.columnName?.bind table.column? with
  | some column =>
    return ⟨some column.name, term.descending, collation?.getD column.collation⟩
  | none =>
    if let some content := term.formula.literal? then throw (.noColumn content)
    table.checkValue .term term.formula
    return ⟨none, term.descending, collation?.getD defaultCollation⟩

/-! ### Requests -/

/-- A key that a clause asks for. -/
structure KeyRequest where
  /-- The keys of its index. -/
  keys : List KeyEntry
  /-- The conflict clause, if there is one. -/
  onConflict : Option ConflictAction
  /-- Whether it is the primary key. -/
  isPrimary : Bool
  /-- Whether a column declares it. -/
  isInline : Bool
  /-- Whether it is `AUTOINCREMENT`. -/
  autoincrement : Bool := false
  deriving DecidableEq, Repr

/-! ### The keys of the clauses -/

/-- The key that a clause of a column asks for. -/
def ColumnClause.keyRequest? (column : ColumnEntry) : ColumnClause → Option KeyRequest
  | key descending autoincrement onConflict =>
    some ⟨[⟨some column.name, descending, column.collation⟩], onConflict, true, true,
      autoincrement⟩
  | unique onConflict =>
    some ⟨[⟨some column.name, false, column.collation⟩], onConflict, false, true, false⟩
  | _ => none

/-- The keys that the clauses of a column ask for. -/
def ColumnDefinition.keyRequests (column : ColumnDefinition) (entry : ColumnEntry) :
    List KeyRequest :=
  column.clauses.filterMap (·.keyRequest? entry)

/-- The key of a term that has to be a column. -/
def TableEntry.columnKey (table : TableEntry) (term : Term) :
    Except CatalogError KeyEntry := do
  let key ← table.key term
  if key.column.isSome then return key else throw .expressionInKey

/-- The key that stands for the row number if it is the primary key: a column of type
`INTEGER`. The term need not name a collation that exists, since the column keeps its own. -/
def TableEntry.integerKey? (table : TableEntry) : List Term → Option KeyEntry
  | [term] =>
    match term.formula.columnName?.bind table.column? with
    | some column =>
      if column.type == "INTEGER" then
        some ⟨some column.name, term.descending, column.collation⟩
      else none
    | none => none
  | _ => none

/-- The keys of a primary key. -/
def TableEntry.primaryKeys (table : TableEntry) (terms : List Term) :
    Except CatalogError (List KeyEntry) :=
  match table.integerKey? terms with
  | some key => .ok [key]
  | none => terms.mapM table.columnKey

/-- The key that a constraint of a table asks for. -/
def TableClause.keyRequest? (table : TableEntry) :
    TableClause → Except CatalogError (Option KeyRequest)
  | key terms autoincrement onConflict => do
    return some ⟨← table.primaryKeys terms, onConflict, true, false, autoincrement⟩
  | unique terms onConflict => do
    return some ⟨← terms.mapM table.columnKey, onConflict, false, false, false⟩
  | _ => return none

/-! ### The primary key -/

/-- The only primary key among the requests, if there is one. -/
def primaryKey? (table : String) (requests : List KeyRequest) :
    Except CatalogError (Option KeyRequest) :=
  match requests.filter (·.isPrimary) with
  | [] => .ok none
  | [key] => .ok (some key)
  | _ => .error (.secondKey table)

/-- Whether the key is another name for the row number: its only column is of type `INTEGER`,
and is not declared as descending where the column itself declares the key. -/
def KeyRequest.isRowNumber (request : KeyRequest) (columns : List ColumnEntry) : Bool :=
  match request.keys with
  | [key] =>
    (columns.find? fun column => key.column == some column.name).any (·.type == "INTEGER")
      && !(request.isInline && key.descending)
  | _ => false

/-! ### Indexes -/

/-- Whether two keys have the same column and collation. -/
def KeyEntry.matches (first second : KeyEntry) : Bool :=
  first.column == second.column && Text.same first.collation second.collation

/-- Whether two lists of keys have the same columns and collations; the orders do not count. -/
def sameKeys : List KeyEntry → List KeyEntry → Bool
  | [], [] => true
  | first :: firsts, second :: seconds => first.matches second && sameKeys firsts seconds
  | _, _ => false

/-- The index of a key. -/
def KeyRequest.index (request : KeyRequest) : IndexEntry where
  name := none
  origin := if request.isPrimary then .primaryKey else .uniqueKey
  unique := true
  partly := false
  keys := request.keys

/-- The request that two with the same keys amount to; two different conflict clauses
contradict each other. -/
def KeyRequest.merge (first second : KeyRequest) : Except CatalogError KeyRequest :=
  if first.onConflict.isSome && second.onConflict.isSome
      && first.onConflict != second.onConflict then
    .error .conflictingActions
  else
    .ok { first with
      onConflict := first.onConflict.or second.onConflict
      isPrimary := first.isPrimary || second.isPrimary }

/-- Adds a request to those before it, unless one of them has the same keys. -/
def addRequest (requests : List KeyRequest) (request : KeyRequest) :
    Except CatalogError (List KeyRequest) :=
  match requests with
  | [] => .ok [request]
  | first :: others =>
    if sameKeys first.keys request.keys then return (← first.merge request) :: others
    else return first :: (← addRequest others request)

/-- The requests that need an index, each once. -/
def mergeKeys (requests : List KeyRequest) : Except CatalogError (List KeyRequest) :=
  requests.foldlM addRequest []

/-- The keys without those that repeat an earlier one. -/
def distinctKeys (keys : List KeyEntry) : List KeyEntry :=
  keys.foldl (fun kept key => if kept.any key.matches then kept else kept ++ [key]) []

end Catalog

end SchemaText
