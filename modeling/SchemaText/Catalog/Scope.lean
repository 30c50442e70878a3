import SchemaText.Catalog.Formula.Reader

/-!
# Names and calls in the expressions of a table

Every name in an expression has to mean something. It means a column of the table; the row
number, where rows may be told apart by it; or a constant, if the name is `TRUE` or `FALSE`.
A name in double quotes that means nothing else stands for its own text. Every call has to
mean a function, and one that the place of the expression admits: a value that is kept may
not depend on the moment it is computed.

## Main definitions

* `Catalog.collations`: the collations that exist.
* `Catalog.Scope.admitsVarying` and its like: what the place of an expression admits.
* `Catalog.TableEntry.checkFormula`: refuses an expression with a name or a call that means
  nothing in its place.

-/

namespace SchemaText

namespace Catalog

/-! ### Collations -/

/-- The collation of a column that names none. -/
def defaultCollation : String := "BINARY"

/-- The collations that exist. -/
def collations : List String := [defaultCollation, "NOCASE", "RTRIM"]

/-- Refuses a collation that does not exist. -/
def checkCollation (collation : String) : Except CatalogError Unit :=
  if collations.any (Text.same collation) then .ok ()
  else .error (.noCollation collation)

/-! ### Places -/

namespace Scope

/-- Whether the row number may be named. -/
def admitsRowNumber : Scope → Bool
  | check | coverage => true
  | _ => false

/-- Whether names may be qualified. -/
def admitsQualified : Scope → Bool
  | term | rule => false
  | _ => true

/-- Whether results may depend on the moment they are computed. -/
def admitsVarying : Scope → Bool
  | check | result | summary => true
  | _ => false

/-- The place of the operands of an expression. -/
def inner (scope : Scope) : Operator → Scope
  | .call name count =>
    if (findFunction name count).toOption.any (·.kind == .aggregate) then .summary else scope
  | _ => scope

end Scope

/-! ### Names -/

/-- Whether the name is one of those of the row number. -/
def isRowidName (name : String) : Bool :=
  ["rowid", "oid", "_rowid_"].any (Text.same name)

namespace TableEntry

/-- Whether the name is that of a column, or of the row number where that is allowed. -/
def knows (table : TableEntry) (scope : Scope) (name : String) : Bool :=
  (table.column? name).isSome
    || scope.admitsRowNumber && table.hasRowid && isRowidName name

/-- Refuses a name that means nothing in the table. -/
def checkName (table : TableEntry) (scope : Scope) : Atom → Except CatalogError Unit
  | .name token =>
    require
      (table.knows scope token.text || token.isTruthWord
        || token.kind == .quotedIdentifier)
      (.noColumn token.text)
  | .qualified qualifier token => do
    require scope.admitsQualified (.qualifiedName scope)
    require (table.isNamed qualifier && table.knows scope token.text) (.noColumn token.text)
  | _ => .ok ()

/-- The truth value of an atom that has one whatever the row; a column may be named like
one. -/
def truthWord? (table : TableEntry) : Atom → Option Bool
  | .truth value => some value
  | .name token =>
    if token.isTruthWord && (table.column? token.text).isNone then some (token.is .TRUE)
    else none
  | _ => none

/-- Whether an expression is a word for a truth value, perhaps under collations. -/
def isTruth (table : TableEntry) (formula : Formula) : Bool :=
  match formula.core with
  | .atom found => (table.truthWord? found).isSome
  | _ => false

/-! ### Calls -/

/-- Refuses a call that says a likelihood which is no number up to one. -/
def checkLikelihood (name : String) (parts : List Formula) : Except CatalogError Unit :=
  if Text.same name "likelihood" then
    match parts with
    | [_, .atom (.decimal numeral)] => require (Numeral.isAtMostOne numeral) .badLikelihood
    | _ => .error .badLikelihood
  else
    .ok ()

/-- Refuses a call that means nothing or does not belong in its place. -/
def checkCall (table : TableEntry) (scope : Scope) (name : String) (count : Nat)
    (parts : List Formula) : Except CatalogError Unit := do
  let function ← findFunction name count
  match function.kind with
  | .steady => checkLikelihood name parts
  | .varying => require scope.admitsVarying (.varyingFunction scope)
  | .direct =>
    require scope.admitsVarying (.varyingFunction scope)
    require (table.schema == .temporary && scope == .check) (.directFunction name)
  | .aggregate => require (scope == .result) (.misusedAggregate name)
  | .window => throw (.misusedWindow name)
  require (parts.length ≤ count || function.kind == .aggregate) (.orderedArguments name)

/-! ### Expressions -/

/-- Refuses an operator whose operands do not fit together. -/
def checkOperator (table : TableEntry) (scope : Scope) (op : Operator) (parts : List Formula) :
    Except CatalogError Unit :=
  match op, parts with
  | .call function count, _ => table.checkCall scope function count parts
  | .compare, [left, right] => require (left.width == right.width) .misusedRow
  | .same, [left, right] =>
    require (table.isTruth right || left.width == right.width) .misusedRow
  | .between, [operand, low, high] =>
    require (operand.width == low.width && operand.width == high.width) .misusedRow
  | _, _ => .ok ()

/-- Refuses an expression with a name or a call that means nothing in its place. -/
def checkFormula (table : TableEntry) (scope : Scope) (formula : Formula) :
    Except CatalogError Unit :=
  formula.fold (fun found scope => table.checkName scope found)
    (fun op parts scope => do
      table.checkOperator scope op (parts.map (·.1))
      parts.forM fun part => part.2 (scope.inner op))
    scope

end TableEntry

end Catalog

end SchemaText
