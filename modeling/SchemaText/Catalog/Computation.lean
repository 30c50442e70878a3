import SchemaText.Catalog.Scope

/-!
# What computing an expression needs

The terms of an index, the condition of a partial one and the rules of virtual columns are
computed while a definition is executed. An expression that means something may still be one
that cannot be computed: a comparison needs its collation, a row is no value, and a column
may not be computed from itself. Operands whose value cannot matter are not computed, and
nothing in them is refused.

## Main definitions

* `Catalog.soleOperand?`: the operand of `AND` or `OR` that is the whole.
* `Catalog.TableEntry.truth?`: the value of a condition that is the same for all rows.
* `Catalog.TableEntry.computed`: the operands that are computed.
* `Catalog.TableEntry.collation?`: the collation of an expression.
* `Catalog.TableEntry.checkComputed`: refuses an expression that cannot be computed.
* `Catalog.TableEntry.needs`: the names whose values are needed.
* `Catalog.unsettled`: the columns that are computed from themselves.

-/

namespace SchemaText

namespace Catalog

/-! ### Computed operands -/

/-- The operand of `AND` or `OR` that is the whole. `AND` is the lesser of its operands and
`OR` the greater; a truth value that is known of one can tell which that is. -/
def soleOperand? {α : Type} (op : Operator) (left right : α × Option Bool) : Option α :=
  let leftIsGreater := left.2 == some true || right.2 == some false
  let rightIsGreater := right.2 == some true || left.2 == some false
  match op with
  | .conjunction =>
    if leftIsGreater then some right.1 else if rightIsGreater then some left.1 else none
  | .disjunction =>
    if leftIsGreater then some left.1 else if rightIsGreater then some right.1 else none
  | _ => none

namespace TableEntry

/-- The value of a condition that is the same for all rows, as far as literals tell. -/
def truth? (table : TableEntry) : Formula → Option Bool :=
  Formula.fold
    (fun
      | .integer numeral => Formula.smallTruth? numeral
      | found => table.truthWord? found)
    fun op parts =>
      match parts with
      | [(_, left), (_, right)] => (soleOperand? op (left, left) (right, right)).join
      | _ => none

/-- The operands that are computed, with what is known of them. An operand of `AND` or `OR`
beside the one that is the whole is left out; so are a word for a truth value after `IS`, all
but the first argument of an estimate, and the order of arguments. -/
def computed {β : Type} (table : TableEntry) (op : Operator) (parts : List (Formula × β)) :
    List (Formula × β) :=
  match op, parts with
  | .conjunction, [left, right] | .disjunction, [left, right] =>
    match soleOperand? op (left, table.truth? left.1) (right, table.truth? right.1) with
    | some part => [part]
    | none => parts
  | .same, [left, right] => if table.isTruth right.1 then [left] else parts
  | .call name count, _ => parts.take (if isEstimate name then 1 else count)
  | _, _ => parts

/-! ### Collations -/

/-- Whether the column is another name for the row number. -/
def isRowNumber (table : TableEntry) (column : ColumnEntry) : Bool :=
  table.hasRowid && column.keyPosition != 0
    && !table.indexes.any fun index => index.origin == .primaryKey

/-- The collation of the column of a name; none if it is the row number. -/
def columnCollation? (table : TableEntry) (name : String) : Option String :=
  match table.column? name with
  | some column => if table.isRowNumber column then none else some column.collation
  | none => none

/-- The collation of an expression: that of a column, perhaps under a plus or a cast, or the
one that counts for the whole expression. -/
def collation? (table : TableEntry) : Formula → Option String :=
  Formula.fold
    (fun
      | .name token | .qualified _ token => table.columnCollation? token.text
      | _ => none)
    fun op parts =>
      match op, parts with
      | .collate collation, _ => some collation
      | .plus, [part] | .cast _, [part] => part.2
      | .row, part :: _ => part.2
      | _, _ => (op.visible parts).find? (·.1.isCollated) |>.bind (·.2)

/-- The collation by which two expressions are compared, if one is named: that of the left
one comes first. -/
def comparingCollation? (table : TableEntry) (left right : Formula) : Option String :=
  if left.isCollated then table.collation? left
  else if right.isCollated then table.collation? right
  else none

/-- The collation by which a function compares its arguments. -/
def sharedCollation? (table : TableEntry) (parts : List Formula) : Option String :=
  parts.findSome? table.collation?

/-! ### Comparisons -/

/-- The conditions among the pairs of a condition and a value. -/
def conditions : List Formula → List Formula
  | condition :: _ :: rest => condition :: conditions rest
  | _ => []

/-- The values among the pairs of a condition and a value, and the last value. -/
def outcomes : List Formula → List Formula
  | _ :: value :: rest => value :: outcomes rest
  | rest => rest

/-- The operands that are compared with each other, and those that are only computed. -/
def compared (op : Operator) (parts : List Formula) :
    List (Formula × Formula) × List Formula :=
  match op, parts with
  | .compare, [left, right] | .same, [left, right] => ([(left, right)], [])
  | .between, [operand, low, high] => ([(operand, low), (operand, high)], [])
  | .choice true, subject :: branches =>
    ((conditions branches).map fun condition => (subject, condition), outcomes branches)
  | _, _ => ([], parts)

/-- Refuses a comparison of two values without a collation. -/
def checkValues (table : TableEntry) (left right : Formula) : Except CatalogError Unit :=
  (table.comparingCollation? left right).forM checkCollation

/-- Refuses a comparison without a collation, and one of rows of different widths. -/
def checkComparison (table : TableEntry) : Formula → Formula → Except CatalogError Unit
  | .node .row lefts, .node .row rights => do
    require (lefts.length == rights.length) .misusedRow
    (lefts.zip rights).forM fun (left, right) => table.checkValues left right
  | left, right => do
    require (!left.isRow && !right.isRow) .misusedRow
    table.checkValues left right

/-! ### Expressions -/

/-- Refuses a hexadecimal integer that does not fit. -/
def checkNumeral (sign : String) (fits : Nat → Bool) : Formula → Except CatalogError Unit
  | .atom (.integer numeral) =>
    require (!Numeral.isHex numeral || fits (Numeral.value numeral))
      (.hexTooBig (sign ++ numeral))
  | _ => .ok ()

/-- Refuses an operator that cannot be computed. -/
def checkOperation (table : TableEntry) (op : Operator) (parts : List Formula) :
    Except CatalogError Unit := do
  (compared op parts).1.forM fun (left, right) => table.checkComparison left right
  (compared op parts).2.forM fun part => require (!part.isRow) .misusedRow
  match op, parts with
  | .raise, _ => throw .misplacedRaise
  | .minus, [part] => checkNumeral "-" (· != 1 <<< 63) part
  | .member, left :: _ => if left.isCollated then (table.collation? left).forM checkCollation
  | .call name _, _ =>
    if comparesArguments name then (table.sharedCollation? parts).forM checkCollation
  | _, _ => return

/-- Refuses an expression that cannot be computed. -/
def checkComputed (table : TableEntry) (formula : Formula) : Except CatalogError Unit := do
  require (!formula.isRow) .misusedRow
  formula.fold (fun found => checkNumeral "" (· < 1 <<< 64) (.atom found)) fun op parts => do
    table.checkOperation op ((table.computed op parts).map (·.1))
    (table.computed op parts).forM (·.2)

/-- The names whose values are needed to compute an expression. -/
def needs (table : TableEntry) : Formula → List String :=
  Formula.fold
    (fun
      | .name token => [token.text]
      | _ => [])
    fun op parts => (table.computed op parts).flatMap (·.2)

end TableEntry

/-! ### Columns computed from others -/

/-- The columns that need one of the given columns, each with the names that it needs. -/
def dependent (columns : List (String × List String)) : List (String × List String) :=
  columns.filter fun column =>
    column.2.any fun name => columns.any fun other => Text.same other.1 name

/-- The columns that are computed from themselves or need one that is. -/
def unsettled (columns : List (String × List String)) : List (String × List String) :=
  Nat.repeat dependent columns.length columns

end Catalog

end SchemaText
