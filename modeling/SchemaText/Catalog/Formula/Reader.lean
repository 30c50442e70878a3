import SchemaText.Catalog.Formula.Basic
import SchemaText.Catalog.Reader

/-!
# Reading expressions as the database does

Expressions are read by binding strength: `a || b COLLATE c` is no collated column. A query
has no place in a definition and is no operand, nor is a parameter.

## Main definitions

* `Catalog.Rank`: how closely operators bind.
* `Catalog.Reader.formula`: reads an expression.
* `Catalog.Term`, `Catalog.Reader.term`: an expression with an order.
-/

namespace SchemaText

namespace Catalog

/-! ### Binding ranks -/

/-- The rank of an operator: the higher it is, the closer the operator binds. -/
abbrev Rank := Nat

namespace Rank

/-- The rank of `OR`. -/
def disjunction : Rank := 1

/-- The rank of `AND`. -/
def conjunction : Rank := 2

/-- The rank of `NOT`. -/
def negation : Rank := 3

/-- The rank of `=`, `IS`, `IN`, `LIKE` and their like. -/
def equality : Rank := 4

/-- The rank of `<` and its like. -/
def comparison : Rank := 5

/-- The rank of the operators on bits; `ESCAPE` lies between them and `<`. -/
def bits : Rank := 7

/-- The rank of `+` and `-` between two operands. -/
def sum : Rank := 8

/-- The rank of `*` and its like. -/
def product : Rank := 9

/-- The rank of `||` and the arrows. -/
def concatenation : Rank := 10

/-- The rank of `COLLATE`. -/
def collation : Rank := 11

/-- The rank of a sign before its operand. -/
def sign : Rank := 12

/-- The rank of a word that stands after an operand; none if the word is no operator. -/
def ofKeyword? : Keyword → Option Rank
  | .OR => some disjunction
  | .AND => some conjunction
  | .NOT => some negation
  | .IS | .IN | .BETWEEN | .LIKE | .GLOB | .REGEXP | .MATCH | .ISNULL | .NOTNULL =>
    some equality
  | .COLLATE => some collation
  | _ => none

/-- The rank of a sign that stands after an operand; none if the sign is no operator. -/
def ofSign? (sign : String) : Option Rank :=
  if ["=", "==", "<>", "!="].contains sign then some equality
  else if ["<", "<=", ">", ">="].contains sign then some comparison
  else if ["&", "|", "<<", ">>"].contains sign then some bits
  else if ["+", "-"].contains sign then some sum
  else if ["*", "/", "%"].contains sign then some product
  else if ["||", "->", "->>"].contains sign then some concatenation
  else none

/-- The rank of a token that stands after an operand; none if it is no operator. -/
def ofToken? (token : Token) : Option Rank :=
  match token.kind with
  | .symbol | .sign => ofSign? token.text
  | _ => token.keyword?.bind ofKeyword?

end Rank

/-! ### Numerals -/

/-- The numeral that a token is for the database, which lets underscores set digits apart. -/
def numeral? (token : Token) : Option String :=
  match token.kind with
  | .numeric => some token.text
  | .invalid => Numeral.joined? token.text
  | _ => none

/-- The number that a numeral stands for. -/
def Atom.ofNumeral (numeral : String) : Atom :=
  if Numeral.isInteger numeral then .integer numeral else .decimal numeral

/-! ### Reading -/

namespace Reader

/-- `DESC` or `ASC`, if one comes next: whether the order is descending. -/
def order : Reader Bool := do
  if ← accept .DESC then
    return true
  else
    let _ ← accept .ASC
    return false

/-- The place of `NULL` in an order, if it is given. -/
def nullPlace : Reader Unit := do
  if ← accept .NULLS then
    unless ← accept .FIRST do expect .LAST

/-- The rest of a name that a dot follows: the name may have one qualifier or two, and the
last one is the table. -/
def qualified (first : Token) : Reader Formula := do
  let second ← takeIf Token.isEntityName
  if (← takeIf? (· == Token.dot)).isSome then
    let third ← takeIf Token.isEntityName
    return .atom (.qualified second.token.text third.token)
  else
    return .atom (.qualified first.text second.token)

mutual

/-- An expression whose operators have at least the rank `least`. With `bounded` it ends
before an `AND` of its own, which belongs to the `BETWEEN` before it. -/
def formulaUpTo : Nat → Rank → Bool → Reader Formula
  | 0, _, _ => refuse
  | fuel + 1, least, bounded => do
    let first ← operandUpTo fuel
    extendUpTo fuel least bounded first

/-- What an expression grows to that begins with `left`. -/
def extendUpTo : Nat → Rank → Bool → Formula → Reader Formula
  | 0, _, _, _ => refuse
  | fuel + 1, least, bounded, left => do
    match ← peek with
    | none => return left
    | some token =>
      if bounded && token.is .AND then return left
      match Rank.ofToken? token with
      | none => return left
      | some rank =>
        if rank < least then return left
        let _ ← take
        let joined ← joinUpTo fuel token rank left
        extendUpTo fuel least bounded joined

/-- An operator after its left operand, with what follows it. -/
def joinUpTo : Nat → Token → Rank → Formula → Reader Formula
  | 0, _, _, _ => refuse
  | fuel + 1, op, rank, left => do
    match op.keyword? with
    | some .COLLATE => return .node (.collate (← collation)) [left]
    | some .ISNULL | some .NOTNULL => return .node .nullTest [left]
    | some .NOT =>
      if ← accept .NULL then
        return .node .nullTest [left]
      else
        let negated ← takeIf fun token =>
          [Keyword.BETWEEN, .IN, .LIKE, .GLOB, .REGEXP, .MATCH].any token.is
        return (← joinUpTo fuel negated.token Rank.equality left).negate
    | some .IS =>
      let _ ← accept .NOT
      if ← accept .DISTINCT then expect .FROM
      return left.sameAs (← formulaUpTo fuel Rank.comparison false)
    | some .BETWEEN =>
      let low ← formulaUpTo fuel Rank.disjunction true
      expect .AND
      return .node .between [left, low, ← formulaUpTo fuel Rank.comparison false]
    | some .IN =>
      expectKind .openParen
      let others ← argumentsUpTo fuel
      expectKind .closeParen
      if left.isRow && !others.isEmpty then throw .misusedRow
      return left.memberOf others
    | some .LIKE | some .GLOB | some .REGEXP | some .MATCH =>
      let pattern ← formulaUpTo fuel Rank.comparison false
      if ← accept .ESCAPE then
        return .ofCall op.text [pattern, left, ← formulaUpTo fuel Rank.comparison false] []
      else
        return .ofCall op.text [pattern, left] []
    | some .AND => return left.conjoin (← formulaUpTo fuel (rank + 1) false)
    | some .OR => return .node .disjunction [left, ← formulaUpTo fuel (rank + 1) false]
    | _ =>
      let right ← formulaUpTo fuel (rank + 1) false
      if rank == Rank.equality || rank == Rank.comparison then
        return .node .compare [left, right]
      else if ["->", "->>"].contains op.text then
        return .ofCall op.text [left, right] []
      else
        return .node .calculation [left, right]

/-- Expressions with commas between them; there may be none. -/
def argumentsUpTo : Nat → Reader (List Formula)
  | 0 => refuse
  | fuel + 1 => do
    if (← peek).any fun token => token.kind == .closeParen || token.is .ORDER then
      return []
    else
      separated (formulaUpTo fuel Rank.disjunction false)

/-- An operand with what stands before it. -/
def operandUpTo : Nat → Reader Formula
  | 0 => refuse
  | fuel + 1 => do
    match ← peek with
    | none => refuse
    | some token =>
      if let some numeral := numeral? token then
        let _ ← take
        return .atom (.ofNumeral numeral)
      match token.kind with
      | .blobLiteral =>
        let _ ← take
        return .atom .blob
      | .sign =>
        let _ ← take
        let inner ← formulaUpTo fuel Rank.sign false
        return inner.signed (if token.text == "-" then .minus else .plus)
      | .symbolPrefix =>
        let _ ← take
        return .node .calculation [← formulaUpTo fuel Rank.sign false]
      | .openParen =>
        let _ ← take
        let inside ← argumentsUpTo fuel
        expectKind .closeParen
        match inside with
        | [] => refuse
        | [inner] => return inner
        | values => return .node .row values
      | .stringLiteral =>
        let _ ← take
        if (← takeIf? (· == Token.dot)).isSome then qualified token
        else return .atom (.text token.text)
      | _ =>
        match token.keyword? with
        | some .NULL =>
          let _ ← take
          return .atom .null
        | some .CURRENT_DATE | some .CURRENT_TIME | some .CURRENT_TIMESTAMP =>
          let _ ← take
          return .ofCall token.text [] []
        | some .NOT =>
          let _ ← take
          return .node .negation [← formulaUpTo fuel Rank.negation false]
        | some .CAST =>
          let _ ← take
          expectKind .openParen
          let inner ← formulaUpTo fuel Rank.disjunction false
          expect .AS
          let type ← typeText
          expectKind .closeParen
          return .node (.cast type) [inner]
        | some .CASE =>
          let _ ← take
          choiceUpTo fuel
        | some .RAISE =>
          let _ ← take
          raiseUpTo fuel
        | _ =>
          let found ← takeIf Token.isValueName
          nameUpTo fuel found.token

/-- What stands after `CASE`. -/
def choiceUpTo : Nat → Reader Formula
  | 0 => refuse
  | fuel + 1 => do
    let subject ←
      if (← peek).any (·.is .WHEN) then pure []
      else do pure [← formulaUpTo fuel Rank.disjunction false]
    expect .WHEN
    let branches ← branchesUpTo fuel
    let otherwise ←
      if ← accept .ELSE then do pure [← formulaUpTo fuel Rank.disjunction false]
      else pure []
    expect .END
    return .node (.choice !subject.isEmpty) (subject ++ branches ++ otherwise)

/-- The branches of a case distinction, after the `WHEN` of the first. -/
def branchesUpTo : Nat → Reader (List Formula)
  | 0 => refuse
  | fuel + 1 => do
    let condition ← formulaUpTo fuel Rank.disjunction false
    expect .THEN
    let value ← formulaUpTo fuel Rank.disjunction false
    if ← accept .WHEN then
      return condition :: value :: (← branchesUpTo fuel)
    else
      return [condition, value]

/-- What stands after `RAISE`. -/
def raiseUpTo : Nat → Reader Formula
  | 0 => refuse
  | fuel + 1 => do
    expectKind .openParen
    let parts ←
      if ← accept .IGNORE then
        pure []
      else do
        let _ ← takeIf fun token => [Keyword.ROLLBACK, .ABORT, .FAIL].any token.is
        expectKind .comma
        pure [← formulaUpTo fuel Rank.disjunction false]
    expectKind .closeParen
    return .node .raise parts

/-- What begins with a name: a column, a qualified column or a call. -/
def nameUpTo : Nat → Token → Reader Formula
  | 0, _ => refuse
  | fuel + 1, token => do
    if ← acceptKind .openParen then
      if (← takeIf? (· == Token.star)).isSome then
        expectKind .closeParen
        return .ofCall token.text [] []
      unless ← accept .DISTINCT do
        let _ ← accept .ALL
      let arguments ← argumentsUpTo fuel
      let ordering ←
        if ← accept .ORDER then do
          expect .BY
          separated do
            let key ← formulaUpTo fuel Rank.disjunction false
            let _ ← order
            nullPlace
            return key
        else
          pure []
      expectKind .closeParen
      return .ofCall token.text arguments ordering
    else if (← takeIf? (· == Token.dot)).isSome then
      qualified token
    else
      return .atom (.name token)

end

/-- An expression. From one lexeme to the next, reading goes at most four levels deeper. -/
def formula : Reader Formula := do
  formulaUpTo (4 * (← get).length + 4) Rank.disjunction false

end Reader

/-! ### Terms -/

/-- An expression in a key list. -/
structure Term where
  /-- The expression. -/
  formula : Formula
  /-- Whether the order is descending. -/
  descending : Bool
  deriving DecidableEq

/-- An expression with its order. -/
def Reader.term : Reader Term := do
  let found ← formula
  return ⟨found, ← order⟩

end Catalog

end SchemaText
