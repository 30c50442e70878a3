import SchemaText.Catalog.Function
import SchemaText.Token.Value

/-!
# Expressions as the database keeps them

`Expr` keeps an expression as it is written and asks little of it. The database has to know
more: what is compared, which function is called with how many arguments, where a collation
counts. So an expression of a definition is a tree of operators over names and literals.

Some expressions are not kept as they are written. What can never be true is zero, `IN` with
one constant is a comparison, and `IS NULL` is a test of one operand. A name in what is lost
in this way is never looked up.

## Main definitions

* `Catalog.Atom`, `Catalog.Operator`, `Catalog.Formula`: expressions.
* `Catalog.Formula.fold`: recursion over an expression.
* `Catalog.Formula.conjoin` and its like: what operators make of their operands.
* `Catalog.Formula.isConstant`: whether an expression depends on nothing.

-/

namespace SchemaText

/-- Whether the token is one of the words for truth values. -/
def Token.isTruthWord (token : Token) : Bool :=
  token.is .TRUE || token.is .FALSE

namespace Catalog

/-! ### Trees -/

/-- An expression without parts. -/
inductive Atom
  /-- A name without qualifiers. -/
  | name (token : Token)
  /-- A name with a table before it. -/
  | qualified (table : String) (token : Token)
  /-- An integer, as it is written. -/
  | integer (numeral : String)
  /-- A number with a point or an exponent, as it is written. -/
  | decimal (numeral : String)
  /-- A text literal. -/
  | text (content : String)
  | blob
  | null
  /-- A truth value that no word stands for. -/
  | truth (value : Bool)
  deriving DecidableEq, Repr

/-- What is done with the parts of an expression. -/
inductive Operator
  | collate (collation : String)
  | cast (type : String)
  | plus
  | minus
  | negation
  | conjunction
  | disjunction
  /-- A comparison such as `=` or `<`. -/
  | compare
  /-- A comparison by `IS`. -/
  | same
  /-- A test for `NULL`. -/
  | nullTest
  /-- A comparison with two bounds. -/
  | between
  /-- A comparison of the first part with each of the others. -/
  | member
  /-- A case distinction: the subject, if there is one, pairs of a condition and a value, and
  perhaps a last value. -/
  | choice (hasSubject : Bool)
  /-- A call with so many arguments; further parts give them an order. -/
  | call (function : String) (count : Nat)
  /-- Several values side by side. -/
  | row
  | raise
  /-- Any other operator on numbers and texts. -/
  | calculation
  deriving DecidableEq, Repr

/-- An expression of a definition. -/
inductive Formula
  | atom (atom : Atom)
  | node (op : Operator) (parts : List Formula)

namespace Formula

variable {β : Type}

mutual

/-- The value of an expression, from the values of its parts. -/
def fold (leaf : Atom → β) (join : Operator → List (Formula × β) → β) : Formula → β
  | .atom found => leaf found
  | .node op parts => join op (foldEach leaf join parts)

/-- Expressions with their values. -/
def foldEach (leaf : Atom → β) (join : Operator → List (Formula × β) → β) :
    List Formula → List (Formula × β)
  | [] => []
  | part :: parts => (part, fold leaf join part) :: foldEach leaf join parts

end

mutual

/-- Decides whether two expressions are equal. -/
def decEq : (first second : Formula) → Decidable (first = second)
  | .atom first, .atom second => decidable_of_iff (first = second) (by simp)
  | .node first parts, .node second others =>
    have := decEqEach parts others
    decidable_of_iff (first = second ∧ parts = others) (by simp)
  | .atom _, .node .. => isFalse (by simp)
  | .node .., .atom _ => isFalse (by simp)

/-- Decides whether two lists of expressions are equal. -/
def decEqEach : (firsts seconds : List Formula) → Decidable (firsts = seconds)
  | [], [] => isTrue rfl
  | first :: firsts, second :: seconds =>
    have := decEq first second
    have := decEqEach firsts seconds
    decidable_of_iff (first = second ∧ firsts = seconds) (by simp)
  | [], _ :: _ => isFalse (by simp)
  | _ :: _, [] => isFalse (by simp)

end

instance : DecidableEq Formula := decEq

/-! ### Shape -/

/-- How many values stand side by side. -/
def width : Formula → Nat
  | node .row parts => parts.length
  | _ => 1

/-- Whether several values stand side by side. -/
def isRow : Formula → Bool
  | node .row _ => true
  | _ => false

/-- The expression under the collations around it. -/
def core : Formula → Formula :=
  fold atom fun op parts =>
    match op, parts with
    | .collate _, [(_, inner)] => inner
    | _, _ => node op (parts.map (·.1))

/-- The outermost collation. -/
def collation? : Formula → Option String
  | node (.collate collation) _ => some collation
  | _ => none

end Formula

/-- The parts that hand their marks on to the whole. -/
def Operator.visible {α : Type} : Operator → List α → List α
  | collate _, _ => []
  | between, parts | row, parts => parts.take 1
  | call _ count, parts => parts.take count
  | _, parts => parts

namespace Formula

/-- Whether an operator with a mark counts for the whole expression. -/
def isMarked (mark : Operator → Bool) : Formula → Bool :=
  fold (fun _ => false) fun op parts => mark op || (op.visible parts).any (·.2)

/-- Whether a collation inside counts for the whole expression. -/
def isCollated : Formula → Bool :=
  isMarked fun
    | .collate _ => true
    | _ => false

/-- Whether a call inside counts for the whole expression. -/
def hasCall : Formula → Bool :=
  isMarked fun
    | .call .. => true
    | _ => false

/-! ### Constants -/

/-- Whether an expression depends on nothing, when certain calls depend on their arguments
alone. -/
def isConstant (steady : String → Nat → Bool) : Formula → Bool :=
  fold
    (fun
      | .name token => token.isTruthWord
      | .qualified .. => false
      | _ => true)
    fun op parts =>
      (match op with
        | .call function count => steady function count
        | .raise => false
        | _ => true) && parts.all (·.2)

/-- The truth value of an integer that is small enough to have one before it is computed. -/
def smallTruth? (numeral : String) : Option Bool :=
  if Numeral.value numeral < 1 <<< 31 then some (Numeral.value numeral != 0) else none

/-- Whether an expression is false as it is written. -/
def isFalse : Formula → Bool
  | atom (.integer numeral) => smallTruth? numeral == some false
  | atom (.truth value) => !value
  | _ => false

/-! ### Building -/

/-- The conjunction of two expressions: zero if one is false, unless something is called. -/
def conjoin (left right : Formula) : Formula :=
  if (left.isFalse || right.isFalse) && !left.hasCall && !right.hasCall then
    atom (.integer "0")
  else
    node .conjunction [left, right]

/-- The opposite of an expression. -/
def negate : Formula → Formula
  | atom (.truth value) => atom (.truth !value)
  | formula => node .negation [formula]

/-- An expression under a sign, which takes the place of a plus. -/
def signed (sign : Operator) : Formula → Formula
  | node .plus parts => node sign parts
  | formula => node sign [formula]

/-- An expression that is to be the same as another. -/
def sameAs (left right : Formula) : Formula :=
  if right == atom .null then node .nullTest [left] else node .same [left, right]

/-- An expression that is to be among others: false if there are none, and a comparison if
there is one and it is constant. -/
def memberOf (left : Formula) : List Formula → Formula
  | [] => atom (.truth false)
  | [other] =>
    if other.isConstant isSteady then node .compare [left, node .plus [other]]
    else node .member [left, other]
  | others => node .member (left :: others)

/-- A call of a function. Without arguments there is nothing that an order is of. -/
def ofCall (function : String) (arguments order : List Formula) : Formula :=
  node (.call function arguments.length)
    (if arguments.isEmpty then [] else arguments ++ order)

end Formula

end Catalog

end SchemaText
