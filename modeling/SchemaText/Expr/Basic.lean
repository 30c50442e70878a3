import SchemaText.Token.Spelling

/-!
# Expressions

An expression is kept as it is written: a binary operator has everything after it as its
right operand, whatever the operators are. Nothing is evaluated, so precedence does not
matter; what matters is that names can be found and replaced and that the text comes back.

A list of arguments is a tree too: the comma is a binary operator.

## Main definitions

* `Expr`: expressions.
* `Expr.splitCommas`: the items of a comma-joined list.
* `Expr.tokens`, `Expr.sql`: how an expression is written.

## Main results

* `Expr.splitCommas_binary_comma`: an item before a comma is the first item.
-/

namespace SchemaText

/-- An expression. -/
inductive Expr
  /-- Nothing, as between the parentheses of `f()`. -/
  | empty
  /-- A name, a literal or the `*` of `count(*)`. -/
  | leaf (token : Token)
  /-- An operator before its operand. -/
  | prefixed (op : Token) (operand : Expr)
  /-- An operator between two operands. -/
  | binary (left : Expr) (op : Token) (right : Expr)
  /-- An operator after its operand. -/
  | postfixed (operand : Expr) (op : Token)
  /-- An expression in parentheses. -/
  | parens (inner : Expr)
  /-- A function call; `CAST(x AS t)` is a call of `CAST`. -/
  | call (name : Token) (arguments : Expr)
  deriving DecidableEq, Repr

namespace Expr

/-- Whether there is nothing. -/
def isEmpty : Expr → Bool
  | empty => true
  | _ => false

/-- The items of a list joined by commas; the empty expression has none. -/
def splitCommas : Expr → List Expr
  | empty => []
  | binary left op right =>
    if op.kind = .comma then left :: splitCommas right else [binary left op right]
  | e => [e]

/-- Joins leaves by an operator, nested to the right. -/
def join (joiner : Token) : List Token → Expr
  | [] => empty
  | [item] => leaf item
  | item :: items => binary (leaf item) joiner (join joiner items)

/-- Operators before an operand, the outermost first. -/
def prefixAll (ops : List Token) (operand : Expr) : Expr :=
  ops.foldr prefixed operand

/-- The tokens of an expression, in the order of the text. -/
def tokens : Expr → List Token
  | empty => []
  | leaf token => [token]
  | prefixed op operand => op :: tokens operand
  | binary left op right => tokens left ++ op :: tokens right
  | postfixed operand op => tokens operand ++ [op]
  | parens inner => Token.openParen :: tokens inner ++ [Token.closeParen]
  | call name arguments =>
    name :: Token.openParen :: tokens arguments ++ [Token.closeParen]

/-- The text of an expression. -/
def sql (e : Expr) : String :=
  render e.tokens

/-! ### Basic reductions -/

/-- A comma at the root is split off together with its first item. -/
theorem splitCommas_binary_comma {left right : Expr} {op : Token} (h : op.kind = .comma) :
    splitCommas (binary left op right) = left :: splitCommas right := by
  simp [splitCommas, h]

/-- Under any other operator nothing is split, whatever its operands hold. -/
theorem splitCommas_binary {left right : Expr} {op : Token} (h : op.kind ≠ .comma) :
    splitCommas (binary left op right) = [binary left op right] := by
  simp [splitCommas, h]

end Expr

end SchemaText
