import SchemaText.Text.Quoted
import SchemaText.Token.Basic

/-!
# Why an expression is refused

## Main definitions

* `ExprError`: the reasons, with `ExprError.message`.
* `ExprError.ofToken`: the reason for a token that cannot stand where it does.
-/

namespace SchemaText

/-- Why a sequence of tokens is no expression. -/
inductive ExprError
  /-- The tokens end where an operand, an operator or a parenthesis has to follow. -/
  | unexpectedEnd
  /-- A token that cannot stand where it does. -/
  | unexpectedToken (text : String)
  /-- A piece of text that is no token. -/
  | invalidToken (text : String)
  /-- A query where an operand has to stand. -/
  | subquery
  /-- `DISTINCT` directly before another `DISTINCT`. -/
  | repeatedDistinct
  /-- `DISTINCT` where no argument begins. -/
  | misplacedDistinct
  /-- `CAST(x AS )` without a type. -/
  | missingCastType
  deriving DecidableEq, Repr

namespace ExprError

/-- The reason in words. -/
def message : ExprError → String
  | unexpectedEnd => "Unexpected end of expression"
  | unexpectedToken text => "Unexpected token " ++ Text.quoted text ++ " in expression"
  | invalidToken text => "Invalid token " ++ Text.quoted text ++ " in expression"
  | subquery => "Sub-queries are not supported in expressions"
  | repeatedDistinct => "DISTINCT repeated"
  | misplacedDistinct => "DISTINCT is only allowed as a function argument prefix"
  | missingCastType => "CAST is missing its type name"

/-- The reason for a token that cannot stand where it does. -/
def ofToken (token : Token) : ExprError :=
  if token.kind = .invalid then invalidToken token.text else unexpectedToken token.text

end ExprError

end SchemaText
