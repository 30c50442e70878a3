import SchemaText.Rename.Substitute
import SchemaText.Statement.Parser

/-!
# Errors

The faults of the different parts under one roof.

## Main definitions

* `Error`: any fault, with `Error.message`, `Error.area` and `Error.report`.
-/

namespace SchemaText

/-- Any fault. -/
inductive Error
  | expression (error : ExprError)
  | rename (fault : DroppedColumn)
  | parse (error : ParseError)
  deriving DecidableEq, Repr

namespace Error

/-- The fault in words. -/
def message : Error → String
  | expression error => error.message
  | rename fault => fault.message
  | parse error => error.message

/-- Where the fault belongs. -/
def area : Error → String
  | expression _ => "Expression error"
  | rename _ => "Rename error"
  | parse _ => "Parse error"

/-- The fault in words, after where it belongs. -/
def report (error : Error) : String :=
  error.area ++ ": " ++ error.message

end Error

end SchemaText
