import SchemaText.Statement.Move.Boundary

/-!
# References

A reference names a parent table, its columns or none, and clauses. The clauses are checked
word by word and kept as text. What follows the last clause belongs to whatever the
reference is part of.

## Main definitions

* `Move.referenceClause`: the beginning of a clause, or the end of the reference.
* `Move.reference`: what is done with a token in a reference.
-/

namespace SchemaText

namespace Move

/-- Takes a word of a clause. -/
def takeClause (draft : Draft) (token : Token) (state : ReferenceState) : Move :=
  .next (.reference state) { draft with clauses := draft.clauses ++ [token] }

/-- Takes a word of a clause if it fits. -/
def takeClauseIf (fits : Bool) (draft : Draft) (token : Token) (state : ReferenceState) :
    Move :=
  if fits then takeClause draft token state else .refuse .unexpected draft

/-- After a complete reference. -/
def afterReference (draft : Draft) (token : Token) : Move :=
  match draft.finishReference with
  | some after =>
    match draft.owner with
    | .column => columnBoundary after token
    | .table _ => constraintBoundary after token
  | none => .refuse .missingPart draft

/-- The beginning of a clause, or the end of the reference. `NOT` begins a clause only
before `DEFERRABLE`. -/
def referenceClause (draft : Draft) (token : Token) (next : Option Token) : Move :=
  match token.keyword? with
  | some .MATCH => takeClause draft token .matching
  | some .ON => takeClause draft token .on
  | some .DEFERRABLE => takeClause draft token .deferrable
  | some .NOT =>
    if next.any (Token.is · .DEFERRABLE) then takeClause draft token .not
    else afterReference draft token
  | _ => afterReference draft token

/-- What is done with a token in a reference, before the token `next`. -/
def reference (state : ReferenceState) (draft : Draft) (token : Token) (next : Option Token) :
    Move :=
  match state with
  | .begun =>
    if token.isName then
      .next (.reference .table)
        { draft with reference := { draft.reference with table := token.text } }
    else
      .refuse .unexpected draft
  | .table =>
    if token.kind == .openParen then .next (.reference .column) draft
    else referenceClause draft token next
  | .column =>
    if token.isName then
      .next (.reference .columnName)
        { draft with
          reference :=
            { draft.reference with columns := draft.reference.columns ++ [token.text] } }
    else
      .refuse .unexpected draft
  | .columnName =>
    match token.kind with
    | .comma => .next (.reference .column) draft
    | .closeParen => .next (.reference .clauses) draft
    | _ => .refuse .unexpected draft
  | .clauses => referenceClause draft token next
  | .matching => takeClauseIf token.isName draft token .clauses
  | .on => takeClauseIf (token.is .DELETE || token.is .UPDATE) draft token .action
  | .action =>
    match token.keyword? with
    | some .SET => takeClause draft token .set
    | some .NO => takeClause draft token .no
    | some .CASCADE | some .RESTRICT => takeClause draft token .clauses
    | _ => .refuse .unexpected draft
  | .set => takeClauseIf (token.is .NULL || token.is .DEFAULT) draft token .clauses
  | .no => takeClauseIf (token.is .ACTION) draft token .clauses
  | .not => takeClauseIf (token.is .DEFERRABLE) draft token .deferrable
  | .deferrable =>
    if token.is .INITIALLY then takeClause draft token .initially
    else referenceClause draft token next
  | .initially => takeClauseIf (token.is .DEFERRED || token.is .IMMEDIATE) draft token .clauses

end Move

end SchemaText
