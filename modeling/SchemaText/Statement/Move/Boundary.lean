import SchemaText.Statement.Draft

/-!
# Between constraints

Where a constraint is complete, a token may begin the next one, or end the column, the
constraint or the table. The same choices are open after many states.

## Main definitions

* `Move.columnKeyword`, `Move.columnBoundary`: between the constraints of a column.
* `Move.constraintKeyword`, `Move.constraintStart`, `Move.constraintBoundary`: between the
  constraints of a table. The comma between two of them may be missing.
-/

namespace SchemaText

/-- The conflict action that a token names. -/
def Token.conflictAction? (token : Token) : Option ConflictAction :=
  token.keyword?.bind ConflictAction.ofKeyword?

namespace Move

/-- The beginning of a constraint of the table. -/
def constraintKeyword (draft : Draft) (token : Token) : Move :=
  match token.keyword? with
  | some .PRIMARY => .next (.constraint .primary) draft
  | some .UNIQUE => .next (.constraint .unique) { draft with key := {} }
  | some .CHECK => .next (.constraint .check) draft
  | some .FOREIGN => .next (.constraint .foreign) draft
  | _ => .refuse .unexpected draft

/-- The beginning of a constraint of the table, which may have a name. -/
def constraintStart (draft : Draft) (token : Token) : Move :=
  if token.is .CONSTRAINT then .next (.constraint .constraintName) draft
  else constraintKeyword draft token

/-- After a complete constraint of the table. -/
def constraintBoundary (draft : Draft) (token : Token) : Move :=
  match token.kind with
  | .comma => .next (.constraint .begun) draft
  | .closeParen => .next (.option .closed) draft
  | _ => constraintStart draft token

/-- The beginning of a constraint of a column. -/
def columnKeyword (draft : Draft) (token : Token) : Move :=
  match token.keyword? with
  | some .CONSTRAINT => .next (.column .constraintName) draft
  | some .PRIMARY => .next (.column .primary) draft
  | some .NOT => .next (.column .not) draft
  | some .NULL => .next (.column .constraints) draft
  | some .UNIQUE =>
    draft.go (.column .unique) (draft.changeColumn fun column => { column with unique := true })
  | some .CHECK => .next (.column .check) draft
  | some .DEFAULT => .embed .default draft
  | some .COLLATE => .next (.column .collate) draft
  | some .REFERENCES => .next (.reference .begun) (draft.openReference .column)
  | some .GENERATED => .next (.column .generated) draft
  | some .AS => .next (.column .generatedAs) { draft with generatedAlways := false }
  | _ => .refuse .unexpected draft

/-- After a complete constraint of a column. -/
def columnBoundary (draft : Draft) (token : Token) : Move :=
  match token.kind with
  | .comma => .next (.column .begun) draft
  | .closeParen => .next (.option .closed) draft
  | _ => columnKeyword draft token

end Move

end SchemaText
