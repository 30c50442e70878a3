import SchemaText.Statement.Move.Boundary

/-!
# Constraints of a table

Keys, conditions and foreign keys that are declared for the table as a whole.

## Main definitions

* `Move.constraint`: what is done with a token in a constraint of the table.
-/

namespace SchemaText

namespace Move

/-- Changes the last column of the key list that is being read. -/
def changeLastPart (draft : Draft) (f : KeyPart → KeyPart) : Option Draft :=
  if draft.key.columns.isEmpty then none
  else
    some { draft with
      key := { draft.key with
        columns := draft.key.columns.modify (draft.key.columns.length - 1) f } }

/-- After a complete column of a key list. -/
def keyPartEnd (draft : Draft) (token : Token) : Move :=
  if draft.key.isPrimary && token.is .AUTOINCREMENT then
    .next (.constraint .keyOrdered)
      { draft with key := { draft.key with autoincrement := true } }
  else
    match token.kind with
    | .comma => .next (.constraint .keyColumn) draft
    | .closeParen => .next (.constraint .keyEnd) draft
    | _ => .refuse .unexpected draft

/-- The order of a column of a key list, or its end. -/
def keyOrder (draft : Draft) (token : Token) : Move :=
  match token.keyword? with
  | some .ASC =>
    draft.go (.constraint .keyOrdered)
      (changeLastPart draft fun part => { part with descending := false })
  | some .DESC =>
    draft.go (.constraint .keyOrdered)
      (changeLastPart draft fun part => { part with descending := true })
  | _ => keyPartEnd draft token

/-- Takes the opening parenthesis of a key list. -/
def openKey (draft : Draft) (token : Token) : Move :=
  draft.goIf (token.kind == .openParen) (.constraint .keyColumn)

/-- What is done with a token in a constraint of the table. -/
def constraint (state : ConstraintState) (draft : Draft) (token : Token) : Move :=
  match state with
  | .begun => constraintStart draft token
  | .constraintName => draft.goIf token.isName (.constraint .named)
  | .named => constraintKeyword draft token
  | .primary =>
    if token.is .KEY then
      .next (.constraint .primaryKey) { draft with key := { isPrimary := true } }
    else
      .refuse .unexpected draft
  | .primaryKey => openKey draft token
  | .unique => openKey draft token
  | .keyColumn =>
    if token.isName then
      .next (.constraint .keyColumnName)
        { draft with
          key := { draft.key with columns := draft.key.columns ++ [⟨token.text, none, false⟩] } }
    else
      .refuse .unexpected draft
  | .keyColumnName =>
    if token.is .COLLATE then .next (.constraint .keyCollate) draft
    else keyOrder draft token
  | .keyCollate =>
    if token.isName then
      draft.go (.constraint .keyCollated)
        (changeLastPart draft fun part => { part with collation := some token.text })
    else
      .refuse .unexpected draft
  | .keyCollated => keyOrder draft token
  | .keyOrdered => keyPartEnd draft token
  | .keyEnd =>
    if token.is .ON then .next (.constraint .keyOn) draft
    else
      match draft.finishKey with
      | (after, none) => constraintBoundary after token
      | (after, some why) => .refuse why after
  | .keyOn => draft.goIf (token.is .CONFLICT) (.constraint .keyConflict)
  | .keyConflict =>
    match token.conflictAction? with
    | some action =>
      match { draft with key := { draft.key with conflict := some action } }.finishKey with
      | (after, none) => .next (.constraint .done) after
      | (after, some why) => .refuse why after
    | none => .refuse .unexpected draft
  | .check =>
    if token.kind == .openParen then .next (.constraint .checkBody) draft.openBody
    else .refuse .unexpected draft
  | .checkBody =>
    match draft.takeBody token with
    | (after, some condition) =>
      after.go (.constraint .done)
        (after.changeTable fun table => { table with checks := table.checks ++ [condition] })
    | (after, none) => .next (.constraint .checkBody) after
  | .foreign => draft.goIf (token.is .KEY) (.constraint .foreignKey)
  | .foreignKey =>
    if token.kind == .openParen then
      .next (.constraint .foreignColumn) { draft with owner := .table [] }
    else
      .refuse .unexpected draft
  | .foreignColumn =>
    match draft.owner with
    | .table columns =>
      if token.isName then
        .next (.constraint .foreignColumnName)
          { draft with owner := .table (columns ++ [token.text]) }
      else
        .refuse .unexpected draft
    | .column => .refuse .missingPart draft
  | .foreignColumnName =>
    match token.kind with
    | .comma => .next (.constraint .foreignColumn) draft
    | .closeParen => .next (.constraint .foreignReferences) draft
    | _ => .refuse .unexpected draft
  | .foreignReferences =>
    if token.is .REFERENCES then
      .next (.reference .begun) (draft.openReference draft.owner)
    else
      .refuse .unexpected draft
  | .done => constraintBoundary draft token

end Move

end SchemaText
