import SchemaText.Statement.Move.Boundary

/-!
# Column definitions

A column has a name, a type of any number of words with a width or none, and constraints in
any order.

## Main definitions

* `Move.column`: what is done with a token in the definition of a column.
-/

namespace SchemaText

namespace Move

/-- Whether a constraint of the table begins with the token. -/
def startsConstraint (token : Token) : Bool :=
  match token.keyword? with
  | some .CONSTRAINT | some .PRIMARY | some .UNIQUE | some .CHECK | some .FOREIGN => true
  | _ => false

/-- Whether the token is a word of a type: a name that begins no constraint. -/
def isTypeWord (token : Token) : Bool :=
  (token.kind == .identifier || token.kind.isQuotedIdentifier) &&
    match token.keyword? with
    | some .CONSTRAINT | some .PRIMARY | some .NOT | some .NULL | some .UNIQUE | some .CHECK
    | some .DEFAULT | some .COLLATE | some .REFERENCES | some .GENERATED | some .AS => false
    | _ => true

/-- Adds a token to the type of the column. -/
def extendType (draft : Draft) (token : Token) (state : ColumnState) : Move :=
  let typeTokens := draft.typeTokens ++ [token]
  draft.go (.column state) <|
    { draft with typeTokens := typeTokens }.changeColumn fun column =>
      { column with type := render typeTokens }

/-- A number of a type width, or what surrounds it. -/
def typeWidth (second : Bool) (part : WidthState) (draft : Draft) (token : Token) : Move :=
  match part, token.kind with
  | .opened, .sign => extendType draft token (.width second .signed)
  | .opened, .numeric | .signed, .numeric => extendType draft token (.width second .numbered)
  | .numbered, .comma =>
    if second then .refuse .unexpected draft else extendType draft token (.width true .opened)
  | .numbered, .closeParen => extendType draft token .constraints
  | _, _ => .refuse .unexpected draft

/-- `AUTOINCREMENT`, or what else may follow the key of a column. -/
def afterKey (draft : Draft) (token : Token) : Move :=
  if token.is .AUTOINCREMENT then
    draft.go (.column .constraints)
      (draft.changeColumn fun column => { column with autoincrement := true })
  else
    columnBoundary draft token

/-- Gives a constraint its conflict clause. -/
def resolveConflict (owner : ConflictOwner) (action : ConflictAction) (draft : Draft) : Move :=
  match owner with
  | .primaryKey =>
    draft.go (.column .primaryResolved)
      (draft.changeTable fun table => { table with keyConflict := some action })
  | .notNull =>
    draft.go (.column .constraints)
      (draft.changeColumn fun column => { column with notNullConflict := some action })
  | .unique =>
    draft.go (.column .constraints)
      (draft.changeColumn fun column => { column with uniqueConflict := some action })

/-- The storage that a token asks for. -/
def storage? (token : Token) : Option Storage :=
  match token.keyword? with
  | some .STORED => some .stored
  | some .VIRTUAL => some .virtual
  | _ => none

/-- What is done with a token in the definition of a column. -/
def column (state : ColumnState) (draft : Draft) (token : Token) : Move :=
  match state with
  | .begun =>
    if startsConstraint token then constraintStart draft token
    else if token.isName then
      draft.go (.column .type) <|
        { draft with typeTokens := [] }.changeTable fun table =>
          { table with columns := table.columns ++ [Column.new token.text] }
    else .refuse .unexpected draft
  | .type =>
    if isTypeWord token then extendType draft token .type
    else if token.kind == .openParen && !draft.typeTokens.isEmpty then
      extendType draft token (.width false .opened)
    else columnBoundary draft token
  | .width second part => typeWidth second part draft token
  | .constraints => columnBoundary draft token
  | .constraintName => draft.goIf token.isName (.column .named)
  | .named => columnKeyword draft token
  | .primary =>
    if token.is .KEY then
      draft.go (.column .primaryKey) <|
        match draft.statement with
        | some (.table table) =>
          if table.columns.isEmpty then none
          else draft.changeTable (·.setKeyMember (table.columns.length - 1) true)
        | _ => none
    else .refuse .unexpected draft
  | .primaryKey =>
    match token.keyword? with
    | some .ASC =>
      draft.go (.column .primaryOrdered)
        (draft.changeColumn fun column => { column with columnDesc := false })
    | some .DESC =>
      draft.go (.column .primaryOrdered)
        (draft.changeColumn fun column => { column with columnDesc := true })
    | some .ON => .next (.column (.conflictOn .primaryKey)) draft
    | _ => afterKey draft token
  | .primaryOrdered =>
    if token.is .ON then .next (.column (.conflictOn .primaryKey)) draft
    else afterKey draft token
  | .primaryResolved => afterKey draft token
  | .not =>
    if token.is .NULL then
      draft.go (.column .notNull)
        (draft.changeColumn fun column => { column with notNull := true })
    else .refuse .unexpected draft
  | .notNull =>
    if token.is .ON then .next (.column (.conflictOn .notNull)) draft
    else columnBoundary draft token
  | .unique =>
    if token.is .ON then .next (.column (.conflictOn .unique)) draft
    else columnBoundary draft token
  | .conflictOn owner => draft.goIf (token.is .CONFLICT) (.column (.conflictAction owner))
  | .conflictAction owner =>
    match token.conflictAction? with
    | some action => resolveConflict owner action draft
    | none => .refuse .unexpected draft
  | .check =>
    if token.kind == .openParen then .next (.column .checkBody) draft.openBody
    else .refuse .unexpected draft
  | .checkBody =>
    match draft.takeBody token with
    | (after, some condition) =>
      after.go (.column .constraints)
        (after.changeTable fun table => { table with checks := table.checks ++ [condition] })
    | (after, none) => .next (.column .checkBody) after
  | .collate =>
    if token.isName then
      draft.go (.column .constraints)
        (draft.changeColumn fun column => { column with collation := some token.text })
    else .refuse .unexpected draft
  | .generated =>
    if token.is .ALWAYS then
      .next (.column .generatedAlways) { draft with generatedAlways := true }
    else .refuse .unexpected draft
  | .generatedAlways => draft.goIf (token.is .AS) (.column .generatedAs)
  | .generatedAs =>
    if token.kind == .openParen then .next (.column .generatedBody) draft.openBody
    else .refuse .unexpected draft
  | .generatedBody =>
    match draft.takeBody token with
    | (after, some rule) =>
      after.go (.column .generatedEnd) <| after.changeColumn fun column =>
        { column with generated := some ⟨rule, draft.generatedAlways, none⟩ }
    | (after, none) => .next (.column .generatedBody) after
  | .generatedEnd =>
    match storage? token with
    | some storage =>
      draft.go (.column .constraints) <| draft.changeColumn fun column =>
        { column with
          generated := column.generated.map fun rule => { rule with storage := some storage } }
    | none => columnBoundary draft token

end Move

end SchemaText
