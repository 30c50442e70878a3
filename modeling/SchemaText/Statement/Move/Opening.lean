import SchemaText.Statement.Draft

/-!
# The opening of a statement

What is defined, its name, and what follows the definition: the options of a table, the
terms and the condition of an index.

## Main definitions

* `Move.opening`: up to `TABLE` or `INDEX`.
* `Move.tableName`, `Move.indexName`: the name and what precedes it.
* `Move.option`: the options of a table.
* `Move.term`: what an index is on.
-/

namespace SchemaText

namespace Move

/-! ### What is defined -/

/-- The draft of a table. -/
def beginTable (draft : Draft) : Move :=
  .next (.tableName .begun)
    { draft with
      statement := some (.table { Table.new "" with isTemporary := draft.temporary }) }

/-- The draft of an index. -/
def beginIndex (draft : Draft) (unique : Bool) : Move :=
  .next (.indexName .begun)
    { draft with statement := some (.index { Index.new "" "" with unique := unique }) }

/-- Up to `TABLE` or `INDEX`. -/
def opening (state : OpeningState) (draft : Draft) (token : Token) : Move :=
  match state, token.keyword? with
  | .start, some .CREATE => .next (.opening .create) draft
  | .create, some .TEMP | .create, some .TEMPORARY =>
    .next (.opening .createTemp) { draft with temporary := true }
  | .create, some .UNIQUE => .next (.opening .createUnique) draft
  | .create, some .TABLE | .createTemp, some .TABLE => beginTable draft
  | .create, some .INDEX => beginIndex draft false
  | .createUnique, some .INDEX => beginIndex draft true
  | _, _ => .refuse .unexpected draft

/-! ### Names -/

/-- Gives the table its name. -/
def nameTable (draft : Draft) (token : Token) (state : NameState) : Move :=
  if token.isName then
    draft.go (.tableName state) (draft.changeTable fun table => { table with name := token.text })
  else
    .refuse .unexpected draft

/-- Gives the index its name. -/
def nameIndex (draft : Draft) (token : Token) (state : NameState) : Move :=
  if token.isName then
    draft.go (.indexName state) (draft.changeIndex fun index => { index with name := token.text })
  else
    .refuse .unexpected draft

/-- The name of a table. A name before a dot turns out to be a schema. -/
def tableName (state : NameState) (draft : Draft) (token : Token) : Move :=
  match state with
  | .begun =>
    if token.is .IF then .next (.tableName .guardIf) draft
    else nameTable draft token .named
  | .guardIf => draft.goIf (token.is .NOT) (.tableName .guardNot)
  | .guardNot =>
    if token.is .EXISTS then
      draft.go (.tableName .guardExists)
        (draft.changeTable fun table => { table with ifNotExists := true })
    else
      .refuse .unexpected draft
  | .guardExists => nameTable draft token .named
  | .named =>
    if token == Token.dot then
      draft.go (.tableName .dotted)
        (draft.changeTable fun table => { table with schema := some table.name, name := "" })
    else
      draft.goIf (token.kind == .openParen) (.column .begun)
  | .dotted => nameTable draft token .qualified
  | .qualified => draft.goIf (token.kind == .openParen) (.column .begun)

/-- The name of an index. A name before a dot turns out to be a schema. -/
def indexName (state : NameState) (draft : Draft) (token : Token) : Move :=
  match state with
  | .begun =>
    if token.is .IF then .next (.indexName .guardIf) draft
    else nameIndex draft token .named
  | .guardIf => draft.goIf (token.is .NOT) (.indexName .guardNot)
  | .guardNot =>
    if token.is .EXISTS then
      draft.go (.indexName .guardExists)
        (draft.changeIndex fun index => { index with ifNotExists := true })
    else
      .refuse .unexpected draft
  | .guardExists => nameIndex draft token .named
  | .named =>
    if token == Token.dot then
      draft.go (.indexName .dotted)
        (draft.changeIndex fun index => { index with schema := some index.name, name := "" })
    else
      draft.goIf (token.is .ON) (.term .on)
  | .dotted => nameIndex draft token .qualified
  | .qualified => draft.goIf (token.is .ON) (.term .on)

/-! ### Options and terms -/

/-- An option of a table. -/
def tableOption (draft : Draft) (token : Token) : Move :=
  match token.keyword? with
  | some .WITHOUT => .next (.option .without) draft
  | some .STRICT =>
    draft.go (.option .done) (draft.changeTable fun table => { table with isStrict := true })
  | _ => .refuse .unexpected draft

/-- After the closing parenthesis of a table. -/
def option (state : OptionState) (draft : Draft) (token : Token) : Move :=
  match state with
  | .closed | .next => tableOption draft token
  | .without =>
    if token.is .ROWID then
      draft.go (.option .done) (draft.changeTable fun table => { table with hasRowid := false })
    else
      .refuse .unexpected draft
  | .done => draft.goIf (token.kind == .comma) (.option .next)

/-- After the name of an index. -/
def term (state : TermState) (draft : Draft) (token : Token) : Move :=
  match state with
  | .on =>
    if token.isName then
      draft.go (.term .table) (draft.changeIndex fun index => { index with table := token.text })
    else
      .refuse .unexpected draft
  | .table =>
    if token.kind == .openParen then .embed .terms draft else .refuse .unexpected draft
  | .terms => draft.goIf (token.kind == .closeParen) (.term .closed)
  | .closed => if token.is .WHERE then .embed .predicate draft else .refuse .unexpected draft
  | .predicate => .refuse .unexpected draft

end Move

end SchemaText
