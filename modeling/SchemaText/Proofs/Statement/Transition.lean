import SchemaText.Proofs.Statement.Run

/-!
# What a step can do

The state machine in relational form. A step has two parts: what was complete before the
token is put in its place, and the token is taken. The first part settles states where
several tokens can follow, so that for each token there is one rule.

## Main definitions

* `Settles`: what is complete is put in its place.
* `TypeStep`, `ClauseStep`, `BodyStep`: a token of a type, of a clause of a reference, and of
  a condition or rule.
* `State.passes`: the states between which the draft stays as it is.
* `Takes`: a token is taken.
* `DraftView`, `DraftView.Keeps`: what a change of a draft leaves as it is.

## Main results

* `step_cases`: **every step settles and takes**.
-/

namespace SchemaText

open Move

/-! ### Settling -/

/-- The states in which the constraints of a column can go on. -/
def ColumnState.isSettled : ColumnState → Bool
  | .type | .constraints | .named | .primaryKey | .primaryOrdered | .primaryResolved
  | .notNull | .unique | .generatedEnd => true
  | _ => false

/-- The states in which a reference can end. -/
def ReferenceState.isSettled : ReferenceState → Bool
  | .table | .clauses | .deferrable => true
  | _ => false

/-- What is complete is put in its place before the next token is taken. -/
inductive Settles : State → Draft → State → Draft → Prop
  | refl (state : State) (draft : Draft) : Settles state draft state draft
  | column {s : ColumnState} {draft : Draft} (settled : s.isSettled = true) :
      Settles (.column s) draft (.column .constraints) draft
  | constraint {s : ConstraintState} {draft : Draft} (start : s = .begun ∨ s = .named) :
      Settles (.constraint s) draft (.constraint .done) draft
  | firstConstraint {draft : Draft} :
      Settles (.column .begun) draft (.constraint .done) draft
  | key {draft after : Draft} (finished : draft.finishKey = (after, none)) :
      Settles (.constraint .keyEnd) draft (.constraint .done) after
  | columnReference {s : ReferenceState} {draft after : Draft} (settled : s.isSettled = true)
      (owner : draft.owner = .column) (finished : draft.finishReference = some after) :
      Settles (.reference s) draft (.column .constraints) after
  | tableReference {s : ReferenceState} {draft after : Draft} {columns : List String}
      (settled : s.isSettled = true) (owner : draft.owner = .table columns)
      (finished : draft.finishReference = some after) :
      Settles (.reference s) draft (.constraint .done) after

/-! ### Tokens of types and clauses -/

/-- A token of a type, after these tokens of it. -/
inductive TypeStep (before : List Token) (token : Token) : ColumnState → ColumnState → Prop
  | word (word : Move.isTypeWord token = true) : TypeStep before token .type .type
  | width (kind : token.kind = .openParen) (ne : before ≠ []) :
      TypeStep before token .type (.width false .opened)
  | sign {second : Bool} (kind : token.kind = .sign) :
      TypeStep before token (.width second .opened) (.width second .signed)
  | number {second : Bool} {part : WidthState} (kind : token.kind = .numeric)
      (open_ : part = .opened ∨ part = .signed) :
      TypeStep before token (.width second part) (.width second .numbered)
  | comma (kind : token.kind = .comma) :
      TypeStep before token (.width false .numbered) (.width true .opened)
  | close {second : Bool} (kind : token.kind = .closeParen) :
      TypeStep before token (.width second .numbered) .constraints

/-- A token of a clause of a reference. -/
inductive ClauseStep (token : Token) : ReferenceState → ReferenceState → Prop
  | matching {s : ReferenceState} (settled : s.isSettled = true) (word : token.is .MATCH = true) :
      ClauseStep token s .matching
  | on {s : ReferenceState} (settled : s.isSettled = true) (word : token.is .ON = true) :
      ClauseStep token s .on
  | deferrable {s : ReferenceState} (settled : s.isSettled = true)
      (word : token.is .DEFERRABLE = true) : ClauseStep token s .deferrable
  | not {s : ReferenceState} (settled : s.isSettled = true) (word : token.is .NOT = true) :
      ClauseStep token s .not
  | matched (name : token.isName = true) : ClauseStep token .matching .clauses
  | event (word : token.is .DELETE = true ∨ token.is .UPDATE = true) :
      ClauseStep token .on .action
  | set (word : token.is .SET = true) : ClauseStep token .action .set
  | no (word : token.is .NO = true) : ClauseStep token .action .no
  | action (word : token.is .CASCADE = true ∨ token.is .RESTRICT = true) :
      ClauseStep token .action .clauses
  | value (word : token.is .NULL = true ∨ token.is .DEFAULT = true) :
      ClauseStep token .set .clauses
  | noAction (word : token.is .ACTION = true) : ClauseStep token .no .clauses
  | notDeferrable (word : token.is .DEFERRABLE = true) : ClauseStep token .not .deferrable
  | initially (word : token.is .INITIALLY = true) : ClauseStep token .deferrable .initially
  | time (word : token.is .DEFERRED = true ∨ token.is .IMMEDIATE = true) :
      ClauseStep token .initially .clauses

/-- A token inside a body, and the parentheses that are open before and after it. -/
inductive BodyStep (token : Token) : Nat → Nat → Prop
  | open {depth : Nat} (kind : token.kind = .openParen) : BodyStep token depth (depth + 1)
  | close {depth : Nat} (kind : token.kind = .closeParen) :
      BodyStep token (depth + 2) (depth + 1)
  | other {depth : Nat} (notOpen : token.kind ≠ .openParen)
      (notClose : token.kind ≠ .closeParen) : BodyStep token depth depth

/-! ### Taking a token -/

/-- The states between which a token is taken that leaves the draft as it is. -/
def State.passes : State → State → Bool
  | .opening .start, .opening .create => true
  | .opening .create, .opening .createUnique => true
  | .tableName .begun, .tableName .guardIf | .indexName .begun, .indexName .guardIf => true
  | .tableName .guardIf, .tableName .guardNot | .indexName .guardIf, .indexName .guardNot =>
      true
  | .tableName .named, .column .begun | .tableName .qualified, .column .begun => true
  | .indexName .named, .term .on | .indexName .qualified, .term .on => true
  | .column .constraints, .column .begun | .column .constraints, .column .constraintName
  | .column .constraints, .column .primary | .column .constraints, .column .not
  | .column .constraints, .column .constraints | .column .constraints, .column .check
  | .column .constraints, .column .collate | .column .constraints, .column .generated
  | .column .constraints, .option .closed => true
  | .column .constraintName, .column .named => true
  | .column .primaryKey, .column (.conflictOn .primaryKey)
  | .column .primaryOrdered, .column (.conflictOn .primaryKey)
  | .column .notNull, .column (.conflictOn .notNull)
  | .column .unique, .column (.conflictOn .unique) => true
  | .column (.conflictOn owner), .column (.conflictAction same) => owner == same
  | .column .generatedAlways, .column .generatedAs => true
  | .reference .table, .reference .column => true
  | .reference .columnName, .reference .column | .reference .columnName, .reference .clauses =>
      true
  | .constraint .done, .constraint .begun | .constraint .done, .constraint .constraintName
  | .constraint .done, .constraint .primary | .constraint .done, .constraint .check
  | .constraint .done, .constraint .foreign | .constraint .done, .option .closed => true
  | .constraint .constraintName, .constraint .named => true
  | .constraint .primaryKey, .constraint .keyColumn
  | .constraint .unique, .constraint .keyColumn => true
  | .constraint .keyColumnName, .constraint .keyCollate => true
  | .constraint .keyColumnName, .constraint .keyColumn
  | .constraint .keyCollated, .constraint .keyColumn
  | .constraint .keyOrdered, .constraint .keyColumn => true
  | .constraint .keyColumnName, .constraint .keyEnd
  | .constraint .keyCollated, .constraint .keyEnd
  | .constraint .keyOrdered, .constraint .keyEnd => true
  | .constraint .keyEnd, .constraint .keyOn | .constraint .keyOn, .constraint .keyConflict =>
      true
  | .constraint .foreign, .constraint .foreignKey => true
  | .constraint .foreignColumnName, .constraint .foreignColumn
  | .constraint .foreignColumnName, .constraint .foreignReferences => true
  | .option .closed, .option .without | .option .next, .option .without
  | .option .done, .option .next => true
  | .term .terms, .term .closed => true
  | _, _ => false

/-- Where a body is opened: before and after the parenthesis. -/
inductive OpensBody : State → State → Prop
  | columnCheck : OpensBody (.column .check) (.column .checkBody)
  | generated : OpensBody (.column .generatedAs) (.column .generatedBody)
  | tableCheck : OpensBody (.constraint .check) (.constraint .checkBody)

/-- The states in which the tokens of a body are taken. -/
def State.isBody : State → Bool
  | .column .checkBody | .column .generatedBody | .constraint .checkBody => true
  | _ => false

/-- Bodies are those of conditions and of generation rules. -/
theorem State.eq_of_isBody {state : State} (h : state.isBody = true) :
    state = .column .checkBody ∨ state = .column .generatedBody ∨
      state = .constraint .checkBody := by
  unfold isBody at h
  split at h <;> simp_all

/-- Where a condition ends: before and after the parenthesis. -/
inductive ClosesCheck : State → State → Prop
  | column : ClosesCheck (.column .checkBody) (.column .constraints)
  | table : ClosesCheck (.constraint .checkBody) (.constraint .done)

/-- Where an object is named: before and after the name. -/
inductive Names : NameState → NameState → Prop
  | plain : Names .begun .named
  | guarded : Names .guardExists .named
  | qualified : Names .dotted .qualified

/-- The states in which `AUTOINCREMENT` can follow the key of a column. -/
def ColumnState.isAfterKey : ColumnState → Bool
  | .primaryKey | .primaryOrdered | .primaryResolved => true
  | _ => false

/-- The key of a column may have an order or a conflict clause behind it. -/
theorem ColumnState.eq_of_isAfterKey {s : ColumnState} (h : s.isAfterKey = true) :
    s = .primaryKey ∨ s = .primaryOrdered ∨ s = .primaryResolved := by
  cases s <;> simp_all [isAfterKey]

/-- The states in which the order of a column of a key list can follow. -/
def ConstraintState.isBeforeOrder : ConstraintState → Bool
  | .keyColumnName | .keyCollated => true
  | _ => false

/-- An order follows a name or a collation. -/
theorem ConstraintState.eq_of_isBeforeOrder {s : ConstraintState}
    (h : s.isBeforeOrder = true) :
    s = .keyColumnName ∨ s = .keyCollated := by
  cases s <;> simp_all [isBeforeOrder]

/-- A token is taken, before the tokens `rest`. -/
inductive Takes (token : Token) (rest : List Token) : State → Draft → State → Draft → Prop
  | pass {state target : State} {draft : Draft} (passes : state.passes target = true) :
      Takes token rest state draft target draft
  -- What is defined.
  | temporary {draft : Draft} :
      Takes token rest (.opening .create) draft (.opening .createTemp)
        { draft with temporary := true }
  | beginTable {s : OpeningState} {draft : Draft} (first : s = .create ∨ s = .createTemp) :
      Takes token rest (.opening s) draft (.tableName .begun)
        { draft with
          statement := some (.table { Table.new "" with isTemporary := draft.temporary }) }
  | beginIndex {s : OpeningState} {draft : Draft} {unique : Bool}
      (first : s = .create ∨ s = .createUnique) :
      Takes token rest (.opening s) draft (.indexName .begun)
        { draft with statement := some (.index { Index.new "" "" with unique := unique }) }
  -- Names.
  | nameTable {s target : NameState} {draft after : Draft} (names : Names s target)
      (name : token.isName = true)
      (changed : draft.changeTable (fun table => { table with name := token.text }) =
        some after) : Takes token rest (.tableName s) draft (.tableName target) after
  | guardTable {draft after : Draft}
      (changed : draft.changeTable (fun table => { table with ifNotExists := true }) =
        some after) :
      Takes token rest (.tableName .guardNot) draft (.tableName .guardExists) after
  | tableSchema {draft after : Draft}
      (changed : draft.changeTable
        (fun table => { table with schema := some table.name, name := "" }) = some after) :
      Takes token rest (.tableName .named) draft (.tableName .dotted) after
  | nameIndex {s target : NameState} {draft after : Draft} (names : Names s target)
      (name : token.isName = true)
      (changed : draft.changeIndex (fun index => { index with name := token.text }) =
        some after) : Takes token rest (.indexName s) draft (.indexName target) after
  | guardIndex {draft after : Draft}
      (changed : draft.changeIndex (fun index => { index with ifNotExists := true }) =
        some after) :
      Takes token rest (.indexName .guardNot) draft (.indexName .guardExists) after
  | indexSchema {draft after : Draft}
      (changed : draft.changeIndex
        (fun index => { index with schema := some index.name, name := "" }) = some after) :
      Takes token rest (.indexName .named) draft (.indexName .dotted) after
  -- Columns.
  | addColumn {draft after : Draft} (name : token.isName = true)
      (column : startsConstraint token = false)
      (changed : { draft with typeTokens := [] }.changeTable (fun table =>
        { table with columns := table.columns ++ [Column.new token.text] }) = some after) :
      Takes token rest (.column .begun) draft (.column .type) after
  | extendType {s target : ColumnState} {draft after : Draft}
      (taken : TypeStep draft.typeTokens token s target)
      (changed : { draft with typeTokens := draft.typeTokens ++ [token] }.changeColumn
        (fun column => { column with type := render (draft.typeTokens ++ [token]) }) =
          some after) : Takes token rest (.column s) draft (.column target) after
  | beginKey {draft after : Draft} {table : Table}
      (found : draft.statement = some (.table table)) (ne : table.columns ≠ [])
      (changed : draft.changeTable (·.setKeyMember (table.columns.length - 1) true) =
        some after) : Takes token rest (.column .primary) draft (.column .primaryKey) after
  | orderKey {draft after : Draft} {desc : Bool}
      (changed : draft.changeColumn (fun column => { column with columnDesc := desc }) =
        some after) :
      Takes token rest (.column .primaryKey) draft (.column .primaryOrdered) after
  | autoincrement {s : ColumnState} {draft after : Draft} (place : s.isAfterKey = true)
      (changed : draft.changeColumn (fun column => { column with autoincrement := true }) =
        some after) : Takes token rest (.column s) draft (.column .constraints) after
  | resolveKey {draft after : Draft} {action : ConflictAction}
      (changed : draft.changeTable (fun table => { table with keyConflict := some action }) =
        some after) :
      Takes token rest (.column (.conflictAction .primaryKey)) draft (.column .primaryResolved)
        after
  | notNull {draft after : Draft}
      (changed : draft.changeColumn (fun column => { column with notNull := true }) =
        some after) : Takes token rest (.column .not) draft (.column .notNull) after
  | resolveNotNull {draft after : Draft} {action : ConflictAction}
      (changed : draft.changeColumn
        (fun column => { column with notNullConflict := some action }) = some after) :
      Takes token rest (.column (.conflictAction .notNull)) draft (.column .constraints) after
  | unique {draft after : Draft}
      (changed : draft.changeColumn (fun column => { column with unique := true }) =
        some after) : Takes token rest (.column .constraints) draft (.column .unique) after
  | resolveUnique {draft after : Draft} {action : ConflictAction}
      (changed : draft.changeColumn
        (fun column => { column with uniqueConflict := some action }) = some after) :
      Takes token rest (.column (.conflictAction .unique)) draft (.column .constraints) after
  | default {draft after : Draft} {value : DefaultValue} {left : List Token}
      (found : DefaultValue.readStored rest = .ok (value, left))
      (changed : draft.changeColumn (fun column => { column with default := some value }) =
        some after) :
      Takes token rest (.column .constraints) draft (.column .constraints) after
  | collate {draft after : Draft} (name : token.isName = true)
      (changed : draft.changeColumn
        (fun column => { column with collation := some token.text }) = some after) :
      Takes token rest (.column .collate) draft (.column .constraints) after
  | always {draft : Draft} :
      Takes token rest (.column .generated) draft (.column .generatedAlways)
        { draft with generatedAlways := true }
  | notAlways {draft : Draft} :
      Takes token rest (.column .constraints) draft (.column .generatedAs)
        { draft with generatedAlways := false }
  | storage {draft after : Draft} {storage : Storage}
      (changed : draft.changeColumn (fun column =>
        { column with
          generated := column.generated.map fun rule =>
            { rule with storage := some storage } }) = some after) :
      Takes token rest (.column .generatedEnd) draft (.column .constraints) after
  -- Conditions and rules.
  | openBody {state target : State} {draft : Draft} (opens : OpensBody state target) :
      Takes token rest state draft target draft.openBody
  | body {state : State} {draft after : Draft} (isBody : state.isBody = true)
      (taken : draft.takeBody token = (after, none)) : Takes token rest state draft state after
  | check {state target : State} {draft closed after : Draft} {condition : String}
      (closes : ClosesCheck state target)
      (taken : draft.takeBody token = (closed, some condition))
      (changed : closed.changeTable
        (fun table => { table with checks := table.checks ++ [condition] }) = some after) :
      Takes token rest state draft target after
  | generated {draft closed after : Draft} {rule : String}
      (taken : draft.takeBody token = (closed, some rule))
      (changed : closed.changeColumn
        (fun column => { column with generated := some ⟨rule, draft.generatedAlways, none⟩ }) =
          some after) :
      Takes token rest (.column .generatedBody) draft (.column .generatedEnd) after
  -- References.
  | openReference {draft : Draft} :
      Takes token rest (.column .constraints) draft (.reference .begun)
        (draft.openReference .column)
  | openForeign {draft : Draft} :
      Takes token rest (.constraint .foreignReferences) draft (.reference .begun)
        (draft.openReference draft.owner)
  | parent {draft : Draft} (name : token.isName = true) :
      Takes token rest (.reference .begun) draft (.reference .table)
        { draft with reference := { draft.reference with table := token.text } }
  | parentColumn {draft : Draft} (name : token.isName = true) :
      Takes token rest (.reference .column) draft (.reference .columnName)
        { draft with
          reference :=
            { draft.reference with columns := draft.reference.columns ++ [token.text] } }
  | clause {s target : ReferenceState} {draft : Draft} (taken : ClauseStep token s target) :
      Takes token rest (.reference s) draft (.reference target)
        { draft with clauses := draft.clauses ++ [token] }
  -- Keys of the table.
  | openPrimary {draft : Draft} :
      Takes token rest (.constraint .primary) draft (.constraint .primaryKey)
        { draft with key := { isPrimary := true } }
  | openUnique {draft : Draft} :
      Takes token rest (.constraint .done) draft (.constraint .unique) { draft with key := {} }
  | keyColumn {draft : Draft} (name : token.isName = true) :
      Takes token rest (.constraint .keyColumn) draft (.constraint .keyColumnName)
        { draft with
          key := { draft.key with columns := draft.key.columns ++ [⟨token.text, none, false⟩] } }
  | keyCollate {draft after : Draft} (name : token.isName = true)
      (changed : changeLastPart draft (fun part => { part with collation := some token.text }) =
        some after) :
      Takes token rest (.constraint .keyCollate) draft (.constraint .keyCollated) after
  | keyOrder {s : ConstraintState} {draft after : Draft} {desc : Bool}
      (place : s.isBeforeOrder = true)
      (changed : changeLastPart draft (fun part => { part with descending := desc }) =
        some after) :
      Takes token rest (.constraint s) draft (.constraint .keyOrdered) after
  | keyAutoincrement {s : ConstraintState} {draft : Draft}
      (place : s.isBeforeOrder = true ∨ s = .keyOrdered)
      (primary : draft.key.isPrimary = true) :
      Takes token rest (.constraint s) draft (.constraint .keyOrdered)
        { draft with key := { draft.key with autoincrement := true } }
  | keyConflict {draft after : Draft} {action : ConflictAction}
      (finished : { draft with key := { draft.key with conflict := some action } }.finishKey =
        (after, none)) :
      Takes token rest (.constraint .keyConflict) draft (.constraint .done) after
  -- Foreign keys.
  | openChildren {draft : Draft} :
      Takes token rest (.constraint .foreignKey) draft (.constraint .foreignColumn)
        { draft with owner := .table [] }
  | child {draft : Draft} {columns : List String} (name : token.isName = true)
      (owner : draft.owner = .table columns) :
      Takes token rest (.constraint .foreignColumn) draft (.constraint .foreignColumnName)
        { draft with owner := .table (columns ++ [token.text]) }
  -- Options of a table.
  | strict {s : OptionState} {draft after : Draft} (place : s = .closed ∨ s = .next)
      (changed : draft.changeTable (fun table => { table with isStrict := true }) = some after) :
      Takes token rest (.option s) draft (.option .done) after
  | withoutRowid {draft after : Draft}
      (changed : draft.changeTable (fun table => { table with hasRowid := false }) =
        some after) : Takes token rest (.option .without) draft (.option .done) after
  -- What an index is on.
  | indexTable {draft after : Draft} (name : token.isName = true)
      (changed : draft.changeIndex (fun index => { index with table := token.text }) =
        some after) : Takes token rest (.term .on) draft (.term .table) after
  | terms {draft after : Draft} {list : Expr} {left : List Token}
      (found : Expr.read .arguments rest = .ok (list, left))
      (changed : draft.changeIndex (fun index => { index with terms := list.splitCommas }) =
        some after) : Takes token rest (.term .table) draft (.term .terms) after
  | predicate {draft after : Draft} {condition : Expr} {left : List Token}
      (found : Expr.read (.top []) rest = .ok (condition, left))
      (ne : condition.isEmpty = false)
      (changed : draft.changeIndex (fun index => { index with predicate := some condition }) =
        some after) : Takes token rest (.term .closed) draft (.term .predicate) after

/-! ### Every move -/

variable {state target middle : State} {draft after settled : Draft} {token : Token}
  {rest left : List Token}

/-- What is complete settles, then the token is taken. -/
def SettlesAndTakes (token : Token) (rest : List Token) (state : State) (draft : Draft)
    (target : State) (after : Draft) : Prop :=
  ∃ middle settled, Settles state draft middle settled ∧
    Takes token rest middle settled target after

/-- Where a move leads, the machine settles and takes the token. -/
def Move.IsExplained (token : Token) (rest : List Token) (state : State) (draft : Draft) :
    Move → Prop :=
  Leads (SettlesAndTakes token rest state draft) fun place after =>
    ∀ target final left, place.read after rest = .next target final left →
      SettlesAndTakes token rest state draft target final

/-- A move explained by what settles and what is taken. -/
theorem Settles.next (settles : Settles state draft middle settled)
    (takes : Takes token rest middle settled target after) :
    (Move.next target after).IsExplained token rest state draft :=
  ⟨middle, settled, settles, takes⟩

/-- The same for a move that changes a part. -/
theorem Settles.go {changed : Option Draft} (settles : Settles state draft middle settled)
    (takes : ∀ after, changed = some after → Takes token rest middle settled target after) :
    (after.go target changed).IsExplained token rest state draft := by
  cases changed with
  | none => trivial
  | some after => exact settles.next (takes after rfl)

/-- The same for a move that depends on its token. -/
theorem Settles.goIf {fits : Bool} (settles : Settles state draft middle after)
    (takes : Takes token rest middle after target after) :
    (after.goIf fits target).IsExplained token rest state draft := by
  cases fits with
  | false => trivial
  | true => exact settles.next takes

/-- A silent move, if the token fits. -/
theorem goIf_passes {fits : Bool} (passes : state.passes target = true) :
    (draft.goIf fits target).IsExplained token rest state draft :=
  Settles.goIf (.refl state draft) (.pass passes)

/-- A move between states that pass is silent. -/
theorem next_passes (passes : state.passes target = true) :
    (Move.next target draft).IsExplained token rest state draft :=
  Settles.next (.refl state draft) (.pass passes)

/-- A token of a condition or rule is gathered, or is the parenthesis that ends it. -/
theorem takeBody_isExplained {ends : Draft → String → Move} (body : state.isBody = true)
    (done : ∀ {after text}, draft.takeBody token = (after, some text) →
      (ends after text).IsExplained token rest state draft) :
    (match draft.takeBody token with
      | (after, some text) => ends after text
      | (after, none) => .next state after).IsExplained token rest state draft := by
  split
  · rename_i taken
    exact done taken
  · rename_i taken
    exact Settles.next (.refl state draft) (.body body taken)

/-- A move that is made only if the token fits. -/
theorem ite_isExplained {fits : Prop} [Decidable fits] {move : Move}
    (h : fits → move.IsExplained token rest state draft) :
    (if fits then move else .refuse .unexpected draft).IsExplained token rest state draft := by
  split
  · rename_i holds
    exact h holds
  · trivial

/-! ### Between constraints -/

/-- A constraint of a column begins. -/
theorem columnKeyword_isExplained (h : Settles state draft (.column .constraints) settled) :
    (columnKeyword settled token).IsExplained token rest state draft := by
  unfold columnKeyword
  split
  · exact h.next (.pass rfl)
  · exact h.next (.pass rfl)
  · exact h.next (.pass rfl)
  · exact h.next (.pass rfl)
  · exact h.go fun after changed => .unique changed
  · exact h.next (.pass rfl)
  · intro target final left read
    cases Embedding.reads read with
    | default found changed => exact ⟨_, _, h, .default found changed⟩
  · exact h.next (.pass rfl)
  · exact h.next .openReference
  · exact h.next (.pass rfl)
  · exact h.next .notAlways
  · trivial

/-- What follows a constraint of a column. -/
theorem columnBoundary_isExplained (h : Settles state draft (.column .constraints) settled) :
    (columnBoundary settled token).IsExplained token rest state draft := by
  unfold columnBoundary
  split
  · exact h.next (.pass rfl)
  · exact h.next (.pass rfl)
  · exact columnKeyword_isExplained h

/-- A constraint of the table begins. -/
theorem constraintKeyword_isExplained (h : Settles state draft (.constraint .done) settled) :
    (constraintKeyword settled token).IsExplained token rest state draft := by
  unfold constraintKeyword
  split
  · exact h.next (.pass rfl)
  · exact h.next .openUnique
  · exact h.next (.pass rfl)
  · exact h.next (.pass rfl)
  · trivial

/-- A constraint of the table begins, or its name comes first. -/
theorem constraintStart_isExplained (h : Settles state draft (.constraint .done) settled) :
    (constraintStart settled token).IsExplained token rest state draft := by
  unfold constraintStart
  split
  · exact h.next (.pass rfl)
  · exact constraintKeyword_isExplained h

/-- What follows a constraint of the table. -/
theorem constraintBoundary_isExplained (h : Settles state draft (.constraint .done) settled) :
    (constraintBoundary settled token).IsExplained token rest state draft := by
  unfold constraintBoundary
  split
  · exact h.next (.pass rfl)
  · exact h.next (.pass rfl)
  · exact constraintStart_isExplained h

/-! ### Columns -/

/-- A token joins the type. -/
theorem extendType_isExplained {s t : ColumnState} (h : TypeStep draft.typeTokens token s t) :
    (extendType draft token t).IsExplained token rest (.column s) draft :=
  Settles.go (.refl _ _) fun _ changed => .extendType h changed

/-- A token of the width of a type. -/
theorem typeWidth_isExplained {second : Bool} {part : WidthState} :
    (typeWidth second part draft token).IsExplained token rest (.column (.width second part))
      draft := by
  unfold typeWidth
  split
  · rename_i kind
    exact extendType_isExplained (.sign kind)
  · rename_i kind
    exact extendType_isExplained (.number kind (.inl rfl))
  · rename_i kind
    exact extendType_isExplained (.number kind (.inr rfl))
  · rename_i kind
    cases second with
    | true => trivial
    | false => exact extendType_isExplained (.comma kind)
  · rename_i kind
    exact extendType_isExplained (.close kind)
  · trivial

/-- `AUTOINCREMENT`, or what follows the key of a column. -/
theorem afterKey_isExplained {s : ColumnState} (place : s.isAfterKey = true) :
    (afterKey draft token).IsExplained token rest (.column s) draft := by
  unfold afterKey
  split
  · exact Settles.go (.refl _ _) fun _ changed => .autoincrement place changed
  · refine columnBoundary_isExplained (.column ?_)
    rcases ColumnState.eq_of_isAfterKey place with rfl | rfl | rfl <;> rfl

/-- The action of the conflict clause of a column. -/
theorem resolveConflict_isExplained {owner : ConflictOwner} {action : ConflictAction} :
    (resolveConflict owner action draft).IsExplained token rest
      (.column (.conflictAction owner)) draft := by
  cases owner with
  | primaryKey => exact Settles.go (.refl _ _) fun _ changed => .resolveKey changed
  | notNull => exact Settles.go (.refl _ _) fun _ changed => .resolveNotNull changed
  | unique => exact Settles.go (.refl _ _) fun _ changed => .resolveUnique changed

/-- The key of a column. -/
theorem beginKey_isExplained :
    (draft.go (.column .primaryKey) <|
      match draft.statement with
      | some (.table table) =>
        if table.columns.isEmpty then none
        else draft.changeTable (·.setKeyMember (table.columns.length - 1) true)
      | _ => none).IsExplained token rest (.column .primary) draft := by
  refine Settles.go (.refl _ _) fun after changed => ?_
  split at changed
  · rename_i table found
    split at changed
    · exact absurd changed (by simp)
    · rename_i ne
      exact .beginKey found (by simpa using ne) changed
  · exact absurd changed (by simp)

/-- The name of a column, or the first constraint of the table. -/
theorem columnBegun_isExplained :
    (column .begun draft token).IsExplained token rest (.column .begun) draft := by
  dsimp only [column]
  split
  · exact constraintStart_isExplained .firstConstraint
  · rename_i column
    exact ite_isExplained fun name => Settles.go (.refl _ _) fun after changed =>
      .addColumn name (by simpa using column) changed

/-- A token of a type, or what follows a type. -/
theorem columnType_isExplained :
    (column .type draft token).IsExplained token rest (.column .type) draft := by
  dsimp only [column]
  split
  · rename_i word
    exact extendType_isExplained (.word word)
  · split
    · rename_i width
      rw [Bool.and_eq_true, beq_iff_eq, Bool.not_eq_true', List.isEmpty_eq_false_iff] at width
      exact extendType_isExplained (.width width.1 width.2)
    · exact columnBoundary_isExplained (.column rfl)

/-- What follows the words `PRIMARY KEY`. -/
theorem columnKey_isExplained :
    (column .primaryKey draft token).IsExplained token rest (.column .primaryKey) draft := by
  dsimp only [column]
  split
  · exact Settles.go (.refl _ _) fun _ changed => .orderKey changed
  · exact Settles.go (.refl _ _) fun _ changed => .orderKey changed
  · exact next_passes rfl
  · exact afterKey_isExplained rfl

/-- **Every move in the definition of a column** settles and takes. -/
theorem column_isExplained (s : ColumnState) :
    (column s draft token).IsExplained token rest (.column s) draft := by
  have refl (state : State) := Settles.refl state draft
  cases s with
  | begun => exact columnBegun_isExplained
  | type => exact columnType_isExplained
  | width second part => exact typeWidth_isExplained
  | constraints => exact columnBoundary_isExplained (.column rfl)
  | constraintName => exact goIf_passes rfl
  | named => exact columnKeyword_isExplained (.column rfl)
  | primary => exact ite_isExplained fun _ => beginKey_isExplained
  | primaryKey => exact columnKey_isExplained
  | primaryOrdered =>
      dsimp only [column]
      split
      · exact next_passes rfl
      · exact afterKey_isExplained rfl
  | primaryResolved => exact afterKey_isExplained rfl
  | not => exact ite_isExplained fun _ => (refl _).go fun _ changed => .notNull changed
  | notNull | unique =>
      dsimp only [column]
      split
      · exact next_passes rfl
      · exact columnBoundary_isExplained (.column rfl)
  | conflictOn owner => exact goIf_passes (by cases owner <;> rfl)
  | conflictAction owner =>
      dsimp only [column]
      split
      · exact resolveConflict_isExplained
      · trivial
  | check => exact ite_isExplained fun _ => (refl _).next (.openBody .columnCheck)
  | checkBody =>
      exact takeBody_isExplained rfl fun taken =>
        (refl _).go fun _ changed => .check .column taken changed
  | collate =>
      exact ite_isExplained fun name => (refl _).go fun _ changed => .collate name changed
  | generated => exact ite_isExplained fun _ => (refl _).next .always
  | generatedAlways => exact goIf_passes rfl
  | generatedAs => exact ite_isExplained fun _ => (refl _).next (.openBody .generated)
  | generatedBody =>
      exact takeBody_isExplained rfl fun taken =>
        (refl _).go fun _ changed => .generated taken changed
  | generatedEnd =>
      dsimp only [column]
      split
      · exact (refl _).go fun _ changed => .storage changed
      · exact columnBoundary_isExplained (.column rfl)

/-! ### Constraints of the table -/

/-- A column of a key list ends: another one follows, or none. -/
theorem keyPartEnd_isExplained {s : ConstraintState}
    (place : s.isBeforeOrder = true ∨ s = .keyOrdered) :
    (keyPartEnd draft token).IsExplained token rest (.constraint s) draft := by
  have passes {t : ConstraintState} (h : t = .keyColumn ∨ t = .keyEnd) :
      State.passes (.constraint s) (.constraint t) = true := by
    rcases place with place | rfl
    · rcases ConstraintState.eq_of_isBeforeOrder place with rfl | rfl <;>
        rcases h with rfl | rfl <;> rfl
    · rcases h with rfl | rfl <;> rfl
  unfold keyPartEnd
  split
  · rename_i word
    rw [Bool.and_eq_true] at word
    exact Settles.next (.refl _ _) (.keyAutoincrement place word.1)
  · split
    · exact next_passes (passes (.inl rfl))
    · exact next_passes (passes (.inr rfl))
    · trivial

/-- The order of a column of a key list, or its end. -/
theorem keyOrder_isExplained {s : ConstraintState} (place : s.isBeforeOrder = true) :
    (keyOrder draft token).IsExplained token rest (.constraint s) draft := by
  unfold keyOrder
  split
  · exact Settles.go (.refl _ _) fun _ changed => .keyOrder place changed
  · exact Settles.go (.refl _ _) fun _ changed => .keyOrder place changed
  · exact keyPartEnd_isExplained (.inl place)

/-- The end of a key list, with its conflict clause or without. -/
theorem keyEnd_isExplained :
    (constraint .keyEnd draft token).IsExplained token rest (.constraint .keyEnd) draft := by
  dsimp only [constraint]
  split
  · exact next_passes rfl
  · split
    · rename_i after finished
      exact constraintBoundary_isExplained (.key finished)
    · trivial

/-- The action of the conflict clause of a key list. -/
theorem keyConflict_isExplained :
    (constraint .keyConflict draft token).IsExplained token rest (.constraint .keyConflict)
      draft := by
  dsimp only [constraint]
  split
  · split
    · rename_i after finished
      exact Settles.next (.refl _ _) (.keyConflict finished)
    · trivial
  · trivial

/-- **Every move in a constraint of the table** settles and takes. -/
theorem constraint_isExplained (s : ConstraintState) :
    (constraint s draft token).IsExplained token rest (.constraint s) draft := by
  have refl (state : State) := Settles.refl state draft
  cases s with
  | begun => exact constraintStart_isExplained (.constraint (.inl rfl))
  | constraintName => exact goIf_passes rfl
  | named => exact constraintKeyword_isExplained (.constraint (.inr rfl))
  | primary => exact ite_isExplained fun _ => (refl _).next .openPrimary
  | primaryKey | unique => exact goIf_passes rfl
  | keyColumn => exact ite_isExplained fun name => (refl _).next (.keyColumn name)
  | keyColumnName =>
      dsimp only [constraint]
      split
      · exact next_passes rfl
      · exact keyOrder_isExplained rfl
  | keyCollate =>
      exact ite_isExplained fun name => (refl _).go fun _ changed => .keyCollate name changed
  | keyCollated => exact keyOrder_isExplained rfl
  | keyOrdered => exact keyPartEnd_isExplained (.inr rfl)
  | keyEnd => exact keyEnd_isExplained
  | keyOn => exact goIf_passes rfl
  | keyConflict => exact keyConflict_isExplained
  | check => exact ite_isExplained fun _ => (refl _).next (.openBody .tableCheck)
  | checkBody =>
      exact takeBody_isExplained rfl fun taken =>
        (refl _).go fun _ changed => .check .table taken changed
  | foreign => exact goIf_passes rfl
  | foreignKey => exact ite_isExplained fun _ => (refl _).next .openChildren
  | foreignColumn =>
      dsimp only [constraint]
      split
      · rename_i columns owner
        exact ite_isExplained fun name => (refl _).next (.child name owner)
      · trivial
  | foreignColumnName =>
      dsimp only [constraint]
      split
      · exact next_passes rfl
      · exact next_passes rfl
      · trivial
  | foreignReferences => exact ite_isExplained fun _ => (refl _).next .openForeign
  | done => exact constraintBoundary_isExplained (refl _)

/-! ### References -/

/-- A token of a clause is gathered. -/
theorem takeClause_isExplained {s t : ReferenceState} (h : ClauseStep token s t) :
    (takeClause draft token t).IsExplained token rest (.reference s) draft :=
  Settles.next (.refl _ _) (.clause h)

/-- A token of a clause is gathered if it fits. -/
theorem takeClauseIf_isExplained {fits : Bool} {s t : ReferenceState}
    (h : fits = true → ClauseStep token s t) :
    (takeClauseIf fits draft token t).IsExplained token rest (.reference s) draft := by
  cases fits with
  | false => trivial
  | true => exact takeClause_isExplained (h rfl)

/-- What follows a reference, with the reference in its place. -/
theorem afterReference_isExplained {s : ReferenceState} (settled : s.isSettled = true) :
    (afterReference draft token).IsExplained token rest (.reference s) draft := by
  unfold afterReference
  split
  · rename_i after finished
    split
    · rename_i owner
      exact columnBoundary_isExplained (.columnReference settled owner finished)
    · rename_i columns owner
      exact constraintBoundary_isExplained (.tableReference settled owner finished)
  · trivial

/-- A clause of a reference begins, or the reference ends. -/
theorem referenceClause_isExplained {s : ReferenceState} (settled : s.isSettled = true)
    (next : Option Token) :
    (referenceClause draft token next).IsExplained token rest (.reference s) draft := by
  unfold referenceClause
  split
  · rename_i word
    exact takeClause_isExplained (.matching settled (Token.is_of_keyword? word))
  · rename_i word
    exact takeClause_isExplained (.on settled (Token.is_of_keyword? word))
  · rename_i word
    exact takeClause_isExplained (.deferrable settled (Token.is_of_keyword? word))
  · rename_i word
    split
    · exact takeClause_isExplained (.not settled (Token.is_of_keyword? word))
    · exact afterReference_isExplained settled
  · exact afterReference_isExplained settled

/-- **Every move in a reference** settles and takes. -/
theorem reference_isExplained (s : ReferenceState) (next : Option Token) :
    (reference s draft token next).IsExplained token rest (.reference s) draft := by
  have refl (state : State) := Settles.refl state draft
  cases s with
  | begun =>
      exact ite_isExplained fun name => (refl _).next (.parent name)
  | table =>
      unfold reference
      dsimp only
      split
      · exact next_passes rfl
      · exact referenceClause_isExplained rfl next
  | column =>
      exact ite_isExplained fun name => (refl _).next (.parentColumn name)
  | columnName =>
      unfold reference
      dsimp only
      split
      · exact next_passes rfl
      · exact next_passes rfl
      · trivial
  | clauses => exact referenceClause_isExplained rfl next
  | matching => exact takeClauseIf_isExplained .matched
  | on => exact takeClauseIf_isExplained fun word => .event (by simpa using word)
  | action =>
      unfold reference
      dsimp only
      split
      · rename_i word
        exact takeClause_isExplained (.set (Token.is_of_keyword? word))
      · rename_i word
        exact takeClause_isExplained (.no (Token.is_of_keyword? word))
      · rename_i word
        exact takeClause_isExplained (.action (.inl (Token.is_of_keyword? word)))
      · rename_i word
        exact takeClause_isExplained (.action (.inr (Token.is_of_keyword? word)))
      · trivial
  | set => exact takeClauseIf_isExplained fun word => .value (by simpa using word)
  | no => exact takeClauseIf_isExplained .noAction
  | not => exact takeClauseIf_isExplained .notDeferrable
  | deferrable =>
      unfold reference
      dsimp only
      split
      · rename_i word
        exact takeClause_isExplained (.initially word)
      · exact referenceClause_isExplained rfl next
  | initially => exact takeClauseIf_isExplained fun word => .time (by simpa using word)

/-! ### What is defined -/

/-- Every move up to `TABLE` or `INDEX` takes the token. -/
theorem opening_isExplained (s : OpeningState) :
    (opening s draft token).IsExplained token rest (.opening s) draft := by
  unfold opening
  split
  · exact next_passes rfl
  · exact Settles.next (.refl _ _) .temporary
  · exact Settles.next (.refl _ _) .temporary
  · exact next_passes rfl
  · exact Settles.next (.refl _ _) (.beginTable (.inl rfl))
  · exact Settles.next (.refl _ _) (.beginTable (.inr rfl))
  · exact Settles.next (.refl _ _) (.beginIndex (.inl rfl))
  · exact Settles.next (.refl _ _) (.beginIndex (.inr rfl))
  · trivial

/-- The table is given its name. -/
theorem nameTable_isExplained {s t : NameState} (names : Names s t) :
    (nameTable draft token t).IsExplained token rest (.tableName s) draft :=
  ite_isExplained fun name => Settles.go (.refl _ _) fun _ changed =>
    .nameTable names name changed

/-- The index is given its name. -/
theorem nameIndex_isExplained {s t : NameState} (names : Names s t) :
    (nameIndex draft token t).IsExplained token rest (.indexName s) draft :=
  ite_isExplained fun name => Settles.go (.refl _ _) fun _ changed =>
    .nameIndex names name changed

/-- Every move in the name of a table takes the token. -/
theorem tableName_isExplained (s : NameState) :
    (tableName s draft token).IsExplained token rest (.tableName s) draft := by
  cases s with
  | begun =>
      unfold tableName
      dsimp only
      split
      · exact next_passes rfl
      · exact nameTable_isExplained .plain
  | guardIf => exact goIf_passes rfl
  | guardNot =>
      exact ite_isExplained fun _ => Settles.go (.refl _ _) fun _ changed =>
        .guardTable changed
  | guardExists => exact nameTable_isExplained .guarded
  | named =>
      unfold tableName
      dsimp only
      split
      · exact Settles.go (.refl _ _) fun _ changed => .tableSchema changed
      · exact goIf_passes rfl
  | dotted => exact nameTable_isExplained .qualified
  | qualified => exact goIf_passes rfl

/-- Every move in the name of an index takes the token. -/
theorem indexName_isExplained (s : NameState) :
    (indexName s draft token).IsExplained token rest (.indexName s) draft := by
  cases s with
  | begun =>
      unfold indexName
      dsimp only
      split
      · exact next_passes rfl
      · exact nameIndex_isExplained .plain
  | guardIf => exact goIf_passes rfl
  | guardNot =>
      exact ite_isExplained fun _ => Settles.go (.refl _ _) fun _ changed =>
        .guardIndex changed
  | guardExists => exact nameIndex_isExplained .guarded
  | named =>
      unfold indexName
      dsimp only
      split
      · exact Settles.go (.refl _ _) fun _ changed => .indexSchema changed
      · exact goIf_passes rfl
  | dotted => exact nameIndex_isExplained .qualified
  | qualified => exact goIf_passes rfl

/-- Every move after the closing parenthesis of a table takes the token. -/
theorem option_isExplained (s : OptionState) :
    (option s draft token).IsExplained token rest (.option s) draft := by
  have tableOption_isExplained {s : OptionState} (place : s = .closed ∨ s = .next) :
      (tableOption draft token).IsExplained token rest (.option s) draft := by
    unfold tableOption
    split
    · rcases place with rfl | rfl <;> exact next_passes rfl
    · exact Settles.go (.refl _ _) fun _ changed => .strict place changed
    · trivial
  cases s with
  | closed => exact tableOption_isExplained (.inl rfl)
  | next => exact tableOption_isExplained (.inr rfl)
  | without =>
      exact ite_isExplained fun _ => Settles.go (.refl _ _) fun _ changed =>
        .withoutRowid changed
  | done => exact goIf_passes rfl

/-- Every move after the name of an index takes the token. -/
theorem term_isExplained (s : TermState) :
    (term s draft token).IsExplained token rest (.term s) draft := by
  cases s with
  | on =>
      exact ite_isExplained fun name => Settles.go (.refl _ _) fun _ changed =>
        .indexTable name changed
  | table =>
      unfold term
      dsimp only
      split
      · intro target final left read
        cases Embedding.reads read with
        | terms found changed => exact ⟨_, _, .refl _ _, .terms found changed⟩
      · trivial
  | terms => exact goIf_passes rfl
  | closed =>
      unfold term
      dsimp only
      split
      · intro target final left read
        cases Embedding.reads read with
        | predicate found ne changed => exact ⟨_, _, .refl _ _, .predicate found ne changed⟩
      · trivial
  | predicate => trivial

/-! ### Every step -/

/-- **Every move settles and takes**, whatever the state. -/
theorem ofState_isExplained (state : State) (draft : Draft) :
    (Move.ofState state draft token rest.head?).IsExplained token rest state draft := by
  cases state with
  | opening s => exact opening_isExplained s
  | tableName s => exact tableName_isExplained s
  | column s => exact column_isExplained s
  | reference s => exact reference_isExplained s rest.head?
  | constraint s => exact constraint_isExplained s
  | option s => exact option_isExplained s
  | indexName s => exact indexName_isExplained s
  | term s => exact term_isExplained s

/-- **Every step settles what is complete and takes the token.** -/
theorem step_cases (h : step state draft token rest = .next target after left) :
    SettlesAndTakes token rest state draft target after := by
  have explained :
      (Move.ofState state draft token rest.head?).IsExplained token rest state draft :=
    ofState_isExplained state draft
  unfold step at h
  split at h
  · rename_i move
    obtain ⟨rfl, rfl, -⟩ := Step.next.inj h
    rw [move] at explained
    exact explained
  · rename_i place embedded move
    rw [move] at explained
    exact explained target after left h
  · exact absurd h (by simp)

/-! ### Invariants -/

/-- The tokens of a body are taken in the state that the step begins in. -/
theorem Settles.eq_of_isBody (h : Settles state draft middle settled)
    (body : middle.isBody = true) : state = middle := by
  cases h with
  | refl => rfl
  | _ => exact absurd body Bool.false_ne_true

/-- **What steps keep holds at the end** of a whole statement; of a step it is known how it
settles and how it takes its token. -/
theorem parse_invariant_of_steps {P : List Transition → State → Draft → Prop} {text : String}
    {statement : Statement}
    (steps : ∀ {past source before state draft token rest target after}, P past source before →
      Settles source before state draft → token.IsLexed → (∀ t ∈ rest, t.IsLexed) →
      Takes token rest state draft target after →
      P (past ++ [⟨source, target, token⟩]) target after)
    (start : P [] (.opening .start) {}) (h : Statement.parse text = .ok statement) :
    ∃ target after, P (Statement.read text).transitions target after ∧
      target.isAccepting = true ∧ after.statement = some statement := by
  refine parse_invariant (fun past state draft token tokens holds first lexed => ?_) start h
  cases taken : step state draft token tokens with
  | refuse why after => trivial
  | next target after left =>
      obtain ⟨middle, settled, settle, take⟩ := step_cases taken
      exact steps holds settle first lexed take

/-- **What settling and taking keep holds at the end** of a whole statement. -/
theorem parse_invariant_of_takes {P : List Transition → State → Draft → Prop} {text : String}
    {statement : Statement}
    (settles : ∀ {past state draft middle settled}, P past state draft →
      Settles state draft middle settled → P past middle settled)
    (takes : ∀ {past source state draft token rest target after}, P past state draft →
      (state.isBody = true → source = state) → token.IsLexed → (∀ t ∈ rest, t.IsLexed) →
      Takes token rest state draft target after →
      P (past ++ [⟨source, target, token⟩]) target after)
    (start : P [] (.opening .start) {}) (h : Statement.parse text = .ok statement) :
    ∃ target after, P (Statement.read text).transitions target after ∧
      target.isAccepting = true ∧ after.statement = some statement :=
  parse_invariant_of_steps (fun holds settle first lexed take =>
    takes (settles holds settle) (fun body => settle.eq_of_isBody body) first lexed take) start h

/-! ### Parts of the draft -/

/-- There is one table in a draft, or in a transcript. -/
theorem table_unique {statement : Option Statement} {table other : Table}
    (found : statement = some (.table table)) (again : statement = some (.table other)) :
    table = other :=
  Statement.table.inj (Option.some.inj (found.symm.trans again))

/-- A change of the table needs a table. -/
theorem changeTable_eq_some {f : Table → Table} (h : draft.changeTable f = some after) :
    ∃ table, draft.statement = some (.table table) ∧
      after = { draft with statement := some (.table (f table)) } := by
  unfold Draft.changeTable at h
  split at h
  · rename_i table found
    exact ⟨table, found, (Option.some.inj h).symm⟩
  · exact absurd h (by simp)

/-- A change of the index needs an index. -/
theorem changeIndex_eq_some {f : Index → Index} (h : draft.changeIndex f = some after) :
    ∃ index, draft.statement = some (.index index) ∧
      after = { draft with statement := some (.index (f index)) } := by
  unfold Draft.changeIndex at h
  split at h
  · rename_i index found
    exact ⟨index, found, (Option.some.inj h).symm⟩
  · exact absurd h (by simp)

/-- A change of the column needs a table that has one, and is made in its last. -/
theorem changeColumn_eq_some {f : Column → Column} (h : draft.changeColumn f = some after) :
    ∃ table, draft.statement = some (.table table) ∧ table.columns ≠ [] ∧
      after = { draft with
        statement := some (.table (table.modifyColumn (table.columns.length - 1) f)) } := by
  unfold Draft.changeColumn at h
  split at h
  · rename_i table found
    split at h
    · exact absurd h (by simp)
    · rename_i ne
      exact ⟨table, found, by simpa using ne, (Option.some.inj h).symm⟩
  · exact absurd h (by simp)

/-- A change of the last column of a key list needs a list that has one. -/
theorem changeLastPart_eq_some {f : KeyPart → KeyPart}
    (h : changeLastPart draft f = some after) :
    draft.key.columns ≠ [] ∧ after = { draft with
      key := { draft.key with
        columns := draft.key.columns.modify (draft.key.columns.length - 1) f } } := by
  unfold changeLastPart at h
  split at h
  · exact absurd h (by simp)
  · rename_i ne
    exact ⟨by simpa using ne, (Option.some.inj h).symm⟩

/-- A token that does not end a body is gathered, and its parenthesis counted. -/
theorem takeBody_eq_none (h : draft.takeBody token = (after, none)) :
    ∃ depth, BodyStep token draft.depth depth ∧
      after = { draft with body := draft.body ++ [token], depth := depth } := by
  unfold Draft.takeBody at h
  split at h
  · rename_i kind
    exact ⟨_, .open kind, (Prod.mk.inj h).1.symm⟩
  · rename_i kind
    split at h
    · exact absurd (Prod.mk.inj h).2 (by simp)
    · rename_i inside
      obtain ⟨depth, same⟩ : ∃ depth, draft.depth = depth + 2 :=
        ⟨draft.depth - 2, by omega⟩
      refine ⟨depth + 1, same ▸ .close kind, ?_⟩
      rw [← (Prod.mk.inj h).1, same]
      rfl
  · rename_i notOpen notClose
    exact ⟨_, .other (by simpa using notOpen) (by simpa using notClose),
      (Prod.mk.inj h).1.symm⟩

/-- A body ends with the parenthesis that it was opened with, and its text is that of the
tokens gathered. -/
theorem takeBody_eq_some {text : String} (h : draft.takeBody token = (after, some text)) :
    token.kind = .closeParen ∧ draft.depth - 1 = 0 ∧ text = render draft.body ∧
      after = { draft with body := [], depth := draft.depth - 1 } := by
  unfold Draft.takeBody at h
  split at h
  · exact absurd (Prod.mk.inj h).2 (by simp)
  · rename_i kind
    split at h
    · rename_i last
      exact ⟨kind, last, (Option.some.inj (Prod.mk.inj h).2).symm, (Prod.mk.inj h).1.symm⟩
    · exact absurd (Prod.mk.inj h).2 (by simp)
  · exact absurd (Prod.mk.inj h).2 (by simp)

/-- A condition or rule changes nothing that it relies on. -/
theorem takeBody_statement {text : Option String} (h : draft.takeBody token = (after, text)) :
    after.statement = draft.statement := by
  unfold Draft.takeBody at h
  split at h
  · rw [← (Prod.mk.inj h).1]
  · split at h <;> rw [← (Prod.mk.inj h).1]
  · rw [← (Prod.mk.inj h).1]

/-- A complete key list is put into the table: as its primary key, or as a unique key. -/
theorem finishKey_eq_none (h : draft.finishKey = (after, none)) :
    ∃ table entered, draft.statement = some (.table table) ∧
      after = { draft with key := {}, statement := some (.table entered) } ∧
      ((draft.key.isPrimary = true ∧ ∃ members : Table,
          Draft.enterKey draft.key.autoincrement draft.key.columns table = (members, none) ∧
          entered = { members with keyConflict := draft.key.conflict.or members.keyConflict }) ∨
        (draft.key.isPrimary = false ∧ entered = Draft.enterUnique draft.key table)) := by
  have finishes := draft.finishesKey
  rw [h] at finishes
  cases finishes with
  | @primary table members found primary entering =>
      exact ⟨table, _, found, rfl, .inl ⟨primary, members, entering, rfl⟩⟩
  | @unique table found unique => exact ⟨table, _, found, rfl, .inr ⟨unique, rfl⟩⟩

/-- A complete reference is given to the column that is being defined. -/
theorem finishReference_column (owner : draft.owner = .column)
    (h : draft.finishReference = some after) :
    (draft.openReference .column).changeColumn (fun column =>
      { column with
        references := some { draft.reference with clauses := render draft.clauses } }) =
          some after := by
  unfold Draft.finishReference at h
  rw [owner] at h
  exact h

/-- A complete reference is given to the table. -/
theorem finishReference_table {columns : List String} (owner : draft.owner = .table columns)
    (h : draft.finishReference = some after) :
    (draft.openReference .column).changeTable (Draft.enterForeignKey columns
      { draft.reference with clauses := render draft.clauses }) = some after := by
  unfold Draft.finishReference at h
  rw [owner] at h
  exact h

/-! ### What a change keeps -/

/-- What a draft shows: something apart from its statement, and something of its table. -/
structure DraftView (α β : Type) where
  /-- What is shown apart from the statement. -/
  part : Draft → α
  /-- What is shown of the table. -/
  table : Table → β
  /-- The first does not depend on the statement. -/
  apart : ∀ draft statement, part { draft with statement := statement } = part draft

namespace DraftView

variable {α β : Type} {view : DraftView α β} {before : Draft}

/-- Afterwards the draft shows the same. If it has a table, it had one before. -/
structure Keeps (view : DraftView α β) (draft after : Draft) : Prop where
  /-- What is shown apart from the statement is the same. -/
  part : view.part after = view.part draft
  /-- What is shown of the table is the same. -/
  table : ∀ other, after.statement = some (.table other) → ∃ table,
    draft.statement = some (.table table) ∧ view.table other = view.table table

namespace Keeps

/-- A change outside the statement keeps what is shown of the table. -/
theorem of_statement (part : view.part after = view.part draft)
    (same : after.statement = draft.statement) : view.Keeps draft after :=
  ⟨part, fun other found => ⟨other, same ▸ found, rfl⟩⟩

variable (h : view.Keeps before draft)

include h

/-- A change of the table that is not shown is kept from view. -/
theorem changeTable {f : Table → Table} (changed : draft.changeTable f = some after)
    (keeps : ∀ t, view.table (f t) = view.table t) : view.Keeps before after := by
  obtain ⟨table, found, rfl⟩ := changeTable_eq_some changed
  refine ⟨(view.apart ..).trans h.part, ?_⟩
  rintro _ ⟨⟩
  obtain ⟨old, first, same⟩ := h.table table found
  exact ⟨old, first, (keeps table).trans same⟩

/-- A change of the last column that is not shown is kept from view. -/
theorem changeColumn {f : Column → Column} (changed : draft.changeColumn f = some after)
    (keeps : ∀ t i, view.table (t.modifyColumn i f) = view.table t) :
    view.Keeps before after := by
  obtain ⟨table, found, -, rfl⟩ := changeColumn_eq_some changed
  refine ⟨(view.apart ..).trans h.part, ?_⟩
  rintro _ ⟨⟩
  obtain ⟨old, first, same⟩ := h.table table found
  exact ⟨old, first, (keeps table _).trans same⟩

/-- A change of an index concerns no table. -/
theorem changeIndex {f : Index → Index} (changed : draft.changeIndex f = some after) :
    view.Keeps before after := by
  obtain ⟨index, -, rfl⟩ := changeIndex_eq_some changed
  exact ⟨(view.apart ..).trans h.part, by rintro _ ⟨⟩⟩

end Keeps

end DraftView

end SchemaText
