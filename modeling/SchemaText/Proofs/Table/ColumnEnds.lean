import SchemaText.Proofs.Statement.Parallel
import SchemaText.Proofs.Table.ColumnReading

/-!
# Where the definition of a column ends

The definition of a column ends before a comma or a parenthesis. What is still pending there,
such as a reference, is put into the column. A further constraint of the column in this place
would find the same draft.

## Main definitions

* `Draft.settledColumn?`: the draft once the definition of its column is complete.
* `ColumnEnd`: a place in a text where the definition of a column ends.
* `Draft.IsTidy`: nothing is left over of a key list or of a reference.

## Main results

* `move_of_settledColumn`: **at the end of a column** what follows finds the complete draft.
* `step_column`: a definition of a column is left in no other way.
* `Reaches.exists_columnEnd`: **every definition of a column ends** before what comes after it.
* `Reaches.isTidy`: in definitions of columns nothing is left over.
-/

namespace SchemaText

open Token Move

variable {state target : State} {draft after settled : Draft} {token : Token}
  {rest left tokens : List Token} {text : String} {past : List Transition} {table : Table}

/-! ### Complete columns -/

/-- The draft once the definition of its column is complete, in the states where it can be:
what is pending is put into the column. -/
def Draft.settledColumn? (draft : Draft) : State → Option Draft
  | .column s => if s.isSettled && s != .named then some draft else none
  | .reference s =>
      if s.isSettled && draft.owner == .column then draft.finishReference else none
  | _ => none

/-- Between two constraints a column is complete as it is, but not after the name of one. -/
theorem settledColumn?_column {s : ColumnState} (place : s.isSettled = true)
    (unnamed : s ≠ .named) : draft.settledColumn? (.column s) = some draft := by
  simp [Draft.settledColumn?, place, unnamed]

/-- After a reference a column is complete once it has been given the reference. -/
theorem settledColumn?_reference {s : ReferenceState} (place : s.isSettled = true)
    (owner : draft.owner = .column) :
    draft.settledColumn? (.reference s) = draft.finishReference := by
  simp [Draft.settledColumn?, place, owner]

/-- In the states where a column can be complete, it is being defined. -/
theorem definesColumn_of_settledColumn (complete : draft.settledColumn? state = some settled) :
    draft.definesColumn state ∧ state.awaits = false := by
  unfold Draft.settledColumn? at complete
  split at complete
  · rename_i s
    refine ⟨?_, ?_⟩
    · rintro rfl
      exact absurd complete (by simp [ColumnState.isSettled])
    · cases s <;> first
        | rfl
        | exact absurd complete (by simp [ColumnState.isSettled])
  · rename_i s
    split at complete
    · rename_i place
      obtain ⟨place, owner⟩ := Bool.and_eq_true_iff.1 place
      refine ⟨beq_iff_eq.1 owner, ?_⟩
      cases s <;> first
        | rfl
        | exact absurd place Bool.false_ne_true
    · exact absurd complete (by simp)
  · exact absurd complete (by simp)

/-- **At the end of a column** what follows finds the complete draft: the comma or the
parenthesis as well as a further constraint. -/
theorem move_of_settledColumn (complete : draft.settledColumn? state = some settled)
    (ends : token.EndsPart) (notNot : token.is .NOT = false) (next : Option Token) :
    Move.ofState state draft token next =
      Move.ofState (.column .constraints) settled token next := by
  unfold Draft.settledColumn? at complete
  split at complete
  · split at complete
    · rename_i place
      obtain ⟨place, unnamed⟩ := Bool.and_eq_true_iff.1 place
      obtain rfl := Option.some.inj complete
      exact ends.move_eq place (by simpa using unnamed) next
    · exact absurd complete (by simp)
  · split at complete
    · rename_i place
      obtain ⟨place, owner⟩ := Bool.and_eq_true_iff.1 place
      exact ends.move_reference notNot place (beq_iff_eq.1 owner) complete next
    · exact absurd complete (by simp)
  · exact absurd complete (by simp)

/-! ### Steps in the definition of a column -/

/-- A token leads out of the definition of a column, which is complete. -/
inductive LeavesColumn (token : Token) (state : State) (draft : Draft) : State → Draft → Prop
  | comma {after : Draft} (complete : draft.settledColumn? state = some after)
      (kind : token.kind = .comma) : LeavesColumn token state draft (.column .begun) after
  | close {after : Draft} (complete : draft.settledColumn? state = some after)
      (kind : token.kind = .closeParen) :
      LeavesColumn token state draft (.option .closed) after

/-- A move goes on in the definition of the column, or leaves it. -/
def Move.GoesOn (token : Token) (state : State) (draft : Draft) : Move → Prop :=
  Leads (fun target after =>
      after.definesColumn target ∨ LeavesColumn token state draft target after)
    fun place _ => place = .default

section Moves

variable {d : Draft}

/-- A move to another state of the definition goes on in it. -/
theorem next_goesOn {s : ColumnState} (inside : s ≠ .begun) :
    (Move.next (.column s) d).GoesOn token state draft :=
  .inl inside

/-- So does a move that changes a part. -/
theorem go_goesOn {s : ColumnState} {changed : Option Draft} (inside : s ≠ .begun) :
    (d.go (.column s) changed).GoesOn token state draft := by
  cases changed with
  | none => trivial
  | some after => exact .inl inside

/-- So does a move that depends on its token. -/
theorem goIf_goesOn {s : ColumnState} {fits : Bool} (inside : s ≠ .begun) :
    (d.goIf fits (.column s)).GoesOn token state draft := by
  cases fits with
  | false => trivial
  | true => exact .inl inside

/-- The beginning of a constraint is within the definition. -/
theorem columnKeyword_goesOn : (columnKeyword d token).GoesOn token state draft := by
  unfold columnKeyword
  split <;> first
    | exact next_goesOn (by simp)
    | exact go_goesOn (by simp)
    | exact .inl rfl
    | exact rfl
    | trivial

/-- A comma or a parenthesis leaves the definition, if the column is complete. -/
theorem columnBoundary_goesOn (complete : draft.settledColumn? state = some d) :
    (columnBoundary d token).GoesOn token state draft := by
  unfold columnBoundary
  split
  · rename_i kind
    exact .inr (.comma complete kind)
  · rename_i kind
    exact .inr (.close complete kind)
  · exact columnKeyword_goesOn

/-- After the key the definition goes on, or is left. -/
theorem afterKey_goesOn (complete : draft.settledColumn? state = some d) :
    (afterKey d token).GoesOn token state draft := by
  unfold afterKey
  split
  · exact go_goesOn (by simp)
  · exact columnBoundary_goesOn complete

/-- The width of a type is within the definition. -/
theorem typeWidth_goesOn (second : Bool) (part : WidthState) :
    (typeWidth second part d token).GoesOn token state draft := by
  unfold typeWidth
  split <;> first
    | exact go_goesOn (by simp)
    | trivial
    | split <;> first
        | exact go_goesOn (by simp)
        | trivial

/-- In the definition of a column. -/
theorem column_goesOn {s : ColumnState} (inside : s ≠ .begun) :
    (Move.column s draft token).GoesOn token (.column s) draft := by
  have ends {t : ColumnState} (place : t.isSettled = true) (unnamed : t ≠ .named) :
      (columnBoundary draft token).GoesOn token (.column t) draft :=
    columnBoundary_goesOn (settledColumn?_column place unnamed)
  have key {t : ColumnState} (place : t.isSettled = true) (unnamed : t ≠ .named) :
      (afterKey draft token).GoesOn token (.column t) draft :=
    afterKey_goesOn (settledColumn?_column place unnamed)
  cases s with
  | begun => exact absurd rfl inside
  | type =>
      dsimp only [column]
      split
      · exact go_goesOn (by simp)
      · split
        · exact go_goesOn (by simp)
        · exact ends rfl (by simp)
  | width second part => exact typeWidth_goesOn second part
  | constraints => exact ends rfl (by simp)
  | constraintName | generatedAlways | conflictOn => exact goIf_goesOn (by simp)
  | named => exact columnKeyword_goesOn
  | primary | not | collate =>
      dsimp only [column]
      split
      · exact go_goesOn (by simp)
      · trivial
  | primaryKey =>
      dsimp only [column]
      split
      · exact go_goesOn (by simp)
      · exact go_goesOn (by simp)
      · exact next_goesOn (by simp)
      · exact key rfl (by simp)
  | primaryOrdered =>
      dsimp only [column]
      split
      · exact next_goesOn (by simp)
      · exact key rfl (by simp)
  | primaryResolved => exact key rfl (by simp)
  | notNull | unique =>
      dsimp only [column]
      split
      · exact next_goesOn (by simp)
      · exact ends rfl (by simp)
  | conflictAction owner =>
      dsimp only [column]
      split
      · cases owner <;> exact go_goesOn (by simp)
      · trivial
  | check | generated | generatedAs =>
      dsimp only [column]
      split
      · exact next_goesOn (by simp)
      · trivial
  | checkBody | generatedBody =>
      dsimp only [column]
      split
      · exact go_goesOn (by simp)
      · exact next_goesOn (by simp)
  | generatedEnd =>
      dsimp only [column]
      split
      · exact go_goesOn (by simp)
      · exact ends rfl (by simp)

/-- In the reference of a column. -/
theorem reference_goesOn {s : ReferenceState} (owner : draft.owner = .column)
    (next : Option Token) :
    (Move.reference s draft token next).GoesOn token (.reference s) draft := by
  have ends {t : ReferenceState} (place : t.isSettled = true) :
      (referenceClause draft token next).GoesOn token (.reference t) draft := by
    have after : (afterReference draft token).GoesOn token (.reference t) draft := by
      unfold afterReference
      split
      · rename_i after finished
        rw [owner]
        exact columnBoundary_goesOn ((settledColumn?_reference place owner).trans finished)
      · trivial
    unfold referenceClause
    split <;> first
      | exact .inl owner
      | exact after
      | split <;> first
          | exact .inl owner
          | exact after
  have taken (fits : Bool) (t u : ReferenceState) :
      (takeClauseIf fits draft token t).GoesOn token (.reference u) draft := by
    cases fits with
    | false => trivial
    | true => exact .inl owner
  cases s with
  | table | deferrable =>
      dsimp only [reference]
      split
      · exact .inl owner
      · exact ends rfl
  | clauses => exact ends rfl
  | begun | column | columnName | action =>
      dsimp only [reference]
      split <;> first
        | exact .inl owner
        | trivial
  | _ => exact taken _ _ _

end Moves

/-- **The definition of a column is left** where it is complete, before a comma or a
parenthesis. -/
theorem step_column (inside : draft.definesColumn state)
    (taken : step state draft token rest = .next target after left) :
    after.definesColumn target ∨ LeavesColumn token state draft target after ∧
      left = rest := by
  have move : (Move.ofState state draft token rest.head?).GoesOn token state draft := by
    cases state with
    | column s => exact column_goesOn inside
    | reference s => exact reference_goesOn inside _
    | _ => exact inside.elim
  unfold step at taken
  cases made : Move.ofState state draft token rest.head? with
  | refuse why d => simp [made] at taken
  | next s d =>
      rw [made] at move taken
      obtain ⟨rfl, rfl, rfl⟩ := Step.next.inj taken
      exact move.imp_right fun leaves => ⟨leaves, rfl⟩
  | embed place d =>
      rw [made] at move taken
      obtain rfl : place = .default := move
      cases Embedding.reads taken with
      | default => exact .inl (by simp [Draft.definesColumn])

/-! ### The names of the columns -/

/-- The names of the columns. -/
def namesView : DraftView Unit (List String) where
  part := fun _ => ()
  table := Table.columnNames
  apart := fun _ _ => rfl

/-- An edit of the key renames no column. -/
theorem columnNames_setKeyMember (table : Table) (i : Nat) (member : Bool) :
    (table.setKeyMember i member).columnNames = table.columnNames :=
  columnNames_eq_of_outline (outline_of_unkeyed (table.map_unkeyed_setKeyMember i member))

/-- A key list renames no column. -/
theorem columnNames_enterKey (autoincrement : Bool) (parts : List KeyPart) (table : Table) :
    (Draft.enterKey autoincrement parts table).1.columnNames = table.columnNames :=
  columnNames_eq_of_outline
    (outline_of_unkeyed (Draft.map_unkeyed_enterKey autoincrement parts table))

/-- A unique list renames no column. -/
theorem columnNames_enterUnique (key : PendingKey) (table : Table) :
    (Draft.enterUnique key table).columnNames = table.columnNames := by
  obtain ⟨i, -, put⟩ | ⟨-, put⟩ := Draft.enterUnique_cases key table <;> rw [put]
  · exact columnNames_modifyColumn (by exact fun _ => rfl) _ _
  · rfl

/-- A foreign key renames no column. -/
theorem columnNames_enterForeignKey (columns : List String) (reference : Reference)
    (table : Table) :
    (Draft.enterForeignKey columns reference table).columnNames = table.columnNames := by
  obtain ⟨i, -, put⟩ | ⟨-, put⟩ :=
    Draft.enterForeignKey_cases columns reference table <;> rw [put]
  · exact columnNames_modifyColumn (by exact fun _ => rfl) _ _
  · rfl

/-- A key list that is put in its place keeps the names. -/
theorem namesView_finishKey (h : draft.finishKey = (after, none)) :
    namesView.Keeps draft after := by
  obtain ⟨table, entered, found, rfl, cases⟩ := finishKey_eq_none h
  refine ⟨rfl, ?_⟩
  rintro _ ⟨⟩
  refine ⟨table, found, ?_⟩
  rcases cases with ⟨-, members, entering, rfl⟩ | ⟨-, rfl⟩
  · have names := columnNames_enterKey draft.key.autoincrement draft.key.columns table
    rw [entering] at names
    exact names
  · exact columnNames_enterUnique _ _

/-- What is complete leaves the names. -/
theorem Settles.keepsNames (h : Settles state draft target after) :
    namesView.Keeps draft after := by
  have same : namesView.Keeps draft draft := .of_statement rfl rfl
  have reopened : namesView.Keeps draft (draft.openReference .column) := .of_statement rfl rfl
  cases h with
  | refl | column | constraint | firstConstraint => exact same
  | key finished => exact namesView_finishKey finished
  | columnReference _ owner finished =>
      exact reopened.changeColumn (finishReference_column owner finished)
        (columnNames_modifyColumn fun _ => rfl)
  | tableReference _ owner finished =>
      exact reopened.changeTable (finishReference_table owner finished)
        (columnNames_enterForeignKey _ _)

/-- **Only the name of a column** is added to the names, once a table was begun. -/
theorem Takes.keepsNames (h : Takes token rest state draft target after) :
    after.statement = some (.table { Table.new "" with isTemporary := draft.temporary }) ∨
      (state = .column .begun ∧ target = .column .type ∧ ∃ old,
        draft.statement = some (.table old) ∧ after.statement =
          some (.table { old with columns := old.columns ++ [Column.new token.text] })) ∨
      namesView.Keeps draft after := by
  have same : namesView.Keeps draft draft := .of_statement rfl rfl
  have closed {closed : Draft} {text : Option String}
      (taken : draft.takeBody token = (closed, text)) : namesView.Keeps draft closed :=
    .of_statement rfl (takeBody_statement taken)
  cases h with
  | beginTable => exact .inl rfl
  | addColumn _ _ changed =>
      obtain ⟨old, found, rfl⟩ := changeTable_eq_some changed
      exact .inr (.inl ⟨rfl, rfl, old, found, rfl⟩)
  | pass => exact .inr (.inr same)
  | temporary | always | notAlways | openBody | openReference | openForeign | parent | parentColumn
  | clause | openPrimary | openUnique | keyColumn | keyAutoincrement | openChildren | child =>
      exact .inr (.inr (.of_statement rfl rfl))
  | beginIndex => exact .inr (.inr ⟨rfl, by rintro _ ⟨⟩⟩)
  | nameTable _ _ changed | guardTable changed | tableSchema changed | resolveKey changed
  | strict _ changed | withoutRowid changed =>
      exact .inr (.inr (same.changeTable changed fun _ => rfl))
  | nameIndex _ _ changed | guardIndex changed | indexSchema changed | indexTable _ changed
  | terms _ changed | predicate _ _ changed => exact .inr (.inr (same.changeIndex changed))
  | beginKey _ _ changed =>
      exact .inr (.inr (same.changeTable changed fun t =>
        columnNames_setKeyMember t _ _))
  | @extendType _ _ draft after _ changed =>
      have first : namesView.Keeps draft
        { draft with typeTokens := draft.typeTokens ++ [token] } := .of_statement rfl rfl
      exact .inr (.inr (first.changeColumn changed (columnNames_modifyColumn fun _ => rfl)))
  | orderKey changed | autoincrement _ changed | notNull changed | resolveNotNull changed
  | unique changed | resolveUnique changed | default _ changed | collate _ changed
  | storage changed =>
      exact .inr (.inr (same.changeColumn changed (columnNames_modifyColumn fun _ => rfl)))
  | body _ taken => exact .inr (.inr (closed taken))
  | check _ taken changed =>
      exact .inr (.inr ((closed taken).changeTable changed fun _ => rfl))
  | generated taken changed =>
      exact .inr (.inr ((closed taken).changeColumn changed
        (columnNames_modifyColumn fun _ => rfl)))
  | keyCollate _ changed | keyOrder _ changed =>
      obtain ⟨-, rfl⟩ := changeLastPart_eq_some changed
      exact .inr (.inr (.of_statement rfl rfl))
  | @keyConflict draft after action finished =>
      obtain ⟨-, keeps⟩ := namesView_finishKey finished
      exact .inr (.inr ⟨rfl, keeps⟩)

/-- A step begins a table, adds a column to it, or leaves the names. -/
theorem step_names (taken : step state draft token rest = .next target after left)
    (found : after.statement = some (.table table)) :
    table.columns = [] ∨
      (state = .column .begun ∧ target = .column .type ∧ ∃ old,
        draft.statement = some (.table old) ∧
          table = { old with columns := old.columns ++ [Column.new token.text] }) ∨
      ∃ old, draft.statement = some (.table old) ∧ table.columnNames = old.columnNames := by
  obtain ⟨middle, settled, settles, takes⟩ := step_cases taken
  obtain begun | ⟨rfl, rfl, old, first, added⟩ | keeps := takes.keepsNames
  · obtain rfl := table_unique found begun
    exact .inl rfl
  · obtain rfl := table_unique found added
    cases settles with
    | refl => exact .inr (.inl ⟨rfl, rfl, old, first, rfl⟩)
  · obtain ⟨between, first, names⟩ := keeps.table table found
    obtain ⟨old, before, same⟩ := settles.keepsNames.table between first
    exact .inr (.inr ⟨old, before, names.trans same⟩)

/-! ### Places -/

/-- A place in a text where the definition of a column ends: what was read, the token that
ends it, and the tokens before it and after it. -/
structure ColumnEnd (text : String) where
  /-- The steps so far. -/
  past : List Transition
  /-- The state that they lead to. -/
  state : State
  /-- What has been gathered. -/
  draft : Draft
  /-- The comma or the parenthesis after the column. -/
  token : Token
  /-- The tokens before it. -/
  before : List Token
  /-- The tokens after it. -/
  left : List Token
  /-- The state that it leads to. -/
  target : State
  /-- The draft with the complete column. -/
  settled : Draft
  /-- The table up to this column. -/
  table : Table
  /-- Reading the text gets there. -/
  reached : Reaches text past state draft (token :: left)
  /-- The token leads out of the definition of the column. -/
  leaves : LeavesColumn token state draft target settled
  /-- The table has been gathered. -/
  found : settled.statement = some (.table table)
  /-- The tokens of the text. -/
  tokens_eq : Statement.trim (tokenize text) = before ++ token :: left

/-- A definition is left only if the column is complete. -/
theorem LeavesColumn.complete (h : LeavesColumn token state draft target after) :
    draft.settledColumn? state = some after := by
  cases h with
  | comma complete | close complete => exact complete

/-- A definition is left at a comma or a parenthesis. -/
theorem LeavesColumn.kind (h : LeavesColumn token state draft target after) :
    token.kind = .comma ∨ token.kind = .closeParen := by
  cases h with
  | comma _ kind => exact .inl kind
  | close _ kind => exact .inr kind

/-- A comma or a parenthesis is no word. -/
theorem is_eq_false_of_kind (kind : token.kind = .comma ∨ token.kind = .closeParen)
    (k : Keyword) :
    token.is k = false := by
  rcases kind with kind | kind <;> simp [is, keyword?, kind, TokenKind.isWord]

/-- After a complete column the token is taken with any draft. -/
theorem LeavesColumn.move_eq (h : LeavesColumn token state draft target after) (other : Draft)
    (next : Option Token) :
    Move.ofState (.column .constraints) other token next = .next target other := by
  change columnBoundary other token = _
  rw [columnBoundary]
  cases h with
  | comma _ kind | close _ kind => rw [kind]

/-- Leaving a definition is a step of the parser, whatever follows the token. -/
theorem LeavesColumn.step (h : LeavesColumn token state draft target after)
    (rest : List Token) :
    SchemaText.step state draft token rest = .next target after rest := by
  have ends : token.EndsPart := h.kind.imp_right .inl
  rw [SchemaText.step, move_of_settledColumn h.complete ends (is_eq_false_of_kind h.kind .NOT),
    h.move_eq]

/-- **Every definition of a column ends** before what comes after it. -/
theorem Reaches.exists_columnEnd (h : Reaches text past state draft tokens)
    (found : draft.statement = some (.table table)) {k : Nat}
    (begun : k < table.columns.length)
    (ended : k + 1 = table.columns.length → ¬draft.definesColumn state) :
    ∃ place : ColumnEnd text, place.table.columns.length = k + 1 ∧ ∃ later,
      ReadsOn place.target place.settled place.left later state draft tokens := by
  induction h generalizing table with
  | start => exact absurd found (by simp)
  | @next past state target draft after token rest left reached taken ih =>
      have extend {old : Table} (first : draft.statement = some (.table old))
          (begun : k < old.columns.length)
          (ended : k + 1 = old.columns.length → ¬draft.definesColumn state) :
          ∃ place : ColumnEnd text, place.table.columns.length = k + 1 ∧ ∃ later,
            ReadsOn place.target place.settled place.left later target after left := by
        obtain ⟨place, count, later, reads⟩ := ih first begun ended
        exact ⟨place, count, _, reads.next taken⟩
      obtain none | ⟨rfl, rfl, old, first, rfl⟩ | ⟨old, first, names⟩ := step_names taken found
      · exact absurd begun (by simp [none])
      · -- A column begins: the one before it has ended.
        have length :
            (old.columns ++ [Column.new token.text]).length = old.columns.length + 1 := by
          simp
        dsimp only at begun ended
        rw [length] at begun ended
        refine extend first ?_ fun _ begun => begun rfl
        by_contra last
        exact ended (by omega) (by simp [Draft.definesColumn])
      · have length : table.columns.length = old.columns.length := by
          simpa [Table.columnNames] using congrArg List.length names
        rw [length] at begun ended
        by_cases inside : draft.definesColumn state
        · obtain stays | ⟨leaves, rfl⟩ := step_column inside taken
          · exact extend first begun fun last => absurd stays (ended last)
          · by_cases last : k + 1 = old.columns.length
            · obtain ⟨before, tokens, -⟩ := reached.readsOn.exists_before
                (fun t member => isLexed_of_mem (mem_trim member))
                (by cases state <;> first | exact inside.elim | simp [State.kind])
              exact ⟨⟨past, state, draft, token, before, left, target, after, table, reached,
                leaves, found, tokens⟩, length.trans last.symm, [], .refl⟩
            · exact extend first begun fun same => absurd same last
        · exact extend first begun fun _ => inside

namespace ColumnEnd

variable (place : ColumnEnd text)

/-- Other tokens in place of those that follow are read from there. -/
theorem outcome_before (other : List Token) :
    outcome (.opening .start) {} (place.before ++ other) =
      outcome place.state place.draft other := by
  obtain ⟨inside, quiet⟩ := definesColumn_of_settledColumn place.leaves.complete
  obtain ⟨before, tokens, reads⟩ := place.reached.readsOn.exists_before
    (fun t member => isLexed_of_mem (mem_trim member))
    (by
      cases state : place.state <;> rw [state] at inside <;> first
        | exact inside.elim
        | simp [State.kind])
  obtain rfl := List.append_cancel_right (tokens.symm.trans place.tokens_eq)
  exact (reads other (by simp [quiet])).outcome_eq

/-- A text that goes on with other tokens is read from the complete column. -/
theorem parse_eq_ok {other : String} {statement : Statement}
    (tokens : Statement.trim (tokenize other) = place.before ++ token :: rest)
    (ends : token.EndsPart) (notNot : token.is .NOT = false)
    (h : outcome (.column .constraints) place.settled (token :: rest) = .ok statement) :
    Statement.parse other = .ok statement := by
  have read : outcome (.opening .start) {} (Statement.trim (tokenize other)) = .ok statement := by
    rw [tokens, place.outcome_before]
    exact outcome_congr (move_of_settledColumn place.leaves.complete ends notNot _) h
  exact read

end ColumnEnd

/-! ### What is left over -/

/-- Nothing is left over of a key list or of a reference. -/
structure Draft.IsBlank (draft : Draft) : Prop where
  /-- No key list is being read. -/
  key : draft.key = {}
  /-- No reference is being read. -/
  reference : draft.reference = ⟨"", [], ""⟩
  /-- It would belong to a column. -/
  owner : draft.owner = .column
  /-- It would have no clauses. -/
  clauses : draft.clauses = []

/-- Nothing is left over in definitions of columns, and in a reference of a column nothing of a
key list. -/
def Draft.IsTidy (draft : Draft) : State → Prop
  | .opening _ | .tableName _ | .column _ => draft.IsBlank
  | .reference _ => draft.owner = .column → draft.key = {}
  | _ => True

namespace Draft.IsBlank

/-- Without a pending reference, opening one for the column changes nothing. -/
theorem openReference (h : draft.IsBlank) : draft.openReference .column = draft := by
  rw [Draft.openReference, ← h.reference, ← h.owner, ← h.clauses]

/-- A change of the table leaves nothing over. -/
theorem changeTable {f : Table → Table} (h : draft.IsBlank)
    (changed : draft.changeTable f = some after) : after.IsBlank := by
  obtain ⟨table, -, rfl⟩ := changeTable_eq_some changed
  exact ⟨h.key, h.reference, h.owner, h.clauses⟩

/-- A change of the column leaves nothing over. -/
theorem changeColumn {f : Column → Column} (h : draft.IsBlank)
    (changed : draft.changeColumn f = some after) : after.IsBlank := by
  obtain ⟨table, -, -, rfl⟩ := changeColumn_eq_some changed
  exact ⟨h.key, h.reference, h.owner, h.clauses⟩

/-- A token of a body leaves nothing over. -/
theorem takeBody {text : Option String} (h : draft.IsBlank)
    (taken : draft.takeBody token = (after, text)) : after.IsBlank := by
  cases text with
  | none =>
      obtain ⟨depth, -, rfl⟩ := takeBody_eq_none taken
      exact ⟨h.key, h.reference, h.owner, h.clauses⟩
  | some condition =>
      obtain ⟨-, -, -, rfl⟩ := takeBody_eq_some taken
      exact ⟨h.key, h.reference, h.owner, h.clauses⟩

end Draft.IsBlank

/-- A complete reference of a column leaves nothing over. -/
theorem isBlank_finishReference {s : ReferenceState} (tidy : draft.IsTidy (.reference s))
    (owner : draft.owner = .column) (finished : draft.finishReference = some after) :
    after.IsBlank :=
  have reopened : (draft.openReference .column).IsBlank := ⟨tidy owner, rfl, rfl, rfl⟩
  reopened.changeColumn (finishReference_column owner finished)

/-- A complete column leaves nothing over. -/
theorem isBlank_of_settledColumn (tidy : draft.IsTidy state)
    (complete : draft.settledColumn? state = some settled) : settled.IsBlank := by
  unfold Draft.settledColumn? at complete
  split at complete
  · split at complete
    · obtain rfl := Option.some.inj complete
      exact tidy
    · exact absurd complete (by simp)
  · split at complete
    · rename_i place
      exact isBlank_finishReference tidy (beq_iff_eq.1 (Bool.and_eq_true_iff.1 place).2) complete
    · exact absurd complete (by simp)
  · exact absurd complete (by simp)

/-- What is complete is left over no longer. -/
theorem Settles.isTidy (h : Settles state draft target after) (tidy : draft.IsTidy state) :
    after.IsTidy target := by
  cases h with
  | refl | column => exact tidy
  | constraint | firstConstraint | key | tableReference => trivial
  | columnReference _ owner finished => exact isBlank_finishReference tidy owner finished

/-- Where the draft stays as it is, nothing is left over. -/
theorem isTidy_passes (passes : state.passes target = true) (tidy : draft.IsTidy state) :
    draft.IsTidy target := by
  revert passes
  fun_cases State.passes state target <;> intro passes <;> first
    | exact trivial
    | exact tidy
    | exact absurd passes Bool.false_ne_true

/-- **Every token that is taken** leaves nothing over in definitions of columns. -/
theorem Takes.isTidy (h : Takes token rest state draft target after)
    (parts : draft.HasParts state)
    (tidy : draft.IsTidy state) : after.IsTidy target := by
  cases h with
  | pass passes => exact isTidy_passes passes tidy
  | temporary | beginTable | always | notAlways =>
      exact ⟨tidy.key, tidy.reference, tidy.owner, tidy.clauses⟩
  | nameTable _ _ changed | guardTable changed | tableSchema changed | beginKey _ _ changed
  | resolveKey changed => exact Draft.IsBlank.changeTable tidy changed
  | addColumn _ _ changed =>
      have first : ({ draft with typeTokens := [] } : Draft).IsBlank :=
        ⟨tidy.key, tidy.reference, tidy.owner, tidy.clauses⟩
      exact first.changeTable changed
  | extendType _ changed =>
      have first : ({ draft with typeTokens := draft.typeTokens ++ [token] } : Draft).IsBlank :=
        ⟨tidy.key, tidy.reference, tidy.owner, tidy.clauses⟩
      exact first.changeColumn changed
  | orderKey changed | autoincrement _ changed | notNull changed | resolveNotNull changed
  | unique changed | resolveUnique changed | default _ changed | collate _ changed
  | storage changed => exact Draft.IsBlank.changeColumn tidy changed
  | openBody opens => cases opens <;> first
      | trivial
      | exact ⟨tidy.key, tidy.reference, tidy.owner, tidy.clauses⟩
  | body isBody taken => cases state <;> first
      | trivial
      | exact Draft.IsBlank.takeBody tidy taken
  | check closes taken changed =>
      cases closes with
      | column => exact (Draft.IsBlank.takeBody tidy taken).changeTable changed
      | table => trivial
  | generated taken changed => exact (Draft.IsBlank.takeBody tidy taken).changeColumn changed
  | openReference => exact fun _ => tidy.key
  | openForeign =>
      obtain ⟨columns, owner⟩ := parts.children rfl
      exact fun column => absurd (owner.symm.trans column) (by simp)
  | parent | parentColumn | clause => exact tidy
  | _ => trivial

/-- **In definitions of columns nothing is left over.** -/
theorem Reaches.isTidy (h : Reaches text past state draft tokens) : draft.IsTidy state :=
  (h.invariant (P := fun _ state draft => draft.HasParts state ∧ draft.IsTidy state)
    ⟨(@Reaches.start text).hasParts, ⟨rfl, rfl, rfl, rfl⟩⟩
    fun holds settles _ _ takes =>
      have parts := settles.hasParts holds.1
      ⟨takes.hasParts parts, takes.isTidy parts (settles.isTidy holds.2)⟩).2

/-- **Where the definition of a column ends, nothing is left over** of a key or a reference. -/
theorem ColumnEnd.isBlank (place : ColumnEnd text) : place.settled.IsBlank :=
  isBlank_of_settledColumn place.reached.isTidy place.leaves.complete

end SchemaText
