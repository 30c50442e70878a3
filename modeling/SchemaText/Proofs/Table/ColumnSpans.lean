import SchemaText.Proofs.Table.ColumnEnds
import SchemaText.Proofs.Table.Commas
import SchemaText.Proofs.Table.Growth

/-!
# Between the ends of columns

After the end of a column another column begins, or a constraint of the table, or the
definition of the table ends. So the places where columns end follow each other in the text,
and each adds a column to the table.

## Main results

* `exists_final`: reading a whole table ends in a state with this table.
* `ColumnEnd.exists_addColumn`: **up to the end of a later column** another column begins
  first.
* `ColumnEnd.exists_constraint`: **after the last column** a constraint of the table begins.
* `ColumnEnd.eq_or_readsOn`: **a column ends in one place**, before the places of later
  columns.
-/

namespace SchemaText

open Token Move

variable {state target last : State} {draft after final : Draft} {token : Token}
  {rest left tokens : List Token} {text : String} {past later : List Transition}
  {table : Table}

/-! ### Growing tables -/

/-- The names of the columns only grow. -/
theorem step_names_prefix (parts : draft.HasParts state)
    (taken : step state draft token rest = .next target after left)
    (found : draft.statement = some (.table table)) :
    ∃ new, after.statement = some (.table new) ∧ table.columnNames <+: new.columnNames := by
  have kind : state.kind = .table := by
    cases kind : state.kind with
    | unknown => exact absurd (found.symm.trans (parts.unknown kind)) (by simp)
    | table => rfl
    | index =>
        obtain ⟨index, other⟩ := parts.index kind
        exact absurd (found.symm.trans other) (by simp)
  obtain ⟨middle, settled, settles, takes⟩ := step_cases taken
  have settledParts := settles.hasParts parts
  obtain ⟨between, first⟩ := settledParts.table (settles.kind_eq.trans kind)
  obtain ⟨old, again, names⟩ := settles.keepsNames.table between first
  obtain rfl := table_unique found again
  obtain ⟨new, second, grows⟩ := takes.grows settledParts first
  exact ⟨new, second, (show between.columnNames = table.columnNames from names) ▸ grows.names⟩

/-- Reading on adds columns at the end and renames none. -/
theorem Reaches.names_prefix (h : Reaches text past state draft tokens)
    (on : ReadsOn state draft tokens later last final left)
    (found : draft.statement = some (.table table)) :
    ∃ new, final.statement = some (.table new) ∧ table.columnNames <+: new.columnNames := by
  induction on with
  | refl => exact ⟨table, found, List.prefix_refl _⟩
  | next before taken ih =>
      obtain ⟨between, first, names⟩ := ih
      obtain ⟨new, second, grown⟩ := step_names_prefix (h.append before).hasParts taken first
      exact ⟨new, second, names.trans grown⟩

/-! ### Steps -/

/-- Reading a whole table ends in a state with this table. -/
theorem exists_final (whole : Statement.parse text = .ok (.table table)) :
    ∃ past state draft, Reaches text past state draft [] ∧ state.isAccepting = true ∧
      draft.statement = some (.table table) := by
  obtain ⟨past, state, draft, tokens, reached, ends⟩ := exists_endsAt text
  rw [Statement.parse] at whole
  generalize Statement.read text = transcript at ends whole
  cases ends with
  | input =>
      refine ⟨past, state, draft, reached, ?_⟩
      cases accepting : state.isAccepting <;> cases found : draft.statement <;>
        simp [Transcript.complete, Transcript.atEnd, accepting, found] at whole
      exact ⟨rfl, by rw [whole]⟩
  | @refusal token rest why after refused =>
      cases found : after.statement <;> simp [Transcript.complete, found] at whole

/-- In the definition of a column. -/
theorem phase_eq_one (inside : draft.definesColumn state) : draft.phase state = 1 := by
  cases state with
  | column => rfl
  | reference => simp [Draft.phase, show draft.owner = .column from inside]
  | _ => exact inside.elim

/-- No phase comes after the last one. -/
theorem Draft.phase_le_two (draft : Draft) (state : State) : draft.phase state ≤ 2 := by
  unfold Draft.phase
  split
  · exact Nat.le_succ 1
  · split
    · exact Nat.le_succ 1
    · exact Nat.le_refl 2
  · exact Nat.le_refl 2
  · exact Nat.le_refl 2
  · exact Nat.zero_le 2

/-- The words that begin a constraint lead to it. -/
theorem target_of_constraintStart (move : constraintStart draft token = .next target after) :
    ∃ s, target = .constraint s := by
  unfold constraintStart constraintKeyword at move
  split at move
  · exact ⟨_, (Move.next.inj move).1.symm⟩
  · split at move <;> first
      | exact ⟨_, (Move.next.inj move).1.symm⟩
      | exact absurd move (by simp)

/-- After a comma a constraint of the table begins, or another column. -/
theorem step_begun (taken : step (.column .begun) draft token rest = .next target after left) :
    (startsConstraint token = true ∧ constraintStart draft token = .next target after ∧
        left = rest) ∨
      (startsConstraint token = false ∧ token.isName = true) := by
  cases starts : startsConstraint token with
  | true =>
      have move (next : Option Token) :
          Move.ofState (.column .begun) draft token next = constraintStart draft token := by
        rw [Move.ofState, Move.column, if_pos starts]
      obtain ⟨s, d, start⟩ := exists_constraintStart starts draft
      rw [step, move, start] at taken
      obtain ⟨rfl, rfl, rfl⟩ := Step.next.inj taken
      exact .inl ⟨rfl, start, rfl⟩
  | false =>
      refine .inr ⟨rfl, ?_⟩
      by_contra other
      simp [step, Move.ofState, Move.column, starts, other] at taken

/-- Another column has begun with this token, after those of a table. -/
def Draft.withColumn (draft : Draft) (table : Table) (token : Token) : Draft :=
  { draft with typeTokens := [] }.withTable
    { table with columns := table.columns ++ [Column.new token.text] }

/-- Another column begins. -/
theorem step_addColumn (plain : startsConstraint token = false) (isName : token.isName = true)
    (table : Table) : step (.column .begun) (draft.withTable table) token rest =
      .next (.column .type) (draft.withColumn table token) rest := by
  simp [step, Move.ofState, Move.column, plain, isName, Draft.changeTable, Draft.withTable,
    Draft.withColumn, Draft.go]

/-- A definition is left for the next column or for what follows the table. -/
theorem LeavesColumn.eq (h : LeavesColumn token state draft target after) :
    (token.kind = .comma ∧ target = .column .begun) ∨
      (token.kind = .closeParen ∧ target = .option .closed) := by
  cases h with
  | comma _ kind => exact .inl ⟨kind, rfl⟩
  | close _ kind => exact .inr ⟨kind, rfl⟩

namespace ColumnEnd

/-- At the end of a column the columns are being read. -/
theorem phase_eq (place : ColumnEnd text) : place.draft.phase place.state = 1 :=
  phase_eq_one (definesColumn_of_settledColumn place.leaves.complete).1

/-- The token after the column is taken. -/
theorem reached_next (place : ColumnEnd text) :
    Reaches text (place.past ++ [⟨place.state, place.target, place.token⟩]) place.target
      place.settled place.left :=
  place.reached.next (place.leaves.step _)

/-- **Up to the end of a later column** another column begins first. -/
theorem exists_addColumn {first later : ColumnEnd text} {steps : List Transition}
    (on : ReadsOn first.target first.settled first.left steps later.state later.draft
      (later.token :: later.left)) :
    ∃ token rest past steps', first.target = .column .begun ∧ first.left = token :: rest ∧
      startsConstraint token = false ∧ token.isName = true ∧
      steps = ⟨.column .begun, .column .type, token⟩ :: steps' ∧
      Reaches text past (.column .type) (first.settled.withColumn first.table token) rest ∧
      ReadsOn (.column .type) (first.settled.withColumn first.table token) rest steps' later.state
        later.draft (later.token :: later.left) := by
  have inside := (definesColumn_of_settledColumn later.leaves.complete).1
  have reached := first.reached_next
  have phase := on.phase_le reached
  rw [later.phase_eq] at phase
  obtain ⟨-, begun⟩ | ⟨-, closed⟩ := first.leaves.eq
  · rw [begun] at on reached
    cases steps with
    | nil =>
        obtain ⟨state, -⟩ := on.eq_of_nil
        rw [← state] at inside
        exact absurd rfl inside
    | cons transition steps =>
        obtain ⟨token, rest, target, after, left, tokens, rfl, taken, on⟩ := on.head
        have next := (tokens ▸ reached).next taken
        obtain ⟨-, constraint, -⟩ | ⟨plain, isName⟩ := step_begun taken
        · -- No column follows a constraint.
          obtain ⟨s, rfl⟩ := target_of_constraintStart constraint
          have phase := on.phase_le next
          rw [later.phase_eq] at phase
          exact absurd phase (by simp [Draft.phase])
        · have added := @step_addColumn first.settled token rest plain isName first.table
          rw [Draft.withTable_self first.found, taken] at added
          obtain ⟨rfl, rfl, rfl⟩ := Step.next.inj added
          exact ⟨token, _, _, steps, begun, tokens, plain, isName, rfl, next, on⟩
  · rw [closed] at phase
    exact absurd phase (by simp [Draft.phase])

/-- After the last column and its comma a constraint of the table begins. -/
theorem exists_constraint (place : ColumnEnd text) {steps : List Transition}
    (begun : place.target = .column .begun)
    (on : ReadsOn place.target place.settled place.left steps last final [])
    (accepting : last.isAccepting = true) (found : final.statement = some (.table table))
    (all : place.table.columns.length = table.columns.length) :
    ∃ token rest s after past' steps', place.left = token :: rest ∧
      startsConstraint token = true ∧
      constraintStart place.settled token = .next (.constraint s) after ∧
      Reaches text past' (.constraint s) after rest ∧
      ReadsOn (.constraint s) after rest steps' last final [] := by
  have reached := place.reached_next
  rw [begun] at on reached
  cases steps with
  | nil =>
      obtain ⟨state, -⟩ := on.eq_of_nil
      rw [← state] at accepting
      exact absurd accepting Bool.false_ne_true
  | cons transition steps =>
      obtain ⟨token, rest, target, after, left, tokens, rfl, taken, on⟩ := on.head
      have next := (tokens ▸ reached).next taken
      obtain ⟨starts, constraint, rfl⟩ | ⟨plain, isName⟩ := step_begun taken
      · obtain ⟨s, rfl⟩ := target_of_constraintStart constraint
        exact ⟨token, left, s, after, _, steps, tokens, starts, constraint, next, on⟩
      · -- There are no more columns.
        have added := @step_addColumn place.settled token rest plain isName place.table
        rw [Draft.withTable_self place.found, taken] at added
        obtain ⟨rfl, rfl, rfl⟩ := Step.next.inj added
        obtain ⟨new, again, names⟩ := next.names_prefix on rfl
        obtain rfl := table_unique found again
        have length := names.length_le
        simp [Table.columnNames, all] at length

/-- From the end of a column reading goes on to every later place. -/
theorem readsOn (place : ColumnEnd text) {transition : Transition} {steps : List Transition}
    (h : Reaches text (place.past ++ transition :: steps) last final left) :
    ReadsOn place.target place.settled place.left steps last final left := by
  obtain ⟨token, rest, target, after, between, tokens, -, taken, on⟩ :=
    (place.reached.between h).head
  obtain ⟨rfl, rfl⟩ := List.cons.inj tokens
  rw [place.leaves.step] at taken
  obtain ⟨state, draft, tokens⟩ := Step.next.inj taken
  rwa [state, draft, tokens]

/-- A later column is one more. -/
theorem length_lt {first later : ColumnEnd text} {steps : List Transition}
    (on : ReadsOn first.target first.settled first.left steps later.state later.draft
      (later.token :: later.left)) :
        first.table.columns.length < later.table.columns.length := by
  obtain ⟨token, rest, past, steps', -, -, -, -, -, reached, on⟩ := exists_addColumn on
  obtain ⟨new, found, names⟩ := reached.names_prefix (on.next (later.leaves.step _)) rfl
  obtain rfl := table_unique later.found found
  have length := names.length_le
  simp [Table.columnNames] at length
  exact length

/-- A place is known by the steps that lead to it. -/
theorem eq_of_past {first later : ColumnEnd text} (same : first.past = later.past) :
    first = later := by
  obtain ⟨past, state, draft, token, before, left, target, settled, table, reached, leaves, found,
    tokens⟩ := first
  obtain ⟨past', state', draft', token', before', left', target', settled', table', reached',
    leaves', found', tokens'⟩ := later
  obtain rfl : past = past' := same
  obtain ⟨rfl, rfl, same⟩ := reached.unique reached'
  obtain ⟨rfl, rfl⟩ := List.cons.inj same
  have step := leaves.step left
  rw [leaves'.step left] at step
  obtain ⟨rfl, rfl, -⟩ := Step.next.inj step
  obtain rfl := table_unique found found'
  obtain rfl := List.append_cancel_right (tokens.symm.trans tokens')
  rfl

/-- **A column ends in one place**, before the places where later columns end. -/
theorem eq_or_readsOn {first later : ColumnEnd text}
    (count : first.table.columns.length ≤ later.table.columns.length) :
    first = later ∨ ∃ steps, ReadsOn first.target first.settled first.left steps later.state
      later.draft (later.token :: later.left) := by
  obtain ⟨steps, past⟩ | ⟨steps, past⟩ := first.reached.prefix_or_prefix later.reached
  · cases steps with
    | nil => exact .inl (eq_of_past ((List.append_nil _).symm.trans past))
    | cons transition steps => exact .inr ⟨steps, first.readsOn (past ▸ later.reached)⟩
  · cases steps with
    | nil => exact .inl (eq_of_past ((List.append_nil _).symm.trans past).symm)
    | cons transition steps =>
        have less := length_lt (later.readsOn (past ▸ first.reached))
        omega

/-- Reading ends after every end of a column. -/
theorem exists_readsOn (place : ColumnEnd text) (h : Reaches text past last final []) :
    ∃ steps, ReadsOn place.target place.settled place.left steps last final [] := by
  obtain ⟨steps, rfl⟩ | ⟨steps, same⟩ := place.reached.prefix_or_prefix h
  · cases steps with
    | nil =>
        obtain ⟨-, -, tokens⟩ := place.reached.unique (List.append_nil _ ▸ h)
        exact absurd tokens (by simp)
    | cons transition steps => exact ⟨steps, place.readsOn h⟩
  · have on := h.between (same ▸ place.reached)
    cases steps with
    | nil =>
        obtain ⟨-, -, tokens⟩ := on.eq_of_nil
        exact absurd tokens (by simp)
    | cons transition steps =>
        obtain ⟨token, rest, -, -, -, tokens, -⟩ := on.head
        exact absurd tokens (by simp)

end ColumnEnd

end SchemaText
