import SchemaText.Proofs.Statement.Refusal
import SchemaText.Proofs.Table.Keys

/-!
# What has been recorded stays recorded

While a text is read the table only grows. Columns, members of the key and constraints are
added at the end; what is set in a column stays set, if it is not replaced by something else
of its kind.

There is one exception. A unique key of the table with nothing but one column is noted in that
column, together with its conflict clause. If it has none, a clause that the column has already
is cleared.

## Main definitions

* `Column.Keeps`: what is set in a column stays set.
* `Table.Grows`: a table grows, up to the conflict clause of `UNIQUE` at one position.
* `clearedBy`: the position at which a step clears this clause.

## Main results

* `Settles.grows`, `Takes.grows`, `Refuses.grows`: with every step the table grows.
* `Table.grows_of_reaches`: **the table grows in every step of every text**, and the step
  clears a conflict clause at the position `clearedBy` and nowhere else.
-/

namespace SchemaText

open Token

/-! ### Growth -/

/-- What is set in a column stays set. Of the conflict clause of `UNIQUE` nothing is said. -/
structure Column.Keeps (old new : Column) : Prop where
  name : new.name = old.name := by rfl
  inKey : old.inKey = true → new.inKey = true := by first | exact id | simp
  notNull : old.notNull = true → new.notNull = true := by first | exact id | simp
  unique : old.unique = true → new.unique = true := by first | exact id | simp
  autoincrement : old.autoincrement = true → new.autoincrement =
    true := by first | exact id | simp
  collation : old.collation ≠ none → new.collation ≠ none := by first | exact id | simp
  default : old.default ≠ none → new.default ≠ none := by first | exact id | simp
  references : old.references ≠ none → new.references ≠ none := by first | exact id | simp
  generated : old.generated ≠ none → new.generated ≠ none := by first | exact id | simp
  notNullConflict : old.notNullConflict ≠ none → new.notNullConflict ≠ none := by
    first | exact id | simp

/-- The table grows. The conflict clause of `UNIQUE` is lost at the position `cleared`, if
there is one, and at no other. -/
structure Table.Grows (cleared : Option Nat) (old new : Table) : Prop where
  columns : ∀ i column, old.columns[i]? = some column → ∃ later, new.columns[i]? = some later ∧
    column.Keeps later ∧
      (column.uniqueConflict ≠ none → (later.uniqueConflict = none ↔ cleared = some i))
  names : old.columnNames <+: new.columnNames
  key : old.primaryKey <+: new.primaryKey := by exact List.prefix_refl _
  conflict : old.keyConflict ≠ none → new.keyConflict ≠ none := by exact id
  uniques : old.uniques <+: new.uniques := by exact List.prefix_refl _
  foreignKeys : old.foreignKeys <+: new.foreignKeys := by exact List.prefix_refl _
  checks : old.checks <+: new.checks := by exact List.prefix_refl _

/-- The position at which a key list that is put into the table clears a conflict clause. -/
def Draft.cleared? (draft : Draft) (table : Table) : Option Nat :=
  if draft.key.isPrimary || draft.key.conflict.isSome then none
  else loneColumn? draft.key.columns table

/-- The position at which the step on a token clears a conflict clause: a unique key is
complete and has no conflict clause of its own. -/
def clearedBy (state : State) (draft : Draft) (token : Token) (table : Table) : Option Nat :=
  match state with
  | .constraint .keyEnd => if token.is .ON then none else draft.cleared? table
  | _ => none

section Changes

variable {old new later : Table} {cleared : Option Nat} {i : Nat} {f : Column → Column}

namespace Column.Keeps

/-- A column keeps what it has. -/
theorem refl (column : Column) : column.Keeps column :=
  ⟨rfl, id, id, id, id, id, id, id, id, id⟩

/-- Being the whole key is nothing that is kept. -/
theorem wholeKey (column : Column) (whole : Bool) :
    column.Keeps { column with isWholeKey := whole } :=
  ⟨rfl, id, id, id, id, id, id, id, id, id⟩

/-- A reference may be replaced. -/
theorem reference (column : Column) (reference : Reference) :
    column.Keeps { column with references := some reference } :=
  ⟨rfl, id, id, id, id, id, id, fun _ => nofun, id, id⟩

/-- What is kept twice is kept. -/
theorem trans {a b c : Column} (first : a.Keeps b) (second : b.Keeps c) : a.Keeps c where
  name := second.name.trans first.name
  inKey := second.inKey ∘ first.inKey
  notNull := second.notNull ∘ first.notNull
  unique := second.unique ∘ first.unique
  autoincrement := second.autoincrement ∘ first.autoincrement
  collation := second.collation ∘ first.collation
  default := second.default ∘ first.default
  references := second.references ∘ first.references
  generated := second.generated ∘ first.generated
  notNullConflict := second.notNullConflict ∘ first.notNullConflict

end Column.Keeps

namespace Table

/-- Where the columns stay, only the constraints are left to look at. -/
theorem grows_of_columns (columns : new.columns = old.columns)
    (key : new.primaryKey = old.primaryKey)
    (conflict : old.keyConflict ≠ none → new.keyConflict ≠ none)
    (uniques : old.uniques <+: new.uniques) (foreignKeys : old.foreignKeys <+: new.foreignKeys)
    (checks : old.checks <+: new.checks) : old.Grows none new where
  columns := fun i column found =>
    ⟨column, columns ▸ found, .refl column, fun some => iff_of_false some nofun⟩
  names := by simp [columnNames, columns]
  key := by simp [key]
  conflict := conflict
  uniques := uniques
  foreignKeys := foreignKeys
  checks := checks

/-- Where only the columns change, they are left to look at. -/
theorem grows_of_constraints {columns : List Column}
    (kept : ∀ i column, old.columns[i]? = some column → ∃ later, columns[i]? = some later ∧
      column.Keeps later ∧
        (column.uniqueConflict ≠ none → (later.uniqueConflict = none ↔ cleared = some i)))
    (names : old.columnNames <+: { old with columns := columns }.columnNames) :
    old.Grows cleared { old with columns := columns } :=
  ⟨kept, names, List.prefix_refl _, id, List.prefix_refl _, List.prefix_refl _,
    List.prefix_refl _⟩

/-- A table that stays as it is has grown. -/
theorem Grows.refl (table : Table) : table.Grows none table :=
  grows_of_columns rfl rfl id (List.prefix_refl _) (List.prefix_refl _) (List.prefix_refl _)

/-- A table that grows twice has grown, with what the second step clears. -/
theorem Grows.trans (first : old.Grows none new) (second : new.Grows cleared later) :
    old.Grows cleared later where
  columns := fun i column found => by
    obtain ⟨between, found, keeps, clause⟩ := first.columns i column found
    obtain ⟨last, found, keepsOn, clauseOn⟩ := second.columns i between found
    refine ⟨last, found, keeps.trans keepsOn, fun some => clauseOn fun none => ?_⟩
    exact absurd ((clause some).1 none) nofun
  names := first.names.trans second.names
  key := first.key.trans second.key
  conflict := second.conflict ∘ first.conflict
  uniques := first.uniques.trans second.uniques
  foreignKeys := first.foreignKeys.trans second.foreignKeys
  checks := first.checks.trans second.checks

/-- A change of one column. -/
theorem grows_modifyColumn (table : Table) (i : Nat) (keeps : ∀ c : Column, c.Keeps (f c))
    (elsewhere : cleared = none ∨ cleared = some i)
    (clause : ∀ c, c.uniqueConflict ≠ none →
      ((f c).uniqueConflict = none ↔ cleared = some i)) :
    table.Grows cleared (table.modifyColumn i f) := by
  refine grows_of_constraints (fun j column found => ?_) ?_
  · refine ⟨if i = j then f column else column, ?_, ?_⟩
    · rw [List.getElem?_modify, found]
      rfl
    · split
      · rename_i same
        exact ⟨keeps column, same ▸ clause column⟩
      · rename_i other
        refine ⟨.refl column, fun some => iff_of_false some ?_⟩
        rcases elsewhere with rfl | rfl
        · nofun
        · exact fun same => other (Option.some.inj same)
  · have same := map_modify_eq (g := Column.name) (fun c => (keeps c).name) table.columns i
    simp [columnNames, same]

/-- A change of one column that keeps its conflict clauses. -/
theorem grows_modifyColumn_none (table : Table) (i : Nat) (keeps : ∀ c : Column, c.Keeps (f c))
    (clause : ∀ c, c.uniqueConflict ≠ none → (f c).uniqueConflict ≠ none) :
    table.Grows none (table.modifyColumn i f) :=
  grows_modifyColumn table i keeps (.inl rfl) fun c some => iff_of_false (clause c some) nofun

/-- A new column. -/
theorem grows_addColumn (table : Table) (name : String) :
    table.Grows none { table with columns := table.columns ++ [Column.new name] } := by
  refine grows_of_constraints (fun i column found => ?_) (by simp [columnNames])
  obtain ⟨old, -⟩ := List.getElem?_eq_some_iff.1 found
  refine ⟨column, ?_, .refl column, fun some => iff_of_false some nofun⟩
  rw [List.getElem?_append_left old, found]

/-- Noting which column is the whole key. -/
theorem grows_markWhole (table : Table) :
    table.Grows none { table with columns := Column.markWhole table.columns } := by
  refine grows_of_constraints (fun i column found => ?_)
    (by simp [columnNames, Column.markWhole, Function.comp_def])
  refine ⟨_, by rw [Column.getElem?_markWhole, found]; rfl, .wholeKey column _, fun some => ?_⟩
  exact iff_of_false some (by simp)

/-- A column that enters the key. -/
theorem grows_setKeyMember (table : Table) (i : Nat) :
    table.Grows none (table.setKeyMember i true) := by
  rcases Nat.lt_or_ge i table.columns.length with old | out
  · rw [setKeyMember_of_lt old]
    have entered : table.Grows none (table.modifyColumn i (Column.withKeyMember true)) :=
      grows_modifyColumn_none table i
        (fun _ => ⟨rfl, fun _ => rfl, id, id, id, id, id, id, id, id⟩) fun _ => id
    refine (entered.trans (grows_markWhole _)).trans
      ⟨(Grows.refl _).columns, (Grows.refl _).names,
      ?_, id, List.prefix_refl _, List.prefix_refl _, List.prefix_refl _⟩
    simp only [modifyColumn, if_true]
    split <;> simp
  · rw [setKeyMember_of_le out]
    exact .refl table

/-- A key list of the primary key. -/
theorem grows_enterKey (autoincrement : Bool) (parts : List KeyPart) (table : Table) :
    table.Grows none (Draft.enterKey autoincrement parts table).1 := by
  refine Draft.enterKey_induction (P := table.Grows none) ?_ parts (.refl table)
  intro part between i _ grows
  have marked : (between.setKeyMember i true).Grows none
    (between.enterPart autoincrement part i) :=
    grows_modifyColumn_none _ i
      (fun _ => { autoincrement := by simp +contextual [KeyPart.mark] })
      fun _ => id
  exact grows.trans ((grows_setKeyMember between i).trans marked)

/-- A foreign key, or the reference of a column. -/
theorem grows_enterForeignKey (columns : List String) (reference : Reference) (table : Table) :
    table.Grows none (Draft.enterForeignKey columns reference table) := by
  obtain ⟨i, -, put⟩ | ⟨-, put⟩ := Draft.enterForeignKey_cases columns reference table <;>
    rw [put]
  · exact grows_modifyColumn_none table i (fun c => .reference c _) fun _ => id
  · exact grows_of_columns rfl rfl id (List.prefix_refl _) (List.prefix_append _ _)
      (List.prefix_refl _)

end Table

/-- A complete key list. -/
theorem Draft.grows_finishKey {draft : Draft} (found : draft.statement = some (.table old)) :
    ∃ new, draft.finishKey.1.statement = some (.table new) ∧
      old.Grows (draft.cleared? old) new := by
  have entered := Table.grows_enterKey draft.key.autoincrement draft.key.columns old
  have finishes := draft.finishesKey
  generalize draft.finishKey = finished at finishes ⊢
  unfold cleared?
  cases finishes with
  | missing none => exact absurd found (none old)
  | @unknown _ table _ same primary entering =>
      obtain rfl := table_unique found same
      rw [entering] at entered
      rw [if_pos (by simp [primary])]
      exact ⟨table, rfl, entered⟩
  | @primary _ table same primary entering =>
      obtain rfl := table_unique found same
      rw [entering] at entered
      rw [if_pos (by simp [primary])]
      refine ⟨_, rfl, entered.trans (Table.grows_of_columns rfl rfl ?_ (List.prefix_refl _)
        (List.prefix_refl _) (List.prefix_refl _))⟩
      cases draft.key.conflict <;> simp
  | unique same unique =>
      obtain rfl := table_unique found same
      refine ⟨_, rfl, ?_⟩
      obtain ⟨i, lone, put⟩ | ⟨lone, put⟩ := enterUnique_cases draft.key old <;> rw [put, lone]
      · refine Table.grows_modifyColumn old i (fun _ => {}) ?_ fun c _ => ?_
        · cases draft.key.conflict <;> simp [unique]
        · cases draft.key.conflict <;> simp [unique]
      · rw [ite_self]
        exact Table.grows_of_columns rfl rfl id (List.prefix_append _ _) (List.prefix_refl _)
          (List.prefix_refl _)

end Changes

/-! ### Every step -/

section Steps

variable {state target : State} {draft after : Draft} {token : Token} {rest : List Token}
  {old : Table} {why : Refusal} {f : Column → Column}

/-- A change of the last column. -/
theorem grows_changeColumn {at_ : Draft} (found : draft.statement = some (.table old))
    (changed : at_.changeColumn f = some after) (same : at_.statement = draft.statement)
    (keeps : ∀ c : Column, c.Keeps (f c))
    (clause : ∀ c, c.uniqueConflict ≠ none → (f c).uniqueConflict ≠ none) :
    ∃ new, after.statement = some (.table new) ∧ old.Grows none new := by
  obtain ⟨table, again, -, rfl⟩ := changeColumn_eq_some changed
  obtain rfl : old = table := table_unique found (same ▸ again)
  exact ⟨_, rfl, Table.grows_modifyColumn_none old _ keeps clause⟩

/-- A change of the table. -/
theorem grows_changeTable {at_ : Draft} {f : Table → Table}
    (found : draft.statement = some (.table old)) (changed : at_.changeTable f = some after)
    (same : at_.statement = draft.statement) (grows : old.Grows none (f old)) :
    ∃ new, after.statement = some (.table new) ∧ old.Grows none new := by
  obtain ⟨table, again, rfl⟩ := changeTable_eq_some changed
  obtain rfl : old = table := table_unique found (same ▸ again)
  exact ⟨_, rfl, grows⟩

/-- A complete key list with a conflict clause clears none. -/
theorem grows_resolveKey {action : ConflictAction} {refusal : Option Refusal}
    (found : draft.statement = some (.table old))
    (finished : { draft with key := { draft.key with conflict := some action } }.finishKey =
      (after, refusal)) : ∃ new, after.statement = some (.table new) ∧ old.Grows none new := by
  let resolved : Draft := { draft with key := { draft.key with conflict := some action } }
  obtain ⟨new, statement, grows⟩ := @Draft.grows_finishKey old resolved found
  have nothing : resolved.cleared? old = none := by simp [resolved, Draft.cleared?]
  rw [finished] at statement
  exact ⟨new, statement, nothing ▸ grows⟩

/-- What is complete makes the table grow; key lists are looked at on their own. -/
theorem Settles.grows (h : Settles state draft target after)
    (notKey : state ≠ .constraint .keyEnd)
    (found : draft.statement = some (.table old)) :
    ∃ new, after.statement = some (.table new) ∧ old.Grows none new := by
  cases h with
  | refl | column | constraint | firstConstraint => exact ⟨old, found, .refl old⟩
  | key => exact absurd rfl notKey
  | columnReference _ owner finished =>
      exact grows_changeColumn found (finishReference_column owner finished) rfl
        (fun c => .reference c _) fun _ => id
  | tableReference _ owner finished =>
      exact grows_changeTable found (finishReference_table owner finished) rfl
        (Table.grows_enterForeignKey _ _ old)

/-- **Every token that is taken** makes the table grow. -/
theorem Takes.grows (h : Takes token rest state draft target after)
    (parts : draft.HasParts state) (found : draft.statement = some (.table old)) :
    ∃ new, after.statement = some (.table new) ∧ old.Grows none new := by
  have same : old.Grows none old := .refl old
  have opening (unknown : state.kind = .unknown) : False :=
    absurd (found.symm.trans (parts.unknown unknown)) nofun
  have column {at_ : Draft} {f : Column → Column} (changed : at_.changeColumn f = some after)
      (statement : at_.statement = draft.statement) (keeps : ∀ c : Column, c.Keeps (f c))
      (clause : ∀ c, c.uniqueConflict ≠ none → (f c).uniqueConflict ≠ none) :=
    grows_changeColumn found changed statement keeps clause
  have index {f : Index → Index} (changed : draft.changeIndex f = some after) : False := by
    obtain ⟨index, again, -⟩ := changeIndex_eq_some changed
    exact absurd (found.symm.trans again) nofun
  cases h with
  | pass | always | notAlways | openBody | openReference | openForeign | parent | parentColumn
  | clause | openPrimary | openUnique | keyColumn | keyAutoincrement | openChildren | child =>
      exact ⟨old, found, same⟩
  | temporary | beginTable | beginIndex => exact (opening rfl).elim
  | nameIndex _ _ changed | guardIndex changed | indexSchema changed | indexTable _ changed
  | terms _ changed | predicate _ _ changed => exact (index changed).elim
  | nameTable _ _ changed | guardTable changed | tableSchema changed | strict _ changed
  | withoutRowid changed | resolveKey changed =>
      exact grows_changeTable found changed rfl (Table.grows_of_columns rfl rfl (by simp)
        (List.prefix_refl _) (List.prefix_refl _) (List.prefix_refl _))
  | addColumn _ _ changed =>
      exact grows_changeTable found changed rfl (Table.grows_addColumn old _)
  | beginKey again _ changed =>
      exact grows_changeTable found changed rfl (Table.grows_setKeyMember old _)
  | extendType _ changed | orderKey changed | autoincrement _ changed | notNull changed
  | resolveNotNull changed | unique changed | default _ changed | collate _ changed
  | storage changed => exact column changed rfl (fun _ => {}) fun _ => id
  | resolveUnique changed => exact column changed rfl (fun _ => {}) fun _ _ => nofun
  | body _ taken =>
      obtain ⟨-, -, rfl⟩ := takeBody_eq_none taken
      exact ⟨old, found, same⟩
  | check _ taken changed =>
      exact grows_changeTable found changed (takeBody_statement taken)
        (Table.grows_of_columns rfl rfl id (List.prefix_refl _) (List.prefix_refl _)
          (List.prefix_append _ _))
  | generated taken changed =>
      exact column changed (takeBody_statement taken) (fun _ => {}) fun _ => id
  | keyCollate _ changed | keyOrder _ changed =>
      obtain ⟨-, rfl⟩ := changeLastPart_eq_some changed
      exact ⟨old, found, same⟩
  | keyConflict finished => exact grows_resolveKey found finished

/-- **Every token that is refused** makes the table grow, by what was complete before it. -/
theorem Refuses.grows (h : Refuses state draft why after) (parts : draft.HasParts state)
    (notKey : state ≠ .constraint .keyEnd) (found : draft.statement = some (.table old)) :
    ∃ new, after.statement = some (.table new) ∧ old.Grows none new := by
  cases h with
  | token settles => exact settles.grows notKey found
  | unknown closes finished =>
      cases closes with
      | plain => exact absurd rfl notKey
      | resolved => exact grows_resolveKey found finished
  | missing lacks => exact absurd parts lacks

/-- After a constraint of the table a token changes nothing in it. -/
theorem constraintBoundary_cases (draft : Draft) (token : Token) :
    (∃ target after, Move.constraintBoundary draft token = .next target after ∧
      after.statement = draft.statement) ∨
      Move.constraintBoundary draft token = .refuse .unexpected draft := by
  unfold Move.constraintBoundary Move.constraintStart Move.constraintKeyword
  split
  · exact .inl ⟨_, _, rfl, rfl⟩
  · exact .inl ⟨_, _, rfl, rfl⟩
  · split
    · exact .inl ⟨_, _, rfl, rfl⟩
    · split <;> first
        | exact .inl ⟨_, _, rfl, rfl⟩
        | exact .inr rfl

/-- A token after a key list either begins its conflict clause, or the list is put into the
table first. -/
theorem statement_step_keyEnd (draft : Draft) (token : Token) (rest : List Token) :
    (step (.constraint .keyEnd) draft token rest).draft.statement =
      if token.is .ON then draft.statement else draft.finishKey.1.statement := by
  cases on : token.is .ON with
  | true => simp [step, Move.ofState, Move.constraint, on, Step.draft]
  | false =>
      rcases finished : draft.finishKey with ⟨after, _ | why⟩
      · rcases constraintBoundary_cases after token with ⟨target, last, move, same⟩ | move
        · simp [step, Move.ofState, Move.constraint, on, finished, move, Step.draft, same]
        · simp [step, Move.ofState, Move.constraint, on, finished, move, Step.draft]
      · simp [step, Move.ofState, Move.constraint, on, finished, Step.draft]

end Steps

/-- **The table grows in every step of every text**, whether its token is taken or refused. The
conflict clause that a column has for `UNIQUE` is cleared by a unique key with nothing but this
column and no conflict clause, when the key is complete, and never otherwise. -/
theorem Table.grows_of_reaches {text : String} {past : List Transition} {state : State}
    {draft : Draft} {token : Token} {rest : List Token} {old : Table}
    (reached : Reaches text past state draft (token :: rest))
    (found : draft.statement = some (.table old)) :
    ∃ new, (step state draft token rest).draft.statement = some (.table new) ∧
      old.Grows (clearedBy state draft token old) new := by
  have parts := reached.hasParts
  by_cases key : state = .constraint .keyEnd
  · subst key
    rw [statement_step_keyEnd, clearedBy]
    split
    · exact ⟨old, found, .refl old⟩
    · exact Draft.grows_finishKey found
  · have nothing : clearedBy state draft token old = none := by
      unfold clearedBy
      split
      · exact absurd rfl key
      · rfl
    rw [nothing]
    cases taken : step state draft token rest with
    | next target after left =>
        obtain ⟨middle, settled, settles, takes⟩ := step_cases taken
        obtain ⟨between, found, first⟩ := settles.grows key found
        obtain ⟨new, found, second⟩ := takes.grows (settles.hasParts parts) found
        exact ⟨new, found, first.trans second⟩
    | refuse why after => exact (step_refuses taken).grows parts key found

/-- A text with a conflict clause that is cleared. -/
def Table.clearingText : String :=
  "CREATE TABLE t (a UNIQUE ON CONFLICT REPLACE, UNIQUE (a))"

/-- The tokens of the text. -/
def Table.clearingTokens : List Token :=
  [keyword .CREATE, keyword .TABLE, Token.name "t", openParen, Token.name "a", keyword .UNIQUE,
    keyword .ON, keyword .CONFLICT, keyword .REPLACE, comma, keyword .UNIQUE, openParen,
    Token.name "a", closeParen, closeParen]

/-- The table before its last token. -/
def Table.clearingTable : Table where
  name := "t"
  columns := [{ Column.new "a" with unique := true, uniqueConflict := some .replace }]

/-- The table after its last token. -/
def Table.clearedTable : Table where
  name := "t"
  columns := [{ Column.new "a" with unique := true }]

/-- The unique key at the end has no conflict clause, so that of the column is cleared. -/
theorem Table.grows_of_reaches_cleared : ∃ past draft,
    Reaches clearingText past (.constraint .keyEnd) draft [closeParen] ∧
      draft.statement = some (.table clearingTable) ∧
      clearedBy (.constraint .keyEnd) draft closeParen clearingTable = some 0 ∧
      (step (.constraint .keyEnd) draft closeParen []).draft.statement =
        some (.table clearedTable) ∧
      clearingTable.Grows (some 0) clearedTable := by
  have same : tokenize clearingText = clearingTokens := by
    rw [← Lexer.tokens_toList]
    cbv
  obtain ⟨past, draft, reached, found, cleared, later⟩ : ∃ past draft,
      Reaches clearingText past (.constraint .keyEnd) draft [closeParen] ∧
        draft.statement = some (.table clearingTable) ∧
        clearedBy (.constraint .keyEnd) draft closeParen clearingTable = some 0 ∧
        (step (.constraint .keyEnd) draft closeParen []).draft.statement =
          some (.table clearedTable) :=
    exists_reaches_of_walk (n := 14) same (by decide +kernel) (by decide +kernel)
  obtain ⟨new, after, grows⟩ := grows_of_reaches reached found
  obtain rfl : clearedTable = new := table_unique later after
  exact ⟨past, draft, reached, found, cleared, later, cleared ▸ grows⟩

end SchemaText
