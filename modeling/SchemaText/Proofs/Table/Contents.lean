import SchemaText.Proofs.Statement.Pending
import SchemaText.Proofs.Table.Keys

/-!
# What a table that was read contains

Facts about tables that every step of the statement parser keeps, as long as no invalid token
is taken in a condition or rule: the texts that a table stores are those of sequences that are
read again, lists are not empty, conflict clauses belong to constraints, and the key is noted
consistently.

## Main definitions

* `IsBody`, `Reference.IsComplete`: texts that are read again.
* `Column.IsSound`, `Table.HasContents`: what columns and tables contain.
* `Table.IsMarked`: what the state says of the column that is being defined.

## Main results

* `Settles.contents`, `Takes.contents`: **every step keeps the contents in order**.
-/

namespace SchemaText

open Token

/-! ### Texts -/

/-- The text of a condition or rule of proper tokens. -/
def IsBody (proper : Token → Prop) (text : String) : Prop :=
  ∃ ts, text = render ts ∧ BodyPath 1 ts ∧ ∀ t ∈ ts, proper t

/-- The clauses of a reference are whole. -/
def Reference.IsComplete (reference : Reference) : Prop :=
  ∃ s ts, s.isSettled = true ∧ reference.clauses = render ts ∧ ClausePath s ts ∧
    ∀ t ∈ ts, t.IsWellSpelled

variable {proper : Token → Prop}

/-! ### Columns -/

/-- What a column contains apart from its name, type and key. -/
structure Column.IsSound (proper : Token → Prop) (column : Column) : Prop where
  /-- The default value is read back. -/
  default : ∀ value, column.default = some value → value.IsReadBack
  /-- The reference is whole. -/
  references : ∀ reference, column.references = some reference → reference.IsComplete
  /-- The rule is whole. -/
  generated : ∀ rule, column.generated = some rule → IsBody proper rule.expression
  /-- A conflict clause belongs to `NOT NULL`. -/
  notNull : column.notNullConflict ≠ none → column.notNull = true
  /-- A conflict clause belongs to `UNIQUE`. -/
  unique : column.uniqueConflict ≠ none → column.unique = true

/-- A new column is sound. -/
theorem Column.isSound_new (name : String) : (Column.new name).IsSound proper where
  default := by simp [Column.new]
  references := by simp [Column.new]
  generated := by simp [Column.new]
  notNull := by simp [Column.new]
  unique := by simp [Column.new]

/-- The key does not matter. -/
theorem Column.isSound_unkeyed {column : Column} :
    column.unkeyed.IsSound proper ↔ column.IsSound proper :=
  ⟨fun h => ⟨h.1, h.2, h.3, h.4, h.5⟩, fun h => ⟨h.1, h.2, h.3, h.4, h.5⟩⟩

/-- The storage of a rule has no part in whether the rule is whole. -/
theorem Column.IsSound.setStorage {column : Column} (h : column.IsSound proper)
    (storage : Option Storage) :
    ({ column with
      generated := column.generated.map fun rule => { rule with storage := storage } } :
        Column).IsSound proper :=
  { h with
    generated := by
      intro rule found
      obtain ⟨old, stored, rfl⟩ := Option.map_eq_some_iff.1 found
      exact h.generated old stored }

/-! ### Tables -/

/-- What a table contains. -/
structure Table.HasContents (proper : Token → Prop) (table : Table) : Prop where
  /-- The columns are sound. -/
  columns : ∀ column ∈ table.columns, column.IsSound proper
  /-- The conditions are whole. -/
  checks : ∀ condition ∈ table.checks, IsBody proper condition
  /-- No unique key is empty. -/
  uniques : ∀ key ∈ table.uniques, key.columns ≠ []
  /-- No foreign key is empty, and its reference is whole. -/
  foreignKeys : ∀ key ∈ table.foreignKeys, key.columns ≠ [] ∧ key.references.IsComplete
  /-- The key is noted consistently. -/
  keys : table.HasKeys

/-- What the state says of the last column: the constraint that is being read is noted. -/
def Table.IsMarked (state : State) (table : Table) : Prop :=
  match state with
  | .column .notNull | .column (.conflictOn .notNull) | .column (.conflictAction .notNull) =>
    ∀ column ∈ table.columns.getLast?, column.notNull = true
  | .column .unique | .column (.conflictOn .unique) | .column (.conflictAction .unique) =>
    ∀ column ∈ table.columns.getLast?, column.unique = true
  | .column .primaryKey | .column .primaryOrdered | .column .primaryResolved
  | .column (.conflictOn .primaryKey) | .column (.conflictAction .primaryKey) =>
    table.columns.length - 1 ∈ table.primaryKey
  | _ => True

section Changes

variable {table : Table} {f : Column → Column} {i : Nat}

/-- What holds of every element still does if the change keeps it. -/
theorem forall_mem_modify {α : Type} {P : α → Prop} {g : α → α} {l : List α}
    (h : ∀ a ∈ l, P a) (keeps : ∀ a ∈ l[i]?, P a → P (g a)) : ∀ a ∈ l.modify i g, P a := by
  intro a member
  obtain ⟨j, found⟩ := List.mem_iff_getElem?.1 member
  rw [List.getElem?_modify] at found
  obtain ⟨b, position, rfl⟩ := Option.map_eq_some_iff.1 found
  have held := h b (List.mem_of_getElem? position)
  split
  · rename_i same
    exact keeps b (same ▸ position) held
  · exact held

/-- The last column after a change of the last column. -/
theorem getLast?_modifyColumn (table : Table) (f : Column → Column) :
    (table.modifyColumn (table.columns.length - 1) f).columns.getLast? =
      table.columns.getLast?.map f := by
  rw [List.getLast?_eq_getElem?, List.getLast?_eq_getElem?]
  change (table.columns.modify _ f)[(table.columns.modify _ f).length - 1]? = _
  rw [List.length_modify, List.getElem?_modify]
  simp

/-- What the change brings about holds of the last column after it. -/
theorem forall_getLast?_modifyColumn {P : Column → Prop} (table : Table)
    (brings : ∀ c, P (f c)) :
    ∀ column ∈ (table.modifyColumn (table.columns.length - 1) f).columns.getLast?,
      P column := by
  intro column last
  rw [getLast?_modifyColumn] at last
  obtain ⟨c, -, rfl⟩ := Option.map_eq_some_iff.1 last
  exact brings c

/-- A change of a column keeps the number of columns. -/
theorem length_modifyColumn (table : Table) (i : Nat) (f : Column → Column) :
    (table.modifyColumn i f).columns.length = table.columns.length :=
  List.length_modify ..

/-- Columns that only differ in the key are sound alike. -/
theorem isSound_of_unkeyed {columns others : List Column} (h : ∀ c ∈ columns, c.IsSound proper)
    (same : others.map Column.unkeyed = columns.map Column.unkeyed) :
    ∀ c ∈ others, c.IsSound proper := by
  intro c member
  have found : c.unkeyed ∈ columns.map Column.unkeyed := same ▸ List.mem_map_of_mem member
  obtain ⟨d, old, unkeyed⟩ := List.mem_map.1 found
  rw [← Column.isSound_unkeyed, ← unkeyed, Column.isSound_unkeyed]
  exact h d old

namespace Table.HasContents

/-- A change of a column that keeps it sound and out of the key keeps the contents. -/
theorem modifyColumn (h : table.HasContents proper)
    (sound : ∀ c ∈ table.columns[i]?, c.IsSound proper → (f c).IsSound proper)
    (key : ∀ c, (f c).inKey = c.inKey ∧ (f c).isWholeKey = c.isWholeKey) :
    (table.modifyColumn i f).HasContents proper where
  columns := forall_mem_modify h.columns sound
  checks := h.checks
  uniques := h.uniques
  foreignKeys := h.foreignKeys
  keys := h.keys.modifyColumn key

/-- A new column keeps the contents in order. -/
theorem addColumn (h : table.HasContents proper) (name : String) :
    { table with columns := table.columns ++ [Column.new name] }.HasContents proper where
  columns := List.forall_mem_append.2
    ⟨h.columns, List.forall_mem_singleton.2 (Column.isSound_new name)⟩
  checks := h.checks
  uniques := h.uniques
  foreignKeys := h.foreignKeys
  keys := h.keys.addColumn name

/-- A new member of the key keeps the contents in order. -/
theorem setKeyMember (h : table.HasContents proper) (old : i < table.columns.length) :
    (table.setKeyMember i true).HasContents proper where
  columns := isSound_of_unkeyed h.columns (table.map_unkeyed_setKeyMember i true)
  checks := by
    rw [Table.setKeyMember_of_lt old]
    exact h.checks
  uniques := by
    rw [Table.setKeyMember_of_lt old]
    exact h.uniques
  foreignKeys := by
    rw [Table.setKeyMember_of_lt old]
    exact h.foreignKeys
  keys := h.keys.setKeyMember old

/-- A key list keeps the contents in order. -/
theorem enterKey (h : table.HasContents proper) (autoincrement : Bool) (parts : List KeyPart) :
    (Draft.enterKey autoincrement parts table).1.HasContents proper := by
  refine Draft.enterKey_induction (fun part t i found holds => ?_) parts h
  obtain ⟨old, -⟩ := List.findIdx?_eq_some_iff_getElem.1 found
  exact (holds.setKeyMember old).modifyColumn (fun c _ sound => { sound with })
    fun _ => ⟨rfl, rfl⟩

/-- A unique list keeps the contents in order. -/
theorem enterUnique (h : table.HasContents proper) {key : PendingKey} (ne : key.columns ≠ []) :
    (Draft.enterUnique key table).HasContents proper := by
  obtain ⟨i, -, put⟩ | ⟨-, put⟩ := Draft.enterUnique_cases key table <;> rw [put]
  · exact h.modifyColumn (fun c _ sound => { sound with unique := fun _ => rfl })
      fun _ => ⟨rfl, rfl⟩
  · exact { h with
      uniques := List.forall_mem_append.2 ⟨h.uniques, List.forall_mem_singleton.2 ne⟩
      keys := h.keys.congr rfl rfl h.keys.conflict }

/-- A foreign key keeps the contents in order. -/
theorem enterForeignKey (h : table.HasContents proper) {columns : List String}
    {reference : Reference} (ne : columns ≠ []) (complete : reference.IsComplete) :
    (Draft.enterForeignKey columns reference table).HasContents proper := by
  obtain ⟨i, -, put⟩ | ⟨-, put⟩ :=
    Draft.enterForeignKey_cases columns reference table <;> rw [put]
  · refine h.modifyColumn (fun c _ sound => { sound with references := ?_ })
      fun _ => ⟨rfl, rfl⟩
    rintro _ ⟨⟩
    exact complete
  · exact { h with
      foreignKeys := List.forall_mem_append.2
        ⟨h.foreignKeys, List.forall_mem_singleton.2 ⟨ne, complete⟩⟩
      keys := h.keys.congr rfl rfl h.keys.conflict }

end Table.HasContents

end Changes

/-! ### Steps -/

/-- The table of the draft, if there is one, has its contents in order. -/
def Draft.HasContents (proper : Token → Prop) (state : State) (draft : Draft) : Prop :=
  ∀ table, draft.statement = some (.table table) → table.HasContents proper ∧
    table.IsMarked state

section Steps

variable {state target : State} {draft after : Draft} {token : Token}
  {rest : List Token}

/-- A change of the table keeps the draft in order if it keeps the table so. -/
theorem hasContents_changeTable {g : Table → Table} (h : draft.changeTable g = some after)
    (holds : draft.HasContents proper state)
    (keeps : ∀ table : Table, table.HasContents proper → table.IsMarked state →
      (g table).HasContents proper ∧ (g table).IsMarked target) :
    after.HasContents proper target := by
  obtain ⟨table, found, rfl⟩ := changeTable_eq_some h
  rintro _ ⟨⟩
  obtain ⟨contents, marked⟩ := holds table found
  exact keeps table contents marked

/-- A change of the last column that keeps it sound and out of the key. -/
theorem hasContents_changeColumn {f : Column → Column} (h : draft.changeColumn f = some after)
    (holds : draft.HasContents proper state)
    (sound : ∀ table : Table, table.IsMarked state → ∀ c ∈ table.columns.getLast?,
      c.IsSound proper → (f c).IsSound proper)
    (key : ∀ c, (f c).inKey = c.inKey ∧ (f c).isWholeKey = c.isWholeKey)
    (marks : ∀ table : Table, table.IsMarked state →
      (table.modifyColumn (table.columns.length - 1) f).IsMarked target) :
    after.HasContents proper target := by
  obtain ⟨table, found, -, rfl⟩ := changeColumn_eq_some h
  rintro _ ⟨⟩
  obtain ⟨contents, marked⟩ := holds table found
  refine ⟨contents.modifyColumn (fun c last => sound table marked c ?_) key,
    marks table marked⟩
  rwa [List.getLast?_eq_getElem?]

/-- A key list that is put in its place keeps the draft in order. -/
theorem hasContents_finishKey (h : draft.finishKey = (after, none))
    (ne : draft.key.columns ≠ []) (holds : draft.HasContents proper state) :
    after.HasContents proper (.constraint .done) := by
  obtain ⟨table, entered, found, rfl, cases⟩ := finishKey_eq_none h
  have contents := (holds table found).1
  rintro _ ⟨⟩
  refine ⟨?_, trivial⟩
  rcases cases with ⟨-, members, entering, rfl⟩ | ⟨-, rfl⟩
  · have held := contents.enterKey draft.key.autoincrement draft.key.columns
    rw [entering] at held
    exact { held with
      keys := held.keys.congr rfl rfl fun _ => Draft.primaryKey_enterKey_ne_nil ne entering }
  · exact contents.enterUnique ne

/-- The clauses of a reference that can end are whole. -/
theorem isComplete_of_isPending {s : ReferenceState} (settled : s.isSettled = true)
    (pending : draft.IsPending proper (.reference s)) :
    draft.owner.IsNamed ∧
      ({ draft.reference with clauses := render draft.clauses } : Reference).IsComplete := by
  by_cases first : s = .table
  · subst first
    have none : draft.clauses = [] := pending.2
    exact ⟨pending.1, .clauses, [], rfl, congrArg render none, .nil, by simp⟩
  · have later : s.isBeforeClauses = false := by
      cases s <;> first
        | rfl
        | exact absurd rfl first
        | exact absurd settled Bool.false_ne_true
    obtain ⟨named, path, valid⟩ := (isPending_clauses later).1 pending
    exact ⟨named, s, draft.clauses, settled, rfl, path, valid⟩

/-- A body that ends is whole. -/
theorem isBody_of_isPending {text : String} (body : state.isBody = true)
    (pending : draft.IsPending proper state)
    (taken : draft.takeBody token = (after, some text)) :
    IsBody proper text ∧ after = { draft with body := [], depth := draft.depth - 1 } := by
  obtain ⟨-, last, rfl, same⟩ := takeBody_eq_some taken
  obtain ⟨path, valid⟩ := (isPending_body body).1 pending
  have only : draft.depth = 1 := by
    have := path.pos
    omega
  exact ⟨⟨draft.body, rfl, only ▸ path, valid⟩, same⟩

/-- What is complete has been gathered whole. -/
theorem Settles.contents (h : Settles state draft target after)
    (pending : draft.IsPending proper state) (holds : draft.HasContents proper state) :
    after.HasContents proper target := by
  have reopened {s : State} (draft : Draft) (holds : draft.HasContents proper s) :
      (draft.openReference .column).HasContents proper (.column .constraints) :=
    fun table found => ⟨(holds table found).1, trivial⟩
  cases h with
  | refl => exact holds
  | column | constraint | firstConstraint =>
      exact fun table found => ⟨(holds table found).1, trivial⟩
  | key finished => exact hasContents_finishKey finished pending holds
  | columnReference settled owner finished =>
      refine hasContents_changeColumn (finishReference_column owner finished)
        (reopened draft holds) (fun _ _ c _ sound => { sound with references := ?_ })
        (fun _ => ⟨rfl, rfl⟩) fun _ _ => trivial
      · rintro _ ⟨⟩
        exact (isComplete_of_isPending settled pending).2
  | tableReference settled owner finished =>
      refine hasContents_changeTable (finishReference_table owner finished)
        (reopened draft holds) fun table contents _ => ⟨?_, trivial⟩
      · obtain ⟨named, complete⟩ := isComplete_of_isPending settled pending
        rw [owner] at named
        exact contents.enterForeignKey named complete

/-- Where the draft stays as it is, the marks stay or are not needed. -/
theorem isMarked_passes {table : Table} (passes : state.passes target = true)
    (marked : table.IsMarked state) : table.IsMarked target := by
  revert passes
  fun_cases State.passes state target <;> intro passes <;> first
    | exact trivial
    | exact marked
    | exact absurd passes Bool.false_ne_true
    | obtain rfl := beq_iff_eq.1 passes
      rename_i owner
      cases owner <;> exact marked

/-- A table that has just been begun contains nothing. -/
theorem hasContents_beginTable (temporary : Bool) :
    ({ draft with
        statement := some (.table { Table.new "" with isTemporary := temporary }) } :
      Draft).HasContents proper (.tableName .begun) := by
  rintro _ ⟨⟩
  exact ⟨⟨by simp [Table.new], by simp [Table.new], by simp [Table.new], by simp [Table.new],
    .of_nil rfl rfl rfl⟩, trivial⟩

/-- The words `PRIMARY KEY` make the last column a member of the key. -/
theorem hasContents_beginKey {table : Table} (found : draft.statement = some (.table table))
    (ne : table.columns ≠ []) (holds : draft.HasContents proper (.column .primary))
    (changed : draft.changeTable (·.setKeyMember (table.columns.length - 1) true) = some after) :
    after.HasContents proper (.column .primaryKey) := by
  obtain ⟨_, same, rfl⟩ := changeTable_eq_some changed
  obtain rfl := table_unique found same
  rintro _ ⟨⟩
  have old := Nat.sub_one_lt (mt List.length_eq_zero_iff.1 ne)
  refine ⟨(holds _ found).1.setKeyMember old, ?_⟩
  change _ - 1 ∈ _
  rw [Table.length_setKeyMember, Table.primaryKey_setKeyMember_true old]
  split <;> simp_all

/-- A condition that ends is whole. -/
theorem hasContents_check {closed : Draft} {condition : String}
    (closes : ClosesCheck state target)
    (pending : draft.IsPending proper state) (holds : draft.HasContents proper state)
    (taken : draft.takeBody token = (closed, some condition))
    (changed : closed.changeTable
      (fun table => { table with checks := table.checks ++ [condition] }) = some after) :
    after.HasContents proper target := by
  obtain ⟨body, rfl⟩ := isBody_of_isPending (by cases closes <;> rfl) pending taken
  refine hasContents_changeTable changed holds fun table contents _ => ⟨?_, ?_⟩
  · exact { contents with
      checks := List.forall_mem_append.2 ⟨contents.checks, List.forall_mem_singleton.2 body⟩
      keys := contents.keys.congr rfl rfl contents.keys.conflict }
  · cases closes <;> trivial

/-- A rule that ends is whole. -/
theorem hasContents_generated {closed : Draft} {text : String}
    (pending : draft.IsPending proper (.column .generatedBody))
    (holds : draft.HasContents proper (.column .generatedBody))
    (taken : draft.takeBody token = (closed, some text))
    (changed : closed.changeColumn (fun column =>
      { column with generated := some ⟨text, draft.generatedAlways, none⟩ }) = some after) :
    after.HasContents proper (.column .generatedEnd) := by
  obtain ⟨body, rfl⟩ := isBody_of_isPending rfl pending taken
  refine hasContents_changeColumn changed holds
    (fun _ _ c _ sound => { sound with generated := ?_ }) (fun _ => ⟨rfl, rfl⟩)
    fun _ _ => trivial
  rintro _ ⟨⟩
  exact body

/-- **Every token that is taken keeps the contents in order.** -/
theorem Takes.contents (h : Takes token rest state draft target after)
    (lexed : ∀ t ∈ rest, t.IsLexed) (pending : draft.IsPending proper state)
    (holds : draft.HasContents proper state) : after.HasContents proper target := by
  cases h with
  | pass passes =>
      exact fun table found =>
        ⟨(holds table found).1, isMarked_passes passes (holds table found).2⟩
  | beginTable => exact hasContents_beginTable _
  | beginIndex => rintro _ ⟨⟩
  | nameTable _ _ changed | guardTable changed | tableSchema changed | strict _ changed
  | withoutRowid changed =>
      exact hasContents_changeTable changed holds fun table contents _ =>
        ⟨{ contents with keys := contents.keys.congr rfl rfl contents.keys.conflict }, trivial⟩
  | nameIndex _ _ changed | guardIndex changed | indexSchema changed | indexTable _ changed
  | terms _ changed | predicate _ _ changed =>
      obtain ⟨index, -, rfl⟩ := changeIndex_eq_some changed
      rintro _ ⟨⟩
  | addColumn _ _ changed =>
      exact hasContents_changeTable changed holds
        fun table contents _ => ⟨contents.addColumn token.text, trivial⟩
  | extendType taken changed =>
      refine hasContents_changeColumn changed holds (fun _ _ c _ sound => { sound with })
        (fun _ => ⟨rfl, rfl⟩) fun _ _ => ?_
      cases taken <;> trivial
  | beginKey found ne changed => exact hasContents_beginKey found ne holds changed
  | orderKey changed =>
      refine hasContents_changeColumn changed holds (fun _ _ c _ sound => { sound with })
        (fun _ => ⟨rfl, rfl⟩) fun table marked => ?_
      change _ ∈ table.primaryKey
      rwa [length_modifyColumn]
  | autoincrement _ changed | collate _ changed =>
      exact hasContents_changeColumn changed holds (fun _ _ c _ sound => { sound with })
        (fun _ => ⟨rfl, rfl⟩) fun _ _ => trivial
  | resolveKey changed =>
      refine hasContents_changeTable changed holds fun table contents marked => ⟨?_, marked⟩
      exact { contents with
        keys := contents.keys.congr rfl rfl fun _ => List.ne_nil_of_mem marked }
  | notNull changed =>
      exact hasContents_changeColumn changed holds
        (fun _ _ c _ sound => { sound with notNull := fun _ => rfl }) (fun _ => ⟨rfl, rfl⟩)
        fun table _ => forall_getLast?_modifyColumn table fun _ => rfl
  | resolveNotNull changed =>
      exact hasContents_changeColumn changed holds
        (fun _ marked c last sound => { sound with notNull := fun _ => marked c last })
        (fun _ => ⟨rfl, rfl⟩) fun _ _ => trivial
  | unique changed =>
      exact hasContents_changeColumn changed holds
        (fun _ _ c _ sound => { sound with unique := fun _ => rfl }) (fun _ => ⟨rfl, rfl⟩)
        fun table _ => forall_getLast?_modifyColumn table fun _ => rfl
  | resolveUnique changed =>
      exact hasContents_changeColumn changed holds
        (fun _ marked c last sound => { sound with unique := fun _ => marked c last })
        (fun _ => ⟨rfl, rfl⟩) fun _ _ => trivial
  | default found changed =>
      have value := (DefaultValue.readStored_sound lexed found).2
      refine hasContents_changeColumn changed holds
        (fun _ _ c _ sound => { sound with default := ?_ }) (fun _ => ⟨rfl, rfl⟩)
        fun _ _ => trivial
      rintro _ ⟨⟩
      exact value
  | storage changed =>
      exact hasContents_changeColumn changed holds (fun _ _ c _ sound => sound.setStorage _)
        (fun _ => ⟨rfl, rfl⟩) fun _ _ => trivial
  | openBody opens =>
      refine fun table found => ⟨(holds table found).1, ?_⟩
      cases opens <;> trivial
  | body isBody taken =>
      obtain ⟨depth, -, rfl⟩ := takeBody_eq_none taken
      exact holds
  | check closes taken changed => exact hasContents_check closes pending holds taken changed
  | generated taken changed => exact hasContents_generated pending holds taken changed
  | keyCollate _ changed | keyOrder _ changed =>
      obtain ⟨-, rfl⟩ := changeLastPart_eq_some changed
      exact holds
  | keyConflict finished => exact hasContents_finishKey finished pending holds
  | _ => exact holds

end Steps

end SchemaText
