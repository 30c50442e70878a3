import SchemaText.Proofs.Statement.Refusal
import SchemaText.Proofs.Table.KeyHistory
import SchemaText.Proofs.Table.KeyLists

/-!
# What a text enters into the key

A text puts columns into the primary key one by one, with `PRIMARY KEY` at a column and with
the names of a key list. A list is entered when it is complete, up to the first name that no
column has; then the text is not read any further. Which positions are entered in which order
is read off the steps of the parser, so that it is known wherever the parser stops.

## Main definitions

* `KeyRecord`, `keyRecord`: what is read off the steps.
* `Transcript.keyEntries`: the positions that a text enters, in order.
* `Table.Started`: tables that come from texts or names, with the changes that led to their
  key.

## Main results

* `Reaches.hasRecord`: **in every state that is reached** the table is as it was recorded.
* `Reaches.isRecorded`, `Reaches.hasKeys`: so it is where a text ends, whole or not, and the
  places of the key agree.
* `Table.keepsBooks_editKey`: **the books are kept** by all texts and all later changes.
-/

namespace SchemaText

open Token

/-! ### What is entered -/

/-- The positions of the columns that are named, up to the first name that no column has. -/
def knownPositions (names : List String) : List String → List Nat
  | [] => []
  | name :: rest =>
    match names.findIdx? (Text.same · name) with
    | some i => i :: knownPositions names rest
    | none => []

/-- What has been read of the columns and the primary key. -/
structure KeyRecord where
  /-- The names of the columns. -/
  names : List String := []
  /-- Whether the key list that is being read is one of the primary key. -/
  isPrimary : Bool := false
  /-- The names in this list. -/
  list : List String := []
  /-- The positions that entered the key, in order. -/
  entered : List Nat := []

/-- A new column is defined. -/
def Transition.definesColumn (t : Transition) : Bool :=
  match t.source with
  | .column .begun => t.target == .column .type
  | _ => false

/-- A key list is complete: no conflict clause follows, or it has been read. -/
def Transition.completesKey (t : Transition) : Bool :=
  match t.source with
  | .constraint .keyEnd => t.target != .constraint .keyOn
  | .constraint .keyConflict => true
  | _ => false

namespace KeyRecord

/-- The key list that is being read is complete. -/
def close (record : KeyRecord) : KeyRecord :=
  { record with
    entered := record.entered ++
      if record.isPrimary then knownPositions record.names record.list else [] }

/-- What the state that a step leads to says of the key. -/
def take (record : KeyRecord) (target : State) (token : Token) : KeyRecord :=
  match target with
  | .column .primaryKey =>
    { record with entered := record.entered ++ [record.names.length - 1] }
  | .constraint .primaryKey => { record with isPrimary := true, list := [] }
  | .constraint .unique => { record with isPrimary := false, list := [] }
  | .constraint .keyColumnName => { record with list := record.list ++ [token.text] }
  | _ => record

/-- What a step adds. -/
def read (record : KeyRecord) (t : Transition) : KeyRecord :=
  if t.definesColumn then { record with names := record.names ++ [t.token.text] }
  else (if t.completesKey then record.close else record).take t.target t.token

end KeyRecord

/-- What these steps read of the columns and the primary key. -/
def keyRecord (transitions : List Transition) : KeyRecord :=
  transitions.foldl KeyRecord.read {}

/-- A key list was complete where the parser stopped: what follows does not fit, or a name is
not known. -/
def Stop.completesKey (stop : Stop) : Bool :=
  match stop.state, stop.token, stop.why with
  | .constraint .keyEnd, some _, _ => true
  | .constraint .keyConflict, some _, .unknownKeyColumn _ => true
  | _, _, _ => false

/-- The positions that a text enters into the key, in order. -/
def Transcript.keyEntries (transcript : Transcript) : List Nat :=
  let record := keyRecord transcript.transitions
  (if transcript.stop.any Stop.completesKey then record.close else record).entered

variable {record : KeyRecord} {past : List Transition} {transition : Transition}
  {table other : Table}

/-- The record is kept one step at a time. -/
theorem keyRecord_snoc :
    keyRecord (past ++ [transition]) = (keyRecord past).read transition := by
  rw [keyRecord, List.foldl_append]
  rfl

/-- Most steps neither define a column nor complete a list. -/
theorem KeyRecord.read_of_plain (old : transition.definesColumn = false)
    (plain : transition.completesKey = false) :
    record.read transition = record.take transition.target transition.token := by
  rw [read, old, plain]
  rfl

/-! ### Tables and what was recorded -/

/-- The table has the columns that were recorded, and its key what entered. -/
structure Table.IsRecorded (record : KeyRecord) (table : Table) : Prop where
  /-- The columns were recorded. -/
  names : table.columnNames = record.names
  /-- Columns entered the key. -/
  range : ∀ i ∈ record.entered, i < record.names.length
  /-- The key is what entered. -/
  history : table.HasHistory (record.entered.map (·, true))

namespace Table.IsRecorded

variable (h : table.IsRecorded record)

include h

/-- The record names every column once. -/
theorem length_columns : table.columns.length = record.names.length := by
  rw [← h.names, columnNames, List.length_map]

/-- Only the names and the members matter. -/
theorem congr (names : other.columnNames = table.columnNames)
    (key : other.primaryKey = table.primaryKey) : other.IsRecorded record := by
  refine ⟨names.trans h.names, h.range, h.history.congr ?_ key⟩
  simpa [columnNames] using congrArg List.length names

/-- A new column. -/
theorem addColumn (name : String) :
    { table with columns := table.columns ++ [Column.new name] }.IsRecorded
      { record with names := record.names ++ [name] } where
  names := by simp [columnNames, ← h.names, Column.new]
  range := fun i entered => by
    rw [List.length_append]
    exact Nat.lt_add_right _ (h.range i entered)
  history := by
    refine h.history.addColumn (fun call member => ?_) _
    obtain ⟨i, entered, rfl⟩ := List.mem_map.1 member
    exact h.length_columns ▸ h.range i entered

/-- A column that enters the key. -/
theorem setKeyMember {i : Nat} (old : i < table.columns.length) :
    (table.setKeyMember i true).IsRecorded { record with entered := record.entered ++ [i] } where
  names := by
    rw [← h.names]
    exact columnNames_eq_of_outline (outline_of_unkeyed (table.map_unkeyed_setKeyMember i true))
  range := List.forall_mem_append.2
    ⟨h.range, List.forall_mem_singleton.2 (h.length_columns ▸ old)⟩
  history := by
    rw [List.map_append]
    exact h.history.setKeyMember i true

/-- **A key list is entered** up to the first name that no column has. -/
theorem enterKey (autoincrement : Bool) (parts : List KeyPart) :
    (Draft.enterKey autoincrement parts table).1.IsRecorded { record with
      entered := record.entered ++ knownPositions record.names (parts.map (·.name)) } := by
  induction parts generalizing table record with
  | nil => simpa [knownPositions, Draft.enterKey] using h
  | cons part parts ih =>
      have position : table.columnIndex? part.name =
          record.names.findIdx? (Text.same · part.name) := by
        rw [← h.names, columnIndex?, columnNames, List.findIdx?_map]
        rfl
      rw [Draft.enterKey_cons, position, List.map_cons, knownPositions]
      cases found : record.names.findIdx? (Text.same · part.name) with
      | none => simpa using h
      | some i =>
          obtain ⟨old, -⟩ := List.findIdx?_eq_some_iff_getElem.1 found
          have entered := h.setKeyMember (h.length_columns ▸ old)
          have marked : (table.enterPart autoincrement part i).IsRecorded
              { record with entered := record.entered ++ [i] } :=
            entered.congr (columnNames_enterPart.trans (h.names.trans entered.names.symm)) rfl
          simpa using ih marked

end Table.IsRecorded

/-! ### Every step -/

/-- What is known of the key where a state is reached. -/
structure Draft.HasRecord (record : KeyRecord) (state : State) (draft : Draft) : Prop where
  /-- Nothing has been read yet. -/
  opening : state.keyPhase = .opening → record = {}
  /-- The list that is being read was recorded. -/
  reading : state.keyPhase = .reading →
    draft.key.isPrimary = record.isPrimary ∧ draft.key.columns.map (·.name) = record.list
  /-- The table was recorded. -/
  table : ∀ table, draft.statement = some (.table table) → table.IsRecorded record

/-- The list that is read, and the columns and the key of the table. -/
def recordView : DraftView (Bool × List String) (List String × List Nat) where
  part := fun draft => (draft.key.isPrimary, draft.key.columns.map (·.name))
  table := fun table => (table.columnNames, table.primaryKey)
  apart := fun _ _ => rfl

section Steps

variable {source state target : State} {draft after settled : Draft} {token : Token}
  {rest tokens : List Token} {text : String} {f : Column → Column}

/-- A column keeps its name. -/
theorem recordView_modifyColumn (named : ∀ c, (f c).name = c.name) (table : Table) (i : Nat) :
    recordView.table (table.modifyColumn i f) = recordView.table table :=
  congrArg (·, table.primaryKey) (map_modifyColumn named table i)

namespace Draft.HasRecord

variable (h : draft.HasRecord record state)

include h

/-- What leaves the names and the key as they are was recorded. -/
theorem keep (keeps : recordView.Keeps draft after)
    (place : target.keyPhase = state.keyPhase) :
    after.HasRecord record target where
  opening := fun first => h.opening (place ▸ first)
  reading := fun inside => by
    obtain ⟨primary, list⟩ := h.reading (place ▸ inside)
    obtain ⟨samePrimary, sameList⟩ := Prod.mk.inj keeps.part
    exact ⟨samePrimary.trans primary, sameList.trans list⟩
  table := fun other found => by
    obtain ⟨old, before, same⟩ := keeps.table other found
    exact (h.table old before).congr (Prod.mk.inj same).1 (Prod.mk.inj same).2

/-- **A complete key list** is entered, if it is one of the primary key. -/
theorem finishKey (inside : state.keyPhase = .reading) :
    ∀ table, draft.finishKey.1.statement = some (.table table) →
      table.IsRecorded record.close := by
  obtain ⟨primary, list⟩ := h.reading inside
  have closed : record.close = { record with
      entered := record.entered ++ if draft.key.isPrimary then
        knownPositions record.names (draft.key.columns.map (·.name)) else [] } := by
    rw [primary, list]
    rfl
  rw [closed]
  have entered (table : Table) (before : draft.statement = some (.table table)) :=
    (h.table table before).enterKey draft.key.autoincrement draft.key.columns
  have finishes := draft.finishesKey
  generalize draft.finishKey = finished at finishes ⊢
  intro other found
  cases finishes with
  | missing none => exact absurd found (none other)
  | @unknown table partly name before isPrimary entering =>
      have recorded := entered table before
      rw [entering] at recorded
      obtain rfl := Statement.table.inj (Option.some.inj found)
      rwa [if_pos isPrimary]
  | @primary table whole before isPrimary entering =>
      have recorded := entered table before
      rw [entering] at recorded
      obtain rfl := Statement.table.inj (Option.some.inj found)
      rw [if_pos isPrimary]
      exact recorded.congr rfl rfl
  | @unique table before unique =>
      obtain rfl := Statement.table.inj (Option.some.inj found)
      rw [unique, if_neg Bool.false_ne_true, List.append_nil]
      obtain ⟨i, -, put⟩ | ⟨-, put⟩ := enterUnique_cases draft.key table <;> rw [put]
      · exact (h.table table before).congr (map_modifyColumn (by exact fun _ => rfl) table i) rfl
      · exact (h.table table before).congr rfl rfl

/-- After a complete key list. -/
theorem close (inside : state.keyPhase = .reading)
    (finished : draft.finishKey = (after, none)) :
    after.HasRecord record.close (.constraint .done) :=
  ⟨nofun, nofun, fun table found => h.finishKey inside table (finished ▸ found)⟩

end Draft.HasRecord

/-- What is complete was recorded; key lists are looked at on their own. -/
theorem Settles.hasRecord (h : Settles state draft target after)
    (notKey : state ≠ .constraint .keyEnd) (holds : draft.HasRecord record state) :
    after.HasRecord record target := by
  have same : recordView.Keeps draft draft := .of_statement rfl rfl
  have reopened : recordView.Keeps draft (draft.openReference .column) := .of_statement rfl rfl
  cases h with
  | refl => exact holds
  | column | firstConstraint => exact holds.keep same rfl
  | constraint start =>
      refine holds.keep same ?_
      rcases start with rfl | rfl <;> rfl
  | key => exact absurd rfl notKey
  | columnReference _ owner finished =>
      exact holds.keep (reopened.changeColumn (finishReference_column owner finished)
        (recordView_modifyColumn fun _ => rfl)) rfl
  | tableReference _ owner finished =>
      refine holds.keep
        (reopened.changeTable (finishReference_table owner finished) fun t => ?_) rfl
      obtain ⟨i, -, put⟩ | ⟨-, put⟩ := Draft.enterForeignKey_cases _ _ t <;> rw [put]
      · exact recordView_modifyColumn (by exact fun _ => rfl) t i
      · rfl

/-- Only the names and what entered matter to a table. -/
theorem Table.IsRecorded.of_record {next : KeyRecord} (h : table.IsRecorded record)
    (names : next.names = record.names) (entered : next.entered = record.entered) :
    table.IsRecorded next :=
  ⟨names ▸ h.names, names ▸ entered ▸ h.range, entered ▸ h.history⟩

/-- Where the draft stays as it is, nothing is recorded. -/
theorem read_passes (passes : state.passes target = true) :
    record.read ⟨state, target, token⟩ = record := by
  revert passes
  fun_cases State.passes state target <;> intro passes <;> first
    | rfl
    | exact absurd passes Bool.false_ne_true

/-- A step that adds nothing to the record. -/
theorem Draft.HasRecord.silent (h : draft.HasRecord record state)
    (keeps : recordView.Keeps draft after) (place : target.keyPhase = state.keyPhase)
    (silent : record.read ⟨state, target, token⟩ = record) :
    after.HasRecord (record.read ⟨state, target, token⟩) target := by
  rw [silent]
  exact h.keep keeps place

/-- The order of a column of a key list, or `AUTOINCREMENT`, is not recorded. -/
theorem read_keyPart {s : ConstraintState} (place : s.isBeforeOrder = true ∨ s = .keyOrdered) :
    record.read ⟨.constraint s, .constraint .keyOrdered, token⟩ = record := by
  rcases place with place | rfl
  · rcases ConstraintState.eq_of_isBeforeOrder place with rfl | rfl <;> rfl
  · rfl

/-- What a column of a key list says beside its name is not recorded. -/
theorem recordView_changeLastPart {f : KeyPart → KeyPart}
    (changed : Move.changeLastPart draft f = some after)
    (named : ∀ part, (f part).name = part.name) : recordView.Keeps draft after := by
  obtain ⟨-, rfl⟩ := changeLastPart_eq_some changed
  have names := map_modify_eq (g := KeyPart.name) named draft.key.columns
    (draft.key.columns.length - 1)
  exact .of_statement (congrArg (draft.key.isPrimary, ·) names) rfl

namespace Draft.HasRecord

/-- A table that has just been begun has no columns and no key. -/
theorem beginTable {s : OpeningState} (h : draft.HasRecord record (.opening s)) :
    ({ draft with
        statement := some (.table { Table.new "" with isTemporary := draft.temporary }) } :
      Draft).HasRecord (record.read ⟨.opening s, .tableName .begun, token⟩)
        (.tableName .begun) := by
  obtain rfl := h.opening rfl
  refine ⟨nofun, nofun, ?_⟩
  rintro _ ⟨⟩
  exact ⟨rfl, nofun, Table.hasHistory_of_nil rfl⟩

/-- The words `PRIMARY KEY` enter the last column into the key. -/
theorem beginKey (h : draft.HasRecord record (.column .primary))
    (found : draft.statement = some (.table table)) (ne : table.columns ≠ [])
    (changed : draft.changeTable (·.setKeyMember (table.columns.length - 1) true) = some after) :
    after.HasRecord (record.read ⟨.column .primary, .column .primaryKey, token⟩)
      (.column .primaryKey) := by
  obtain ⟨_, again, rfl⟩ := changeTable_eq_some changed
  obtain rfl := table_unique found again
  have recorded := h.table _ found
  refine ⟨nofun, nofun, ?_⟩
  rintro _ ⟨⟩
  have entered := recorded.setKeyMember (Nat.sub_lt (List.length_pos_iff.2 ne) Nat.one_pos)
  exact entered.of_record rfl (by rw [recorded.length_columns]; rfl)

/-- A column of a key list is recorded by its name. -/
theorem keyColumn (h : draft.HasRecord record (.constraint .keyColumn)) :
    ({ draft with
        key := { draft.key with columns := draft.key.columns ++ [⟨token.text, none, false⟩] } } :
      Draft).HasRecord (record.read ⟨.constraint .keyColumn, .constraint .keyColumnName, token⟩)
        (.constraint .keyColumnName) := by
  obtain ⟨primary, list⟩ := h.reading rfl
  refine ⟨nofun, fun _ => ⟨primary, ?_⟩, fun table found =>
    (h.table table found).of_record rfl rfl⟩
  rw [List.map_append, list]
  rfl

end Draft.HasRecord

/-- **Every token that is taken** is recorded, or leaves the columns and the key as they are. -/
theorem Takes.hasRecord (h : Takes token rest state draft target after)
    (holds : draft.HasRecord record state) :
    after.HasRecord (record.read ⟨state, target, token⟩) target := by
  have same : recordView.Keeps draft draft := .of_statement rfl rfl
  have closed {depth : Nat} {body : List Token} :
      recordView.Keeps draft { draft with body := body, depth := depth } :=
    .of_statement rfl rfl
  have named {f : Column → Column} (named : ∀ c, (f c).name = c.name) :=
    recordView_modifyColumn named
  cases h with
  | pass passes => exact holds.silent same (passes_keyList passes).1 (read_passes passes)
  | nameTable _ _ changed | guardTable changed | tableSchema changed | strict _ changed
  | withoutRowid changed | resolveKey changed =>
      exact holds.silent (same.changeTable changed fun _ => rfl) rfl rfl
  | nameIndex _ _ changed | guardIndex changed | indexSchema changed | indexTable _ changed
  | terms _ changed | predicate _ _ changed =>
      exact holds.silent (same.changeIndex changed) rfl rfl
  | orderKey changed | notNull changed | resolveNotNull changed | unique changed
  | resolveUnique changed | default _ changed | collate _ changed | storage changed =>
      exact holds.silent (same.changeColumn changed (named fun _ => rfl)) rfl rfl
  | @autoincrement s draft after place changed =>
      refine holds.silent (same.changeColumn changed (named fun _ => rfl)) rfl ?_
      cases s <;> rfl
  | beginTable => exact holds.beginTable
  | beginIndex => exact ⟨nofun, nofun, by rintro _ ⟨⟩⟩
  | addColumn _ _ changed =>
      obtain ⟨table, found, rfl⟩ := changeTable_eq_some changed
      refine ⟨nofun, nofun, ?_⟩
      rintro _ ⟨⟩
      exact (holds.table table found).addColumn token.text
  | extendType taken changed =>
      have typed : recordView.Keeps draft
          { draft with typeTokens := draft.typeTokens ++ [token] } := .of_statement rfl rfl
      have keeps := typed.changeColumn changed (named fun _ => rfl)
      cases taken <;> exact holds.silent keeps rfl rfl
  | beginKey found ne changed => exact holds.beginKey found ne changed
  | openBody opens =>
      cases opens <;> exact holds.silent closed rfl rfl
  | body isBody taken =>
      obtain ⟨depth, -, rfl⟩ := takeBody_eq_none taken
      rcases State.eq_of_isBody isBody with rfl | rfl | rfl <;>
        exact holds.silent closed rfl rfl
  | check closes taken changed =>
      obtain ⟨-, -, -, rfl⟩ := takeBody_eq_some taken
      have keeps := closed.changeTable changed fun _ => rfl
      cases closes <;> exact holds.silent keeps rfl rfl
  | generated taken changed =>
      obtain ⟨-, -, -, rfl⟩ := takeBody_eq_some taken
      exact holds.silent (closed.changeColumn changed (named fun _ => rfl)) rfl rfl
  | openPrimary | openUnique =>
      exact ⟨nofun, fun _ => ⟨rfl, rfl⟩, fun table found =>
        (holds.table table found).of_record rfl rfl⟩
  | keyColumn name => exact holds.keyColumn
  | keyCollate _ changed =>
      exact holds.silent (recordView_changeLastPart changed fun _ => rfl) rfl rfl
  | keyOrder place changed =>
      exact holds.silent (recordView_changeLastPart changed fun _ => rfl)
        (keyPhase_of_keyPart (.inl place)) (read_keyPart (.inl place))
  | keyAutoincrement place =>
      exact holds.silent (.of_statement rfl rfl) (keyPhase_of_keyPart place) (read_keyPart place)
  | @keyConflict draft after action finished =>
      have resolved : recordView.Keeps draft
          { draft with key := { draft.key with conflict := some action } } :=
        .of_statement rfl rfl
      exact (holds.keep resolved rfl).close rfl finished
  | clause taken => cases taken <;> exact holds.silent (.of_statement rfl rfl) rfl rfl
  | _ => exact holds.silent (.of_statement rfl rfl) rfl rfl

/-- After a constraint of the table neither a conflict clause nor a column follows. -/
theorem Takes.afterConstraint (h : Takes token rest (.constraint .done) draft target after) :
    target ≠ .constraint .keyOn ∧ target ≠ .column .type := by
  cases h with
  | pass passes =>
      constructor <;> rintro rfl <;> exact absurd passes Bool.false_ne_true
  | openUnique => exact ⟨nofun, nofun⟩
  | openBody opens => cases opens
  | body isBody => exact absurd isBody Bool.false_ne_true
  | check closes => cases closes
  | keyOrder place => exact absurd place Bool.false_ne_true
  | keyAutoincrement place =>
      exact place.elim (fun place => absurd place Bool.false_ne_true) nofun

/-- **Every step** is recorded. -/
theorem Draft.HasRecord.step (holds : draft.HasRecord record source)
    (settles : Settles source draft state settled)
    (takes : Takes token rest state settled target after) :
    after.HasRecord (record.read ⟨source, target, token⟩) target := by
  by_cases key : source = .constraint .keyEnd
  · subst key
    cases settles with
    | refl => exact takes.hasRecord holds
    | constraint start => exact start.elim nofun nofun
    | key finished =>
        have completes : Transition.completesKey ⟨.constraint .keyEnd, target, token⟩ = true :=
          bne_iff_ne.2 takes.afterConstraint.1
        have same : record.read ⟨.constraint .keyEnd, target, token⟩ =
            record.close.read ⟨.constraint .done, target, token⟩ := by
          rw [KeyRecord.read, completes]
          rfl
        rw [same]
        exact takes.hasRecord (holds.close rfl finished)
  · have same : record.read ⟨source, target, token⟩ = record.read ⟨state, target, token⟩ := by
      cases settles with
      | refl => rfl
      | @column s _ settled =>
          refine KeyRecord.read_of_plain ?_ rfl
          cases s <;> first
            | rfl
            | exact absurd settled Bool.false_ne_true
      | constraint start => rcases start with rfl | rfl <;> rfl
      | firstConstraint =>
          exact KeyRecord.read_of_plain (beq_eq_false_iff_ne.2 takes.afterConstraint.2) rfl
      | key => exact absurd rfl key
      | columnReference | tableReference => rfl
    rw [same]
    exact takes.hasRecord (settles.hasRecord key holds)

/-- **In every state that is reached** the table is as it was recorded. -/
theorem Reaches.hasRecord (h : Reaches text past state draft tokens) :
    draft.HasRecord (keyRecord past) state :=
  h.invariant (P := fun past state draft => draft.HasRecord (keyRecord past) state)
    ⟨fun _ => rfl, nofun, by rintro _ ⟨⟩⟩
    fun holds settles _ _ takes => keyRecord_snoc ▸ holds.step settles takes

/-- In every state that is reached the places of the key agree. -/
theorem Reaches.agreesOnKey (h : Reaches text past state draft tokens) :
    draft.AgreesOnKey state :=
  h.invariant (P := fun _ state draft => draft.AgreesOnKey state) Draft.agreesOnKey_start
    fun agrees settles first lexed takes =>
      takes.agreesOnKey first lexed (settles.agreesOnKey agrees)

/-! ### Where texts end -/

/-- A key list with a name that no column has is entered up to it. -/
theorem finishKey_eq_unknown {name : String}
    (h : draft.finishKey = (after, some (.unknownKeyColumn name))) :
    ∃ table, draft.statement = some (.table table) ∧ after.statement = some (.table
      (Draft.enterKey draft.key.autoincrement draft.key.columns table).1) := by
  have finishes := draft.finishesKey
  rw [h] at finishes
  cases finishes with
  | @unknown table entered _ found _ entering => exact ⟨table, found, by rw [entering]⟩

/-- Anywhere else no key list was complete. -/
theorem Stop.completesKey_of_token {why : Refusal} (notKey : state ≠ .constraint .keyEnd)
    (reason : why.isOfToken = true) :
    Stop.completesKey ⟨state, some token, why⟩ = false := by
  unfold completesKey
  split
  · rename_i place _
    exact absurd place notKey
  · rename_i unknown
    obtain rfl : why = _ := unknown
    exact absurd reason Bool.false_ne_true
  · rfl

/-- A text that ends has not completed another key list. -/
theorem keyEntries_atEnd :
    { Transcript.atEnd state draft with transitions := past }.keyEntries =
    (keyRecord past).entered := by
  unfold Transcript.keyEntries Transcript.atEnd
  cases state.isAccepting with
  | true => rfl
  | false =>
      have silent : Stop.completesKey ⟨state, none, .unexpected⟩ = false := by
        unfold Stop.completesKey
        split <;> first
          | rfl
          | contradiction
      simp [silent]

/-- **Where a text ends**, whole or not, the table is as it was recorded. -/
theorem Reaches.isRecorded {transcript : Transcript}
    (h : Reaches text past state draft tokens)
    (ends : transcript.EndsAt past state draft tokens)
    (found : transcript.statement = some (.table table)) :
    ∃ record, record.entered = transcript.keyEntries ∧ table.IsRecorded record := by
  have recorded := h.hasRecord
  cases ends with
  | input => exact ⟨keyRecord past, keyEntries_atEnd.symm, recorded.table table found⟩
  | @refusal token rest why after refused =>
      cases step_refuses refused with
      | token settles done reason =>
          by_cases key : state = .constraint .keyEnd
          · subst key
            cases settles with
            | refl => exact absurd rfl done
            | constraint start => exact start.elim nofun nofun
            | key finished =>
                exact ⟨(keyRecord past).close, rfl,
                  recorded.finishKey rfl table (finished ▸ found)⟩
          · have silent : Stop.completesKey ⟨state, some token, why⟩ = false :=
              Stop.completesKey_of_token key reason
            exact ⟨keyRecord past, by simp [Transcript.keyEntries, silent],
              (settles.hasRecord key recorded).table table found⟩
      | unknown closes finished =>
          cases closes with
          | plain =>
              exact ⟨(keyRecord past).close, rfl,
                recorded.finishKey rfl table (finished ▸ found)⟩
          | resolved action =>
              have resolved : recordView.Keeps draft
                  { draft with key := { draft.key with conflict := some action } } :=
                .of_statement rfl rfl
              exact ⟨(keyRecord past).close, rfl,
                (recorded.keep resolved rfl).finishKey rfl table (finished ▸ found)⟩
      | missing lacks => exact absurd h.hasParts lacks

/-- Where a text ends, whole or not, the places of the key agree. -/
theorem Reaches.hasKeys {transcript : Transcript} (h : Reaches text past state draft tokens)
    (ends : transcript.EndsAt past state draft tokens)
    (found : transcript.statement = some (.table table)) :
    table.HasKeys ∧ table.HasQuietColumns := by
  have agrees := h.agreesOnKey
  cases ends with
  | input => exact ⟨(agrees.contents table found).1.keys, agrees.quiet table found⟩
  | refusal refused =>
      cases step_refuses refused with
      | token settles =>
          have agrees := settles.agreesOnKey agrees
          exact ⟨(agrees.contents table found).1.keys, agrees.quiet table found⟩
      | unknown closes finished =>
          obtain ⟨old, before, after⟩ := finishKey_eq_unknown finished
          obtain rfl := table_unique found after
          exact ⟨Draft.hasKeys_enterKey (agrees.contents old before).1.keys _ _,
            (agrees.quiet old before).enterKey _ _⟩
      | missing lacks => exact absurd h.hasParts lacks

end Steps

namespace Table

variable {calls : List (Nat × Bool)}

/-- A table to start from, with the changes that led to its key: that of any text, whole or
not, or a table of names. -/
inductive Started : Table → List (Nat × Bool) → Prop
  | read {text : String} {table : Table}
      (found : (Statement.read text).statement = some (.table table)) :
      Started table ((Statement.read text).keyEntries.map (·, true))
  | names (schema : Option String) (name : String) (names : List String) :
      Started (ofNames schema name names) []

/-- The books are kept at the start. -/
theorem Started.keys (h : table.Started calls) :
    table.HasKeys ∧ table.HasQuietColumns ∧ table.HasHistory calls := by
  cases h with
  | @read text _ found =>
      obtain ⟨past, state, draft, tokens, reached, ends⟩ := exists_endsAt text
      obtain ⟨record, entered, recorded⟩ := reached.isRecorded ends found
      obtain ⟨keys, quiet⟩ := reached.hasKeys ends found
      exact ⟨keys, quiet, entered ▸ recorded.history⟩
  | names schema name names =>
      refine ⟨(isKeyless_ofNames schema name names).hasKeys rfl, fun column member _ => ?_,
        hasHistory_of_nil rfl⟩
      obtain ⟨columnDesc, tableDesc, increments⟩ :=
        hasPlainColumns_ofNames schema name names column member
      exact ⟨by rw [Column.isDescending, columnDesc, tableDesc]; rfl, increments⟩

/-- **The books of the key are kept.** The table of any text, whole or stopped at any token,
or a table of names, and after it any changes of the key: the key lists positions of columns,
each once, in the order in which they joined; its members are marked, and the only one as the
whole key; and no other column says anything about it. -/
theorem keepsBooks_editKey (started : table.Started calls) (edits : List (Nat × Bool)) :
    (table.editKey edits).KeepsBooks (calls ++ edits) := by
  obtain ⟨keys, quiet, history⟩ := started.keys
  exact (history.editKey edits).keepsBooks (keys.editKey edits) (quiet.editKey edits)

/-- A text that stops within its second key, at a name that no column has. -/
def stoppedText : String :=
  "CREATE TABLE t (a PRIMARY KEY, b, PRIMARY KEY (b, z, a))"

/-- The tokens of the text. -/
def stoppedTokens : List Token :=
  [keyword .CREATE, keyword .TABLE, Token.name "t", openParen, Token.name "a",
    keyword .PRIMARY, keyword .KEY, comma, Token.name "b", comma, keyword .PRIMARY,
    keyword .KEY, openParen, Token.name "b", comma, Token.name "z", comma, Token.name "a",
    closeParen, closeParen]

/-- The table that the text leaves. -/
def stopped : Table where
  name := "t"
  columns := [{ Column.new "a" with inKey := true }, { Column.new "b" with inKey := true }]
  primaryKey := [0, 1]

/-- The first column leaves the key and comes back; another change has no column. -/
def stoppedEdits : List (Nat × Bool) :=
  [(0, false), (7, true), (0, true)]

/-- The text is read as a run over its tokens. -/
theorem read_stoppedText : Statement.read stoppedText =
    runWithin stoppedTokens.length (.opening .start) {} stoppedTokens := by
  refine read_of_tokenize ?_ (by decide +kernel)
  rw [← Lexer.tokens_toList]
  cbv

/-- The column that comes back is the last member. -/
theorem keepsBooks_editKey_stopped :
    (Statement.read stoppedText).stop =
        some ⟨.constraint .keyEnd, some closeParen, .unknownKeyColumn "z"⟩ ∧
      stopped.Started [(0, true), (1, true)] ∧
      (stopped.editKey stoppedEdits).primaryKey = [1, 0] ∧
      (stopped.editKey stoppedEdits).KeepsBooks ([(0, true), (1, true)] ++ stoppedEdits) := by
  obtain ⟨stop, found, entries⟩ : (Statement.read stoppedText).stop =
        some ⟨.constraint .keyEnd, some closeParen, .unknownKeyColumn "z"⟩ ∧
      (Statement.read stoppedText).statement = some (.table stopped) ∧
      (Statement.read stoppedText).keyEntries = [0, 1] := by
    rw [read_stoppedText]
    decide +kernel
  have started : stopped.Started [(0, true), (1, true)] := by
    have read := Started.read found
    rwa [entries] at read
  exact ⟨stop, started, by decide +kernel, keepsBooks_editKey started stoppedEdits⟩

end Table

end SchemaText
