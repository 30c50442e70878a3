import SchemaText.Proofs.Table.Contents

/-!
# What is said about the key

What a column says about the primary key, it says as a member: no other column is ordered or
`AUTOINCREMENT`. This holds however often the key is declared, and so do the other facts about
the places of the key.

## Main definitions

* `Column.IsQuiet`, `Table.HasQuietColumns`: only members of the key say anything about it.
* `Draft.AgreesOnKey`: the places of the key agree in the table of a draft.

## Main results

* `Table.HasKeys.removeMember`: a column that leaves the key is taken out of all its places.
* `Settles.quietColumns`, `Takes.quietColumns`: **every step keeps other columns quiet**.
* `Table.hasKeys_of_parse`: the places of the key agree in every table that was read.
-/

namespace SchemaText

variable {table other : Table} {column : Column} {i : Nat}

/-- A column outside the key is neither ordered by it nor `AUTOINCREMENT`. -/
def Column.IsQuiet (column : Column) : Prop :=
  column.inKey = false → column.isDescending = false ∧ column.autoincrement = false

/-- Only members of the key say anything about it. -/
def Table.HasQuietColumns (table : Table) : Prop :=
  ∀ column ∈ table.columns, column.IsQuiet

/-- A new column says nothing of a key that it is not in. -/
theorem Column.isQuiet_new (name : String) : (Column.new name).IsQuiet :=
  fun _ => ⟨rfl, rfl⟩

/-- A member may say anything. -/
theorem Column.isQuiet_of_inKey (h : column.inKey = true) : column.IsQuiet :=
  fun outside => absurd (outside.symm.trans h) Bool.false_ne_true

/-! ### Entering and leaving the key -/

namespace Table

/-- What a change of the key keeps of every column, and of the one that is changed. -/
theorem forall_mem_setKeyMember {P : Column → Prop} {member : Bool}
    (h : ∀ c ∈ table.columns, P c) (changes : ∀ c, P c → P (c.withKeyMember member))
    (marks : ∀ c whole, P c → P { c with isWholeKey := whole }) :
    ∀ c ∈ (table.setKeyMember i member).columns, P c := by
  rcases Nat.lt_or_ge i table.columns.length with old | out
  · rw [setKeyMember_of_lt old]
    intro c found
    obtain ⟨d, changed, rfl⟩ := List.mem_map.1 found
    exact marks d _ (forall_mem_modify h (fun a _ => changes a) d changed)
  · rwa [setKeyMember_of_le out]

/-- A column that leaves the key falls quiet, and the others stay so. -/
theorem HasQuietColumns.setKeyMember (h : table.HasQuietColumns) (i : Nat) (member : Bool) :
    (table.setKeyMember i member).HasQuietColumns := by
  refine forall_mem_setKeyMember h (fun c quiet => ?_) fun _ _ quiet => quiet
  cases member with
  | true => exact Column.isQuiet_of_inKey rfl
  | false => exact fun _ => ⟨rfl, rfl⟩

/-- A change that keeps its column quiet keeps all columns so. -/
theorem HasQuietColumns.modifyColumn {f : Column → Column} (h : table.HasQuietColumns)
    (keeps : ∀ c ∈ table.columns[i]?, c.IsQuiet → (f c).IsQuiet) :
    (table.modifyColumn i f).HasQuietColumns :=
  forall_mem_modify h keeps

/-- The columns of a key list are members before they say anything. -/
theorem HasQuietColumns.enterKey (h : table.HasQuietColumns) (autoincrement : Bool)
    (parts : List KeyPart) : (Draft.enterKey autoincrement parts table).1.HasQuietColumns := by
  refine Draft.enterKey_induction (fun part t i found quiet => ?_) parts h
  obtain ⟨old, -⟩ := List.findIdx?_eq_some_iff_getElem.1 found
  refine (quiet.setKeyMember i true).modifyColumn fun c position _ => ?_
  rw [columns_setKeyMember old, Column.getElem?_markWhole, List.getElem?_modify] at position
  obtain ⟨d, entered, rfl⟩ := Option.map_eq_some_iff.1 position
  obtain ⟨b, -, rfl⟩ := Option.map_eq_some_iff.1 entered
  exact Column.isQuiet_of_inKey (by simp [KeyPart.mark, Column.withKeyMember])

/-- **A column that leaves the key** is taken out of all its places. -/
theorem HasKeys.removeMember (h : table.HasKeys) (unresolved : table.keyConflict = none)
    (i : Nat) : (table.setKeyMember i false).HasKeys := by
  by_cases old : i < table.columns.length
  · have left (j : Nat) : j ∈ (table.setKeyMember i false).primaryKey ↔
        j ∈ table.primaryKey ∧ j ≠ i := by
      rw [primaryKey_setKeyMember_false old, List.mem_filter, bne_iff_ne]
    constructor
    · rw [primaryKey_setKeyMember_false old]
      exact h.nodup.filter _
    · intro j member
      rw [length_setKeyMember]
      exact h.range j ((left j).1 member).1
    · intro j c found
      obtain ⟨before, position, inKey⟩ := exists_inKey_setKeyMember old found
      rw [left, inKey]
      by_cases same : i = j
      · simp [same]
      · rw [if_neg same, h.members j before position]
        exact (and_iff_left (Ne.symm same)).symm
    · exact isWholeKey_setKeyMember old
    · intro resolved
      have same : (table.setKeyMember i false).keyConflict = table.keyConflict := by
        rw [setKeyMember_of_lt old]
      exact absurd (same.trans unresolved) resolved
  · rwa [setKeyMember_of_le (Nat.not_lt.1 old)]

end Table

/-! ### Steps -/

section Steps

variable {proper : Token → Prop} {state target : State} {draft after : Draft} {token : Token}
  {rest : List Token} {text : String}

/-- In the table of the draft, if there is one, only members of the key say anything about
it. -/
def Draft.HasQuietColumns (draft : Draft) : Prop :=
  ∀ table, draft.statement = some (.table table) → table.HasQuietColumns

/-- A change of the table keeps the columns quiet if it does so in every table. -/
theorem quietColumns_changeTable {g : Table → Table} (h : draft.changeTable g = some after)
    (holds : draft.HasQuietColumns)
    (keeps : ∀ table : Table, table.HasQuietColumns → (g table).HasQuietColumns) :
    after.HasQuietColumns := by
  obtain ⟨table, found, rfl⟩ := changeTable_eq_some h
  rintro _ ⟨⟩
  exact keeps table (holds table found)

/-- A change of the last column that keeps what it says about the key. -/
theorem quietColumns_changeColumn {f : Column → Column} (h : draft.changeColumn f = some after)
    (holds : draft.HasQuietColumns) (keeps : ∀ c, c.IsQuiet → (f c).IsQuiet) :
    after.HasQuietColumns := by
  obtain ⟨table, found, -, rfl⟩ := changeColumn_eq_some h
  rintro _ ⟨⟩
  exact (holds table found).modifyColumn fun c _ => keeps c

/-- A change of the last column while it is a member of the key. -/
theorem quietColumns_changeMember {f : Column → Column} (h : draft.changeColumn f = some after)
    (contents : draft.HasContents proper state) (holds : draft.HasQuietColumns)
    (marked : ∀ table : Table, table.IsMarked state →
      table.columns.length - 1 ∈ table.primaryKey)
    (keeps : ∀ c, (f c).inKey = c.inKey) : after.HasQuietColumns := by
  obtain ⟨table, found, -, rfl⟩ := changeColumn_eq_some h
  obtain ⟨gathered, mark⟩ := contents table found
  rintro _ ⟨⟩
  refine (holds table found).modifyColumn fun c position _ => Column.isQuiet_of_inKey ?_
  rw [keeps]
  exact (gathered.keys.members _ c position).2 (marked table mark)

/-- A key list that is put in its place leaves the columns outside it quiet. -/
theorem quietColumns_finishKey (h : draft.finishKey = (after, none))
    (holds : draft.HasQuietColumns) : after.HasQuietColumns := by
  obtain ⟨table, entered, found, rfl, cases⟩ := finishKey_eq_none h
  have quiet := holds table found
  rintro _ ⟨⟩
  rcases cases with ⟨-, members, entering, rfl⟩ | ⟨-, rfl⟩
  · have kept := quiet.enterKey draft.key.autoincrement draft.key.columns
    rwa [entering] at kept
  · obtain ⟨i, -, put⟩ | ⟨-, put⟩ := Draft.enterUnique_cases draft.key table <;> rw [put]
    · exact quiet.modifyColumn fun _ _ => id
    · exact quiet

/-- What is complete leaves other columns quiet. -/
theorem Settles.quietColumns (h : Settles state draft target after)
    (holds : draft.HasQuietColumns) : after.HasQuietColumns := by
  have reopened : (draft.openReference .column).HasQuietColumns := holds
  cases h with
  | refl | column | constraint | firstConstraint => exact holds
  | key finished => exact quietColumns_finishKey finished holds
  | columnReference _ owner finished =>
      exact quietColumns_changeColumn (finishReference_column owner finished) reopened fun _ => id
  | tableReference _ owner finished =>
      refine quietColumns_changeTable (finishReference_table owner finished) reopened
        fun table quiet => ?_
      obtain ⟨i, -, put⟩ | ⟨-, put⟩ := Draft.enterForeignKey_cases _ _ table <;> rw [put]
      · exact quiet.modifyColumn fun _ _ => id
      · exact quiet

/-- **Every token that is taken leaves other columns quiet.** -/
theorem Takes.quietColumns (h : Takes token rest state draft target after)
    (contents : draft.HasContents proper state) (holds : draft.HasQuietColumns) :
    after.HasQuietColumns := by
  cases h with
  | beginTable =>
      rintro _ ⟨⟩
      exact fun _ member => absurd member List.not_mem_nil
  | beginIndex => rintro _ ⟨⟩
  | nameTable _ _ changed | guardTable changed | tableSchema changed | strict _ changed
  | withoutRowid changed | resolveKey changed =>
      exact quietColumns_changeTable changed holds fun _ => id
  | nameIndex _ _ changed | guardIndex changed | indexSchema changed | indexTable _ changed
  | terms _ changed | predicate _ _ changed =>
      obtain ⟨index, -, rfl⟩ := changeIndex_eq_some changed
      rintro _ ⟨⟩
  | addColumn _ _ changed =>
      exact quietColumns_changeTable changed holds fun table quiet => List.forall_mem_append.2
        ⟨quiet, List.forall_mem_singleton.2 (Column.isQuiet_new token.text)⟩
  | extendType _ changed | notNull changed | resolveNotNull changed | unique changed
  | resolveUnique changed | default _ changed | collate _ changed | storage changed =>
      exact quietColumns_changeColumn changed holds fun _ => id
  | beginKey _ _ changed =>
      exact quietColumns_changeTable changed holds fun table quiet => quiet.setKeyMember _ true
  | orderKey changed =>
      exact quietColumns_changeMember changed contents holds (fun _ => id) fun _ => rfl
  | @autoincrement s draft after place changed =>
      refine quietColumns_changeMember changed contents holds (fun table marked => ?_)
        fun _ => rfl
      rcases ColumnState.eq_of_isAfterKey place with rfl | rfl | rfl <;> exact marked
  | body _ taken =>
      obtain ⟨depth, -, rfl⟩ := takeBody_eq_none taken
      exact holds
  | check _ taken changed =>
      obtain ⟨-, -, -, rfl⟩ := takeBody_eq_some taken
      exact quietColumns_changeTable changed holds fun _ => id
  | generated taken changed =>
      obtain ⟨-, -, -, rfl⟩ := takeBody_eq_some taken
      exact quietColumns_changeColumn changed holds fun _ => id
  | keyCollate _ changed | keyOrder _ changed =>
      obtain ⟨-, rfl⟩ := changeLastPart_eq_some changed
      exact holds
  | keyConflict finished => exact quietColumns_finishKey finished holds
  | _ => exact holds

/-- The places of the key agree in the table of the draft, and only members say anything about
the key. This is kept together with what is pending and with the other contents. -/
structure Draft.AgreesOnKey (state : State) (draft : Draft) : Prop where
  pending : draft.IsPending (fun _ => True) state
  contents : draft.HasContents (fun _ => True) state
  quiet : draft.HasQuietColumns

/-- At the start there is no key to disagree on. -/
theorem Draft.agreesOnKey_start : Draft.AgreesOnKey (.opening .start) {} :=
  ⟨trivial, by rintro _ ⟨⟩, by rintro _ ⟨⟩⟩

/-- What is complete keeps the agreement. -/
theorem Settles.agreesOnKey (h : Settles state draft target after)
    (holds : draft.AgreesOnKey state) : after.AgreesOnKey target :=
  ⟨h.isPending holds.pending, h.contents holds.pending holds.contents,
    h.quietColumns holds.quiet⟩

/-- **Every token that is taken** keeps the agreement. -/
theorem Takes.agreesOnKey (h : Takes token rest state draft target after)
    (first : token.IsLexed) (lexed : ∀ t ∈ rest, t.IsLexed) (holds : draft.AgreesOnKey state) :
    after.AgreesOnKey target :=
  ⟨h.isPending first (fun _ => trivial) holds.pending,
    h.contents lexed holds.pending holds.contents, h.quietColumns holds.contents holds.quiet⟩

end Steps

/-- **The places of the key agree** in every table that was read, and only members of the key
say anything about it. -/
theorem Table.hasKeys_of_parse {text : String}
    (h : Statement.parse text = .ok (.table table)) :
    table.HasKeys ∧ table.HasQuietColumns := by
  obtain ⟨target, after, agrees, -, found⟩ := @parse_invariant_of_takes
    (fun _ state draft => draft.AgreesOnKey state) text _
    (fun agrees settles => settles.agreesOnKey agrees)
    (fun agrees _ first lexed takes => takes.agreesOnKey first lexed agrees)
    Draft.agreesOnKey_start h
  exact ⟨(agrees.contents table found).1.keys, agrees.quiet table found⟩

end SchemaText
