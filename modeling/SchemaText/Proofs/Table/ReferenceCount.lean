import Mathlib
import SchemaText.Proofs.Table.Contents
import SchemaText.Proofs.Token.Spoken

/-!
# How many references a table keeps

A reference to a parent table is declared by a word `REFERENCES`, in the definition of a column
or after `FOREIGN KEY`. A column has room for one: a second reference in its definition takes
the place of the first. A foreign key of the table finds another place when the column has a
reference already. So what is lost is counted column by column, and nothing else is.

## Main definitions

* `referenceClauses`: how many references a statement declares.
* `columnReferences`: how many of them each definition of a column declares.
* `Table.referenceCount`: how many references a table has.

## Main results

* `Settles.counted`, `Takes.counted`: **every step keeps the account**: what the table has and
  what was replaced make up what was declared.
* `Table.referenceCount_of_parse`: the account of a whole table. All references are kept if and
  only if no definition of a column declares two.
-/

namespace SchemaText

open Token

/-! ### What is declared -/

/-- How many references are declared: the words `REFERENCES` that begin one. -/
def referenceClauses (transitions : List Transition) : Nat :=
  transitions.countP (·.target == .reference .begun)

/-- One more for the last column. -/
def countLast (counts : List Nat) : List Nat :=
  counts.modify (counts.length - 1) (· + 1)

/-- What a step adds to the numbers of references in definitions of columns. -/
def countReferences (counts : List Nat) (transition : Transition) : List Nat :=
  match transition.source, transition.target with
  | .column .begun, .column .type => counts ++ [0]
  | .constraint .foreignReferences, .reference .begun => counts
  | _, .reference .begun => countLast counts
  | _, _ => counts

/-- How many references each definition of a column declares. -/
def columnReferences (transitions : List Transition) : List Nat :=
  transitions.foldl countReferences []

/-- How many references are declared beyond the first of each column. -/
def surplus : List Nat → Nat
  | [] => 0
  | n :: counts => (n - 1) + surplus counts

/-- The states in which a reference or the type of a column has just been begun. -/
def State.declares : State → Bool
  | .reference .begun | .column .type => true
  | _ => false

/-- A step that declares neither a column nor a reference. -/
def Transition.IsSilent (transition : Transition) : Prop :=
  transition.target ≠ .reference .begun ∧
    (transition.target = .column .type → transition.source ≠ .column .begun)

variable {past : List Transition} {transition : Transition} {counts : List Nat} {clauses : Nat}

/-- The surplus is counted column by column. -/
theorem surplus_append (counts more : List Nat) :
    surplus (counts ++ more) = surplus counts + surplus more := by
  induction counts with
  | nil => exact (Nat.zero_add _).symm
  | cons n counts ih => rw [List.cons_append, surplus, surplus, ih, Nat.add_assoc]

/-- There is no surplus just if no column has more than one reference. -/
theorem surplus_eq_zero_iff : surplus counts = 0 ↔ ∀ n ∈ counts, n ≤ 1 := by
  induction counts with
  | nil => simp [surplus]
  | cons n counts ih =>
      rw [surplus, Nat.add_eq_zero_iff, List.forall_mem_cons]
      exact and_congr Nat.sub_eq_zero_iff_le ih

/-- References of columns are counted one step at a time. -/
theorem columnReferences_snoc :
    columnReferences (past ++ [transition]) =
      countReferences (columnReferences past) transition := by
  rw [columnReferences, List.foldl_append]
  rfl

/-- Apart from those after child columns, references are declared in the last column. -/
theorem countReferences_of_ne {source : State} {token : Token}
    (apart : source ≠ .constraint .foreignReferences) :
    countReferences counts ⟨source, .reference .begun, token⟩ = countLast counts := by
  cases source with
  | constraint s => cases s <;> first
      | rfl
      | exact absurd rfl apart
  | column s => cases s <;> rfl
  | _ => rfl

/-- All references are counted one step at a time. -/
theorem referenceClauses_snoc :
    referenceClauses (past ++ [transition]) =
      referenceClauses past + if transition.target = .reference .begun then 1 else 0 := by
  simp [referenceClauses, List.countP_append, List.countP_singleton]

/-- A step that declares nothing does not count. -/
theorem Transition.isSilent_of_declares (h : transition.target.declares = false) :
    transition.IsSilent := by
  refine ⟨fun target => ?_, fun target => ?_⟩ <;>
    · rw [target] at h
      exact absurd h.symm Bool.false_ne_true

/-- A step that does not count leaves both counts as they are. -/
theorem Transition.IsSilent.counted (silent : transition.IsSilent) :
    columnReferences (past ++ [transition]) = columnReferences past ∧
      referenceClauses (past ++ [transition]) = referenceClauses past := by
  rw [columnReferences_snoc, referenceClauses_snoc, if_neg silent.1]
  refine ⟨?_, rfl⟩
  unfold countReferences
  split
  · rename_i source target
    exact absurd source (silent.2 target)
  · rfl
  · rename_i target _
    exact absurd target silent.1
  · rfl

/-! ### What is kept -/

namespace Table

variable {table other : Table} {defining later : Bool}

/-- Which columns have a reference. -/
def referring (table : Table) : List Bool :=
  table.columns.map (·.references.isSome)

/-- How many references a table has: those of its columns, and its foreign keys. -/
def referenceCount (table : Table) : Nat :=
  table.columns.countP (·.references.isSome) + table.foreignKeys.length

/-- The references of a table are those of its columns and its own. -/
theorem referenceCount_eq (table : Table) :
    table.referenceCount = table.referring.count true + table.foreignKeys.length := by
  rw [referenceCount, referring, List.count, List.countP_map]
  congr 2
  funext c
  simp

/-- A change of one entry that then counts. -/
theorem countP_modify {α : Type} {p : α → Bool} {f : α → α} {l : List α} {i : Nat} {a : α}
    (found : l[i]? = some a) (before : p a = false) (after : p (f a) = true) :
    (l.modify i f).countP p = l.countP p + 1 := by
  obtain ⟨bound, rfl⟩ := List.getElem?_eq_some_iff.1 found
  rw [List.modify_eq_set_getElem?, found]
  change (l.set i (f l[i])).countP p = _
  simp [List.countP_set bound, before, after]

/-- The only child column of a foreign key has no reference yet. -/
theorem loneChild?_eq_some {columns : List String} {i : Nat}
    (h : Draft.loneChild? columns table = some i) :
    ∃ column, table.columns[i]? = some column ∧ column.references.isSome = false := by
  unfold Draft.loneChild? at h
  split at h
  · split at h
    · split at h
      · rename_i free
        obtain rfl := Option.some.inj h
        obtain ⟨column, found, none⟩ := (Option.any_eq_true _ _).1 free
        exact ⟨column, found, by simpa using none⟩
      · exact absurd h (by simp)
    · exact absurd h (by simp)
  · exact absurd h (by simp)

/-- The account of a table: each of its columns has a number of references that were declared,
and all but the first are missing. The definition of the last column may be under way. -/
structure IsCounted (counts : List Nat) (clauses : Nat) (defining : Bool) (table : Table) :
    Prop where
  /-- Every column has a number. -/
  length : counts.length = table.columns.length
  /-- What is there and what was replaced make up what was declared. -/
  balance : table.referenceCount + surplus counts = clauses
  /-- The column that is being defined has a reference once one was declared. -/
  last : defining = true → table.referring.getLast? = counts.getLast?.map fun n =>
    decide (0 < n)

namespace IsCounted

/-- Only the references matter. -/
theorem congr (h : table.IsCounted counts clauses defining)
    (referring : other.referring = table.referring)
    (keys : other.foreignKeys = table.foreignKeys)
    (under : later = true → defining = true) : other.IsCounted counts clauses later where
  length := by
    have length := congrArg List.length referring
    rw [Table.referring, Table.referring, List.length_map, List.length_map] at length
    rw [length, h.length]
  balance := by
    rw [referenceCount_eq, referring, keys, ← referenceCount_eq]
    exact h.balance
  last := fun under' => referring ▸ h.last (under under')

/-- A new column has no reference. -/
theorem addColumn (h : table.IsCounted counts clauses defining) (name : String) :
    { table with columns := table.columns ++ [Column.new name] }.IsCounted (counts ++ [0])
      clauses true where
  length := by simp [h.length]
  balance := by
    have balance := h.balance
    simpa [referenceCount, surplus_append, surplus, List.countP_append, Column.new] using balance
  last := fun _ => by simp [referring, Column.new]

/-- **A reference of the column that is being defined** takes the place of the one before. -/
theorem refer (h : table.IsCounted counts clauses true) (ne : table.columns ≠ [])
    {f : Column → Column} (refers : ∀ c, (f c).references.isSome = true) :
    (table.modifyColumn (table.columns.length - 1) f).IsCounted (countLast counts)
      (clauses + 1) true := by
  obtain ⟨columns, column, split, changed⟩ := table.modifyColumn_last ne f
  have some : counts ≠ [] := by
    rw [← List.length_pos_iff, h.length]
    exact List.length_pos_iff.2 ne
  obtain ⟨before, n, rfl⟩ := (List.eq_nil_or_concat' counts).resolve_left some
  have counted : countLast (before ++ [n]) = before ++ [n + 1] := modify_last _ before n
  have noted : column.references.isSome = decide (0 < n) := by
    have last := h.last rfl
    simpa [referring, split] using last
  have balance := h.balance
  rw [counted]
  constructor
  · have length := h.length
    rw [length_modifyColumn, ← length]
    simp
  · rw [referenceCount, split] at balance
    rw [referenceCount, changed]
    simp only [surplus_append, surplus, List.countP_append, List.countP_singleton, refers,
      noted] at balance ⊢
    change _ + table.foreignKeys.length + _ = _
    by_cases first : 0 < n <;> simp [first] at balance ⊢ <;> omega
  · intro _
    simp [referring, changed, refers]

/-- **A foreign key of the table** replaces no reference. -/
theorem enterForeignKey (h : table.IsCounted counts clauses defining) (columns : List String)
    (reference : Reference) :
    (Draft.enterForeignKey columns reference table).IsCounted counts (clauses + 1) false := by
  have balance := h.balance
  obtain ⟨i, child, put⟩ | ⟨-, put⟩ := Draft.enterForeignKey_cases columns reference table <;>
    rw [put]
  · obtain ⟨column, found, free⟩ := loneChild?_eq_some child
    refine ⟨h.length.trans (length_modifyColumn ..).symm, ?_,
      fun under => absurd under Bool.false_ne_true⟩
    rw [← balance, Nat.add_right_comm]
    refine congrArg (· + _) ?_
    exact (congrArg (· + _) (countP_modify found free rfl)).trans (Nat.add_right_comm ..)
  · refine ⟨h.length, ?_, fun under => absurd under Bool.false_ne_true⟩
    rw [← balance, referenceCount, referenceCount, List.length_append, List.length_singleton]
    exact Nat.add_right_comm _ 1 _

end IsCounted

end Table

/-! ### Steps -/

/-- Where in a statement a state is, as far as references go. -/
inductive StatePart
  /-- Before it is known what is defined. -/
  | opening
  /-- In the definition of a column. -/
  | column
  /-- In a reference. -/
  | reference
  /-- After a child column of a foreign key. -/
  | children
  | other
  deriving DecidableEq

/-- Where a state is. -/
def State.part : State → StatePart
  | .opening _ => .opening
  | .column .begun => .other
  | .column _ => .column
  | .reference _ => .reference
  | .constraint .foreignColumnName | .constraint .foreignReferences => .children
  | _ => .other

/-- The account of a table in a state: a reference that is being read is declared already, but
is not there yet. -/
def Table.IsCountedIn (part : StatePart) (owner : ReferenceOwner) (counts : List Nat)
    (clauses : Nat) (table : Table) : Prop :=
  match part, owner with
  | .reference, .column =>
      ∃ earlier before, counts = countLast earlier ∧ clauses = before + 1 ∧
    table.IsCounted earlier before true
  | .reference, .table _ =>
      ∃ before, clauses = before + 1 ∧ table.IsCounted counts before false
  | part, _ => table.IsCounted counts clauses (part == .column)

/-- The account of a draft with these numbers of references. -/
structure Draft.HasCounted (counts : List Nat) (clauses : Nat) (state : State) (draft : Draft) :
    Prop where
  /-- Nothing is declared yet. -/
  opening : state.part = .opening → counts = [] ∧ clauses = 0
  /-- The reference that follows the child columns belongs to the table. -/
  children : state.part = .children → draft.owner ≠ .column
  /-- The account of the table, if there is one. -/
  table : ∀ table, draft.statement = some (.table table) →
    table.IsCountedIn state.part draft.owner counts clauses

section Steps

variable {source state target : State} {before draft after : Draft} {token : Token}
  {rest : List Token}

/-- The owner of the reference that is read, and the references of the table. -/
def referenceView : DraftView ReferenceOwner (List Bool × List ForeignKey) where
  part := (·.owner)
  table := fun t => (t.referring, t.foreignKeys)
  apart := fun _ _ => rfl

/-- A change that keeps the reference of a column keeps what is counted. -/
theorem referenceView_modifyColumn {f : Column → Column}
    (keeps : ∀ c, (f c).references = c.references) (table : Table) (i : Nat) :
    referenceView.table (table.modifyColumn i f) = referenceView.table table := by
  refine Prod.ext (map_modify_eq (fun c => ?_) _ _) rfl
  rw [keeps]

/-- Columns that only differ in the key have the same references. -/
theorem referring_of_unkeyed {table other : Table}
    (same : other.columns.map Column.unkeyed = table.columns.map Column.unkeyed) :
    other.referring = table.referring := by
  have referring := congrArg (List.map fun c => c.references.isSome) same
  rwa [List.map_map, List.map_map] at referring

/-- The mark of a key has no references. -/
theorem referenceView_setKeyMember (table : Table) (i : Nat) :
    referenceView.table (table.setKeyMember i true) = referenceView.table table := by
  refine Prod.ext (referring_of_unkeyed (table.map_unkeyed_setKeyMember i true)) ?_
  obtain ⟨columns, key, frame⟩ := table.setKeyMember_frame i true
  exact congrArg (·.foreignKeys) frame

/-- A key list has no references. -/
theorem referenceView_finishKey (h : draft.finishKey = (after, none)) :
    referenceView.Keeps draft after := by
  obtain ⟨table, entered, found, rfl, cases⟩ := finishKey_eq_none h
  refine ⟨rfl, ?_⟩
  rintro _ ⟨⟩
  refine ⟨table, found, ?_⟩
  rcases cases with ⟨-, members, entering, rfl⟩ | ⟨-, rfl⟩
  · have unkeyed := Draft.map_unkeyed_enterKey draft.key.autoincrement draft.key.columns table
    obtain ⟨columns, key, frame⟩ :=
      Draft.enterKey_frame draft.key.autoincrement draft.key.columns table
    rw [entering] at unkeyed frame
    exact Prod.ext (referring_of_unkeyed unkeyed) (congrArg (·.foreignKeys) frame)
  · obtain ⟨i, -, put⟩ | ⟨-, put⟩ := Draft.enterUnique_cases draft.key table <;> rw [put]
    · exact referenceView_modifyColumn (by exact fun _ => rfl) _ _
    · rfl

/-- Outside a reference nothing is pending, and the counts are those of the table. -/
theorem Table.isCountedIn_iff {table : Table} {part : StatePart} {owner : ReferenceOwner}
    (apart : part ≠ .reference) : table.IsCountedIn part owner counts clauses ↔
      table.IsCounted counts clauses (part == .column) := by
  cases part <;> first
    | exact .rfl
    | exact absurd rfl apart

/-- What leaves the references as they are keeps the account. -/
theorem Draft.HasCounted.keep (h : draft.HasCounted counts clauses state)
    (keeps : referenceView.Keeps draft after)
    (part : target.part = state.part ∨ target.part = .other ∧ state.part ≠ .reference) :
    after.HasCounted counts clauses target := by
  have owner : after.owner = draft.owner := keeps.part
  rcases part with same | ⟨other, apart⟩
  · refine ⟨fun first => h.opening (same ▸ first),
      fun after => owner ▸ h.children (same ▸ after), fun table found => ?_⟩
    obtain ⟨old, before, view⟩ := keeps.table table found
    obtain ⟨referring, keys⟩ := Prod.mk.inj view
    have counted := h.table old before
    rw [same, owner]
    unfold Table.IsCountedIn at counted ⊢
    split at counted
    · obtain ⟨earlier, less, same, one, counted⟩ := counted
      exact ⟨earlier, less, same, one, counted.congr referring keys id⟩
    · obtain ⟨less, one, counted⟩ := counted
      exact ⟨less, one, counted.congr referring keys id⟩
    · exact counted.congr referring keys id
  · refine ⟨?_, ?_, fun table found => ?_⟩
    · rw [other]
      exact nofun
    · rw [other]
      exact nofun
    · obtain ⟨old, before, view⟩ := keeps.table table found
      obtain ⟨referring, keys⟩ := Prod.mk.inj view
      rw [Table.isCountedIn_iff (by rw [other]; exact nofun), other]
      exact ((Table.isCountedIn_iff apart).1 (h.table old before)).congr referring keys nofun

/-- **What is complete** is in the account. -/
theorem Settles.counted (h : Settles state draft target after)
    (holds : draft.HasCounted counts clauses state) :
    after.HasCounted counts clauses target := by
  have refl : referenceView.Keeps draft draft := .of_statement rfl rfl
  cases h with
  | refl => exact holds
  | @column s draft settled =>
      refine holds.keep refl (.inl ?_)
      cases s <;> first
        | rfl
        | exact absurd settled Bool.false_ne_true
  | constraint start =>
      refine holds.keep refl (.inl ?_)
      rcases start with rfl | rfl <;> rfl
  | firstConstraint => exact holds.keep refl (.inl rfl)
  | key finished => exact holds.keep (referenceView_finishKey finished) (.inl rfl)
  | columnReference settled owner finished =>
      obtain ⟨table, found, ne, rfl⟩ :=
        changeColumn_eq_some (finishReference_column owner finished)
      have counted := holds.table table found
      rw [owner] at counted
      obtain ⟨earlier, before, rfl, rfl, counted⟩ := counted
      refine ⟨nofun, nofun, ?_⟩
      rintro _ ⟨⟩
      exact counted.refer ne fun _ => rfl
  | @tableReference s draft after columns settled owner finished =>
      obtain ⟨table, found, rfl⟩ := changeTable_eq_some (finishReference_table owner finished)
      have counted := holds.table table found
      rw [owner] at counted
      obtain ⟨before, rfl, counted⟩ := counted
      refine ⟨nofun, nofun, ?_⟩
      rintro _ ⟨⟩
      exact counted.enterForeignKey columns _

/-- A step that declares nothing and leaves the references as they are. -/
theorem Draft.HasCounted.silent
    (h : draft.HasCounted (columnReferences past) (referenceClauses past) state)
    (keeps : referenceView.Keeps draft after)
    (part : target.part = state.part ∨ target.part = .other ∧ state.part ≠ .reference)
    (silent : Transition.IsSilent ⟨source, target, token⟩) :
    after.HasCounted (columnReferences (past ++ [⟨source, target, token⟩]))
      (referenceClauses (past ++ [⟨source, target, token⟩])) target := by
  rw [silent.counted.1, silent.counted.2]
  exact h.keep keeps part

/-- Where the draft stays as it is, nothing is declared. -/
theorem passes_part (passes : state.passes target = true) :
    (target.part = state.part ∨ target.part = .other ∧ state.part ≠ .reference) ∧
      target.declares = false := by
  revert passes
  fun_cases State.passes state target <;> intro passes <;> first
    | exact ⟨.inl rfl, rfl⟩
    | exact ⟨.inr ⟨rfl, fun same => StatePart.noConfusion same⟩, rfl⟩
    | exact absurd passes Bool.false_ne_true

/-- A column of a key list is no part of a reference. -/
theorem part_of_keyList {s : ConstraintState}
    (place : s.isBeforeOrder = true ∨ s = .keyOrdered) :
    (State.constraint s).part = .other := by
  rcases place with place | rfl
  · rcases ConstraintState.eq_of_isBeforeOrder place with rfl | rfl <;> rfl
  · rfl

namespace Draft.HasCounted

/-- A table that has just been begun has nothing in its account. -/
theorem beginTable {s : OpeningState}
    (h : draft.HasCounted (columnReferences past) (referenceClauses past) (.opening s)) :
    ({ draft with
        statement := some (.table { Table.new "" with isTemporary := draft.temporary }) } :
      Draft).HasCounted (columnReferences (past ++ [⟨source, .tableName .begun, token⟩]))
        (referenceClauses (past ++ [⟨source, .tableName .begun, token⟩])) (.tableName .begun) := by
  obtain ⟨counts, clauses⟩ := h.opening rfl
  have silent : Transition.IsSilent ⟨source, .tableName .begun, token⟩ := ⟨nofun, nofun⟩
  rw [silent.counted.1, silent.counted.2, counts, clauses]
  refine ⟨nofun, nofun, ?_⟩
  rintro _ ⟨⟩
  exact ⟨rfl, rfl, nofun⟩

/-- A new column enters the account with no reference. -/
theorem addColumn
    (h : draft.HasCounted (columnReferences past) (referenceClauses past) (.column .begun))
    {name : String} (changed : { draft with typeTokens := [] }.changeTable (fun table =>
      { table with columns := table.columns ++ [Column.new name] }) = some after) :
    after.HasCounted (columnReferences (past ++ [⟨.column .begun, .column .type, token⟩]))
      (referenceClauses (past ++ [⟨.column .begun, .column .type, token⟩])) (.column .type) := by
  obtain ⟨table, found, rfl⟩ := changeTable_eq_some changed
  refine ⟨nofun, nofun, ?_⟩
  rintro _ ⟨⟩
  rw [columnReferences_snoc, referenceClauses_snoc]
  exact (h.table table found).addColumn name

/-- A reference that is begun in the definition of a column counts for that column. -/
theorem openReference
    (h : draft.HasCounted (columnReferences past) (referenceClauses past) (.column .constraints))
    (apart : source ≠ .constraint .foreignReferences) :
    (draft.openReference .column).HasCounted
      (columnReferences (past ++ [⟨source, .reference .begun, token⟩]))
      (referenceClauses (past ++ [⟨source, .reference .begun, token⟩])) (.reference .begun) := by
  have clauses : referenceClauses (past ++ [⟨source, .reference .begun, token⟩]) =
      referenceClauses past + 1 := referenceClauses_snoc
  have counts : columnReferences (past ++ [⟨source, .reference .begun, token⟩]) =
      countLast (columnReferences past) := by
    rw [columnReferences_snoc]
    exact countReferences_of_ne apart
  rw [clauses, counts]
  exact ⟨nofun, nofun, fun table found => ⟨_, _, rfl, rfl, h.table table found⟩⟩

/-- A reference that is begun after child columns counts for the table. -/
theorem openForeign
    (h : draft.HasCounted (columnReferences past) (referenceClauses past)
      (.constraint .foreignReferences)) :
    (draft.openReference draft.owner).HasCounted
      (columnReferences
        (past ++ [⟨.constraint .foreignReferences, .reference .begun, token⟩]))
      (referenceClauses (past ++ [⟨.constraint .foreignReferences, .reference .begun, token⟩]))
      (.reference .begun) := by
  have clauses : referenceClauses
      (past ++ [⟨.constraint .foreignReferences, .reference .begun, token⟩]) =
        referenceClauses past + 1 := referenceClauses_snoc
  have counts : columnReferences
      (past ++ [⟨.constraint .foreignReferences, .reference .begun, token⟩]) =
        columnReferences past := columnReferences_snoc
  rw [clauses, counts]
  refine ⟨nofun, nofun, fun table found => ?_⟩
  have counted := h.table table found
  have children := h.children rfl
  change table.IsCountedIn .reference draft.owner _ _
  cases owner : draft.owner with
  | column => exact absurd owner children
  | table columns => exact ⟨_, rfl, counted⟩

/-- Child columns are noted apart from the table, which stays as it is. -/
theorem noteChildren {s : ConstraintState} {columns : List String}
    (h : draft.HasCounted (columnReferences past) (referenceClauses past) state)
    (outside : state.part = .other)
    (target : s = .foreignColumn ∨ s = .foreignColumnName) :
    ({ draft with owner := .table columns } : Draft).HasCounted
      (columnReferences (past ++ [⟨source, .constraint s, token⟩]))
      (referenceClauses (past ++ [⟨source, .constraint s, token⟩])) (.constraint s) := by
  have silent : Transition.IsSilent ⟨source, .constraint s, token⟩ := ⟨nofun, nofun⟩
  rw [silent.counted.1, silent.counted.2]
  refine ⟨?_, fun _ => nofun, fun table found => ?_⟩
  · rcases target with rfl | rfl <;> exact nofun
  · have counted := h.table table found
    rw [outside] at counted
    rcases target with rfl | rfl <;> exact counted

end Draft.HasCounted

/-- **Every token that is taken** is in the account. -/
theorem Takes.counted (h : Takes token rest state draft target after)
    (settles : Settles source before state draft)
    (holds : draft.HasCounted (columnReferences past) (referenceClauses past) state) :
    after.HasCounted (columnReferences (past ++ [⟨source, target, token⟩]))
      (referenceClauses (past ++ [⟨source, target, token⟩])) target := by
  have same : referenceView.Keeps draft draft := .of_statement rfl rfl
  have closed {depth : Nat} {body : List Token} :
      referenceView.Keeps draft { draft with body := body, depth := depth } :=
    .of_statement rfl rfl
  cases h with
  | pass passes =>
      obtain ⟨part, silent⟩ := passes_part passes
      exact holds.silent same part (Transition.isSilent_of_declares silent)
  | nameTable _ _ changed | guardTable changed | tableSchema changed | strict _ changed
  | withoutRowid changed | resolveKey changed =>
      exact holds.silent (same.changeTable changed fun _ => rfl) (.inl rfl) ⟨nofun, nofun⟩
  | nameIndex _ _ changed | guardIndex changed | indexSchema changed | indexTable _ changed
  | terms _ changed | predicate _ _ changed =>
      exact holds.silent (same.changeIndex changed) (.inl rfl) ⟨nofun, nofun⟩
  | orderKey changed | notNull changed | resolveNotNull changed | unique changed
  | resolveUnique changed | default _ changed | collate _ changed | storage changed =>
      exact holds.silent (same.changeColumn changed (referenceView_modifyColumn fun _ => rfl))
        (.inl rfl) ⟨nofun, nofun⟩
  | beginTable => exact holds.beginTable
  | beginIndex => exact ⟨nofun, nofun, by rintro _ ⟨⟩⟩
  | addColumn _ _ changed =>
      cases settles
      exact holds.addColumn changed
  | extendType taken changed =>
      have typed : referenceView.Keeps draft
          { draft with typeTokens := draft.typeTokens ++ [token] } := .of_statement rfl rfl
      have keeps := typed.changeColumn changed (referenceView_modifyColumn fun _ => rfl)
      cases taken with
      | word =>
          -- A word of a type leads from the type into the type.
          cases settles
          exact holds.silent keeps (.inl rfl) ⟨nofun, fun _ => nofun⟩
      | _ => exact holds.silent keeps (.inl rfl) ⟨nofun, nofun⟩
  | beginKey _ _ changed =>
      exact holds.silent (same.changeTable changed fun t => referenceView_setKeyMember t _)
        (.inl rfl) ⟨nofun, nofun⟩
  | @autoincrement s draft after place changed =>
      refine holds.silent (same.changeColumn changed (referenceView_modifyColumn fun _ => rfl))
        (.inl ?_) ⟨nofun, nofun⟩
      rcases ColumnState.eq_of_isAfterKey place with rfl | rfl | rfl <;> rfl
  | temporary | always | notAlways | openPrimary | openUnique | keyColumn | parent
  | parentColumn => exact holds.silent (.of_statement rfl rfl) (.inl rfl) ⟨nofun, nofun⟩
  | openBody opens =>
      cases opens <;> exact holds.silent (.of_statement rfl rfl) (.inl rfl) ⟨nofun, nofun⟩
  | body isBody taken =>
      obtain ⟨depth, -, rfl⟩ := takeBody_eq_none taken
      refine holds.silent closed (.inl rfl) ?_
      rcases State.eq_of_isBody isBody with rfl | rfl | rfl <;> exact ⟨nofun, nofun⟩
  | check closes taken changed =>
      obtain ⟨-, -, -, rfl⟩ := takeBody_eq_some taken
      have keeps := closed.changeTable changed fun _ => rfl
      cases closes <;> exact holds.silent keeps (.inl rfl) ⟨nofun, nofun⟩
  | generated taken changed =>
      obtain ⟨-, -, -, rfl⟩ := takeBody_eq_some taken
      exact holds.silent (closed.changeColumn changed (referenceView_modifyColumn fun _ => rfl))
        (.inl rfl) ⟨nofun, nofun⟩
  | openReference => exact holds.openReference (by cases settles <;> nofun)
  | openForeign =>
      cases settles
      exact holds.openForeign
  | openChildren => exact holds.noteChildren rfl (.inl rfl)
  | child => exact holds.noteChildren rfl (.inr rfl)
  | clause taken =>
      refine holds.silent (.of_statement rfl rfl) (.inl rfl) ⟨?_, nofun⟩
      cases taken <;> nofun
  | keyCollate _ changed =>
      obtain ⟨-, rfl⟩ := changeLastPart_eq_some changed
      exact holds.silent (.of_statement rfl rfl) (.inl rfl) ⟨nofun, nofun⟩
  | keyOrder place changed =>
      obtain ⟨-, rfl⟩ := changeLastPart_eq_some changed
      exact holds.silent (.of_statement rfl rfl) (.inl (part_of_keyList (.inl place)).symm)
        ⟨nofun, nofun⟩
  | keyAutoincrement place =>
      exact holds.silent (.of_statement rfl rfl) (.inl (part_of_keyList place).symm)
        ⟨nofun, nofun⟩
  | keyConflict finished =>
      have keeps := referenceView_finishKey finished
      exact holds.silent ⟨keeps.part, keeps.table⟩ (.inl rfl) ⟨nofun, nofun⟩

end Steps

/-! ### Whole tables -/

/-- No account is open at the end of a statement. -/
theorem part_of_isAccepting {state : State} (accepting : state.isAccepting = true) :
    state.part ≠ .reference := by
  cases state with
  | reference => exact absurd accepting Bool.false_ne_true
  | column s => cases s <;> nofun
  | constraint s => cases s <;> nofun
  | _ => nofun

/-- **The references of a table are those that were declared**, less those that another one in
the definition of the same column replaced: with `n` references in the definition of a column,
`n - 1` are lost. So all are kept if and only if no definition declares two. -/
theorem Table.referenceCount_of_parse {text : String} {table : Table}
    (h : Statement.parse text = .ok (.table table)) :
    let clauses := referenceClauses (Statement.read text).transitions
    let counts := columnReferences (Statement.read text).transitions
    counts.length = table.columns.length ∧ table.referenceCount + surplus counts = clauses ∧
      (table.referenceCount = clauses ↔ ∀ n ∈ counts, n ≤ 1) := by
  let P (past : List Transition) (state : State) (draft : Draft) : Prop :=
    draft.HasCounted (columnReferences past) (referenceClauses past) state
  obtain ⟨target, after, counted, accepting, found⟩ := @parse_invariant_of_steps P text _
    (fun holds settles _ _ takes => takes.counted settles (settles.counted holds))
    ⟨fun _ => ⟨rfl, rfl⟩, nofun, by rintro _ ⟨⟩⟩ h
  have counted :=
    (isCountedIn_iff (part_of_isAccepting accepting)).1 (counted.table table found)
  have balance := counted.balance
  refine ⟨counted.length, balance, ?_⟩
  rw [← surplus_eq_zero_iff]
  omega

/-- A text with three references over one column, two of them in its definition. -/
def Table.referringText : String :=
  "CREATE TABLE t (a REFERENCES p REFERENCES q, FOREIGN KEY (a) REFERENCES r)"

/-- The tokens of the text. -/
def Table.referringTokens : List Token :=
  [keyword .CREATE, keyword .TABLE, Token.name "t", openParen, Token.name "a",
    keyword .REFERENCES, Token.name "p", keyword .REFERENCES, Token.name "q", comma,
    keyword .FOREIGN, keyword .KEY, openParen, Token.name "a", closeParen, keyword .REFERENCES,
    Token.name "r", closeParen]

/-- The table that the text defines. -/
def Table.referringTable : Table where
  name := "t"
  columns := [{ Column.new "a" with references := some ⟨"q", [], ""⟩ }]
  foreignKeys := [⟨["a"], ⟨"r", [], ""⟩⟩]

/-- The text is read as a run over its tokens. -/
theorem Table.read_referringText : Statement.read referringText =
    runWithin referringTokens.length (.opening .start) {} referringTokens := by
  refine read_of_tokenize ?_ (by decide +kernel)
  rw [← Lexer.tokens_toList]
  cbv

/-- The first of three references is lost. -/
theorem Table.referenceCount_of_parse_replaced :
    let clauses := referenceClauses (Statement.read referringText).transitions
    let counts := columnReferences (Statement.read referringText).transitions
    Statement.parse referringText = .ok (.table referringTable) ∧
      clauses = 3 ∧ counts = [2] ∧ referringTable.referenceCount = 2 ∧
      counts.length = referringTable.columns.length ∧
      referringTable.referenceCount + surplus counts = clauses ∧
      (referringTable.referenceCount = clauses ↔ ∀ n ∈ counts, n ≤ 1) := by
  have run : Statement.parse referringText = .ok (.table referringTable) ∧
      referenceClauses (Statement.read referringText).transitions = 3 ∧
      columnReferences (Statement.read referringText).transitions = [2] := by
    rw [Statement.parse, read_referringText]
    decide +kernel
  obtain ⟨parsed, clauses, counts⟩ := run
  exact ⟨parsed, clauses, counts, by decide +kernel, referenceCount_of_parse parsed⟩

end SchemaText
