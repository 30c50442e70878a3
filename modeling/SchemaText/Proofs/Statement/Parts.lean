import SchemaText.Proofs.Statement.Pending
import SchemaText.Proofs.Statement.Reach

/-!
# Parts that a state relies on

Many moves of the statement parser change a part of the draft that has to be there: the table,
the column that is being defined, the last column of a key list. Which parts are there follows
from the state: every step leaves what its target relies on.

## Main definitions

* `State.kind`, `State.namesKeyColumn`, `State.listsChildren`, `Draft.definesColumn`: what a
  state relies on.
* `Draft.HasParts`: the parts that the state relies on are there.

## Main results

* `Settles.hasParts`, `Takes.hasParts`: **every step leaves the parts** that its target
  relies on.
* `Reaches.hasParts`: in every state that is reached the parts are there.
-/

namespace SchemaText

/-! ### What states rely on -/

/-- What is known of the kind of a statement. -/
inductive StatementKind
  /-- Before `TABLE` or `INDEX`. -/
  | unknown
  | table
  | index
  deriving DecidableEq

/-- The kind of statement that a state belongs to. -/
def State.kind : State → StatementKind
  | .opening _ => .unknown
  | .tableName _ | .column _ | .reference _ | .constraint _ | .option _ => .table
  | .indexName _ | .term _ => .index

/-- The states after the name of a column in a key list. -/
def State.namesKeyColumn : State → Bool
  | .constraint .keyColumnName | .constraint .keyCollate | .constraint .keyCollated
  | .constraint .keyOrdered | .constraint .keyEnd | .constraint .keyOn
  | .constraint .keyConflict => true
  | _ => false

/-- The states in the list of child columns of a foreign key, up to `REFERENCES`. -/
def State.listsChildren : State → Bool
  | .constraint .foreignColumn | .constraint .foreignColumnName
  | .constraint .foreignReferences => true
  | _ => false

/-- The state belongs to the definition of a column: it comes after the name of the column, or
in a reference that the column owns. -/
def Draft.definesColumn (draft : Draft) : State → Prop
  | .column s => s ≠ .begun
  | .reference _ => draft.owner = .column
  | _ => False

/-- The parts that the state relies on are there. -/
structure Draft.HasParts (state : State) (draft : Draft) : Prop where
  /-- At first it is not known what is defined. -/
  unknown : state.kind = .unknown → draft.statement = none
  /-- In the definition of a table there is a table. -/
  table : state.kind = .table → ∃ table, draft.statement = some (.table table)
  /-- In the definition of an index there is an index. -/
  index : state.kind = .index → ∃ index, draft.statement = some (.index index)
  /-- In the definition of a column there is a column. -/
  column : draft.definesColumn state →
    ∃ table, draft.statement = some (.table table) ∧ table.columns ≠ []
  /-- After the name of a column in a key list, the list is not empty. -/
  key : state.namesKeyColumn = true → draft.key.columns ≠ []
  /-- Child columns belong to the table. -/
  children : state.listsChildren = true → ∃ columns, draft.owner = .table columns
  /-- In a condition or rule its own parenthesis is open. -/
  depth : state.isBody = true → 1 ≤ draft.depth

section Steps

variable {state target : State} {draft after : Draft} {token : Token} {rest : List Token}
  {table : Table}

namespace Draft.HasParts

/-- With a table, only the parts that are being read are left to look at. -/
theorem ofTable (kind : target.kind = .table) (found : after.statement = some (.table table))
    (column : after.definesColumn target → table.columns ≠ [])
    (key : target.namesKeyColumn = true → after.key.columns ≠ [])
    (children : target.listsChildren = true → ∃ columns, after.owner = .table columns)
    (depth : target.isBody = true → 1 ≤ after.depth) : after.HasParts target where
  unknown := by simp [kind]
  table := fun _ => ⟨table, found⟩
  index := by simp [kind]
  column := fun defines => ⟨table, found, column defines⟩
  key := key
  children := children
  depth := depth

/-- In the definition of an index nothing but the index is relied on. -/
theorem ofIndex {index : Index} (kind : target.kind = .index)
    (found : after.statement = some (.index index)) : after.HasParts target := by
  have apart {s : State} (kind : s.kind = .index) : s.namesKeyColumn = false ∧
      s.listsChildren = false ∧ s.isBody = false ∧ ¬after.definesColumn s := by
    cases s <;> first
      | exact ⟨rfl, rfl, rfl, id⟩
      | exact StatementKind.noConfusion kind
  obtain ⟨key, children, depth, column⟩ := apart kind
  exact ⟨by simp [kind], by simp [kind], fun _ => ⟨index, found⟩, fun h => absurd h column,
    by simp [key], by simp [children], by simp [depth]⟩

/-- Where the statement stays, only the parts that are being read are left to look at. -/
theorem keep (h : draft.HasParts state) (same : after.statement = draft.statement)
    (kind : target.kind = state.kind)
    (column : after.definesColumn target → draft.definesColumn state)
    (key : target.namesKeyColumn = true → after.key.columns ≠ [])
    (children : target.listsChildren = true → ∃ columns, after.owner = .table columns)
    (depth : target.isBody = true → 1 ≤ after.depth) : after.HasParts target where
  unknown := fun unknown => same ▸ h.unknown (kind ▸ unknown)
  table := fun isTable => same ▸ h.table (kind ▸ isTable)
  index := fun isIndex => same ▸ h.index (kind ▸ isIndex)
  column := fun defines => same ▸ h.column (column defines)
  key := key
  children := children
  depth := depth

end Draft.HasParts

/-- Where the draft stays as it is, no more is relied on than before. -/
theorem passes_parts (passes : state.passes target = true) :
    target.kind = state.kind ∧ (draft.definesColumn target → draft.definesColumn state) ∧
      (target.namesKeyColumn = true → state.namesKeyColumn = true) ∧
      (target.listsChildren = true → state.listsChildren = true) ∧ target.isBody = false := by
  revert passes
  fun_cases State.passes state target <;> intro passes <;> first
    | exact absurd passes Bool.false_ne_true
    | refine ⟨rfl, ?_, ?_, ?_, rfl⟩ <;> first
        | exact id
        | exact fun _ => rfl
        | exact False.elim
        | exact fun _ begun => ColumnState.noConfusion begun
        | exact fun begun => absurd rfl begun

/-- A token of a condition or rule leaves its own parenthesis open. -/
theorem BodyStep.pos {depth later : Nat} (h : BodyStep token depth later)
    (before : 1 ≤ depth) :
    1 ≤ later := by
  cases h with
  | «open» => exact Nat.le_add_left 1 _
  | close => exact Nat.le_add_left 1 _
  | other => exact before

/-- A change of the last column leaves the columns. -/
theorem hasParts_changeColumn {f : Column → Column}
    (changed : draft.changeColumn f = some after)
    (kind : target.kind = .table) (key : target.namesKeyColumn = false)
    (children : target.listsChildren = false) (depth : target.isBody = false) :
    after.HasParts target := by
  obtain ⟨table, found, ne, rfl⟩ := changeColumn_eq_some changed
  refine .ofTable kind rfl (fun _ => modify_ne_nil ne) ?_ ?_ ?_
  · simp [key]
  · simp [children]
  · simp [depth]

/-- A complete key list leaves a table. -/
theorem hasParts_finishKey (finished : draft.finishKey = (after, none)) :
    after.HasParts (.constraint .done) := by
  obtain ⟨table, entered, -, rfl, -⟩ := finishKey_eq_none finished
  exact .ofTable rfl rfl nofun nofun nofun nofun

/-- **What is complete leaves the parts** that the next token relies on. -/
theorem Settles.hasParts (h : Settles state draft target after)
    (parts : draft.HasParts state) :
    after.HasParts target := by
  cases h with
  | refl => exact parts
  | @column s draft settled =>
      refine parts.keep rfl rfl (fun _ => ?_) nofun nofun nofun
      rintro rfl
      exact absurd settled Bool.false_ne_true
  | constraint | firstConstraint => exact parts.keep rfl rfl nofun nofun nofun nofun
  | key finished => exact hasParts_finishKey finished
  | columnReference _ owner finished =>
      exact hasParts_changeColumn (finishReference_column owner finished) rfl rfl rfl rfl
  | tableReference _ owner finished =>
      obtain ⟨table, -, rfl⟩ := changeTable_eq_some (finishReference_table owner finished)
      exact .ofTable rfl rfl nofun nofun nofun nofun

/-- **Every token that is taken leaves the parts** that its target relies on. -/
theorem Takes.hasParts (h : Takes token rest state draft target after)
    (parts : draft.HasParts state) : after.HasParts target := by
  cases h with
  | pass passes =>
      obtain ⟨kind, column, key, children, depth⟩ := @passes_parts _ _ draft passes
      refine parts.keep rfl kind column (fun named => parts.key (key named))
        (fun listed => parts.children (children listed)) ?_
      simp [depth]
  | temporary => exact parts.keep rfl rfl nofun nofun nofun nofun
  | beginTable => exact .ofTable rfl rfl nofun nofun nofun nofun
  | beginIndex => exact .ofIndex rfl rfl
  | nameTable _ _ changed | guardTable changed | tableSchema changed | strict _ changed
  | withoutRowid changed =>
      obtain ⟨table, -, rfl⟩ := changeTable_eq_some changed
      exact .ofTable rfl rfl nofun nofun nofun nofun
  | nameIndex _ _ changed | guardIndex changed | indexSchema changed | indexTable _ changed
  | terms _ changed | predicate _ _ changed =>
      obtain ⟨index, -, rfl⟩ := changeIndex_eq_some changed
      exact .ofIndex rfl rfl
  | addColumn _ _ changed =>
      obtain ⟨table, -, rfl⟩ := changeTable_eq_some changed
      exact .ofTable rfl rfl (fun _ => by simp) nofun nofun nofun
  | extendType taken changed =>
      cases taken <;> exact hasParts_changeColumn changed rfl rfl rfl rfl
  | orderKey changed | autoincrement _ changed | notNull changed | resolveNotNull changed
  | unique changed | resolveUnique changed | default _ changed | collate _ changed
  | storage changed | generated _ changed =>
      exact hasParts_changeColumn changed rfl rfl rfl rfl
  | beginKey found ne changed =>
      obtain ⟨table, same, rfl⟩ := changeTable_eq_some changed
      obtain rfl : _ = table := table_unique found same
      refine .ofTable rfl rfl (fun _ => ?_) nofun nofun nofun
      rwa [← List.length_pos_iff, Table.length_setKeyMember, List.length_pos_iff]
  | resolveKey changed =>
      obtain ⟨table, found, ne⟩ := parts.column nofun
      obtain ⟨same, again, rfl⟩ := changeTable_eq_some changed
      obtain rfl : table = same := table_unique found again
      exact .ofTable rfl rfl (fun _ => ne) nofun nofun nofun
  | always | notAlways => exact parts.keep rfl rfl (fun _ => nofun) nofun nofun nofun
  | openBody opens =>
      cases opens with
      | columnCheck | generated =>
          exact parts.keep rfl rfl (fun _ => nofun) nofun nofun fun _ => Nat.le_refl 1
      | tableCheck => exact parts.keep rfl rfl nofun nofun nofun fun _ => Nat.le_refl 1
  | body isBody taken =>
      obtain ⟨depth, step, rfl⟩ := takeBody_eq_none taken
      refine parts.keep rfl rfl ?_ parts.key parts.children fun _ =>
        step.pos (parts.depth isBody)
      cases state <;> exact id
  | check closes taken changed =>
      obtain ⟨-, -, -, rfl⟩ := takeBody_eq_some taken
      obtain ⟨table, found, rfl⟩ := changeTable_eq_some changed
      cases closes with
      | column =>
          obtain ⟨same, again, ne⟩ := parts.column nofun
          obtain rfl : same = table := table_unique again found
          exact .ofTable rfl rfl (fun _ => ne) nofun nofun nofun
      | table => exact .ofTable rfl rfl nofun nofun nofun nofun
  | openReference => exact parts.keep rfl rfl (fun _ => nofun) nofun nofun nofun
  | openForeign =>
      obtain ⟨columns, owner⟩ := parts.children rfl
      refine parts.keep rfl rfl (fun column => ?_) nofun nofun nofun
      exact absurd (owner.symm.trans column) nofun
  | parent | parentColumn | clause => exact parts.keep rfl rfl id nofun nofun nofun
  | openPrimary | openUnique => exact parts.keep rfl rfl nofun nofun nofun nofun
  | keyColumn => exact parts.keep rfl rfl nofun (fun _ => by simp) nofun nofun
  | keyCollate _ changed | keyOrder _ changed =>
      obtain ⟨ne, rfl⟩ := changeLastPart_eq_some changed
      exact parts.keep rfl rfl nofun (fun _ => modify_ne_nil ne) nofun nofun
  | @keyAutoincrement s draft place =>
      refine parts.keep rfl rfl nofun (fun _ => parts.key ?_) nofun nofun
      rcases place with place | rfl
      · rcases ConstraintState.eq_of_isBeforeOrder place with rfl | rfl <;> rfl
      · rfl
  | keyConflict finished => exact hasParts_finishKey finished
  | openChildren => exact parts.keep rfl rfl nofun nofun (fun _ => ⟨_, rfl⟩) nofun
  | child => exact parts.keep rfl rfl nofun nofun (fun _ => ⟨_, rfl⟩) nofun

end Steps

/-- **In every state that is reached the parts are there** that it relies on. -/
theorem Reaches.hasParts {text : String} {past : List Transition} {state : State}
    {draft : Draft}
    {tokens : List Token} (h : Reaches text past state draft tokens) : draft.HasParts state :=
  h.invariant (P := fun _ state draft => draft.HasParts state)
    ⟨fun _ => rfl, nofun, nofun, nofun, nofun, nofun, nofun⟩
    fun parts settles _ _ takes => takes.hasParts (settles.hasParts parts)

end SchemaText
