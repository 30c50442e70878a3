import SchemaText.Proofs.Table.Contents

/-!
# How a table that was read is arranged

Columns are defined before anything is declared for the table as a whole, each with its type
first. What can be said of one column is said there: a unique key or a foreign key of the table
is never one that a column could declare.

## Main definitions

* `IsType`: texts that are read again as types.
* `Table.IsArranged`: types are whole, and keys of the table are no keys of a column.

## Main results

* `Settles.arranged`, `Takes.arranged`: **every step keeps the table arranged**.
-/

namespace SchemaText

open Token

/-! ### Outlines -/

/-- What the arrangement of a table depends on: the name, the type and whether there is a
reference. -/
def Column.outline (column : Column) : String × String × Bool :=
  (column.name, column.type, column.references.isSome)

section Outline

variable {table other : Table} {columns : List KeyPart} {names : List String}

/-- A name is looked up alike in tables with the same column names. -/
theorem columnIndex?_congr (same : other.columnNames = table.columnNames) (name : String) :
    other.columnIndex? name = table.columnIndex? name := by
  have named (t : Table) :
      t.columnIndex? name = t.columnNames.findIdx? (Text.same · name) := by
    rw [Table.columnIndex?, Table.columnNames, List.findIdx?_map]
    rfl
  rw [named, named, same]

/-- What a change of one column keeps, the list of columns keeps. -/
theorem map_modifyColumn {β : Type} {g : Column → β} {f : Column → Column}
    (h : ∀ c, g (f c) = g c) (table : Table) (i : Nat) :
    (table.modifyColumn i f).columns.map g = table.columns.map g :=
  map_modify_eq h table.columns i

/-- A change that keeps the name of a column keeps the names of all. -/
theorem columnNames_modifyColumn {f : Column → Column} (h : ∀ c, (f c).name = c.name)
    (table : Table) (i : Nat) : (table.modifyColumn i f).columnNames = table.columnNames :=
  map_modifyColumn h table i

/-- A change that keeps the type of a column brings in no type. -/
theorem mem_types_of_modifyColumn {f : Column → Column} {i : Nat} {text : String}
    (member : text ∈ (table.modifyColumn i f).columns.map (·.type))
    (h : ∀ c, (f c).type = c.type) : text ∈ table.columns.map (·.type) := by
  rwa [map_modifyColumn h] at member

/-- The key does not matter to the outline. -/
theorem outline_of_unkeyed {columns others : List Column}
    (same : others.map Column.unkeyed = columns.map Column.unkeyed) :
    others.map Column.outline = columns.map Column.outline := by
  have outlines := congrArg (List.map Column.outline) same
  rwa [List.map_map, List.map_map] at outlines

/-- An edit of the key changes no unique and no foreign key. -/
theorem Table.keys_setKeyMember (table : Table) (i : Nat) (member : Bool) :
    (table.setKeyMember i member).uniques = table.uniques ∧
      (table.setKeyMember i member).foreignKeys = table.foreignKeys := by
  obtain ⟨columns, key, same⟩ := setKeyMember_frame table i member
  rw [same]
  exact ⟨rfl, rfl⟩

/-- Columns of the same outlines have the same names. -/
theorem columnNames_eq_of_outline
    (same : other.columns.map Column.outline = table.columns.map Column.outline) :
    other.columnNames = table.columnNames := by
  have names (t : Table) : t.columnNames = (t.columns.map Column.outline).map Prod.fst := by
    rw [List.map_map]
    rfl
  rw [names, names, same]

/-- Whether a list is one column depends on the column names alone. -/
theorem loneColumn?_congr (same : other.columnNames = table.columnNames) :
    Draft.loneColumn? columns other = Draft.loneColumn? columns table := by
  unfold Draft.loneColumn?
  split
  · rw [columnIndex?_congr same]
  · rfl

/-- A column is no lone child: it has another name, or it has a reference. -/
theorem loneChild?_eq_none_iff : Draft.loneChild? names table = none ↔
    ∀ name, names = [name] → ∀ i, table.columnIndex? name = some i →
      ∀ c, table.columns[i]? = some c → c.references.isSome = true := by
  unfold Draft.loneChild?
  split
  · rename_i name
    refine ⟨?_, fun h => ?_⟩
    · rintro h _ ⟨⟩ i found c position
      rw [found] at h
      dsimp only at h
      rw [position, Option.any_some] at h
      cases references : c.references with
      | none => simp [references] at h
      | some reference => rfl
    · split
      · rename_i i found
        split
        · rename_i free
          cases position : table.columns[i]? with
          | none => simp [position] at free
          | some c =>
              have references := h name rfl i found c position
              rw [position, Option.any_some, Option.isNone_iff_eq_none] at free
              simp [free] at references
        · rfl
      · rfl
  · rename_i other
    refine ⟨fun _ name single => ?_, fun _ => rfl⟩
    exact absurd single (other name)

/-- With the same names and no reference lost, no column becomes a lone child. -/
theorem loneChild?_mono (same : other.columnNames = table.columnNames)
    (keeps : ∀ (i : Nat) (c d : Column), table.columns[i]? = some c →
      other.columns[i]? = some d →
      c.references.isSome = true → d.references.isSome = true)
    (h : Draft.loneChild? names table = none) : Draft.loneChild? names other = none := by
  rw [loneChild?_eq_none_iff] at h ⊢
  intro name single i found d position
  rw [columnIndex?_congr same] at found
  have length : other.columns.length = table.columns.length := by
    simpa [Table.columnNames] using congrArg List.length same
  have bound : i < table.columns.length := by
    have := (List.getElem?_eq_some_iff.1 position).1
    omega
  exact keeps i _ d (List.getElem?_eq_getElem bound) position
    (h name single i found _ (List.getElem?_eq_getElem bound))

/-- Only the outlines of the columns matter to lone children. -/
theorem loneChild?_of_outline
    (same : other.columns.map Column.outline = table.columns.map Column.outline)
    (h : Draft.loneChild? names table = none) : Draft.loneChild? names other = none := by
  refine loneChild?_mono (columnNames_eq_of_outline same) (fun i c d old new some => ?_) h
  have outline := congrArg (·[i]?) same
  simp only [List.getElem?_map, old, new, Option.map_some, Option.some.injEq] at outline
  have references : d.references.isSome = c.references.isSome := congrArg (·.2.2) outline
  rw [references, some]

end Outline

/-! ### Arrangements -/

/-- The text of a type. -/
def IsType (text : String) : Prop :=
  ∃ s ts, (s = .type ∨ s = .constraints) ∧ text = render ts ∧ TypePath s ts ∧
    ∀ t ∈ ts, t.IsWellSpelled

/-- The types are whole, except for the one that is being read. -/
def TypesUpTo (state : State) (tokens : List Token) (types : List String) : Prop :=
  let unfinished (s : ColumnState) : Prop :=
    ∃ before, types = before ++ [render tokens] ∧ (∀ text ∈ before, IsType text) ∧
      TypePath s tokens ∧ ∀ t ∈ tokens, t.IsWellSpelled
  match state with
  | .column .type => unfinished .type
  | .column (.width second part) => unfinished (.width second part)
  | _ => ∀ text ∈ types, IsType text

/-- Nothing has been declared for the table as a whole. -/
def Draft.InColumns (state : State) (draft : Draft) : Prop :=
  match state with
  | .tableName _ | .column _ => True
  | .reference _ | .constraint .foreignColumnName | .constraint .foreignReferences =>
    draft.owner = .column
  | _ => False

/-- How a table is arranged in a state. -/
structure Table.IsArranged (state : State) (draft : Draft) (table : Table) : Prop where
  /-- The types are whole. -/
  types : TypesUpTo state draft.typeTokens (table.columns.map (·.type))
  /-- The table has no keys while columns are defined. -/
  keyless : draft.InColumns state → table.uniques = [] ∧ table.foreignKeys = []
  /-- No unique key of the table could be one of a column. -/
  uniques : ∀ key ∈ table.uniques, Draft.loneColumn? key.columns table = none
  /-- No foreign key of the table could be one of a column. -/
  foreignKeys : ∀ key ∈ table.foreignKeys, Draft.loneChild? key.columns table = none

/-- The table of the draft, if there is one, is arranged. -/
def Draft.IsArranged (state : State) (draft : Draft) : Prop :=
  ∀ table, draft.statement = some (.table table) → table.IsArranged state draft

section Steps

variable {state target : State} {draft after : Draft} {token : Token} {rest : List Token}
  {table other : Table}

/-- Only the outlines and the keys of the table matter. -/
theorem Table.IsArranged.congr (h : table.IsArranged state draft)
    (same : other.columns.map Column.outline = table.columns.map Column.outline)
    (uniques : other.uniques = table.uniques)
    (foreignKeys : other.foreignKeys = table.foreignKeys)
    (types : TypesUpTo state draft.typeTokens (table.columns.map (·.type)) →
      TypesUpTo target after.typeTokens (table.columns.map (·.type)))
    (phase : after.InColumns target → draft.InColumns state) :
    other.IsArranged target after := by
  have names := columnNames_eq_of_outline same
  have type (t : Table) :
      t.columns.map (·.type) = (t.columns.map Column.outline).map (·.2.1) := by
    rw [List.map_map]
    rfl
  constructor
  · rw [type, same, ← type]
    exact types h.types
  · intro early
    rw [uniques, foreignKeys]
    exact h.keyless (phase early)
  · intro key member
    rw [loneColumn?_congr names]
    exact h.uniques key (uniques ▸ member)
  · intro key member
    exact loneChild?_of_outline same (h.foreignKeys key (foreignKeys ▸ member))

/-- While the table has no keys, only the types matter. -/
theorem Table.IsArranged.of_types
    (types : TypesUpTo state draft.typeTokens (table.columns.map (·.type)))
    (uniques : table.uniques = []) (foreignKeys : table.foreignKeys = []) :
    table.IsArranged state draft where
  types := types
  keyless _ := ⟨uniques, foreignKeys⟩
  uniques key member := absurd (uniques ▸ member : key ∈ []) (by simp)
  foreignKeys key member := absurd (foreignKeys ▸ member : key ∈ []) (by simp)

/-- The types of the columns after the type of the last one was changed. -/
theorem Table.map_type_modifyColumn {before : List String} {old text : String}
    (f : Column → Column) (same : table.columns.map (·.type) = before ++ [old])
    (typed : ∀ c, (f c).type = text) :
    (table.modifyColumn (table.columns.length - 1) f).columns.map (·.type) =
      before ++ [text] := by
  have ne : table.columns ≠ [] := by
    intro none
    rw [none] at same
    exact absurd same.symm (by simp)
  obtain ⟨columns, last, split, changed⟩ := table.modifyColumn_last ne f
  have types : columns.map (·.type) = before := by
    rw [split, List.map_append] at same
    exact (List.append_inj' same rfl).1
  rw [changed, List.map_append, types, List.map_singleton, typed]

/-- A change of the table keeps the draft arranged if it keeps the table so. -/
theorem arranged_changeTable {g : Table → Table} (h : draft.changeTable g = some after)
    (holds : draft.IsArranged state)
    (keeps : ∀ table : Table, table.IsArranged state draft → (g table).IsArranged target after) :
    after.IsArranged target := by
  obtain ⟨table, found, rfl⟩ := changeTable_eq_some h
  rintro _ ⟨⟩
  exact keeps table (holds table found)

/-- A change of the last column that keeps its outline. -/
theorem arranged_changeColumn {f : Column → Column} (h : draft.changeColumn f = some after)
    (holds : draft.IsArranged state) (keeps : ∀ c, (f c).outline = c.outline)
    (types : ∀ types, TypesUpTo state draft.typeTokens types →
      TypesUpTo target after.typeTokens types)
    (phase : after.InColumns target → draft.InColumns state) : after.IsArranged target := by
  obtain ⟨table, found, -, rfl⟩ := changeColumn_eq_some h
  rintro _ ⟨⟩
  exact (holds table found).congr (map_modifyColumn keeps _ _) rfl rfl (types _) phase

/-- A key list that is put into the table keeps its outline, or is no key of a column. -/
theorem arranged_finishKey (h : draft.finishKey = (after, none))
    (holds : draft.IsArranged state)
    (types : ∀ types, TypesUpTo state draft.typeTokens types → ∀ text ∈ types, IsType text) :
    after.IsArranged (.constraint .done) := by
  obtain ⟨table, entered, found, rfl, cases⟩ := finishKey_eq_none h
  have arranged := holds table found
  rintro _ ⟨⟩
  rcases cases with ⟨-, members, entering, rfl⟩ | ⟨-, rfl⟩
  · have same := Draft.map_unkeyed_enterKey draft.key.autoincrement draft.key.columns table
    rw [entering] at same
    have others : members.uniques = table.uniques ∧
        members.foreignKeys = table.foreignKeys := by
      have : (Draft.enterKey draft.key.autoincrement draft.key.columns table).1.uniques =
            table.uniques ∧
          (Draft.enterKey draft.key.autoincrement draft.key.columns table).1.foreignKeys =
            table.foreignKeys := Draft.enterKey_induction
        (P := fun t => t.uniques = table.uniques ∧ t.foreignKeys = table.foreignKeys)
        (fun part t i _ same => by
          obtain ⟨uniques, foreignKeys⟩ := t.keys_setKeyMember i true
          exact ⟨uniques.trans same.1, foreignKeys.trans same.2⟩) draft.key.columns ⟨rfl, rfl⟩
      rwa [entering] at this
    exact arranged.congr (outline_of_unkeyed same) others.1 others.2 (types _) False.elim
  · obtain ⟨i, -, put⟩ | ⟨none, put⟩ := Draft.enterUnique_cases draft.key table <;> rw [put]
    · refine arranged.congr ?_ rfl rfl (types _) False.elim
      exact map_modifyColumn (by exact fun _ => rfl) table i
    · exact ⟨types _ arranged.types, False.elim, List.forall_mem_append.2
        ⟨arranged.uniques, List.forall_mem_singleton.2 none⟩, arranged.foreignKeys⟩

/-- A reference that is given to a column takes no column from a foreign key. -/
theorem loneChild?_modifyColumn {names : List String} {i : Nat} {reference : Reference}
    (h : Draft.loneChild? names table = none) :
    Draft.loneChild? names (table.modifyColumn i
      fun column => { column with references := some reference }) = none := by
  refine loneChild?_mono ?_ (fun j c d old new some => ?_) h
  · exact columnNames_modifyColumn (by exact fun _ => rfl) _ _
  change (table.columns.modify i _)[j]? = _ at new
  rw [List.getElem?_modify, old] at new
  obtain rfl := Option.some.inj new
  dsimp only
  split
  · rfl
  · exact some

/-- What is complete has been arranged. -/
theorem Settles.arranged (h : Settles state draft target after)
    (holds : draft.IsArranged state) :
    after.IsArranged target := by
  cases h with
  | refl => exact holds
  | @column s draft settled =>
      refine fun table found => (holds table found).congr rfl rfl rfl (fun types => ?_) id
      cases s with
      | type =>
          obtain ⟨before, same, whole, path, valid⟩ := types
          rw [same]
          exact List.forall_mem_append.2
            ⟨whole, List.forall_mem_singleton.2 ⟨_, _, .inl rfl, rfl, path, valid⟩⟩
      | width => exact absurd settled Bool.false_ne_true
      | _ => exact types
  | @constraint s =>
      exact fun table found => (holds table found).congr rfl rfl rfl id False.elim
  | firstConstraint =>
      exact fun table found => (holds table found).congr rfl rfl rfl id False.elim
  | key finished => exact arranged_finishKey finished holds fun _ => id
  | @columnReference s draft after settled owner finished =>
      obtain ⟨table, found, -, rfl⟩ :=
        changeColumn_eq_some (finishReference_column owner finished)
      have arranged := holds table found
      rintro _ ⟨⟩
      obtain ⟨uniques, foreignKeys⟩ := arranged.keyless owner
      refine .of_types (fun text member => ?_) uniques foreignKeys
      exact arranged.types text (mem_types_of_modifyColumn member fun _ => rfl)
  | @tableReference s draft after columns settled owner finished =>
      obtain ⟨table, found, rfl⟩ := changeTable_eq_some (finishReference_table owner finished)
      have arranged := holds table found
      rintro _ ⟨⟩
      obtain ⟨i, -, put⟩ | ⟨none, put⟩ := Draft.enterForeignKey_cases _ _ table <;> rw [put]
      · refine ⟨?_, False.elim, ?_, ?_⟩
        · exact fun text member =>
            arranged.types text (mem_types_of_modifyColumn member fun _ => rfl)
        · intro key member
          refine (loneColumn?_congr ?_).trans (arranged.uniques key member)
          exact columnNames_modifyColumn (by exact fun _ => rfl) _ _
        · exact fun key member => loneChild?_modifyColumn (arranged.foreignKeys key member)
      · exact ⟨arranged.types, False.elim, arranged.uniques, List.forall_mem_append.2
          ⟨arranged.foreignKeys, List.forall_mem_singleton.2 none⟩⟩

/-- Where the draft stays as it is, types that were whole stay whole. -/
theorem typesUpTo_passes (passes : state.passes target = true) {tokens : List Token}
    {types : List String} (holds : TypesUpTo state tokens types) :
    TypesUpTo target tokens types := by
  revert passes
  fun_cases State.passes state target <;> intro passes <;> first
    | exact holds
    | exact absurd passes Bool.false_ne_true

/-- Once something was declared for the table, no column follows. -/
theorem inColumns_passes (passes : state.passes target = true)
    (columns : draft.InColumns target) : draft.InColumns state := by
  revert passes
  fun_cases State.passes state target <;> intro passes <;> first
    | exact columns
    | trivial

/-- A token of a type is read in a type. -/
theorem TypeStep.typesUpTo {tokens : List Token} {types : List String} {s t : ColumnState}
    (h : TypeStep tokens token s t) : TypesUpTo (.column s) tokens types ↔
      ∃ before, types = before ++ [render tokens] ∧ (∀ text ∈ before, IsType text) ∧
        TypePath s tokens ∧ ∀ t ∈ tokens, t.IsWellSpelled := by
  cases h <;> exact .rfl

/-- A token of a type goes on with the type, or ends it. -/
theorem TypeStep.typesUpTo_append {tokens : List Token} {before : List String}
    {s t : ColumnState} (h : TypeStep tokens token s t) (whole : ∀ text ∈ before, IsType text)
    (path : TypePath t (tokens ++ [token]))
    (valid : ∀ t ∈ tokens ++ [token], t.IsWellSpelled) :
    TypesUpTo (.column t) (tokens ++ [token]) (before ++ [render (tokens ++ [token])]) := by
  have unfinished : ∃ before', before ++ [render (tokens ++ [token])] =
      before' ++ [render (tokens ++ [token])] ∧ (∀ text ∈ before', IsType text) ∧
        TypePath t (tokens ++ [token]) ∧ ∀ t ∈ tokens ++ [token], t.IsWellSpelled :=
    ⟨before, rfl, whole, path, valid⟩
  cases h with
  | close =>
      exact List.forall_mem_append.2
        ⟨whole, List.forall_mem_singleton.2 ⟨_, _, .inr rfl, rfl, path, valid⟩⟩
  | _ => exact unfinished

/-- A new column has no type yet, and the types before it are whole. -/
theorem arranged_addColumn {name : String}
    (changed : { draft with typeTokens := [] }.changeTable (fun table =>
      { table with columns := table.columns ++ [Column.new name] }) = some after)
    (holds : draft.IsArranged (.column .begun)) : after.IsArranged (.column .type) := by
  obtain ⟨table, found, rfl⟩ := changeTable_eq_some changed
  have arranged := holds table found
  rintro _ ⟨⟩
  obtain ⟨uniques, foreignKeys⟩ := arranged.keyless trivial
  exact .of_types ⟨_, List.map_append, arranged.types, .nil, by simp⟩ uniques foreignKeys

/-- A token of a type goes to the type of the last column. -/
theorem arranged_extendType {s t : ColumnState} (taken : TypeStep draft.typeTokens token s t)
    (lexed : token.IsLexed)
    (changed : { draft with typeTokens := draft.typeTokens ++ [token] }.changeColumn
      (fun column => { column with type := render (draft.typeTokens ++ [token]) }) = some after)
    (holds : draft.IsArranged (.column s)) : after.IsArranged (.column t) := by
  obtain ⟨table, found, -, rfl⟩ := changeColumn_eq_some changed
  have arranged := holds table found
  rintro _ ⟨⟩
  obtain ⟨before, same, whole, path, valid⟩ := taken.typesUpTo.1 arranged.types
  obtain ⟨uniques, foreignKeys⟩ := arranged.keyless trivial
  refine .of_types ?_ uniques foreignKeys
  have types := Table.map_type_modifyColumn
    (fun c => { c with type := render (draft.typeTokens ++ [token]) }) same fun _ => rfl
  rw [types]
  exact taken.typesUpTo_append whole (.snoc path taken) (List.forall_mem_append.2
    ⟨valid, List.forall_mem_singleton.2 (lexed taken.kind_ne_invalid)⟩)

/-- **Every token that is taken keeps the table arranged.** -/
theorem Takes.arranged (h : Takes token rest state draft target after) (lexed : token.IsLexed)
    (holds : draft.IsArranged state) : after.IsArranged target := by
  have closed :
      ({ draft with body := [], depth := draft.depth - 1 } : Draft).IsArranged state :=
    fun table found => (holds table found).congr rfl rfl rfl id id
  cases h with
  | pass passes =>
      exact fun table found => (holds table found).congr rfl rfl rfl (typesUpTo_passes passes)
        (inColumns_passes passes)
  | beginTable =>
      rintro _ ⟨⟩
      exact .of_types (fun _ member => absurd member (by simp [Table.new])) rfl rfl
  | beginIndex => rintro _ ⟨⟩
  | nameTable _ _ changed | guardTable changed | tableSchema changed =>
      exact arranged_changeTable changed holds fun table arranged =>
        arranged.congr rfl rfl rfl id fun _ => trivial
  | strict _ changed | withoutRowid changed =>
      exact arranged_changeTable changed holds fun table arranged =>
        arranged.congr rfl rfl rfl id False.elim
  | nameIndex _ _ changed | guardIndex changed | indexSchema changed | indexTable _ changed
  | terms _ changed | predicate _ _ changed =>
      obtain ⟨index, -, rfl⟩ := changeIndex_eq_some changed
      rintro _ ⟨⟩
  | addColumn _ _ changed => exact arranged_addColumn changed holds
  | extendType taken changed => exact arranged_extendType taken lexed changed holds
  | beginKey found ne changed =>
      refine arranged_changeTable changed holds fun table arranged => ?_
      obtain ⟨uniques, foreignKeys⟩ := Table.keys_setKeyMember table _ true
      exact arranged.congr (outline_of_unkeyed (table.map_unkeyed_setKeyMember _ true)) uniques
        foreignKeys id fun _ => trivial
  | orderKey changed | notNull changed | collate _ changed | resolveNotNull changed
  | unique changed | resolveUnique changed | default _ changed | storage changed =>
      exact arranged_changeColumn changed holds (fun _ => rfl) (fun _ => id) fun _ => trivial
  | @autoincrement s draft after place changed =>
      refine arranged_changeColumn changed holds (fun _ => rfl) (fun _ whole => ?_) fun _ => trivial
      rcases ColumnState.eq_of_isAfterKey place with rfl | rfl | rfl <;> exact whole
  | resolveKey changed =>
      exact arranged_changeTable changed holds fun table arranged =>
        arranged.congr rfl rfl rfl id fun _ => trivial
  | openBody opens =>
      refine fun table found => (holds table found).congr rfl rfl rfl ?_ ?_
      · cases opens <;> exact id
      · cases opens <;> exact id
  | body isBody taken =>
      obtain ⟨depth, -, rfl⟩ := takeBody_eq_none taken
      exact fun table found => (holds table found).congr rfl rfl rfl id id
  | check closes taken changed =>
      obtain ⟨-, -, -, rfl⟩ := takeBody_eq_some taken
      refine arranged_changeTable changed closed fun table arranged => ?_
      cases closes with
      | column => exact arranged.congr rfl rfl rfl id id
      | table => exact arranged.congr rfl rfl rfl id id
  | generated taken changed =>
      obtain ⟨-, -, -, rfl⟩ := takeBody_eq_some taken
      exact arranged_changeColumn changed closed (fun _ => rfl) (fun _ => id) fun _ => trivial
  | keyCollate _ changed | keyOrder _ changed =>
      obtain ⟨-, rfl⟩ := changeLastPart_eq_some changed
      exact fun table found => (holds table found).congr rfl rfl rfl id False.elim
  | @keyConflict draft after action finished =>
      have closed : ({ draft with key := { draft.key with conflict := some action } } :
          Draft).IsArranged (.constraint .keyConflict) :=
        fun table found => (holds table found).congr rfl rfl rfl id id
      exact arranged_finishKey finished closed fun _ => id
  | keyColumn | keyAutoincrement | openPrimary | openUnique | openChildren =>
      exact fun table found => (holds table found).congr rfl rfl rfl id False.elim
  | child =>
      refine fun table found => (holds table found).congr rfl rfl rfl id fun early => ?_
      exact ReferenceOwner.noConfusion early
  | openReference =>
      exact fun table found => (holds table found).congr rfl rfl rfl id fun _ => trivial
  | _ => exact fun table found => (holds table found).congr rfl rfl rfl id id

end Steps

end SchemaText
