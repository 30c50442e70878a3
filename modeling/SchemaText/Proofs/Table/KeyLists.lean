import SchemaText.Proofs.Table.FixedPoint

/-!
# Collations in key lists

A table declares keys in lists after `PRIMARY KEY` and `UNIQUE`, and both name a collation for
any of their columns. A unique key is kept as a list, with its collations. The primary key is
kept as positions of columns, and they have no place for a collation: it is lost, whatever the
list.

## Main definitions

* `KeyList`, `keyLists`: the key lists that a statement declares.
* `Table.KeepsLists`: the unique keys of a table are declared, and no collation of one is lost.
* `Table.Writes`: a key list is among the constraints that a table is written with.

## Main results

* `Settles.keyLists`, `Takes.keyLists`: **every step keeps the lists** in the table or in what
  is being read.
* `Table.writes_collation_iff`: a collation is written again if and only if it is not in a list
  of the primary key.
-/

namespace SchemaText

open Token

/-! ### What is declared -/

/-- A key list: its columns in order, with their collations. -/
structure KeyList where
  /-- Whether the list declares the primary key. -/
  isPrimary : Bool
  /-- The names of the columns, and the collations that are named. -/
  columns : List (String × Option String) := []
  deriving DecidableEq, Repr

/-- The column of a key list, apart from its order. -/
def KeyPart.named (part : KeyPart) : String × Option String :=
  (part.name, part.collation)

/-- The key list that is being read. -/
def PendingKey.list (key : PendingKey) : KeyList :=
  ⟨key.isPrimary, key.columns.map KeyPart.named⟩

/-- The key list of a unique key. -/
def UniqueKey.list (key : UniqueKey) : KeyList :=
  ⟨false, key.columns.map KeyPart.named⟩

/-- The list with one more column. -/
def KeyList.addColumn (list : KeyList) (name : String) : KeyList :=
  { list with columns := list.columns ++ [(name, none)] }

/-- The list with a collation for its last column. -/
def KeyList.collate (list : KeyList) (collation : String) : KeyList :=
  { list with
    columns := list.columns.modify (list.columns.length - 1) fun column =>
      (column.1, some collation) }

/-- A collation for the last column. -/
theorem PendingKey.list_collate (key : PendingKey) (collation : String) :
    { key with
      columns := key.columns.modify (key.columns.length - 1) fun part =>
        { part with collation := some collation } }.list = key.list.collate collation := by
  have columns (parts : List KeyPart) (i : Nat) :
      (parts.modify i fun part => { part with collation := some collation }).map KeyPart.named =
        (parts.map KeyPart.named).modify i fun column => (column.1, some collation) := by
    induction parts generalizing i with
    | nil => cases i <;> rfl
    | cons part parts ih =>
        cases i with
        | zero => rfl
        | succ i => exact congrArg (part.named :: ·) (ih i)
  rw [PendingKey.list, columns, KeyList.collate, PendingKey.list, List.length_map]

/-- What a step adds to the key lists. -/
def readKeyList (lists : List KeyList) (transition : Transition) : List KeyList :=
  match transition.target with
  | .constraint .primaryKey => lists ++ [⟨true, []⟩]
  | .constraint .unique => lists ++ [⟨false, []⟩]
  | .constraint .keyColumnName =>
    lists.modify (lists.length - 1) (·.addColumn transition.token.text)
  | .constraint .keyCollated =>
    lists.modify (lists.length - 1) (·.collate transition.token.text)
  | _ => lists

/-- The key lists that these steps declare. -/
def keyLists (transitions : List Transition) : List KeyList :=
  transitions.foldl readKeyList []

/-- Where in a statement a state is, as far as key lists go. -/
inductive KeyPhase
  /-- Before it is known what is defined. -/
  | opening
  /-- In a key list, up to its conflict clause. -/
  | reading
  | apart
  deriving DecidableEq

/-- Where a state is. -/
def State.keyPhase : State → KeyPhase
  | .opening _ => .opening
  | .constraint .primaryKey | .constraint .unique | .constraint .keyColumn
  | .constraint .keyColumnName | .constraint .keyCollate | .constraint .keyCollated
  | .constraint .keyOrdered | .constraint .keyEnd | .constraint .keyOn
  | .constraint .keyConflict => .reading
  | _ => .apart

/-- The states in which a part of a key list has just been read. -/
def State.extendsKeyList : State → Bool
  | .constraint .primaryKey | .constraint .unique | .constraint .keyColumnName
  | .constraint .keyCollated => true
  | _ => false

variable {past : List Transition} {transition : Transition} {lists : List KeyList}
  {list : KeyList}

/-- Key lists are noted one step at a time. -/
theorem keyLists_snoc :
    keyLists (past ++ [transition]) = readKeyList (keyLists past) transition := by
  rw [keyLists, List.foldl_append]
  rfl

/-- Most steps read no part of a key list. -/
theorem keyLists_of_silent (silent : transition.target.extendsKeyList = false) :
    keyLists (past ++ [transition]) = keyLists past := by
  rw [keyLists_snoc]
  unfold readKeyList
  split <;> first
    | rfl
    | rename_i target
      rw [target] at silent
      exact absurd silent.symm Bool.false_ne_true

/-! ### What is kept -/

/-- The unique keys of a table are those of its declared lists, and a list of a unique key with
a collation is kept. -/
structure Table.KeepsLists (lists : List KeyList) (table : Table) : Prop where
  /-- Every unique key was declared. -/
  declared : ∀ key ∈ table.uniques, key.list ∈ lists
  /-- No collation of a unique key is lost. -/
  kept : ∀ list ∈ lists, list.isPrimary = false → (∃ column ∈ list.columns, column.2 ≠ none) →
    ∃ key ∈ table.uniques, key.list = list

namespace Table.KeepsLists

variable {table other : Table}

/-- Only the unique keys matter. -/
theorem congr (h : table.KeepsLists lists) (same : other.uniques = table.uniques) :
    other.KeepsLists lists :=
  ⟨same ▸ h.declared, same ▸ h.kept⟩

/-- A list that is no unique key, or that has no collation. -/
theorem addList (h : table.KeepsLists lists)
    (plain : list.isPrimary = false → ∀ column ∈ list.columns, column.2 = none) :
    table.KeepsLists (lists ++ [list]) where
  declared := fun key member => List.mem_append_left _ (h.declared key member)
  kept := fun other member unique ⟨column, listed, collated⟩ => by
    rcases List.mem_append.1 member with member | member
    · exact h.kept other member unique ⟨column, listed, collated⟩
    · obtain rfl := List.mem_singleton.1 member
      exact absurd (plain unique column listed) collated

/-- A list that becomes a unique key. -/
theorem addUnique (h : table.KeepsLists lists) (key : UniqueKey)
    (same : other.uniques = table.uniques ++ [key]) :
    other.KeepsLists (lists ++ [key.list]) where
  declared := by
    rw [same]
    exact List.forall_mem_append.2
      ⟨fun old member => List.mem_append_left _ (h.declared old member),
        List.forall_mem_singleton.2 (List.mem_append_right _ (List.mem_singleton_self _))⟩
  kept := fun list member unique collated => by
    rw [same]
    rcases List.mem_append.1 member with member | member
    · obtain ⟨old, found, rfl⟩ := h.kept list member unique collated
      exact ⟨old, List.mem_append_left _ found, rfl⟩
    · obtain rfl := List.mem_singleton.1 member
      exact ⟨key, List.mem_append_right _ (List.mem_singleton_self _), rfl⟩

/-- **A complete list** is a unique key, or has no collation to keep. -/
theorem enterUnique (h : table.KeepsLists lists) {key : PendingKey}
    (unique : key.isPrimary = false) :
    (Draft.enterUnique key table).KeepsLists (lists ++ [key.list]) := by
  obtain ⟨i, lone, put⟩ | ⟨-, put⟩ := Draft.enterUnique_cases key table <;> rw [put]
  · refine (h.addList fun _ => ?_).congr rfl
    unfold Draft.loneColumn? at lone
    split at lone
    · rename_i part single
      split at lone
      · rename_i plain
        have none : part.collation = none := by
          rw [Bool.and_eq_true, Option.isNone_iff_eq_none] at plain
          exact plain.1
        rw [PendingKey.list, single]
        exact List.forall_mem_singleton.2 none
      · exact absurd lone (by simp)
    · exact absurd lone (by simp)
  · have same : key.list = (⟨key.columns, key.conflict⟩ : UniqueKey).list := by
      rw [PendingKey.list, unique]
      rfl
    rw [same]
    exact h.addUnique _ rfl

end Table.KeepsLists

/-- These key lists are kept in the table of the draft, if there is one, but for the list that
is being read. -/
structure Draft.HasLists (lists : List KeyList) (state : State) (draft : Draft) : Prop where
  /-- Nothing is declared yet. -/
  opening : state.keyPhase = .opening → lists = []
  /-- The last list is the one that is being read. -/
  reading : state.keyPhase = .reading → ∃ done, lists = done ++ [draft.key.list] ∧
    ∀ table, draft.statement = some (.table table) → table.KeepsLists done
  /-- All lists are complete. -/
  apart : state.keyPhase = .apart →
    ∀ table, draft.statement = some (.table table) → table.KeepsLists lists

section Steps

variable {source state target : State} {draft after : Draft} {token : Token}
  {rest : List Token}

/-- The list that is read, and the unique keys of the table. -/
def keyView : DraftView KeyList (List UniqueKey) where
  part := (·.key.list)
  table := (·.uniques)
  apart := fun _ _ => rfl

namespace Draft.HasLists

variable (h : draft.HasLists lists state)

include h

/-- What leaves the keys as they are keeps the lists. -/
theorem keep (keeps : keyView.Keeps draft after) (place : target.keyPhase = state.keyPhase) :
    after.HasLists lists target where
  opening := fun first => h.opening (place ▸ first)
  reading := fun inside => by
    obtain ⟨done, rfl, kept⟩ := h.reading (place ▸ inside)
    refine ⟨done, congrArg (done ++ [·]) keeps.part.symm, fun other found => ?_⟩
    obtain ⟨table, old, uniques⟩ := keeps.table other found
    exact (kept table old).congr uniques
  apart := fun outside other found => by
    obtain ⟨table, old, uniques⟩ := keeps.table other found
    exact (h.apart (place ▸ outside) table old).congr uniques

/-- A key list is complete. -/
theorem finishKey (inside : state.keyPhase = .reading)
    (finished : draft.finishKey = (after, none)) :
    after.HasLists lists (.constraint .done) := by
  obtain ⟨done, rfl, kept⟩ := h.reading inside
  obtain ⟨table, entered, found, rfl, cases⟩ := finishKey_eq_none finished
  refine ⟨nofun, nofun, ?_⟩
  rintro - _ ⟨⟩
  rcases cases with ⟨primary, members, entering, rfl⟩ | ⟨unique, rfl⟩
  · obtain ⟨columns, key, frame⟩ :=
      Draft.enterKey_frame draft.key.autoincrement draft.key.columns table
    rw [entering] at frame
    have uniques : members.uniques = table.uniques := congrArg (·.uniques) frame
    refine ((kept table found).addList fun unique => ?_).congr uniques
    exact absurd (primary.symm.trans unique) (by simp)
  · exact (kept table found).enterUnique unique

/-- The list that is being read goes on. -/
theorem extend {f : KeyList → KeyList} (inside : state.keyPhase = .reading)
    (outside : target.keyPhase = .reading) (same : after.statement = draft.statement)
    (list : after.key.list = f draft.key.list) :
    after.HasLists (lists.modify (lists.length - 1) f) target := by
  obtain ⟨done, rfl, kept⟩ := h.reading inside
  refine ⟨by simp [outside], fun _ => ⟨done, ?_, same ▸ kept⟩, by simp [outside]⟩
  rw [modify_last, list]

end Draft.HasLists

/-- What is complete is kept. -/
theorem Settles.keyLists (h : Settles state draft target after)
    (holds : draft.HasLists lists state) : after.HasLists lists target := by
  have same : keyView.Keeps draft draft := .of_statement rfl rfl
  have reopened : keyView.Keeps draft (draft.openReference .column) := .of_statement rfl rfl
  cases h with
  | refl => exact holds
  | column | firstConstraint => exact holds.keep same rfl
  | constraint start =>
      refine holds.keep same ?_
      rcases start with rfl | rfl <;> rfl
  | key finished => exact holds.finishKey rfl finished
  | columnReference _ owner finished =>
      exact holds.keep
        (reopened.changeColumn (finishReference_column owner finished) fun _ _ => rfl) rfl
  | tableReference _ owner finished =>
      refine holds.keep
        (reopened.changeTable (finishReference_table owner finished) fun t => ?_) rfl
      obtain ⟨i, -, put⟩ | ⟨-, put⟩ := Draft.enterForeignKey_cases _ _ t <;> rw [put] <;> rfl

/-- A step that reads no part of a key list and leaves the unique keys as they are. -/
theorem Draft.HasLists.silent (h : draft.HasLists (keyLists past) state)
    (keeps : keyView.Keeps draft after) (place : target.keyPhase = state.keyPhase)
    (silent : target.extendsKeyList = false) :
    after.HasLists (keyLists (past ++ [⟨source, target, token⟩])) target := by
  have same : SchemaText.keyLists (past ++ [⟨source, target, token⟩]) = SchemaText.keyLists past :=
    keyLists_of_silent silent
  rw [same]
  exact h.keep keeps place

/-- Where the draft stays as it is, no part of a key list is read. -/
theorem passes_keyList (passes : state.passes target = true) :
    target.keyPhase = state.keyPhase ∧ target.extendsKeyList = false := by
  revert passes
  fun_cases State.passes state target <;> intro passes <;> first
    | exact ⟨rfl, rfl⟩
    | exact absurd passes Bool.false_ne_true

/-- The order of a column of a key list, or `AUTOINCREMENT`, stands inside the list. -/
theorem keyPhase_of_keyPart {s : ConstraintState}
    (place : s.isBeforeOrder = true ∨ s = .keyOrdered) :
    (State.constraint .keyOrdered).keyPhase = (State.constraint s).keyPhase := by
  rcases place with place | rfl
  · rcases ConstraintState.eq_of_isBeforeOrder place with rfl | rfl <;> rfl
  · rfl

/-- The order of a column of a key list is no part of the list as it is compared. -/
theorem keyView_orderKey {desc : Bool}
    (changed : Move.changeLastPart draft (fun part => { part with descending := desc }) =
      some after) :
    keyView.Keeps draft after := by
  obtain ⟨-, rfl⟩ := changeLastPart_eq_some changed
  have ordered : (draft.key.columns.modify (draft.key.columns.length - 1) fun part =>
        { part with descending := desc }).map KeyPart.named =
      draft.key.columns.map KeyPart.named := map_modify_eq (by exact fun _ => rfl) _ _
  exact .of_statement (congrArg (KeyList.mk draft.key.isPrimary) ordered) rfl

/-- A table that has just been begun has no lists. -/
theorem Draft.HasLists.beginTable {s : OpeningState}
    (h : draft.HasLists (keyLists past) (.opening s)) :
    ({ draft with
        statement := some (.table { Table.new "" with isTemporary := draft.temporary }) } :
      Draft).HasLists (keyLists (past ++ [⟨source, .tableName .begun, token⟩]))
        (.tableName .begun) := by
  have none : keyLists (past ++ [⟨source, .tableName .begun, token⟩]) = [] :=
    (keyLists_of_silent rfl).trans (h.opening rfl)
  rw [none]
  refine ⟨nofun, nofun, ?_⟩
  rintro - _ ⟨⟩
  exact ⟨nofun, nofun⟩

/-- **Every token that is taken** is read into a list, or leaves the lists as they are. -/
theorem Takes.keyLists (h : Takes token rest state draft target after)
    (holds : draft.HasLists (SchemaText.keyLists past) state) :
    after.HasLists (SchemaText.keyLists (past ++ [⟨source, target, token⟩])) target := by
  have same : keyView.Keeps draft draft := .of_statement rfl rfl
  have closed {depth : Nat} {body : List Token} :
      keyView.Keeps draft { draft with body := body, depth := depth } := .of_statement rfl rfl
  cases h with
  | pass passes =>
      obtain ⟨place, silent⟩ := passes_keyList passes
      exact holds.silent same place silent
  | nameTable _ _ changed | guardTable changed | tableSchema changed | strict _ changed
  | withoutRowid changed | resolveKey changed =>
      exact holds.silent (same.changeTable changed fun _ => rfl) rfl rfl
  | nameIndex _ _ changed | guardIndex changed | indexSchema changed | indexTable _ changed
  | terms _ changed | predicate _ _ changed =>
      exact holds.silent (same.changeIndex changed) rfl rfl
  | orderKey changed | notNull changed | resolveNotNull changed | unique changed
  | resolveUnique changed | default _ changed | collate _ changed | storage changed
  | autoincrement _ changed =>
      exact holds.silent (same.changeColumn changed fun _ _ => rfl) rfl rfl
  | beginTable => exact holds.beginTable
  | beginIndex => exact ⟨nofun, nofun, by rintro - _ ⟨⟩⟩
  | addColumn _ _ changed =>
      have typed : keyView.Keeps draft { draft with typeTokens := [] } := .of_statement rfl rfl
      exact holds.silent (typed.changeTable changed fun _ => rfl) rfl rfl
  | extendType taken changed =>
      have typed : keyView.Keeps draft
          { draft with typeTokens := draft.typeTokens ++ [token] } := .of_statement rfl rfl
      exact holds.silent (typed.changeColumn changed fun _ _ => rfl) rfl rfl
  | beginKey _ _ changed =>
      refine holds.silent (same.changeTable changed fun t => ?_) rfl rfl
      obtain ⟨columns, key, frame⟩ := t.setKeyMember_frame _ true
      exact congrArg (·.uniques) frame
  | openBody opens =>
      cases opens <;> exact holds.silent closed rfl rfl
  | body isBody taken =>
      obtain ⟨depth, -, rfl⟩ := takeBody_eq_none taken
      rcases State.eq_of_isBody isBody with rfl | rfl | rfl <;>
        exact holds.silent closed rfl rfl
  | check closes taken changed =>
      obtain ⟨-, -, -, rfl⟩ := takeBody_eq_some taken
      have keeps := closed.changeTable changed fun _ => rfl
      cases closes <;> exact holds.silent keeps rfl rfl
  | generated taken changed =>
      obtain ⟨-, -, -, rfl⟩ := takeBody_eq_some taken
      exact holds.silent (closed.changeColumn changed fun _ _ => rfl) rfl rfl
  | openPrimary | openUnique =>
      rw [keyLists_snoc]
      exact ⟨nofun, fun _ => ⟨_, rfl, holds.apart rfl⟩, nofun⟩
  | keyColumn name =>
      rw [keyLists_snoc]
      exact holds.extend rfl rfl rfl (by simp [PendingKey.list, KeyList.addColumn, KeyPart.named])
  | keyCollate _ changed =>
      obtain ⟨-, rfl⟩ := changeLastPart_eq_some changed
      rw [keyLists_snoc]
      exact holds.extend rfl rfl rfl (PendingKey.list_collate ..)
  | keyOrder place changed =>
      exact holds.silent (keyView_orderKey changed) (keyPhase_of_keyPart (.inl place)) rfl
  | keyAutoincrement place =>
      exact holds.silent (.of_statement rfl rfl) (keyPhase_of_keyPart place) rfl
  | @keyConflict draft after action finished =>
      have resolved : keyView.Keeps draft
          { draft with key := { draft.key with conflict := some action } } :=
        .of_statement rfl rfl
      have same : SchemaText.keyLists (past ++ [⟨source, .constraint .done, token⟩]) =
          SchemaText.keyLists past := keyLists_of_silent rfl
      rw [same]
      exact (holds.keep resolved rfl).finishKey rfl finished
  | _ => exact holds.silent (.of_statement rfl rfl) rfl rfl

end Steps

/-! ### What is written -/

/-- The words that a key list begins with. -/
def KeyList.words (list : KeyList) : List Keyword :=
  if list.isPrimary then [.PRIMARY, .KEY] else [.UNIQUE]

/-- A key list as it is written: its columns with their collations, in any directions. -/
def KeyList.IsWritten (list : KeyList) (piece : List Token) : Prop :=
  ∃ (parts : List KeyPart) (increments : Bool) (action : Option ConflictAction),
    parts.map KeyPart.named = list.columns ∧
    piece = Token.words list.words ++ inParens (commaList (parts.map KeyPart.tokens) ++
      if increments then [ofKeyword .AUTOINCREMENT] else []) ++ ConflictAction.clause action

/-- The key list is one of the constraints that the table is written with. -/
def Table.Writes (list : KeyList) (table : Table) : Prop :=
  ∃ piece ∈ table.constraintTokens, list.IsWritten piece

/-- Different keywords have different tokens. -/
theorem Token.ofKeyword_injective {a b : Keyword} (h : ofKeyword a = ofKeyword b) : a = b := by
  have same := congrArg keyword? h
  rwa [keyword?_ofKeyword, keyword?_ofKeyword, Option.some.injEq] at same

/-- A reserved word is no name. -/
theorem Token.name_ne_ofKeyword {k : Keyword} (reserved : k.isReserved = true)
    (text : String) :
    Token.name text ≠ ofKeyword k := by
  intro same
  unfold Token.name at same
  split at same
  · rename_i plain
    obtain rfl : text = k.spelling := congrArg Token.text same
    simp [reserved] at plain
  · exact absurd (congrArg Token.kind same) (by simp [ofKeyword])

namespace Table

variable {table : Table}

/-- A keyword is none of the words that leave it out. -/
theorem ne_of_mem_words {k : Keyword} {words : List Keyword} (apart : k ∉ words) :
    ∀ t ∈ Token.words words, t ≠ ofKeyword k := by
  rintro t member rfl
  obtain ⟨other, found, same⟩ := List.mem_map.1 member
  exact apart (ofKeyword_injective same ▸ found)

/-- The list that the primary key is written as names no collation. -/
theorem collate_not_mem_keyListTokens (members : List Column)
    (action : Option ConflictAction) :
    ofKeyword .COLLATE ∉ keyListTokens members action := by
  have word {k : Keyword} (apart : k ≠ .COLLATE) : ofKeyword k ≠ ofKeyword .COLLATE :=
    fun same => apart (ofKeyword_injective same)
  have columns : ∀ t ∈ commaList (members.map fun member =>
      Token.name member.name :: if member.isDescending then [ofKeyword .DESC] else []),
      t ≠ ofKeyword .COLLATE := by
    refine forall_mem_commaList (by decide) fun piece member => ?_
    obtain ⟨column, -, rfl⟩ := List.mem_map.1 member
    refine List.forall_mem_cons.2 ⟨name_ne_ofKeyword rfl _, ?_⟩
    cases column.isDescending <;> simp [word]
  have increments : ∀ t ∈ (if members.any (·.autoincrement) then [ofKeyword .AUTOINCREMENT]
      else []), t ≠ ofKeyword .COLLATE := by
    cases members.any (·.autoincrement) <;> simp [word]
  have resolved : ∀ t ∈ ConflictAction.clause action, t ≠ ofKeyword .COLLATE := by
    cases action with
    | none => exact nofun
    | some action => cases action <;> exact ne_of_mem_words (by decide)
  have all : ∀ t ∈ keyListTokens members action, t ≠ ofKeyword .COLLATE := by
    refine List.forall_mem_append.2 ⟨List.forall_mem_append.2
      ⟨ne_of_mem_words (by decide), List.forall_mem_cons.2 ⟨by decide, ?_⟩⟩, resolved⟩
    exact List.forall_mem_append.2 ⟨List.forall_mem_append.2 ⟨columns, increments⟩,
      List.forall_mem_singleton.2 (by decide)⟩
  exact fun member => all _ member rfl

/-- A list with a collation is written with the word for it. -/
theorem collate_mem_of_isWritten {list : KeyList} {piece : List Token}
    {name collation : String}
    (written : list.IsWritten piece) (collated : (name, some collation) ∈ list.columns) :
    ofKeyword .COLLATE ∈ piece := by
  obtain ⟨parts, increments, action, columns, rfl⟩ := written
  rw [← columns] at collated
  obtain ⟨part, listed, same⟩ := List.mem_map.1 collated
  have named : part.collation = some collation := congrArg Prod.snd same
  have own : ofKeyword .COLLATE ∈ part.tokens := by
    simp [KeyPart.tokens, named, Token.collate]
  have inside := subset_commaList (List.mem_map_of_mem listed) own
  simp [inParens, inside]

/-- **A list of the primary key is written without collations.** -/
theorem isPrimary_eq_false_of_writes {list : KeyList} {name collation : String}
    (writes : table.Writes list) (collated : (name, some collation) ∈ list.columns) :
    list.isPrimary = false := by
  obtain ⟨piece, member, written⟩ := writes
  have word := collate_mem_of_isWritten written collated
  by_contra primary
  rw [Bool.not_eq_false] at primary
  obtain ⟨parts, increments, action, -, shape⟩ := written
  have first : ∃ more, piece = ofKeyword .PRIMARY :: more := by
    rw [shape, KeyList.words, if_pos primary]
    exact ⟨_, rfl⟩
  obtain ⟨more, rfl⟩ := first
  unfold constraintTokens at member
  simp only [List.mem_append] at member
  have other {k : Keyword} {rest : List Token} (apart : k ≠ .PRIMARY)
      (same : ofKeyword k :: rest = ofKeyword .PRIMARY :: more) : False :=
    apart (ofKeyword_injective (List.cons.inj same).1)
  rcases member with ((member | member) | member) | member
  · split at member
    · rw [List.mem_singleton.1 member] at word
      exact collate_not_mem_keyListTokens _ _ word
    · exact absurd member List.not_mem_nil
  · obtain ⟨key, -, same⟩ := List.mem_map.1 member
    exact other (by decide) same
  · obtain ⟨condition, -, same⟩ := List.mem_map.1 member
    exact other (by decide) same
  · obtain ⟨key, -, same⟩ := List.mem_map.1 member
    exact other (by decide) same

/-- A unique key is written as its list. -/
theorem writes_unique {key : UniqueKey} (member : key ∈ table.uniques) :
    table.Writes key.list := by
  refine ⟨key.tokens, ?_, key.columns, false, key.onConflict, rfl, ?_⟩
  · simp only [constraintTokens, List.mem_append]
    exact .inl (.inl (.inr (List.mem_map_of_mem member)))
  · rw [if_neg Bool.false_ne_true, List.append_nil]
    rfl

/-! ### Whole tables -/

/-- **The lists of a table that was read** are kept in it. -/
theorem keepsLists_of_parse {text : String} (h : Statement.parse text = .ok (.table table)) :
    table.KeepsLists (keyLists (Statement.read text).transitions) := by
  let P (past : List Transition) (state : State) (draft : Draft) : Prop :=
    draft.HasLists (keyLists past) state
  obtain ⟨target, after, lists, accepting, found⟩ := @parse_invariant_of_takes P text _
    (fun holds settles => settles.keyLists holds) (fun holds _ _ _ takes => takes.keyLists holds)
    ⟨fun _ => rfl, nofun, nofun⟩ h
  refine lists.apart ?_ table found
  cases target with
  | opening => exact absurd accepting Bool.false_ne_true
  | constraint => exact absurd accepting Bool.false_ne_true
  | _ => rfl

/-- **Collations of unique keys are kept, those of the primary key are lost.** Where a key list
names a collation, the table is written with a list of the same sort, over the same columns in
the same order, that names it for the same column, if and only if the list is that of a unique
key. Then the whole list is read again from the text. -/
theorem writes_collation_iff {text : String} (h : Statement.parse text = .ok (.table table))
    {list : KeyList} (declared : list ∈ keyLists (Statement.read text).transitions)
    {name collation : String} (collated : (name, some collation) ∈ list.columns) :
    ((∃ written, table.Writes written ∧ written.isPrimary = list.isPrimary ∧
        written.columns.map Prod.fst = list.columns.map Prod.fst ∧
        (name, some collation) ∈ written.columns) ↔ list.isPrimary = false) ∧
      (list.isPrimary = false → table.columns ≠ [] →
        HasValidBodies (Statement.read text).transitions →
        list ∈ keyLists (Statement.read table.sql).transitions) := by
  have unique (sort : list.isPrimary = false) : ∃ key ∈ table.uniques, key.list = list :=
    (keepsLists_of_parse h).kept list declared sort ⟨_, collated, by simp⟩
  refine ⟨⟨?_, fun sort => ?_⟩, fun sort ne valid => ?_⟩
  · rintro ⟨written, writes, sort, -, collated⟩
    exact sort ▸ isPrimary_eq_false_of_writes writes collated
  · obtain ⟨key, member, rfl⟩ := unique sort
    exact ⟨key.list, writes_unique member, rfl, rfl, collated⟩
  · obtain ⟨key, member, rfl⟩ := unique sort
    have parsed := (isGathered_of_parse h valid).1.parse_sql ne
    exact (keepsLists_of_parse parsed).declared key member

/-- A text with a collation in a list of either sort. -/
def collatedText : String :=
  "CREATE TABLE t (a, b, PRIMARY KEY (a COLLATE NOCASE), UNIQUE (b COLLATE RTRIM DESC, a))"

/-- The tokens of the text. -/
def collatedTokens : List Token :=
  [keyword .CREATE, keyword .TABLE, Token.name "t", openParen, Token.name "a", comma,
    Token.name "b", comma, keyword .PRIMARY, keyword .KEY, openParen, Token.name "a",
    keyword .COLLATE, Token.name "NOCASE", closeParen, comma, keyword .UNIQUE, openParen,
    Token.name "b", keyword .COLLATE, Token.name "RTRIM", keyword .DESC, comma, Token.name "a",
    closeParen, closeParen]

/-- The table that the text defines. -/
def collated : Table where
  name := "t"
  columns := [{ Column.new "a" with inKey := true, isWholeKey := true }, Column.new "b"]
  primaryKey := [0]
  uniques := [⟨[⟨"b", some "RTRIM", true⟩, ⟨"a", none, false⟩], none⟩]

/-- The list of the primary key, and the list of the unique key. -/
def collatedLists : KeyList × KeyList :=
  (⟨true, [("a", some "NOCASE")]⟩, ⟨false, [("b", some "RTRIM"), ("a", none)]⟩)

/-- The text is read as a run over its tokens. -/
theorem read_collatedText : Statement.read collatedText =
    runWithin collatedTokens.length (.opening .start) {} collatedTokens := by
  refine read_of_tokenize ?_ (by decide +kernel)
  rw [← Lexer.tokens_toList]
  cbv

/-- One of the collations is lost, and the other is not. -/
theorem writes_collation_iff_collated :
    Statement.parse collatedText = .ok (.table collated) ∧
      keyLists (Statement.read collatedText).transitions =
        [collatedLists.1, collatedLists.2] ∧
      collated.sql = "CREATE TABLE t(a,b,PRIMARY KEY(a),UNIQUE(b COLLATE RTRIM DESC,a))" ∧
      (¬∃ written, collated.Writes written ∧ written.isPrimary = true ∧
        written.columns.map Prod.fst = ["a"] ∧ ("a", some "NOCASE") ∈ written.columns) ∧
      (∃ written, collated.Writes written ∧ written.isPrimary = false ∧
        written.columns.map Prod.fst = ["b", "a"] ∧ ("b", some "RTRIM") ∈ written.columns) ∧
      collatedLists.2 ∈ keyLists (Statement.read collated.sql).transitions := by
  have run : Statement.parse collatedText = .ok (.table collated) ∧
      keyLists (Statement.read collatedText).transitions = [collatedLists.1, collatedLists.2] ∧
      HasValidBodies (Statement.read collatedText).transitions := by
    rw [Statement.parse, read_collatedText, HasValidBodies]
    decide +kernel
  obtain ⟨parsed, declared, valid⟩ := run
  have first : ("a", some "NOCASE") ∈ collatedLists.1.columns := by decide
  have second : ("b", some "RTRIM") ∈ collatedLists.2.columns := by decide
  have primary := (writes_collation_iff parsed (declared ▸ by simp) first).1
  have unique := writes_collation_iff parsed (declared ▸ by simp) second
  exact ⟨parsed, declared, by decide +kernel,
    fun written => Bool.false_ne_true (primary.1 written).symm, unique.1.2 rfl,
    unique.2 rfl (by decide) valid⟩

end Table

end SchemaText
