import SchemaText.Proofs.Statement.Locality
import SchemaText.Proofs.Table.Arrangement

/-!
# Reading with another table

What the statement parser does with a token depends on what it is reading, and hardly on the
table that it has gathered: it changes the table, and looks at it only to see whether a
column is there and to find columns by their names. So with another table it takes the same
steps and makes the same changes to that one.

A relation between tables that these changes keep is carried from one place of a text to a
later one. Definitions of columns and constraints of the table make different changes, and
the former come first.

## Main definitions

* `Draft.withTable`: the same draft of another table.
* `Move.Corresponds`: a move is made with the other table as well.
* `KeptByColumns`, `KeptByKeys`, `KeptByConstraints`: relations that the changes keep.
* `Draft.phase`: where in a statement a state is.

## Main results

* `column_corresponds`, `constraint_corresponds`: **with another table the same moves are
  made**.
* `Reaches.withTable`: **what is read between two places is read with another table** as well.
-/

namespace SchemaText

open Token Move

variable {R : Table → Table → Prop} {table other : Table} {state target : State}
  {draft after : Draft} {token : Token} {rest left : List Token}

/-! ### Another table -/

/-- The same draft of another table. -/
def Draft.withTable (draft : Draft) (table : Table) : Draft :=
  { draft with statement := some (.table table) }

/-- With its own table a draft is itself. -/
theorem Draft.withTable_self (found : draft.statement = some (.table table)) :
    draft.withTable table = draft := by
  rw [withTable, ← found]

/-- A move is made with another table as well, and leaves tables that are related again.
Nothing is said of refusals. -/
def Move.Corresponds (R : Table → Table → Prop) : Move → Move → Prop
  | .next s d, move => ∃ table other, d.statement = some (.table table) ∧ R table other ∧
    move = .next s (d.withTable other)
  | .embed place d, move => ∃ table other, d.statement = some (.table table) ∧ R table other ∧
    move = .embed place (d.withTable other)
  | .refuse _ _, _ => True

/-- The relation is kept by what the definition of a column changes. -/
structure KeptByColumns (R : Table → Table → Prop) : Prop where
  /-- There are as many columns. -/
  length : ∀ {table other}, R table other → other.columns.length = table.columns.length
  /-- A column is added. -/
  add : ∀ {table other}, R table other → ∀ column,
    R { table with columns := table.columns ++ [column] }
      { other with columns := other.columns ++ [column] }
  /-- The last column is changed. -/
  change : ∀ {table other}, R table other → ∀ f : Column → Column,
    R (table.modifyColumn (table.columns.length - 1) f)
      (other.modifyColumn (other.columns.length - 1) f)
  /-- A condition is added. -/
  check : ∀ {table other}, R table other → ∀ condition,
    R { table with checks := table.checks ++ [condition] }
      { other with checks := other.checks ++ [condition] }

/-- The relation is kept where a column declares the key. -/
structure KeptByKeys (R : Table → Table → Prop) : Prop where
  /-- The last column enters the key. -/
  declare : ∀ {table other}, R table other →
    R (table.setKeyMember (table.columns.length - 1) true)
      (other.setKeyMember (other.columns.length - 1) true)
  /-- The key gets its conflict clause. -/
  resolve : ∀ {table other}, R table other → ∀ action,
    R { table with keyConflict := some action } { other with keyConflict := some action }

/-- The relation is kept by what constraints of the table and options change. -/
structure KeptByConstraints (R : Table → Table → Prop) : Prop where
  /-- A primary key is entered. -/
  key : ∀ {table other entered}, R table other →
    ∀ autoincrement parts (conflict : Option ConflictAction),
    Draft.enterKey autoincrement parts table = (entered, none) → ∃ entered',
      Draft.enterKey autoincrement parts other = (entered', none) ∧
        R { entered with keyConflict := conflict.or entered.keyConflict }
          { entered' with keyConflict := conflict.or entered'.keyConflict }
  /-- A unique key is entered. -/
  unique : ∀ {table other}, R table other → ∀ key,
    R (Draft.enterUnique key table) (Draft.enterUnique key other)
  /-- A foreign key is entered. -/
  foreignKey : ∀ {table other}, R table other → ∀ columns reference,
    R (Draft.enterForeignKey columns reference table)
      (Draft.enterForeignKey columns reference other)
  /-- A condition is added. -/
  check : ∀ {table other}, R table other → ∀ condition,
    R { table with checks := table.checks ++ [condition] }
      { other with checks := other.checks ++ [condition] }
  /-- The table becomes strict. -/
  strict : ∀ {table other}, R table other →
    R { table with isStrict := true } { other with isStrict := true }
  /-- The table loses its row numbers. -/
  withoutRowid : ∀ {table other}, R table other →
    R { table with hasRowid := false } { other with hasRowid := false }

/-- Related tables both have columns, or neither has. -/
theorem KeptByColumns.isEmpty_eq (columns : KeptByColumns R) (related : R table other) :
    other.columns.isEmpty = table.columns.isEmpty := by
  have length := columns.length related
  rw [Bool.eq_iff_iff, List.isEmpty_iff_length_eq_zero,
    List.isEmpty_iff_length_eq_zero, length]

/-- A move that is made only if the token fits. -/
theorem ite_corresponds {fits : Prop} [Decidable fits] {move move' : Move} {draft' : Draft}
    (h : fits → move.Corresponds R move') :
    (if fits then move else .refuse .unexpected draft).Corresponds R
      (if fits then move' else .refuse .unexpected draft') := by
  split
  · rename_i holds
    exact h holds
  · trivial

section Moves

variable (found : draft.statement = some (.table table)) (related : R table other)

include found related

/-! ### Changes -/

/-- What leaves the table as it is. -/
theorem next_corresponds (s : State) :
    (Move.next s draft).Corresponds R (.next s (draft.withTable other)) :=
  ⟨table, other, found, related, rfl⟩

/-- An expression is embedded in the same place. -/
theorem embed_corresponds (place : Embedding) :
    (Move.embed place draft).Corresponds R (.embed place (draft.withTable other)) :=
  ⟨table, other, found, related, rfl⟩

/-- A move that depends on the token alone is made alike. -/
theorem goIf_corresponds (fits : Bool) (s : State) :
    (draft.goIf fits s).Corresponds R ((draft.withTable other).goIf fits s) := by
  cases fits with
  | false => trivial
  | true => exact next_corresponds found related s

omit related in
/-- A change that keeps the relation is made in both tables. -/
theorem goTable_corresponds {first first' : Draft} (s : State) {f : Table → Table}
    (kept : R (f table) (f other)) :
    (first.go s (draft.changeTable f)).Corresponds R
      (first'.go s ((draft.withTable other).changeTable f)) := by
  rw [Draft.changeTable, found]
  exact ⟨f table, f other, rfl, kept, rfl⟩

/-- A change of the last column. -/
theorem changeColumn_withTable (columns : KeptByColumns R) {f : Column → Column}
    (changed : draft.changeColumn f = some after) :
    ∃ new newOther, after.statement = some (.table new) ∧ R new newOther ∧
      (draft.withTable other).changeColumn f = some (after.withTable newOther) := by
  obtain ⟨same, again, ne, rfl⟩ := changeColumn_eq_some changed
  obtain rfl : table = same := table_unique found again
  refine ⟨_, _, rfl, columns.change related f, ?_⟩
  have some : other.columns.isEmpty = false := by
    rw [columns.isEmpty_eq related, List.isEmpty_eq_false_iff]
    exact ne
  simp [Draft.changeColumn, Draft.withTable, some]

/-- A change of the last column is made in both tables. -/
theorem goColumn_corresponds {first first' : Draft} (columns : KeptByColumns R) (s : State)
    (f : Column → Column) : (first.go s (draft.changeColumn f)).Corresponds R
      (first'.go s ((draft.withTable other).changeColumn f)) := by
  cases changed : draft.changeColumn f with
  | none => trivial
  | some after =>
      obtain ⟨new, newOther, found, related, same⟩ :=
        changeColumn_withTable found related columns changed
      rw [same]
      exact next_corresponds found related s

omit found related in
/-- A token of a condition or rule is gathered alike. -/
theorem takeBody_withTable : (draft.withTable other).takeBody token =
    ((draft.takeBody token).1.withTable other, (draft.takeBody token).2) := by
  have depth : (draft.withTable other).depth = draft.depth := rfl
  unfold Draft.takeBody
  rw [depth]
  split
  · rfl
  · split <;> rfl
  · rfl

/-- A condition or rule goes on alike, and ends alike if what its end does is done alike. -/
theorem takeBody_corresponds {ends : Draft → String → Move} (inside : State)
    (done : ∀ after text, after.statement = some (.table table) →
      (ends after text).Corresponds R (ends (after.withTable other) text)) :
    (match draft.takeBody token with
      | (after, some text) => ends after text
      | (after, none) => .next inside after).Corresponds R
      (match (draft.withTable other).takeBody token with
      | (after, some text) => ends after text
      | (after, none) => .next inside after) := by
  rw [takeBody_withTable]
  rcases taken : draft.takeBody token with ⟨after, _ | text⟩ <;>
    have found := (takeBody_statement taken).trans found
  · exact next_corresponds found related inside
  · exact done after text found

/-! ### Constraints -/

/-- A constraint of the table begins. -/
theorem constraintKeyword_corresponds :
    (constraintKeyword draft token).Corresponds R
      (constraintKeyword (draft.withTable other) token) := by
  unfold constraintKeyword
  split <;> first
    | exact ⟨table, other, found, related, rfl⟩
    | trivial

/-- A constraint of the table begins, with a name of its own or without. -/
theorem constraintStart_corresponds :
    (constraintStart draft token).Corresponds R
      (constraintStart (draft.withTable other) token) := by
  unfold constraintStart
  split
  · exact next_corresponds found related _
  · exact constraintKeyword_corresponds found related

/-- After a constraint of the table comes the same. -/
theorem constraintBoundary_corresponds :
    (constraintBoundary draft token).Corresponds R
      (constraintBoundary (draft.withTable other) token) := by
  unfold constraintBoundary
  split
  · exact next_corresponds found related _
  · exact next_corresponds found related _
  · exact constraintStart_corresponds found related

/-! ### Definitions of columns -/

variable (columns : KeptByColumns R)

include columns

/-- A constraint of the column begins. -/
theorem columnKeyword_corresponds :
    (columnKeyword draft token).Corresponds R (columnKeyword (draft.withTable other) token) := by
  unfold columnKeyword
  split <;> first
    | exact next_corresponds found related _
    | exact goColumn_corresponds found related columns _ _
    | exact embed_corresponds found related _
    | trivial
    | exact ⟨table, other, found, related, rfl⟩

/-- After a constraint of the column comes the same. -/
theorem columnBoundary_corresponds :
    (columnBoundary draft token).Corresponds R (columnBoundary (draft.withTable other) token) := by
  unfold columnBoundary
  split
  · exact next_corresponds found related _
  · exact next_corresponds found related _
  · exact columnKeyword_corresponds found related columns

/-- A token joins the type of the last column. -/
theorem extendType_corresponds (s : ColumnState) :
    (extendType draft token s).Corresponds R (extendType (draft.withTable other) token s) :=
  @goColumn_corresponds R table other { draft with typeTokens := draft.typeTokens ++ [token] }
    found related _ _ columns _ _

/-- The width of a type is read alike. -/
theorem typeWidth_corresponds (second : Bool) (part : WidthState) :
    (typeWidth second part draft token).Corresponds R
      (typeWidth second part (draft.withTable other) token) := by
  unfold typeWidth
  split
  · exact extendType_corresponds found related columns _
  · exact extendType_corresponds found related columns _
  · exact extendType_corresponds found related columns _
  · split
    · trivial
    · exact extendType_corresponds found related columns _
  · exact extendType_corresponds found related columns _
  · trivial

/-- `AUTOINCREMENT` is noted alike. -/
theorem afterKey_corresponds :
    (afterKey draft token).Corresponds R (afterKey (draft.withTable other) token) := by
  unfold afterKey
  split
  · exact goColumn_corresponds found related columns _ _
  · exact columnBoundary_corresponds found related columns

/-- The name of a column, or the first constraint of the table. -/
theorem columnBegun_corresponds :
    (column .begun draft token).Corresponds R (column .begun (draft.withTable other) token) := by
  dsimp only [column]
  split
  · exact constraintStart_corresponds found related
  · exact ite_corresponds fun _ => @goTable_corresponds R table other
      { draft with typeTokens := [] } found _ _ _
      (fun t => { t with columns := t.columns ++ [Column.new token.text] }) (columns.add related _)

/-- A token of a type, or what follows a type. -/
theorem columnType_corresponds :
    (column .type draft token).Corresponds R (column .type (draft.withTable other) token) := by
  dsimp only [column]
  split
  · exact extendType_corresponds found related columns _
  · rw [show (draft.withTable other).typeTokens = draft.typeTokens from rfl]
    split
    · exact extendType_corresponds found related columns _
    · exact columnBoundary_corresponds found related columns

/-- The words `PRIMARY KEY`: the key is declared alike. -/
theorem columnPrimary_corresponds (keys : KeptByKeys R) :
    (column .primary draft token).Corresponds R
      (column .primary (draft.withTable other) token) := by
  dsimp only [column]
  rw [found, show (draft.withTable other).statement = some (.table other) from rfl]
  dsimp only
  rw [columns.isEmpty_eq related, Draft.changeTable, found]
  refine ite_corresponds fun _ => ?_
  split
  · trivial
  · exact ⟨_, _, rfl, keys.declare related, rfl⟩

/-- What follows the words `PRIMARY KEY`. -/
theorem columnKey_corresponds :
    (column .primaryKey draft token).Corresponds R
      (column .primaryKey (draft.withTable other) token) := by
  dsimp only [column]
  split
  · exact goColumn_corresponds found related columns _ _
  · exact goColumn_corresponds found related columns _ _
  · exact next_corresponds found related _
  · exact afterKey_corresponds found related columns

/-- The action of a conflict clause. -/
theorem resolveConflict_corresponds {owner : ConflictOwner} (action : ConflictAction)
    (keys : owner = .primaryKey → KeptByKeys R) :
    (resolveConflict owner action draft).Corresponds R
      (resolveConflict owner action (draft.withTable other)) := by
  cases owner with
  | primaryKey =>
      dsimp only [resolveConflict]
      exact goTable_corresponds found _ ((keys rfl).resolve related action)
  | notNull | unique => exact goColumn_corresponds found related columns _ _

/-- **In the definition of a column the same moves are made** with another table. -/
theorem column_corresponds (s : ColumnState)
    (keys : s = .primary ∨ s = .conflictAction .primaryKey → KeptByKeys R) :
    (column s draft token).Corresponds R (column s (draft.withTable other) token) := by
  cases s with
  | begun => exact columnBegun_corresponds found related columns
  | type => exact columnType_corresponds found related columns
  | width second part => exact typeWidth_corresponds found related columns second part
  | constraints => exact columnBoundary_corresponds found related columns
  | constraintName => exact goIf_corresponds found related _ _
  | named => exact columnKeyword_corresponds found related columns
  | primary => exact columnPrimary_corresponds found related columns (keys (.inl rfl))
  | primaryKey => exact columnKey_corresponds found related columns
  | primaryOrdered =>
      dsimp only [column]
      split
      · exact next_corresponds found related _
      · exact afterKey_corresponds found related columns
  | primaryResolved => exact afterKey_corresponds found related columns
  | not | collate =>
      exact ite_corresponds fun _ => goColumn_corresponds found related columns _ _
  | notNull | unique =>
      dsimp only [column]
      split
      · exact next_corresponds found related _
      · exact columnBoundary_corresponds found related columns
  | conflictOn owner => exact goIf_corresponds found related _ _
  | conflictAction owner =>
      dsimp only [column]
      split
      · exact resolveConflict_corresponds found related columns _ fun key =>
          keys (.inr (congrArg _ key))
      · trivial
  | check | generatedAs | generated =>
      exact ite_corresponds fun _ => ⟨table, other, found, related, rfl⟩
  | checkBody =>
      exact takeBody_corresponds found related _ fun _ condition found =>
        goTable_corresponds found _ (columns.check related condition)
  | generatedAlways => exact goIf_corresponds found related _ _
  | generatedBody =>
      exact takeBody_corresponds found related _ fun _ _ found =>
        goColumn_corresponds found related columns _ _
  | generatedEnd =>
      dsimp only [column]
      split
      · exact goColumn_corresponds found related columns _ _
      · exact columnBoundary_corresponds found related columns

omit columns

/-! ### References -/

/-- A complete reference is given to the column or the table that it belongs to. -/
theorem finishReference_withTable (columns : draft.owner = .column → KeptByColumns R)
    (constraints : draft.owner ≠ .column → KeptByConstraints R)
    (finished : draft.finishReference = some after) :
    ∃ new newOther, after.statement = some (.table new) ∧ R new newOther ∧
      (draft.withTable other).finishReference = some (after.withTable newOther) := by
  have opened : (draft.openReference .column).statement = some (.table table) := found
  cases owner : draft.owner with
  | column =>
      obtain ⟨new, newOther, found, related, changed⟩ :=
        changeColumn_withTable opened related (columns owner)
          (finishReference_column owner finished)
      refine ⟨new, newOther, found, related, ?_⟩
      rw [Draft.finishReference, show (draft.withTable other).owner = .column from owner]
      exact changed
  | table names =>
      obtain ⟨same, again, rfl⟩ := changeTable_eq_some (finishReference_table owner finished)
      obtain rfl : table = same := table_unique opened again
      refine ⟨_, _, rfl, (constraints (by simp [owner])).foreignKey related _ _, ?_⟩
      rw [Draft.finishReference, show (draft.withTable other).owner = .table names from owner]
      rfl

/-- After a reference of a column the column goes on, after one of the table the next
constraint follows. -/
theorem afterReference_corresponds (columns : draft.owner = .column → KeptByColumns R)
    (constraints : draft.owner ≠ .column → KeptByConstraints R) :
    (afterReference draft token).Corresponds R
      (afterReference (draft.withTable other) token) := by
  unfold afterReference
  cases finished : draft.finishReference with
  | none => trivial
  | some after =>
      obtain ⟨new, newOther, found, related, same⟩ :=
        finishReference_withTable found related columns constraints finished
      rw [same, show (draft.withTable other).owner = draft.owner from rfl]
      cases owner : draft.owner with
      | column => exact columnBoundary_corresponds found related (columns owner)
      | table names => exact constraintBoundary_corresponds found related

/-- **In a reference the same moves are made** with another table. -/
theorem reference_corresponds (s : ReferenceState) (next : Option Token)
    (columns : draft.owner = .column → KeptByColumns R)
    (constraints : draft.owner ≠ .column → KeptByConstraints R) :
    (reference s draft token next).Corresponds R
      (reference s (draft.withTable other) token next) := by
  have clause : (referenceClause draft token next).Corresponds R
      (referenceClause (draft.withTable other) token next) := by
    have after : (afterReference draft token).Corresponds R
        (afterReference (draft.withTable other) token) :=
      afterReference_corresponds found related columns constraints
    unfold referenceClause
    split
    · exact ⟨table, other, found, related, rfl⟩
    · exact ⟨table, other, found, related, rfl⟩
    · exact ⟨table, other, found, related, rfl⟩
    · split
      · exact ⟨table, other, found, related, rfl⟩
      · exact after
    · exact after
  have taken (fits : Bool) (t : ReferenceState) :
      (takeClauseIf fits draft token t).Corresponds R
      (takeClauseIf fits (draft.withTable other) token t) := by
    cases fits with
    | false => trivial
    | true => exact ⟨table, other, found, related, rfl⟩
  cases s with
  | begun | column =>
      dsimp only [reference]
      split
      · exact ⟨table, other, found, related, rfl⟩
      · trivial
  | table =>
      dsimp only [reference]
      split
      · exact next_corresponds found related _
      · exact clause
  | columnName =>
      dsimp only [reference]
      split
      · exact next_corresponds found related _
      · exact next_corresponds found related _
      · trivial
  | clauses => exact clause
  | action =>
      dsimp only [reference]
      split <;> first
        | exact ⟨table, other, found, related, rfl⟩
        | trivial
  | deferrable =>
      dsimp only [reference]
      split
      · exact ⟨table, other, found, related, rfl⟩
      · exact clause
  | _ => exact taken _ _

/-! ### Default values -/

/-- The expression that is embedded in the definition of a table is read and put into its
column. -/
theorem embedding_withTable {place : Embedding}
    (taken : place.read draft rest = .next target after left)
    (columns : target = .column .constraints → KeptByColumns R) :
    ∃ new newOther, after.statement = some (.table new) ∧ R new newOther ∧
      place.read (draft.withTable other) rest = .next target (after.withTable newOther) left := by
  have noIndex {f : Index → Index} : draft.changeIndex f ≠ some after := by
    intro changed
    obtain ⟨index, again, -⟩ := changeIndex_eq_some changed
    exact absurd (found.symm.trans again) (by simp)
  cases Embedding.reads taken with
  | default read changed =>
      obtain ⟨new, newOther, found, related, same⟩ :=
        changeColumn_withTable found related (columns rfl) changed
      refine ⟨new, newOther, found, related, ?_⟩
      rw [Embedding.read, read]
      dsimp only
      rw [same]
      rfl
  | terms _ changed | predicate _ _ changed => exact absurd changed noIndex

/-! ### Constraints and options -/

/-- A complete key list is put into the table. -/
theorem finishKey_withTable (constraints : KeptByConstraints R)
    (finished : draft.finishKey = (after, none)) :
    ∃ new newOther, after.statement = some (.table new) ∧ R new newOther ∧
      (draft.withTable other).finishKey = (after.withTable newOther, none) := by
  obtain ⟨same, entered, again, rfl, kind⟩ := finishKey_eq_none finished
  obtain rfl : table = same := table_unique found again
  have key : (draft.withTable other).key = draft.key := rfl
  rcases kind with ⟨primary, members, known, rfl⟩ | ⟨unique, rfl⟩
  · obtain ⟨members', known', kept⟩ :=
      constraints.key related _ _ draft.key.conflict known
    refine ⟨_, _, rfl, kept, ?_⟩
    simp only [Draft.finishKey, Draft.withTable, primary, known', if_true]
  · refine ⟨_, _, rfl, constraints.unique related draft.key, ?_⟩
    simp [Draft.finishKey, Draft.withTable, unique]

/-- A change of the last column of a key list. -/
theorem goPart_corresponds (s : State) (f : KeyPart → KeyPart) :
    (draft.go s (changeLastPart draft f)).Corresponds R
      ((draft.withTable other).go s (changeLastPart (draft.withTable other) f)) := by
  unfold changeLastPart
  rw [show (draft.withTable other).key = draft.key from rfl]
  split
  · trivial
  · exact ⟨table, other, found, related, rfl⟩

/-- A column of a key list ends alike. -/
theorem keyPartEnd_corresponds : (keyPartEnd draft token).Corresponds R
    (keyPartEnd (draft.withTable other) token) := by
  unfold keyPartEnd
  rw [show (draft.withTable other).key = draft.key from rfl]
  split
  · exact ⟨table, other, found, related, rfl⟩
  · split
    · exact next_corresponds found related _
    · exact next_corresponds found related _
    · trivial

/-- The order of a column of a key list is noted alike. -/
theorem keyOrder_corresponds : (keyOrder draft token).Corresponds R
    (keyOrder (draft.withTable other) token) := by
  unfold keyOrder
  split
  · exact goPart_corresponds found related _ _
  · exact goPart_corresponds found related _ _
  · exact keyPartEnd_corresponds found related

/-- The end of a key list, with its conflict clause or without. -/
theorem keyEnd_corresponds (constraints : KeptByConstraints R) :
    (constraint .keyEnd draft token).Corresponds R
      (constraint .keyEnd (draft.withTable other) token) := by
  dsimp only [constraint]
  split
  · exact next_corresponds found related _
  · rcases finished : draft.finishKey with ⟨after, _ | why⟩
    · obtain ⟨new, newOther, found, related, same⟩ :=
        finishKey_withTable found related constraints finished
      rw [same]
      exact constraintBoundary_corresponds found related
    · trivial

/-- The action of the conflict clause of a key list. -/
theorem keyConflict_corresponds (constraints : KeptByConstraints R) :
    (constraint .keyConflict draft token).Corresponds R
      (constraint .keyConflict (draft.withTable other) token) := by
  dsimp only [constraint]
  split
  · rename_i action _
    rcases finished : Draft.finishKey
      { draft with key := { draft.key with conflict := some action } } with ⟨after, _ | why⟩
    · obtain ⟨new, newOther, found, related, same⟩ := @finishKey_withTable R table other
        { draft with key := { draft.key with conflict := some action } } _ found related
        constraints finished
      have same : Draft.finishKey { draft.withTable other with
          key := { (draft.withTable other).key with conflict := some action } } =
        (after.withTable newOther, none) := same
      rw [same]
      exact next_corresponds found related _
    · trivial
  · trivial

/-- **In a constraint of the table the same moves are made** with another table. -/
theorem constraint_corresponds (s : ConstraintState) (constraints : KeptByConstraints R) :
    (constraint s draft token).Corresponds R (constraint s (draft.withTable other) token) := by
  cases s with
  | begun => exact constraintStart_corresponds found related
  | constraintName | foreign | keyOn => exact goIf_corresponds found related _ _
  | primaryKey | unique => exact goIf_corresponds found related _ _
  | named => exact constraintKeyword_corresponds found related
  | primary | keyColumn | check | foreignKey | foreignReferences =>
      exact ite_corresponds fun _ => ⟨table, other, found, related, rfl⟩
  | keyColumnName =>
      dsimp only [constraint]
      split
      · exact next_corresponds found related _
      · exact keyOrder_corresponds found related
  | keyCollate => exact ite_corresponds fun _ => goPart_corresponds found related _ _
  | keyCollated => exact keyOrder_corresponds found related
  | keyOrdered => exact keyPartEnd_corresponds found related
  | keyEnd => exact keyEnd_corresponds found related constraints
  | keyConflict => exact keyConflict_corresponds found related constraints
  | checkBody =>
      exact takeBody_corresponds found related _ fun _ condition found =>
        goTable_corresponds found _ (constraints.check related condition)
  | foreignColumn =>
      dsimp only [constraint]
      rw [show (draft.withTable other).owner = draft.owner from rfl]
      split
      · exact ite_corresponds fun _ => ⟨table, other, found, related, rfl⟩
      · trivial
  | foreignColumnName =>
      dsimp only [constraint]
      split
      · exact next_corresponds found related _
      · exact next_corresponds found related _
      · trivial
  | done => exact constraintBoundary_corresponds found related

/-- **After the table the same moves are made** with another table. -/
theorem option_corresponds (s : OptionState) (constraints : KeptByConstraints R) :
    (option s draft token).Corresponds R (option s (draft.withTable other) token) := by
  have tableOption_corresponds : (tableOption draft token).Corresponds R
      (tableOption (draft.withTable other) token) := by
    unfold tableOption
    split
    · exact next_corresponds found related _
    · exact goTable_corresponds found _ (constraints.strict related)
    · trivial
  cases s with
  | closed | next => exact tableOption_corresponds
  | without =>
      exact ite_corresponds fun _ =>
        goTable_corresponds found _ (constraints.withoutRowid related)
  | done => exact goIf_corresponds found related _ _

end Moves

/-! ### Phases -/

/-- How far a definition of a table has come: to its heading, to its columns, or to what is
declared for the table as a whole. -/
def Draft.phase (draft : Draft) : State → Nat
  | .column _ => 1
  | .reference _ => if draft.owner = .column then 1 else 2
  | .constraint _ | .option _ => 2
  | _ => 0

/-- No phase comes back where something complete is put in its place. -/
theorem Settles.phase_le {middle : State} {settled : Draft}
    (h : Settles state draft middle settled) : draft.phase state ≤ settled.phase middle := by
  cases h with
  | refl => exact Nat.le_refl _
  | columnReference _ owner => simp [Draft.phase, owner]
  | tableReference _ owner => simp [Draft.phase, owner]
  | _ => simp [Draft.phase]

/-- Where the draft stays as it is, no phase comes back. -/
theorem passes_phase_le (passes : state.passes target = true) :
    draft.phase state ≤ draft.phase target := by
  revert passes
  fun_cases State.passes state target <;> intro passes <;> first
    | exact absurd passes Bool.false_ne_true
    | exact Nat.le_refl _
    | exact Nat.zero_le _
    | exact Nat.le_succ _

/-- **No phase comes back**, whatever token is taken. -/
theorem Takes.phase_le (h : Takes token rest state draft target after)
    (parts : draft.HasParts state) : draft.phase state ≤ after.phase target := by
  cases h with
  | pass passes => exact passes_phase_le passes
  | openBody opens => cases opens <;> exact Nat.le_refl _
  | body isBody taken =>
      obtain ⟨_, -, rfl⟩ := takeBody_eq_none taken
      cases state <;> exact Nat.le_refl _
  | check closes => cases closes <;> exact Nat.le_refl _
  | openForeign =>
      obtain ⟨columns, owner⟩ := parts.children rfl
      simp [Draft.phase, Draft.openReference, owner]
  | parent | parentColumn | clause => exact Nat.le_refl _
  | _ => simp [Draft.phase, Draft.openReference]

/-- No phase comes back in a step. -/
theorem step_phase_le (parts : draft.HasParts state)
    (taken : step state draft token rest = .next target after left) :
    draft.phase state ≤ after.phase target := by
  obtain ⟨middle, settled, settles, takes⟩ := step_cases taken
  exact settles.phase_le.trans (takes.phase_le (settles.hasParts parts))

/-- **A step is taken with another table** as well. -/
theorem step_withTable (parts : draft.HasParts state)
    (taken : step state draft token rest = .next target after left)
    (inside : draft.phase state ≠ 0) (columns : draft.phase state = 1 → KeptByColumns R)
    (constraints : draft.phase state = 2 → KeptByConstraints R)
    (keys : state = .column .primary ∨ state = .column (.conflictAction .primaryKey) →
      KeptByKeys R)
    (found : draft.statement = some (.table table)) (related : R table other) :
    ∃ new newOther, after.statement = some (.table new) ∧ R new newOther ∧
      step state (draft.withTable other) token rest =
        .next target (after.withTable newOther) left := by
  have later := step_phase_le parts taken
  have moves : (Move.ofState state draft token rest.head?).Corresponds R
      (Move.ofState state (draft.withTable other) token rest.head?) := by
    cases state with
    | column s =>
        exact column_corresponds found related (columns rfl) s fun key =>
          keys (by simpa using key)
    | reference s =>
        refine reference_corresponds found related s _ (fun owner => columns ?_)
          fun owner => constraints ?_
        · simp [Draft.phase, owner]
        · simp [Draft.phase, owner]
    | constraint s => exact constraint_corresponds found related s (constraints rfl)
    | option s => exact option_corresponds found related s (constraints rfl)
    | _ => exact absurd rfl inside
  unfold step at taken ⊢
  cases move : Move.ofState state draft token rest.head? with
  | refuse why d => simp [move] at taken
  | next s d =>
      rw [move] at moves taken
      obtain ⟨rfl, rfl, rfl⟩ := Step.next.inj taken
      obtain ⟨new, newOther, found, related, same⟩ := moves
      exact ⟨new, newOther, found, related, by rw [same]⟩
  | embed place d =>
      rw [move] at moves taken
      obtain ⟨new, newOther, found, related, same⟩ := moves
      rw [same]
      exact embedding_withTable found related taken fun place =>
        columns (Nat.le_antisymm (by rwa [place] at later) (Nat.one_le_iff_ne_zero.2 inside))

section Path

variable {text : String} {past later : List Transition} {tokens : List Token} {last : State}
  {final : Draft}

/-- No phase comes back over many steps. -/
theorem ReadsOn.phase_le (on : ReadsOn state draft tokens later last final left)
    (h : Reaches text past state draft tokens) : draft.phase state ≤ final.phase last := by
  induction on with
  | refl => exact Nat.le_refl _
  | next before taken ih => exact ih.trans (step_phase_le (h.append before).hasParts taken)

/-- **What is read between two places of one phase is read with another table** as well. -/
theorem Reaches.withTable (h : Reaches text past state draft tokens)
    (on : ReadsOn state draft tokens later last final left)
    (same : final.phase last = draft.phase state)
    (inside : draft.phase state ≠ 0) (columns : draft.phase state = 1 → KeptByColumns R)
    (constraints : draft.phase state = 2 → KeptByConstraints R)
    (keys : ∀ transition ∈ later, transition.source = .column .primary ∨
      transition.source = .column (.conflictAction .primaryKey) → KeptByKeys R)
    (found : draft.statement = some (.table table)) (related : R table other) :
    ∃ new newOther, final.statement = some (.table new) ∧ R new newOther ∧
      ReadsOn state (draft.withTable other) tokens later last (final.withTable newOther) left := by
  induction on with
  | refl => exact ⟨table, other, found, related, .refl⟩
  | next before taken ih =>
      have reached := h.append before
      have phase := step_phase_le reached.hasParts taken
      have same := Nat.le_antisymm (phase.trans same.le) (before.phase_le h)
      obtain ⟨new, newOther, found, related, reads⟩ := ih same fun transition member =>
        keys transition (List.mem_append_left _ member)
      obtain ⟨new, newOther, found, related, taken⟩ := step_withTable reached.hasParts taken
        (same ▸ inside) (same ▸ columns) (same ▸ constraints)
        (keys _ (List.mem_append_right _ (List.mem_singleton.2 rfl))) found related
      exact ⟨new, newOther, found, related, reads.next taken⟩

end Path

end SchemaText
