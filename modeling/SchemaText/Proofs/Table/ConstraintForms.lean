import SchemaText.Proofs.Table.Additions
import SchemaText.Proofs.Table.ColumnEnds
import SchemaText.Proofs.Table.ConstraintReading

/-!
# Two forms of a constraint

A reference, a unique key and the primary key of a single column can be declared at the end
of the definition of the column or as a constraint of the table. Both forms are read through
different states and note the same about the column.

## Main definitions

* `ReferencePath`, `SpellsReference`: the tokens of a reference.
* `ConstraintForms`: the two forms of a constraint of a column.

## Main results

* `outcome_columnForm`, `outcome_tableForm`: **each form is read** and notes the same.
-/

namespace SchemaText

open Token Move

variable {table : Table} {draft : Draft} {token : Token} {ts rest : List Token} {i : Nat}
  {statement : Statement} {name : String} {addition : Addition}

/-! ### Spellings -/

/-- The tokens of a reference up to a state: its parent, the parent columns, and the tokens
of its clauses. -/
inductive ReferencePath : ReferenceState → Reference → List Token → List Token → Prop
  | parent {token : Token} (isName : token.isName = true) :
      ReferencePath .table ⟨token.text, [], ""⟩ [] [token]
  | columns {r : Reference} {ts : List Token} (path : ReferencePath .table r [] ts) :
      ReferencePath .column r [] (ts ++ [openParen])
  | column {r : Reference} {ts : List Token} {token : Token} (path : ReferencePath .column r [] ts)
      (isName : token.isName = true) :
      ReferencePath .columnName { r with columns := r.columns ++ [token.text] } [] (ts ++ [token])
  | next {r : Reference} {ts : List Token} (path : ReferencePath .columnName r [] ts) :
      ReferencePath .column r [] (ts ++ [comma])
  | close {r : Reference} {ts : List Token} (path : ReferencePath .columnName r [] ts) :
      ReferencePath .clauses r [] (ts ++ [closeParen])
  | clause {s target : ReferenceState} {r : Reference} {clauses ts : List Token} {token : Token}
      (path : ReferencePath s r clauses ts) (step : ClauseStep token s target) :
      ReferencePath target r (clauses ++ [token]) (ts ++ [token])

/-- The tokens after the word `REFERENCES` spell a whole reference. -/
inductive SpellsReference : Reference → List Token → Prop
  | whole {s : ReferenceState} {r : Reference} {clauses ts : List Token}
      (path : ReferencePath s r clauses ts) (settled : s.isSettled = true) :
      SpellsReference { r with clauses := render clauses } ts

/-- One word, if it is there. -/
inductive SpellsWord (k : Keyword) : Bool → List Token → Prop
  | absent : SpellsWord k false []
  | present {token : Token} (word : token.is k = true) : SpellsWord k true [token]

/-- The token names a column of this name, in any case. -/
structure Token.Names (token : Token) (name : String) : Prop where
  /-- It is a name. -/
  isName : token.isName = true
  /-- The name is the same. -/
  same : Text.same name token.text = true

/-- The two forms of a constraint of the column with this name: at the end of its definition,
and as a constraint of the table. -/
inductive ConstraintForms (name : String) : Addition → List Token → List Token → Prop
  /-- `REFERENCES ...` and `FOREIGN KEY (c) REFERENCES ...` -/
  | reference {r : Reference} {word foreign key child : Token} {ts : List Token}
      (opens : word.is .REFERENCES = true) (spells : SpellsReference r ts)
      (first : foreign.is .FOREIGN = true) (second : key.is .KEY = true)
      (names : child.Names name) :
      ConstraintForms name (.reference r) (word :: ts)
        (foreign :: key :: openParen :: child :: closeParen :: word :: ts)
  /-- `UNIQUE ...` and `UNIQUE (c) ...` -/
  | unique {conflict : Option ConflictAction} {word word' child : Token} {ts ts' : List Token}
      (opens : word.is .UNIQUE = true) (spells : SpellsConflict conflict ts)
      (opens' : word'.is .UNIQUE = true) (names : child.Names name)
      (spells' : SpellsConflict conflict ts') :
      ConstraintForms name (.unique conflict) (word :: ts)
        (word' :: openParen :: child :: closeParen :: ts')
  /-- `PRIMARY KEY ...` and `PRIMARY KEY (c ...) ...` -/
  | key {autoincrement ascending ascending' : Bool} {conflict : Option ConflictAction}
      {word key word' key' child : Token} {order ts auto order' auto' ts' : List Token}
      (opens : word.is .PRIMARY = true) (second : key.is .KEY = true)
      (orders : SpellsWord .ASC ascending order) (spells : SpellsConflict conflict ts)
      (counts : SpellsWord .AUTOINCREMENT autoincrement auto)
      (opens' : word'.is .PRIMARY = true) (second' : key'.is .KEY = true)
      (names : child.Names name) (orders' : SpellsWord .ASC ascending' order')
      (counts' : SpellsWord .AUTOINCREMENT autoincrement auto')
      (spells' : SpellsConflict conflict ts') :
      ConstraintForms name (.key autoincrement conflict) (word :: key :: (order ++ (ts ++ auto)))
        (word' :: key' :: openParen :: child :: (order' ++ (auto' ++ closeParen :: ts')))

/-! ### Reading a reference -/

/-- **A reference is read** as it is spelled, whoever it belongs to. -/
theorem outcome_referencePath {s : ReferenceState} {r : Reference} {clauses : List Token}
    (path : ReferencePath s r clauses ts) (fresh : draft.reference = ⟨"", [], ""⟩)
    (none : draft.clauses = []) (rest : List Token) (waits : AwaitsDeferrable s rest.head?) :
    outcome (.reference .begun) draft (ts ++ rest) =
      outcome (.reference s) { draft with reference := r, clauses := clauses } rest := by
  induction path generalizing rest with
  | @parent token isName =>
      have named (next : Option Token) : Move.ofState (.reference .begun) draft token next =
          .next (.reference .table)
            { draft with reference := ⟨token.text, [], ""⟩, clauses := [] } := by
        simp [Move.ofState, Move.reference, isName, fresh, ← none]
      exact outcome_move (named _)
  | columns path ih =>
      rw [List.append_assoc, List.singleton_append, ih _ (by rintro ⟨⟩)]
      exact outcome_move rfl
  | column path isName ih =>
      rw [List.append_assoc, List.singleton_append, ih _ (by rintro ⟨⟩)]
      refine outcome_move ?_
      simp [Move.ofState, Move.reference, isName]
  | next path ih | close path ih =>
      rw [List.append_assoc, List.singleton_append, ih _ (by rintro ⟨⟩)]
      exact outcome_move rfl
  | @clause s target r clauses ts token path step ih =>
      rw [List.append_assoc, List.singleton_append, ih _ (step.awaits rest)]
      exact outcome_move (step.move waits)

/-! ### Changes of the last column -/

/-- A draft with a table holds that table. -/
theorem Draft.statement_withTable (draft : Draft) (table : Table) :
    (draft.withTable table).statement = some (.table table) := rfl

section Changes

variable (found : draft.statement = some (.table table))

include found

/-- Where the table is known, changing it is setting it. -/
theorem changeTable_eq_withTable (f : Table → Table) :
    draft.changeTable f = some (draft.withTable (f table)) := by
  rw [Draft.changeTable, found]
  rfl

/-- Where the last column is known, changing it is setting the table. -/
theorem changeColumn_eq_withTable (last : i + 1 = table.columns.length) (f : Column → Column) :
    draft.changeColumn f = some (draft.withTable (table.modifyColumn i f)) := by
  have some : table.columns.isEmpty = false := by
    rw [List.isEmpty_eq_false_iff, ← List.length_pos_iff]
    omega
  rw [Draft.changeColumn, found]
  simp only [some, Bool.false_eq_true, if_false, ← last, Nat.add_sub_cancel]
  rfl

end Changes

/-- A word between constraints begins one. -/
theorem columnBoundary_of_is {k : Keyword} (word : token.is k = true) :
    columnBoundary draft token = columnKeyword draft token := by
  have notKind (kind : token.kind = .comma ∨ token.kind = .closeParen) : False :=
    Bool.false_ne_true ((is_eq_false_of_kind kind k).symm.trans word)
  unfold columnBoundary
  split
  · rename_i kind
    exact (notKind (.inl kind)).elim
  · rename_i kind
    exact (notKind (.inr kind)).elim
  · rfl

/-- A conflict clause of a column is read. -/
theorem outcome_conflictClause (owner : ConflictOwner) {s : ColumnState}
    {action : ConflictAction}
    {target : State} {after : Draft} (spells : SpellsConflict (some action) ts)
    (opens : ∀ {t : Token} next, t.is .ON = true → Move.ofState (.column s) draft t next =
      .next (.column (.conflictOn owner)) draft)
    (resolved : resolveConflict owner action draft = .next target after) :
    outcome (.column s) draft (ts ++ rest) = outcome target after rest := by
  cases spells with
  | @action on conflict word action first second third =>
      have middle (next : Option Token) :
          Move.ofState (.column (.conflictOn owner)) draft conflict
          next = .next (.column (.conflictAction owner)) draft := by
        simp [Move.ofState, Move.column, Draft.goIf, second]
      have closing (next : Option Token) :
          Move.ofState (.column (.conflictAction owner)) draft word
          next = .next target after := by
        simp [Move.ofState, Move.column, third, resolved]
      rw [List.cons_append, List.cons_append, List.cons_append, List.nil_append,
        outcome_move (opens _ first), outcome_move (middle _), outcome_move (closing _)]

/-! ### In the definition of a column -/

section ColumnForms

variable (found : draft.statement = some (.table table)) (last : i + 1 = table.columns.length)
  (ends : token.EndsPart)

include found last ends

/-- A reference at the end of a column. -/
theorem outcome_columnReference {word : Token} {r : Reference}
    (opens : word.is .REFERENCES = true)
    (spells : SpellsReference r ts) (blank : draft.IsBlank) (notNot : token.is .NOT = false)
    (h : outcome (.column .constraints)
      (draft.withTable ((Addition.reference r).apply i table)) (token :: rest) = .ok statement) :
    outcome (.column .constraints) draft (word :: ts ++ token :: rest) = .ok statement := by
  cases spells with
  | @whole s r clauses ts path settled =>
      have opening (next : Option Token) :
          Move.ofState (.column .constraints) draft word next =
          .next (.reference .begun) draft := by
        change columnBoundary draft word = _
        rw [columnBoundary_of_is opens, columnKeyword, keyword?_of_is opens,
          blank.openReference]
      have waits : AwaitsDeferrable s (token :: rest).head? := by
        rintro rfl
        exact absurd settled Bool.false_ne_true
      have finished : Draft.finishReference { draft with reference := r, clauses := clauses } =
          some (draft.withTable
            ((Addition.reference { r with clauses := render clauses }).apply i table)) := by
        have reopened : Draft.openReference { draft with reference := r, clauses := clauses }
            .column = draft := blank.openReference
        rw [Draft.finishReference, reopened, show ({ draft with
          reference := r, clauses := clauses } : Draft).owner = .column from blank.owner]
        exact changeColumn_eq_withTable found last _
      rw [List.cons_append, outcome_move (opening _),
        outcome_referencePath path blank.reference blank.clauses _ waits]
      have owner : ({ draft with reference := r, clauses := clauses } : Draft).owner = .column :=
        blank.owner
      exact outcome_congr (ends.move_reference notNot settled owner finished _) h

/-- A unique key at the end of a column. -/
theorem outcome_columnUnique {word : Token} {conflict : Option ConflictAction}
    (opens : word.is .UNIQUE = true) (spells : SpellsConflict conflict ts)
    (fits : ∀ column, table.columns[i]? = some column → column.uniqueConflict = none)
    (h : outcome (.column .constraints)
      (draft.withTable ((Addition.unique conflict).apply i table)) (token :: rest) =
        .ok statement) :
    outcome (.column .constraints) draft (word :: ts ++ token :: rest) = .ok statement := by
  have opening (next : Option Token) : Move.ofState (.column .constraints) draft word next =
      .next (.column .unique)
        (draft.withTable (table.modifyColumn i fun c => { c with unique := true })) := by
    change columnBoundary draft word = _
    rw [columnBoundary_of_is opens, columnKeyword, keyword?_of_is opens]
    dsimp only
    rw [changeColumn_eq_withTable found last]
    rfl
  rw [List.cons_append, outcome_move (opening _)]
  cases conflict with
  | none =>
      cases spells
      have same : table.modifyColumn i (fun c => { c with unique := true }) =
          (Addition.unique none).apply i table :=
        Table.modifyColumn_congr fun column position => by
          rw [Addition.mark, ← fits column position]
      rw [same, List.nil_append]
      exact outcome_congr (ends.move_eq rfl (by simp) _) h
  | some action =>
      have length : i + 1 =
          (table.modifyColumn i fun c => { c with unique := true }).columns.length := by
        rwa [length_modifyColumn]
      rw [outcome_conflictClause .unique spells
        (fun {t} next word => by simp [Move.ofState, Move.column, word])
        (by rw [resolveConflict, changeColumn_eq_withTable rfl length]; rfl),
        Table.modifyColumn_modifyColumn]
      exact h

/-- `AUTOINCREMENT` after the key of a column, if it is there. -/
theorem outcome_keyCount {asked : Bool} {s : ColumnState} {auto : List Token}
    (place : s.isAfterKey = true) (counts : SpellsWord .AUTOINCREMENT asked auto)
    (fresh : ∀ column, table.columns[i]? = some column → column.autoincrement = false)
    (h : outcome (.column .constraints) (draft.withTable
      (table.modifyColumn i fun c => { c with autoincrement := asked })) (token :: rest) =
        .ok statement) :
    outcome (.column s) draft (auto ++ token :: rest) = .ok statement := by
  cases counts with
  | absent =>
      have same : table.modifyColumn i (fun c => { c with autoincrement := false }) = table :=
        Table.modifyColumn_eq_self fun column position => by rw [← fresh column position]
      rw [same, Draft.withTable_self found] at h
      refine outcome_congr (ends.move_eq ?_ ?_ _) h
      · rcases ColumnState.eq_of_isAfterKey place with rfl | rfl | rfl <;> rfl
      · rintro rfl
        exact absurd place Bool.false_ne_true
  | @present word known =>
      have noted : afterKey draft word = .next (.column .constraints) (draft.withTable
          (table.modifyColumn i fun c => { c with autoincrement := true })) := by
        rw [afterKey, if_pos known, changeColumn_eq_withTable found last]
        rfl
      have taken (next : Option Token) : Move.ofState (.column s) draft word next =
          .next (.column .constraints) (draft.withTable
            (table.modifyColumn i fun c => { c with autoincrement := true })) := by
        have known := keyword?_of_is known
        rcases ColumnState.eq_of_isAfterKey place with rfl | rfl | rfl <;>
          simp [Move.ofState, Move.column, Token.is, known, noted]
      rw [List.singleton_append, outcome_move (taken _)]
      exact h

/-- The conflict clause of the key of a column and `AUTOINCREMENT`, if they are there. -/
theorem outcome_keyClause {asked : Bool} {conflict : Option ConflictAction} {s : ColumnState}
    {auto : List Token} (place : s = .primaryKey ∨ s = .primaryOrdered)
    (spells : SpellsConflict conflict ts) (counts : SpellsWord .AUTOINCREMENT asked auto)
    (fresh : ∀ column, table.columns[i]? = some column → column.autoincrement = false)
    (h : outcome (.column .constraints) (draft.withTable
      { table.modifyColumn i fun c => { c with autoincrement := asked } with
        keyConflict := conflict.or table.keyConflict }) (token :: rest) = .ok statement) :
    outcome (.column s) draft (ts ++ auto ++ token :: rest) = .ok statement := by
  rw [List.append_assoc]
  cases conflict with
  | none =>
      cases spells
      exact outcome_keyCount found last ends (by rcases place with rfl | rfl <;> rfl) counts fresh h
  | some action =>
      refine (outcome_conflictClause .primaryKey spells (fun {t} next word => ?_)
        (by rw [resolveConflict, changeTable_eq_withTable found]; rfl)).trans ?_
      · have known := keyword?_of_is word
        rcases place with rfl | rfl <;> simp [Move.ofState, Move.column, Token.is, known]
      · exact outcome_keyCount (draft.statement_withTable { table with keyConflict := some action })
          last ends rfl counts fresh h

omit ends in
/-- `ASC` after the key of a column, if it is there. -/
theorem outcome_keyOrder {ascending : Bool} {order : List Token}
    (orders : SpellsWord .ASC ascending order)
    (fresh : ∀ column, table.columns[i]? = some column → column.columnDesc = false)
    (rest : List Token) : ∃ s, (s = .primaryKey ∨ s = .primaryOrdered) ∧
      outcome (.column .primaryKey) draft (order ++ rest) = outcome (.column s) draft rest := by
  cases orders with
  | absent => exact ⟨.primaryKey, .inl rfl, rfl⟩
  | @present word known =>
      refine ⟨.primaryOrdered, .inr rfl, outcome_move ?_⟩
      have same : table.modifyColumn i (fun c => { c with columnDesc := false }) = table :=
        Table.modifyColumn_eq_self fun column position => by rw [← fresh column position]
      simp only [Move.ofState, Move.column, keyword?_of_is known]
      rw [changeColumn_eq_withTable found last, same, Draft.withTable_self found]
      rfl

/-- The primary key at the end of a column. -/
theorem outcome_columnKey {asked ascending : Bool} {conflict : Option ConflictAction}
    {word key : Token} {order auto : List Token} (opens : word.is .PRIMARY = true)
    (second : key.is .KEY = true) (orders : SpellsWord .ASC ascending order)
    (spells : SpellsConflict conflict ts) (counts : SpellsWord .AUTOINCREMENT asked auto)
    (keyless : table.IsKeyless)
    (h : outcome (.column .constraints)
      (draft.withTable ((Addition.key asked conflict).apply i table)) (token :: rest) =
        .ok statement) :
    outcome (.column .constraints) draft (word :: key :: (order ++ (ts ++ auto)) ++ token :: rest) =
      .ok statement := by
  have opening (next : Option Token) : Move.ofState (.column .constraints) draft word next =
      .next (.column .primary) draft := by
    change columnBoundary draft word = _
    rw [columnBoundary_of_is opens, columnKeyword, keyword?_of_is opens]
  have declared (next : Option Token) : Move.ofState (.column .primary) draft key next =
      .next (.column .primaryKey) (draft.withTable (table.keyedBy i)) := by
    have index : table.columns.length - 1 = i := by omega
    have some : table.columns.isEmpty = false := by
      rw [List.isEmpty_eq_false_iff, ← List.length_pos_iff]
      omega
    have entered : draft.changeTable (·.setKeyMember (table.columns.length - 1) true) =
        Option.some (draft.withTable (table.keyedBy i)) := by
      rw [changeTable_eq_withTable found, index,
        Table.setKeyMember_of_isKeyless keyless (by omega)]
    simp [Move.ofState, Move.column, second, found, some, entered, Draft.go]
  have length : i + 1 = (table.keyedBy i).columns.length :=
    last.trans (length_modifyColumn table i Column.asKey).symm
  rw [List.cons_append, List.cons_append, outcome_move (opening _), outcome_move (declared _),
    List.append_assoc]
  obtain ⟨s, place, same⟩ :=
    outcome_keyOrder (draft.statement_withTable (table.keyedBy i)) length
    orders (fun column position => (keyless.keyedBy position).1) (ts ++ auto ++ token :: rest)
  rw [same]
  refine outcome_keyClause rfl length ends place spells counts
    (fun column position => (keyless.keyedBy position).2.2) ?_
  rwa [Addition.apply_key] at h

/-- **At the end of a column** a constraint is read and noted. -/
theorem outcome_columnForm {form form' : List Token}
    (forms : ConstraintForms name addition form form')
    (blank : draft.IsBlank) (notNot : token.is .NOT = false)
    (fits : ∀ column, table.columns[i]? = some column → addition.Fits column)
    (keyless : addition.isKey = true → table.IsKeyless)
    (h : outcome (.column .constraints) (draft.withTable (addition.apply i table))
      (token :: rest) = .ok statement) :
    outcome (.column .constraints) draft (form ++ token :: rest) = .ok statement := by
  cases forms with
  | reference opens spells =>
      exact outcome_columnReference found last ends opens spells blank notNot h
  | unique opens spells => exact outcome_columnUnique found last ends opens spells fits h
  | key opens second orders spells counts =>
      exact outcome_columnKey found last ends opens second orders spells counts (keyless rfl) h

end ColumnForms

/-! ### As a constraint of the table -/

section TableForms

variable (found : draft.statement = some (.table table)) (blank : draft.IsBlank)
  (known : ∀ text, Text.same name text = true → table.columnIndex? text = some i)
  (starts : StartsItem rest)

include found blank known starts

/-- A foreign key with nothing but a column. -/
theorem outcome_loneForeignKey {r : Reference} {foreign key child word : Token}
    (first : foreign.is .FOREIGN = true) (second : key.is .KEY = true)
    (names : child.Names name)
    (opens : word.is .REFERENCES = true) (spells : SpellsReference r ts)
    (fits : ∀ column, table.columns[i]? = some column → column.references = none)
    (h : outcome (.constraint .done) (draft.withTable ((Addition.reference r).apply i table)) rest =
      .ok statement) :
    outcome (.column .begun) draft
      (foreign :: key :: openParen :: child :: closeParen :: word :: ts ++ rest) =
        .ok statement := by
  cases spells with
  | @whole s r clauses ts path settled =>
      let owned (d : Draft) : Draft := { d with owner := .table [child.text] }
      have opening (next : Option Token) : Move.ofState (.column .begun) draft foreign next =
          .next (.constraint .foreign) draft := by
        simp [Move.ofState, Move.column, startsConstraint, constraintStart, constraintKeyword,
          Token.is, keyword?_of_is first]
      have wordKey (next : Option Token) : Move.ofState (.constraint .foreign) draft key next =
          .next (.constraint .foreignKey) draft := by
        simp [Move.ofState, Move.constraint, Draft.goIf, second]
      have opened (next : Option Token) :
          Move.ofState (.constraint .foreignKey) draft openParen
          next = .next (.constraint .foreignColumn) { draft with owner := .table [] } := rfl
      have named (next : Option Token) : Move.ofState (.constraint .foreignColumn)
          { draft with owner := .table [] } child next =
            .next (.constraint .foreignColumnName) (owned draft) := by
        simp [Move.ofState, Move.constraint, names.isName, owned]
      have closed (next : Option Token) : Move.ofState (.constraint .foreignColumnName)
          (owned draft) closeParen next = .next (.constraint .foreignReferences) (owned draft) :=
        rfl
      have refers (next : Option Token) : Move.ofState (.constraint .foreignReferences)
          (owned draft) word next =
            .next (.reference .begun) ((owned draft).openReference (.table [child.text])) := by
        simp [Move.ofState, Move.constraint, opens, owned]
      have waits : AwaitsDeferrable s rest.head? := by
        rintro rfl
        exact absurd settled Bool.false_ne_true
      have finished : Draft.finishReference
          { (owned draft).openReference (.table [child.text]) with
            reference := r, clauses := clauses } =
          some (draft.withTable
            ((Addition.reference { r with clauses := render clauses }).apply i table)) := by
        change Draft.changeTable (draft.openReference .column) _ = _
        rw [blank.openReference, changeTable_eq_withTable found,
          Addition.enterForeignKey_eq (known _ names.same) fits]
      simp only [List.cons_append]
      rw [outcome_move (opening _), outcome_move (wordKey _), outcome_move (opened _),
        outcome_move (named _), outcome_move (closed _), outcome_move (refers _),
        outcome_referencePath path rfl rfl _ waits]
      obtain ⟨token, after, rfl, item⟩ := starts
      exact outcome_congr (move_foreignReference item settled rfl finished _) h

/-- A unique key with nothing but a column. -/
theorem outcome_loneUnique {conflict : Option ConflictAction} {word child : Token}
    (opens : word.is .UNIQUE = true) (names : child.Names name)
    (spells : SpellsConflict conflict ts)
    (h : outcome (.constraint .done) (draft.withTable ((Addition.unique conflict).apply i table))
      rest = .ok statement) :
    outcome (.column .begun) draft (word :: openParen :: child :: closeParen :: ts ++ rest) =
      .ok statement := by
  let listed : Draft := { draft with key := { columns := [⟨child.text, none, false⟩] } }
  have opening (next : Option Token) : Move.ofState (.column .begun) draft word next =
      .next (.constraint .unique) { draft with key := {} } := by
    simp [Move.ofState, Move.column, startsConstraint, constraintStart, constraintKeyword,
      Token.is, keyword?_of_is opens]
  have opened (next : Option Token) :
      Move.ofState (.constraint .unique) { draft with key := {} }
      openParen next = .next (.constraint .keyColumn) { draft with key := {} } := rfl
  have named (next : Option Token) : Move.ofState (.constraint .keyColumn)
      { draft with key := {} } child next = .next (.constraint .keyColumnName) listed := by
    simp [Move.ofState, Move.constraint, names.isName, listed]
  have closed (next : Option Token) :
      Move.ofState (.constraint .keyColumnName) listed closeParen
      next = .next (.constraint .keyEnd) listed := rfl
  simp only [List.cons_append]
  rw [outcome_move (opening _), outcome_move (opened _), outcome_move (named _),
    outcome_move (closed _)]
  refine outcome_keyEnd spells rfl ?_ starts h
  have single : ({ listed.key with conflict := conflict } : PendingKey).columns =
      [⟨child.text, none, false⟩] := rfl
  have entered := Addition.enterUnique_eq (known _ names.same) single
  simp only [Draft.finishKey, listed, found] at entered ⊢
  rw [entered, Draft.withTable, ← blank.key]
  rfl

omit found blank known starts in
/-- `AUTOINCREMENT` at the end of a key list, if it is there. -/
theorem outcome_listCount {d : Draft} {asked : Bool} {s : ConstraintState} {auto : List Token}
    (place : s = .keyColumnName ∨ s = .keyOrdered)
    (counts : SpellsWord .AUTOINCREMENT asked auto) (primary : d.key.isPrimary = true)
    (fresh : d.key.autoincrement = false)
    (h : outcome (.constraint .keyEnd) { d with key := { d.key with autoincrement := asked } }
      rest = .ok statement) :
    outcome (.constraint s) d (auto ++ closeParen :: rest) = .ok statement := by
  cases counts with
  | absent =>
      have closed (next : Option Token) : Move.ofState (.constraint s) d closeParen next =
          .next (.constraint .keyEnd) d := by
        rcases place with rfl | rfl
        · exact (Token.EndsKeyPart.move_eq (.inr (.inl rfl)) rfl next).trans (move_closeKey d next)
        · exact move_closeKey d next
      have same : { d with key := { d.key with autoincrement := false } } = d := by
        rw [← fresh]
      rw [same] at h
      exact (outcome_move (closed _)).trans h
  | @present counter known =>
      have taken (next : Option Token) : Move.ofState (.constraint s) d counter next =
          .next (.constraint .keyOrdered)
            { d with key := { d.key with autoincrement := true } } := by
        have known := keyword?_of_is known
        rcases place with rfl | rfl <;>
          simp [Move.ofState, Move.constraint, keyOrder, keyPartEnd, Token.is, known, primary]
      rw [List.singleton_append, outcome_move (taken _)]
      exact (outcome_move (move_closeKey _ _)).trans h

/-- A primary key with nothing but a column. -/
theorem outcome_loneKey {asked ascending : Bool} {conflict : Option ConflictAction}
    {word key child : Token} {order auto : List Token} (opens : word.is .PRIMARY = true)
    (second : key.is .KEY = true) (names : child.Names name)
    (orders : SpellsWord .ASC ascending order) (counts : SpellsWord .AUTOINCREMENT asked auto)
    (spells : SpellsConflict conflict ts) (keyless : table.IsKeyless)
    (h : outcome (.constraint .done) (draft.withTable ((Addition.key asked conflict).apply i table))
      rest = .ok statement) :
    outcome (.column .begun) draft
      (word :: key :: openParen :: child :: (order ++ (auto ++ closeParen :: ts)) ++ rest) =
        .ok statement := by
  let listed (asked : Bool) : Draft := { draft with key :=
    { isPrimary := true, columns := [⟨child.text, none, false⟩], autoincrement := asked } }
  have opening (next : Option Token) : Move.ofState (.column .begun) draft word next =
      .next (.constraint .primary) draft := by
    simp [Move.ofState, Move.column, startsConstraint, constraintStart, constraintKeyword,
      Token.is, keyword?_of_is opens]
  have wordKey (next : Option Token) : Move.ofState (.constraint .primary) draft key next =
      .next (.constraint .primaryKey) { draft with key := { isPrimary := true } } := by
    simp [Move.ofState, Move.constraint, second]
  have opened (next : Option Token) : Move.ofState (.constraint .primaryKey)
      { draft with key := { isPrimary := true } } openParen next =
        .next (.constraint .keyColumn) { draft with key := { isPrimary := true } } := rfl
  have named (next : Option Token) : Move.ofState (.constraint .keyColumn)
      { draft with key := { isPrimary := true } } child next =
        .next (.constraint .keyColumnName) (listed false) := by
    simp [Move.ofState, Move.constraint, names.isName, listed]
  have ended : outcome (.constraint .keyEnd) (listed asked) (ts ++ rest) = .ok statement := by
    refine outcome_keyEnd spells rfl ?_ starts h
    obtain ⟨entered, entering, same⟩ :=
      Addition.enterKey_eq (known _ names.same) keyless asked conflict
    simp only [Draft.finishKey, listed, found, entering]
    rw [← same, Draft.withTable, ← blank.key]
    rfl
  simp only [List.cons_append, List.append_assoc]
  rw [outcome_move (opening _), outcome_move (wordKey _), outcome_move (opened _),
    outcome_move (named _)]
  cases orders with
  | absent => exact outcome_listCount (.inl rfl) counts rfl rfl ended
  | @present direction known =>
      have taken (next : Option Token) :
          Move.ofState (.constraint .keyColumnName) (listed false)
          direction next = .next (.constraint .keyOrdered) (listed false) := by
        have known := keyword?_of_is known
        simp [Move.ofState, Move.constraint, keyOrder, Token.is, known, changeLastPart, Draft.go,
          listed]
      rw [List.singleton_append, outcome_move (taken _)]
      exact outcome_listCount (.inr rfl) counts rfl rfl ended

/-- **As a constraint of the table** a constraint of a column is read and noted about it. -/
theorem outcome_tableForm {form form' : List Token}
    (forms : ConstraintForms name addition form form')
    (fits : ∀ column, table.columns[i]? = some column → addition.Fits column)
    (keyless : addition.isKey = true → table.IsKeyless)
    (h : outcome (.constraint .done) (draft.withTable (addition.apply i table)) rest =
      .ok statement) :
    outcome (.column .begun) draft (form' ++ rest) = .ok statement := by
  cases forms with
  | reference opens spells first second names =>
      exact outcome_loneForeignKey found blank known starts first second names opens spells fits h
  | unique opens spells opens' names spells' =>
      exact outcome_loneUnique found blank known starts opens' names spells' h
  | key opens second orders spells counts opens' second' names orders' counts' spells' =>
      exact outcome_loneKey found blank known starts opens' second' names orders' counts' spells'
        (keyless rfl) h

end TableForms

end SchemaText
