import SchemaText.Proofs.Statement.Heading
import SchemaText.Proofs.Table.ConstraintReading

/-!
# Reading tables back

The text of a table is read as a table again, though not always as the same one: what columns
note about the primary key is written once, at the column or in a key list, and is noted anew
from there.

## Main definitions

* `Table.IsReadable`: what a table contains can be read from its text.
* `Table.reread`: the table that is read.

## Main results

* `Table.IsReadable.outcome_tokens`: **a written table with columns is read**, as `reread`
  says.
-/

namespace SchemaText

open Token Move

variable {table : Table} {draft : Draft} {rest : List Token} {statement : Statement}

/-! ### What is read -/

/-- What a table contains can be read from its text. -/
structure Table.IsReadable (table : Table) : Prop where
  /-- The columns are readable. -/
  columns : ∀ column ∈ table.columns, column.IsReadable
  /-- The conditions are whole. -/
  checks : ∀ condition ∈ table.checks, BodyPath 1 (tokenize condition)
  /-- The unique keys are no keys of a column. -/
  uniques : ∀ key ∈ table.uniques,
    key.columns ≠ [] ∧ Draft.loneColumn? key.columns table = none
  /-- The foreign keys are no keys of a column. -/
  foreignKeys : ∀ key ∈ table.foreignKeys, key.columns ≠ [] ∧ key.references.IsComplete ∧
    Draft.loneChild? key.columns table = none
  /-- The members of the key are columns. -/
  key : ∀ i ∈ table.primaryKey, i < table.columns.length

namespace Table

/-- The key that the definition of the column at a position declares. -/
def keyAt (table : Table) (i : Nat) : Option (Option ConflictAction) :=
  if table.inlineKey? = some i then some table.keyConflict else none

/-- What the column definitions of a table declare. -/
def declared (table : Table) : Table :=
  { table with
    columns := table.columns.mapIdx fun i column => column.declared (table.keyAt i)
    primaryKey := table.inlineKey?.toList
    keyConflict := table.inlineKey?.elim none fun _ => table.keyConflict
    uniques := [], foreignKeys := [], checks := [], hasRowid := true, isStrict := false }

/-- Whether the key is written as a key list. -/
def hasKeyList (table : Table) : Bool :=
  table.inlineKey?.isNone && !table.primaryKey.isEmpty

/-- What the column definitions and the key list of a table declare. -/
def keyed (table : Table) : Table :=
  if table.hasKeyList then
    { (Draft.enterKey (table.keyColumns.any (·.autoincrement))
        (table.keyColumns.map Column.keyPart) table.declared).1 with
      keyConflict := table.keyConflict }
  else
    table.declared

/-- The table that is read from the text of a table. -/
def reread (table : Table) : Table :=
  { table.keyed with
    uniques := table.uniques, checks := table.checks.map respace
    foreignKeys := table.foreignKeys, hasRowid := table.hasRowid, isStrict := table.isStrict }

end Table

/-! ### The columns -/

/-- The columns are defined one by one, from the position after those that the table has. -/
def Table.declareAll (keyAt : Nat → Option (Option ConflictAction)) :
    List Column → Table → Table
  | [], table => table
  | column :: columns, table =>
    declareAll keyAt columns (table.declare (keyAt table.columns.length) column)

/-- A column definition without a key says nothing about the key. -/
theorem Table.IsKeyless.declare {column : Column} (h : table.IsKeyless) :
    (table.declare none column).IsKeyless := by
  refine ⟨h.key, ?_⟩
  rw [show (table.declare none column).notes = table.notes ++ [{}] from List.map_append]
  exact List.forall_mem_append.2 ⟨h.blank, List.forall_mem_singleton.2 rfl⟩

/-- A declaration adds one column. -/
theorem Table.length_declare (key : Option (Option ConflictAction)) (column : Column) :
    (table.declare key column).columns.length = table.columns.length + 1 := by
  cases key <;> simp [declare, withColumn]

/-- **All column definitions are read.** -/
theorem completes_columns {keyAt : Nat → Option (Option ConflictAction)}
    {columns : List Column}
    (readable : ∀ column ∈ columns, column.IsReadable) (ne : columns ≠ [])
    (once : ∀ i j, keyAt i ≠ none → keyAt j ≠ none → i = j)
    (keyless : ∀ i, table.columns.length ≤ i → keyAt i ≠ none →
      table.IsKeyless ∧ table.keyConflict = none) (starts : StartsItem rest)
    (h : Completes (.table (Table.declareAll keyAt columns table)) (.column .constraints) rest
      statement) :
    Completes (.table table) (.column .begun)
      ((commaList (columns.mapIdx fun i column =>
        column.tokens (keyAt (table.columns.length + i)))).map spoken ++ rest) statement := by
  induction columns generalizing table with
  | nil => exact absurd rfl ne
  | cons column columns ih =>
      have first := readable column (by simp)
      have others : ∀ column ∈ columns, column.IsReadable :=
        fun column member => readable column (by simp [member])
      rw [List.mapIdx_cons, Nat.add_zero]
      cases columns with
      | nil => exact completes_column first (keyless _ (Nat.le_refl _)) starts.startsLate h
      | cons next columns =>
          have position (i : Nat) : table.columns.length + (i + 1) =
              (table.declare (keyAt table.columns.length) column).columns.length + i := by
            rw [Table.length_declare]
            omega
          rw [commaList_cons _ (by simp), List.map_append, List.append_assoc, List.map_cons,
            List.cons_append, spoken_comma]
          refine completes_column first (keyless _ (Nat.le_refl _))
            ⟨comma, _, rfl, .inl rfl, rfl⟩ ?_
          refine .silent (.column .begun) (fun _ => rfl) ?_
          simp only [position]
          refine ih others (by simp) (fun i later key => ?_) h
          rw [Table.length_declare] at later
          have before : keyAt table.columns.length = none := by
            by_contra some
            have := once _ _ some key
            omega
          rw [before]
          obtain ⟨keyless, unresolved⟩ := keyless i (by omega) key
          exact ⟨keyless.declare, unresolved⟩

/-- Columns that declare no key are added as they are declared. -/
theorem Table.declareAll_of_none {keyAt : Nat → Option (Option ConflictAction)}
    {columns : List Column}
    (plain : ∀ i < columns.length, keyAt (table.columns.length + i) = none) :
    declareAll keyAt columns table = { table with
      columns := table.columns ++ columns.mapIdx fun i column =>
        column.declared (keyAt (table.columns.length + i)) } := by
  induction columns generalizing table with
  | nil => simp [declareAll]
  | cons column columns ih =>
      have first : keyAt table.columns.length = none := plain 0 (by simp)
      have length := table.length_declare none column
      have position (i : Nat) : (table.declare none column).columns.length + i =
          table.columns.length + (i + 1) := by omega
      rw [declareAll, first, ih fun i bound => ?_]
      · simp only [position]
        simp [declare, withColumn, first, List.mapIdx_cons, List.append_assoc]
      · rw [position]
        exact plain (i + 1) (by simpa using bound)

/-- Columns are declared one after the other. -/
theorem Table.declareAll_append {keyAt : Nat → Option (Option ConflictAction)}
    (columns others : List Column) (table : Table) :
    declareAll keyAt (columns ++ others) table =
      declareAll keyAt others (declareAll keyAt columns table) := by
  induction columns generalizing table with
  | nil => rfl
  | cons column columns ih => exact ih _

/-- What the column definitions of a table declare, one after the other. -/
theorem Table.declareAll_eq_declared {base : Table} (fresh : base.columns = [])
    (empty : base.primaryKey = []) (unresolved : base.keyConflict = none)
    (range : ∀ i, table.inlineKey? = some i → i < table.columns.length) :
    declareAll table.keyAt table.columns base = { base with
      columns := table.declared.columns, primaryKey := table.declared.primaryKey
      keyConflict := table.declared.keyConflict } := by
  cases inlined : table.inlineKey? with
  | none =>
      have plain (i : Nat) : table.keyAt i = none := by simp [keyAt, inlined]
      rw [declareAll_of_none fun i _ => plain _]
      simp [declared, inlined, fresh, plain, empty, unresolved]
  | some i =>
      have bound := range i inlined
      have key : table.keyAt i = some table.keyConflict := by simp [keyAt, inlined]
      have plain {j : Nat} (other : j ≠ i) : table.keyAt j = none := by
        simp [keyAt, inlined, Ne.symm other]
      have split : table.columns = table.columns.take i ++
          table.columns[i] :: table.columns.drop (i + 1) := by
        rw [List.getElem_cons_drop, List.take_append_drop]
      have before : (table.columns.take i).length = i := by
        rw [List.length_take]
        omega
      have start : declareAll table.keyAt (table.columns.take i) base = { base with
          columns := (table.columns.take i).mapIdx fun j column =>
            column.declared (table.keyAt j) } := by
        rw [declareAll_of_none fun j bound => plain (by simp [fresh]; omega)]
        simp [fresh]
      have last (t : Table) (length : t.columns.length = i + 1) :
          declareAll table.keyAt (table.columns.drop (i + 1)) t = { t with
            columns := t.columns ++ (table.columns.drop (i + 1)).mapIdx fun j column =>
              column.declared (table.keyAt (j + 1 + i)) } := by
        rw [declareAll_of_none fun j _ => plain (by omega), length]
        simp only [Nat.add_comm, Nat.add_left_comm]
      have columns : table.declared.columns =
          (table.columns.take i).mapIdx (fun j column => column.declared (table.keyAt j)) ++
            table.columns[i].declared (some table.keyConflict) ::
              (table.columns.drop (i + 1)).mapIdx fun j column =>
                column.declared (table.keyAt (j + 1 + i)) := by
        change table.columns.mapIdx _ = _
        conv => lhs; rw [split]
        rw [List.mapIdx_append, List.mapIdx_cons, before, Nat.zero_add, key]
      conv => lhs; rw [split]
      rw [declareAll_append, start, declareAll, List.length_mapIdx, before, key, last]
      · rw [columns]
        simp [declared, inlined, declare, withColumn, before]
      · rw [length_declare, List.length_mapIdx, before]

/-! ### The key list -/

/-- An entry of a key list renames no column. -/
theorem Table.columnNames_enterPart {autoincrement : Bool} {part : KeyPart} {i : Nat} :
    (table.enterPart autoincrement part i).columnNames = table.columnNames := by
  have names := columnNames_eq_of_outline
    (outline_of_unkeyed (table.map_unkeyed_setKeyMember i true))
  rw [← names]
  exact columnNames_modifyColumn (by exact fun _ => rfl) _ _

/-- A key list over known columns is entered as a whole. -/
theorem Draft.enterKey_of_known {autoincrement : Bool} {parts : List KeyPart}
    (known : ∀ part ∈ parts, (table.columnIndex? part.name).isSome = true) :
    (enterKey autoincrement parts table).2 = none := by
  induction parts generalizing table with
  | nil => rfl
  | cons part parts ih =>
      rw [enterKey_cons]
      obtain ⟨i, found⟩ := Option.isSome_iff_exists.1 (known part (by simp))
      rw [found]
      refine ih fun other member => ?_
      rw [columnIndex?_congr Table.columnNames_enterPart]
      exact known other (by simp [member])

/-- A column is found by its name. -/
theorem columnIndex?_isSome {column : Column} (member : column ∈ table.columns) :
    (table.columnIndex? column.name).isSome = true := by
  rw [Table.columnIndex?, List.findIdx?_isSome, List.any_eq_true]
  exact ⟨column, member, by simp [Column.isNamed, Text.same]⟩

namespace Table

/-- Columns are declared with the outlines that they had. -/
theorem outline_declared (table : Table) :
    table.declared.columns.map Column.outline = table.columns.map Column.outline := by
  change (table.columns.mapIdx _).map _ = _
  refine List.ext_getElem? fun i => ?_
  rw [List.getElem?_map, List.getElem?_mapIdx, List.getElem?_map]
  cases table.columns[i]? with
  | none => rfl
  | some c =>
      rw [Option.map_some, Option.map_some]
      cases table.keyAt i <;> rfl

/-- The key list of a table is entered as a whole. -/
theorem enterKey_keyColumns (table : Table) :
    (Draft.enterKey (table.keyColumns.any (·.autoincrement))
      (table.keyColumns.map Column.keyPart) table.declared).2 = none := by
  refine Draft.enterKey_of_known fun part member => ?_
  obtain ⟨column, listed, rfl⟩ := List.mem_map.1 member
  obtain ⟨i, -, found⟩ := List.mem_filterMap.1 listed
  rw [columnIndex?_congr (columnNames_eq_of_outline table.outline_declared)]
  exact columnIndex?_isSome (List.mem_of_getElem? found)

/-- A key list changes no outline. -/
theorem outline_keyed (table : Table) :
    table.keyed.columns.map Column.outline = table.columns.map Column.outline := by
  refine Eq.trans ?_ table.outline_declared
  unfold keyed
  split
  · exact outline_of_unkeyed (Draft.map_unkeyed_enterKey _ _ _)
  · rfl

end Table

/-! ### The constraints -/

/-- Only the columns and the key have been read. -/
theorem Table.keyed_frame (table : Table) : ∃ columns key conflict, table.keyed =
    { table.declared with columns := columns, primaryKey := key, keyConflict := conflict } := by
  unfold keyed
  split
  · obtain ⟨columns, key, same⟩ :=
      Draft.enterKey_frame (table.keyColumns.any (·.autoincrement))
      (table.keyColumns.map Column.keyPart) table.declared
    exact ⟨columns, key, table.keyConflict, by rw [same]⟩
  · exact ⟨_, _, _, rfl⟩

/-- The key list is read, if there is one. -/
theorem completes_tableKey (range : ∀ i ∈ table.primaryKey, i < table.columns.length)
    (starts : StartsItem rest)
    (h : Completes (.table table.keyed) (.constraint .done) rest statement) :
    Completes (.table table.declared) (.constraint .done)
      (((if table.hasKeyList then [Table.keyListTokens table.keyColumns table.keyConflict]
        else []).flatMap (comma :: ·)).map spoken ++ rest) statement ∧
    StartsItem (((if table.hasKeyList then
      [Table.keyListTokens table.keyColumns table.keyConflict] else []).flatMap
        (comma :: ·)).map spoken ++ rest) := by
  unfold Table.keyed at h
  cases listed : table.hasKeyList with
  | false =>
      rw [listed] at h
      exact ⟨h, starts⟩
  | true =>
      rw [listed, if_pos rfl] at h
      rw [if_pos rfl, List.flatMap_singleton, List.map_cons, List.cons_append, spoken_comma]
      refine ⟨.silent (.constraint .begun) (fun _ => rfl) ?_, ⟨_, _, rfl, .inl rfl⟩⟩
      have apart : table.inlineKey? = none ∧ table.primaryKey ≠ [] := by
        simpa [Table.hasKeyList] using listed
      have members : table.keyColumns ≠ [] := by
        obtain ⟨i, key, same⟩ := List.exists_cons_of_ne_nil apart.2
        have bound := range i (by simp [same])
        simp [Table.keyColumns, same, List.getElem?_eq_getElem bound]
      have known := table.enterKey_keyColumns
      obtain ⟨columns, key, frame⟩ := Draft.enterKey_frame
        (table.keyColumns.any (·.autoincrement)) (table.keyColumns.map Column.keyPart)
        table.declared
      generalize entering : Draft.enterKey (table.keyColumns.any (·.autoincrement))
        (table.keyColumns.map Column.keyPart) table.declared = result at known frame h
      obtain ⟨entered, unknown⟩ := result
      dsimp only at known frame h
      subst known frame
      refine completes_keyList members entering starts ?_
      have unresolved : table.declared.keyConflict = none := by
        simp [Table.declared, apart.1]
      dsimp only at h ⊢
      rwa [unresolved, Option.or_none]

/-- **The constraints of a table are read.** -/
theorem completes_constraintTokens (readable : table.IsReadable) (starts : StartsItem rest)
    (h : Completes (.table { table.reread with hasRowid := true, isStrict := false })
      (.constraint .done) rest statement) :
    Completes (.table table.declared) (.constraint .done)
      ((table.constraintTokens.flatMap (comma :: ·)).map spoken ++ rest) statement ∧
    StartsItem ((table.constraintTokens.flatMap (comma :: ·)).map spoken ++ rest) := by
  have outlines {t : Table} (same : t.columns = table.keyed.columns) :
      t.columns.map Column.outline = table.columns.map Column.outline :=
    same ▸ table.outline_keyed
  have whole : { table.reread with hasRowid := true, isStrict := false } =
      { table.keyed with
        uniques := table.keyed.uniques ++ table.uniques
        checks := table.keyed.checks ++ table.checks.map respace
        foreignKeys := table.keyed.foreignKeys ++ table.foreignKeys } := by
    obtain ⟨columns, key, conflict, frame⟩ := table.keyed_frame
    rw [Table.reread, frame]
    rfl
  rw [whole] at h
  unfold Table.constraintTokens
  simp only [List.flatMap_append, List.map_append, List.append_assoc]
  -- From the last constraint to the first.
  have foreignKeys := @completes_items
    { table.keyed with
      uniques := table.keyed.uniques ++ table.uniques
      checks := table.keyed.checks ++ table.checks.map respace } rest
    statement ForeignKey ForeignKey ForeignKey.tokens id
    (fun t keys => { t with foreignKeys := t.foreignKeys ++ keys })
    (fun t => t.columns = table.keyed.columns) table.foreignKeys (fun t => by simp)
    (fun t keys keys' => by simp)
    (fun key member t rest same starts h => by
      obtain ⟨ne, complete, apart⟩ := readable.foreignKeys key member
      exact completes_foreignKey ne complete (loneChild?_of_outline (outlines same) apart) starts h)
    (fun _ _ => id) rfl starts (by rwa [List.map_id])
  have checks := @completes_items
    { table.keyed with uniques := table.keyed.uniques ++ table.uniques } _
    statement String String Table.checkTokens respace
    (fun t conditions => { t with checks := t.checks ++ conditions })
    (fun t => t.columns = table.keyed.columns) table.checks (fun t => by simp)
    (fun t conditions conditions' => by simp)
    (fun condition member t rest _ _ h => completes_check (readable.checks condition member) h)
    (fun _ _ => id) rfl foreignKeys.2 foreignKeys.1
  have uniques :=
    @completes_items table.keyed _ statement UniqueKey UniqueKey UniqueKey.tokens id
    (fun t keys => { t with uniques := t.uniques ++ keys })
    (fun t => t.columns = table.keyed.columns) table.uniques (fun t => by simp)
    (fun t keys keys' => by simp)
    (fun key member t rest same starts h => by
      obtain ⟨ne, apart⟩ := readable.uniques key member
      refine completes_uniqueKey ne ?_ starts h
      rwa [loneColumn?_congr (columnNames_eq_of_outline (outlines same))])
    (fun _ _ => id) rfl checks.2 (by rw [List.map_id]; exact checks.1)
  exact completes_tableKey readable.key uniques.2 uniques.1

/-! ### From the columns to the constraints -/

/-- The words that a written constraint of a table begins with. -/
def Keyword.opensTableConstraint : Keyword → Bool
  | .PRIMARY | .UNIQUE | .CHECK | .FOREIGN => true
  | _ => false

/-- Every constraint of the table begins with a keyword that opens one. -/
theorem Table.constraintTokens_shape {piece : List Token}
    (h : piece ∈ table.constraintTokens) :
    ∃ (k : Keyword) (more : List Token), k.opensTableConstraint = true ∧
      piece = ofKeyword k :: more := by
  unfold constraintTokens at h
  simp only [List.mem_append] at h
  rcases h with ((h | h) | h) | h
  · split at h
    · obtain rfl := List.mem_singleton.1 h
      exact ⟨.PRIMARY, _, rfl, rfl⟩
    · exact absurd h (by simp)
  · obtain ⟨key, -, rfl⟩ := List.mem_map.1 h
    exact ⟨.UNIQUE, _, rfl, rfl⟩
  · obtain ⟨condition, -, rfl⟩ := List.mem_map.1 h
    exact ⟨.CHECK, _, rfl, rfl⟩
  · obtain ⟨key, -, rfl⟩ := List.mem_map.1 h
    exact ⟨.FOREIGN, _, rfl, rfl⟩

/-- After the last column the first constraint begins. -/
theorem completes_commaKeyword {part : Statement} {k : Keyword}
    (opens : k.opensTableConstraint = true)
    (h : Completes part (.constraint .begun) (keyword k :: rest) statement) :
    Completes part (.column .constraints) (comma :: keyword k :: rest) statement := by
  refine .silent (.column .begun) (fun _ => rfl) fun d found => outcome_congr ?_ (h d found)
  have starts : startsConstraint (keyword k) = true := by
    rw [startsConstraint, keyword?_keyword]
    cases k <;> first
      | rfl
      | exact absurd opens Bool.false_ne_true
  simp [Move.ofState, Move.column, Move.constraint, starts]

/-- After the last column the constraints begin. -/
theorem completes_firstConstraint {part : Statement} {pieces : List (List Token)}
    (shape : ∀ piece ∈ pieces, ∃ (k : Keyword) (more : List Token),
      k.opensTableConstraint = true ∧ piece = ofKeyword k :: more)
    (h : Completes part (.constraint .done)
      ((pieces.flatMap (comma :: ·)).map spoken ++ closeParen :: rest) statement) :
    Completes part (.column .constraints)
      ((pieces.flatMap (comma :: ·)).map spoken ++ closeParen :: rest) statement := by
  cases pieces with
  | nil =>
      exact fun d found => outcome_congr (show Move.ofState _ d closeParen _ =
        Move.ofState (.constraint .done) d closeParen _ from rfl) (h d found)
  | cons piece pieces =>
      obtain ⟨k, more, opens, rfl⟩ := shape piece (by simp)
      rw [List.flatMap_cons, List.cons_append, List.cons_append, List.map_cons, List.map_cons,
        spoken_comma, spoken_ofKeyword, List.cons_append, List.cons_append] at h ⊢
      refine completes_commaKeyword opens fun d found => ?_
      exact (outcome_move (show Move.ofState (.constraint .done) d comma _ =
        .next (.constraint .begun) d from rfl)).symm.trans (h d found)

/-! ### The end of the statement -/

/-- The options of a table are read up to the end. -/
theorem completes_options (table : Table) :
    Completes (.table { table with hasRowid := true, isStrict := false }) (.option .closed)
      (table.optionTokens.map spoken) (.table table) := by
  have plain {t : Table} {s : State} (accepting : s.isAccepting = true)
      (same : t = table) : Completes (.table t) s [] (.table table) :=
    fun d found => outcome_nil accepting (found.trans (by rw [same]))
  have strict {t : Table} {s : OptionState} (place : s = .closed ∨ s = .next)
      (same : { t with isStrict := true } = table) :
      Completes (.table t) (.option s) [keyword .STRICT] (.table table) := by
    refine .changeTable (.option .done) (fun t => { t with isStrict := true }) (fun d => ?_)
      (plain rfl same)
    rcases place with rfl | rfl <;> simp [Move.ofState, Move.option, tableOption]
  have rowid {t : Table} {tokens : List Token}
      (h : Completes (.table { t with hasRowid := false }) (.option .done) tokens
        (.table table)) :
      Completes (.table t) (.option .closed) (keyword .WITHOUT :: keyword .ROWID :: tokens)
        (.table table) := by
    refine .silent (.option .without) (fun d => ?_) ?_
    · simp [Move.ofState, Move.option, tableOption]
    refine .changeTable (.option .done) (fun t => { t with hasRowid := false }) (fun d => ?_) h
    simp [Move.ofState, Move.option]
  have whole {rowid strict : Bool} (hasRowid : table.hasRowid = rowid)
      (isStrict : table.isStrict = strict) :
      { table with hasRowid := rowid, isStrict := strict } = table := by
    rw [← hasRowid, ← isStrict]
  unfold Table.optionTokens
  cases hasRowid : table.hasRowid <;> cases isStrict : table.isStrict
  · exact rowid (plain rfl (whole hasRowid isStrict))
  · exact rowid (.silent (.option .next) (fun _ => rfl)
      (strict (.inr rfl) (whole hasRowid isStrict)))
  · exact plain rfl (whole hasRowid isStrict)
  · exact strict (.inl rfl) (whole hasRowid isStrict)

/-! ### The heading -/

/-- The table before its columns are defined. -/
def Table.heading (table : Table) : Table :=
  { Table.new table.name with
    isTemporary := table.isTemporary
    ifNotExists := table.ifNotExists
    schema := table.schema }

/-- The tokens of a statement up to the parenthesis. -/
def Table.headingTokens (table : Table) : List Token :=
  (ofKeyword .CREATE :: if table.isTemporary then [ofKeyword .TEMP] else []) ++
    (ofKeyword .TABLE :: existsGuard table.ifNotExists) ++ qualified table.schema table.name

/-- The heading of a table is read up to its columns. -/
theorem outcome_tableHeading
    (h : Completes (.table table.heading) (.column .begun) rest statement) :
    outcome (.opening .start) {} (table.headingTokens.map spoken ++ openParen :: rest) =
      .ok statement := by
  have named :
      Completes (.table { Table.new "" with isTemporary := table.isTemporary })
        (.tableName .begun)
        ((existsGuard table.ifNotExists).map spoken ++
          ((qualified table.schema table.name).map spoken ++ openParen :: rest)) statement := by
    refine (readsName_table { Table.new "" with isTemporary := table.isTemporary }).completes ?_
    simpa [Table.new, Table.heading] using h
  have created := outcome_createTable table.isTemporary named
  rw [← created, Table.headingTokens]
  cases table.isTemporary <;> simp

/-! ### The statement -/

/-- The tokens of a table: its heading, and the items in parentheses with commas between
them. -/
theorem Table.tokens_eq (table : Table) : table.tokens =
    table.headingTokens ++ openParen :: (commaList table.columnTokens ++
      (table.constraintTokens.flatMap (comma :: ·) ++ closeParen :: table.optionTokens)) := by
  simp [tokens, headingTokens, inParens]

namespace Table.IsReadable

/-- The key that is written inline is that of a column. -/
theorem inlineKey?_lt (readable : table.IsReadable) {i : Nat} (h : table.inlineKey? = some i) :
    i < table.columns.length := by
  refine readable.key i ?_
  unfold inlineKey? at h
  split at h
  · rename_i index only
    split at h
    · obtain rfl := Option.some.inj h
      simp [only]
    · exact absurd h (by simp)
  · exact absurd h (by simp)

/-- **A written table with columns is read.** -/
theorem outcome_tokens (readable : table.IsReadable) (ne : table.columns ≠ []) :
    outcome (.opening .start) {} (table.tokens.map spoken) = .ok (.table table.reread) := by
  have options : Completes (.table { table.reread with hasRowid := true, isStrict := false })
      (.constraint .done) (closeParen :: table.optionTokens.map spoken)
      (.table table.reread) :=
    .silent (.option .closed) (fun _ => rfl) (completes_options table.reread)
  obtain ⟨constraints, starts⟩ :=
    completes_constraintTokens readable ⟨closeParen, _, rfl, .inr rfl⟩ options
  have columns : Completes (.table table.heading) (.column .begun)
      ((commaList table.columnTokens).map spoken ++
        ((table.constraintTokens.flatMap (comma :: ·)).map spoken ++
          closeParen :: table.optionTokens.map spoken)) (.table table.reread) := by
    have named : table.columnTokens = table.columns.mapIdx fun i column =>
        column.tokens (table.keyAt (table.heading.columns.length + i)) := by
      simp [columnTokens, keyAt, heading, Table.new]
    rw [named]
    refine completes_columns readable.columns ne (fun i j first second => ?_)
      (fun _ _ _ => ⟨⟨rfl, by simp [notes, heading, Table.new]⟩, rfl⟩) starts ?_
    · have key {i : Nat} (h : table.keyAt i ≠ none) : table.inlineKey? = some i := by
        by_contra other
        simp [keyAt, other] at h
      exact Option.some.inj ((key first).symm.trans (key second))
    · rw [declareAll_eq_declared rfl rfl rfl fun i => readable.inlineKey?_lt]
      exact completes_firstConstraint (fun piece => constraintTokens_shape) constraints
  rw [tokens_eq]
  simp only [List.map_append, List.map_cons, spoken_openParen, spoken_closeParen]
  exact outcome_tableHeading columns

end Table.IsReadable

end SchemaText
