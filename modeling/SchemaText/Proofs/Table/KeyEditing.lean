import SchemaText.Proofs.Table.FixedPoint
import SchemaText.Proofs.Table.KeyMembers

/-!
# Keys that are edited

Columns enter and leave the key of a table one by one, in any order and any number. However the
members were declared, the text of the table declares the key as it is then: the same columns
in the same order, ascending or descending as before, `AUTOINCREMENT` or not.

How a member declares its direction may change, as a key list has one place for it and a column
another, and every member of a list is `AUTOINCREMENT` when one is. So the tables are compared
by what their keys mean, and where no column says anything beyond being a member, as a whole.

## Main definitions

* `Table.editKey`: a table after a list of changes of its key.
* `Table.written`: a table without the conflict clause of a key that it does not have.
* `Column.standing`: the part that a column has in the key.
* `Table.ofNames`: a table of columns that only have names.

## Main results

* `Table.IsGathered.editKey`: a table that was read has its contents in order after changes of
  its key.
* `Table.parse_sql_editKey`: **an edited key is read back** with its members, their order and
  directions, and nothing else changes.
* `Table.parse_sql_ofNames`: **any names are read back**, with any key over them.
-/

namespace SchemaText

open Token

variable {table other : Table} {column : Column} {i : Nat}

/-- The part that a column has in the key: whether it is a member, the only one, and
descending. -/
def Column.standing (column : Column) : Bool × Bool × Bool :=
  (column.inKey, column.isWholeKey, column.isDescending)

namespace Table

/-! ### Changes of the key -/

/-- The table after changes of its key: at each position in turn, the column enters the key or
leaves it. -/
def editKey (table : Table) (edits : List (Nat × Bool)) : Table :=
  edits.foldl (fun t edit => t.setKeyMember edit.1 edit.2) table

/-- What one change keeps, a list of changes keeps. -/
theorem editKey_induction {P : Table → Prop}
    (change : ∀ t i member, P t → P (t.setKeyMember i member)) (edits : List (Nat × Bool))
    (holds : P table) : P (table.editKey edits) := by
  induction edits generalizing table with
  | nil => exact holds
  | cons edit edits ih => exact ih (change table edit.1 edit.2 holds)

/-- Only the columns and the list of positions change. -/
theorem editKey_frame (table : Table) (edits : List (Nat × Bool)) :
    ∃ columns key, table.editKey edits =
      { table with columns := columns, primaryKey := key } := by
  refine editKey_induction (P := fun t => ∃ columns key, t =
    { table with columns := columns, primaryKey := key }) ?_ edits
    ⟨table.columns, table.primaryKey, rfl⟩
  rintro t i member ⟨columns, key, rfl⟩
  obtain ⟨columns, key, same⟩ := setKeyMember_frame
    { table with columns := columns, primaryKey := key } i member
  exact ⟨columns, key, same⟩

/-- The key does not matter to the rest of the columns. -/
theorem map_unkeyed_editKey (table : Table) (edits : List (Nat × Bool)) :
    (table.editKey edits).columns.map Column.unkeyed = table.columns.map Column.unkeyed :=
  editKey_induction (P := fun t => t.columns.map Column.unkeyed = _)
    (fun t i member same => (t.map_unkeyed_setKeyMember i member).trans same) edits rfl

/-- Edits of the key rename no column. -/
theorem columnNames_editKey (table : Table) (edits : List (Nat × Bool)) :
    (table.editKey edits).columnNames = table.columnNames :=
  columnNames_eq_of_outline (outline_of_unkeyed (table.map_unkeyed_editKey edits))

/-- Edits of the key add and remove no column. -/
theorem length_editKey (table : Table) (edits : List (Nat × Bool)) :
    (table.editKey edits).columns.length = table.columns.length := by
  simpa using congrArg List.length (table.map_unkeyed_editKey edits)

/-- Distinct names, said of the list of names. -/
theorem hasDistinctNames_iff :
    table.HasDistinctNames ↔ table.columnNames.Pairwise fun a b => Text.same a b = false := by
  rw [columnNames, List.pairwise_map]
  rfl

/-- Names that are distinct stay so under edits of the key. -/
theorem HasDistinctNames.editKey (h : table.HasDistinctNames) (edits : List (Nat × Bool)) :
    (table.editKey edits).HasDistinctNames := by
  rw [hasDistinctNames_iff, columnNames_editKey]
  exact hasDistinctNames_iff.1 h

/-! ### Conflict clauses without a key -/

/-- The table as it is written: without a key, there is no conflict clause for it. -/
def written (table : Table) : Table :=
  { table with keyConflict := if table.primaryKey = [] then none else table.keyConflict }

/-- A conflict clause without a key does not matter to the text. -/
theorem sql_written (table : Table) : table.written.sql = table.sql := by
  by_cases empty : table.primaryKey = []
  · have apart : table.inlineKey? = none := by simp [inlineKey?, empty]
    have inlined : table.written.inlineKey? = none := apart
    have columns : table.written.columnTokens = table.columnTokens := by
      rw [columnTokens, columnTokens, inlined, apart]
      rfl
    have constraints : table.written.constraintTokens = table.constraintTokens := by
      simp [constraintTokens, written, empty]
    rw [sql, sql, tokens_eq, tokens_eq, columns, constraints]
    rfl
  · rw [written, if_neg empty]

/-- The conflict clause does not matter to the members. -/
theorem setKeyMember_unresolved (table : Table) (i : Nat) (member : Bool) :
    { table.setKeyMember i member with keyConflict := none } =
      { table with keyConflict := none }.setKeyMember i member := by
  rcases Nat.lt_or_ge i table.columns.length with old | out
  · have same : i < { table with keyConflict := none }.columns.length := old
    rw [setKeyMember_of_lt old, setKeyMember_of_lt same]
  · have same : { table with keyConflict := none }.columns.length ≤ i := out
    rw [setKeyMember_of_le out, setKeyMember_of_le same]

/-- The places of the key agree, whatever the conflict clause. -/
theorem HasKeys.written (h : { table with keyConflict := none }.HasKeys) :
    table.written.HasKeys :=
  h.congr rfl rfl fun resolved empty => resolved (if_pos empty)

/-- **The places of the key go on agreeing** through all changes. -/
theorem HasKeys.editKey (h : table.HasKeys) (edits : List (Nat × Bool)) :
    (table.editKey edits).written.HasKeys := by
  have start : { table with keyConflict := none }.HasKeys :=
    h.congr rfl rfl fun resolved => absurd rfl resolved
  refine HasKeys.written (editKey_induction (P := fun t =>
    { t with keyConflict := none }.HasKeys) (fun t i member keys => ?_) edits start)
  rw [setKeyMember_unresolved]
  cases member with
  | false => exact keys.removeMember rfl i
  | true =>
      by_cases old : i < t.columns.length
      · exact keys.setKeyMember old
      · rwa [setKeyMember_of_le]
        exact Nat.not_lt.1 old

/-- Columns outside the key stay quiet under edits of it. -/
theorem HasQuietColumns.editKey (h : table.HasQuietColumns) (edits : List (Nat × Bool)) :
    (table.editKey edits).HasQuietColumns :=
  editKey_induction (fun _ i member quiet => quiet.setKeyMember i member) edits h

/-! ### Contents of edited tables -/

/-- Tables that only differ in the key have gathered alike. -/
theorem IsGathered.of_unkeyed (h : table.IsGathered) (keys : other.HasKeys)
    (unkeyed : other.columns.map Column.unkeyed = table.columns.map Column.unkeyed)
    (uniques : other.uniques = table.uniques) (checks : other.checks = table.checks)
    (foreignKeys : other.foreignKeys = table.foreignKeys) : other.IsGathered where
  contents := {
    columns := isSound_of_unkeyed h.contents.columns unkeyed
    checks := checks ▸ h.contents.checks
    uniques := uniques ▸ h.contents.uniques
    foreignKeys := foreignKeys ▸ h.contents.foreignKeys
    keys }
  types := fun c member => by
    have found : c.unkeyed ∈ table.columns.map Column.unkeyed :=
      unkeyed ▸ List.mem_map_of_mem member
    obtain ⟨d, old, same⟩ := List.mem_map.1 found
    have type : d.type = c.type := congrArg (·.type) same
    exact type ▸ h.types d old
  uniques := fun key member => by
    rw [loneColumn?_congr (columnNames_eq_of_outline (outline_of_unkeyed unkeyed))]
    exact h.uniques key (uniques ▸ member)
  foreignKeys := fun key member =>
    loneChild?_of_outline (outline_of_unkeyed unkeyed) (h.foreignKeys key (foreignKeys ▸ member))

/-- **After changes of the key the contents are in order.** -/
theorem IsGathered.editKey (h : table.IsGathered) (edits : List (Nat × Bool)) :
    (table.editKey edits).written.IsGathered := by
  obtain ⟨columns, key, frame⟩ := table.editKey_frame edits
  refine h.of_unkeyed (h.contents.keys.editKey edits) (table.map_unkeyed_editKey edits) ?_ ?_ ?_
  all_goals rw [frame]; rfl

/-- Members of the same key that are ordered alike have the same part in it, and so have the
other columns, as they say nothing about it. -/
theorem map_standing_of_keepsKey (keeps : other.KeepsKey table)
    (length : other.columns.length = table.columns.length) (keys : table.HasKeys)
    (quiet : table.HasQuietColumns) (keys' : other.HasKeys) (quiet' : other.HasQuietColumns) :
    other.columns.map Column.standing = table.columns.map Column.standing := by
  refine List.ext_getElem (by simpa using length) fun i bound' bound => ?_
  rw [List.length_map] at bound bound'
  rw [List.getElem_map, List.getElem_map]
  have new := List.getElem?_eq_getElem bound'
  have old := List.getElem?_eq_getElem bound
  obtain ⟨inKey, whole⟩ := keys.notes_eq old
  obtain ⟨inKey', whole'⟩ := keys'.notes_eq new
  rw [keeps.key] at inKey' whole'
  have direction : other.columns[i].isDescending = table.columns[i].isDescending := by
    by_cases member : i ∈ table.primaryKey
    · have order := keeps.order i member
      rwa [new, old, Option.map_some, Option.map_some, Option.some.injEq] at order
    · have outside := quiet _ (List.getElem_mem bound) (by rw [inKey, decide_eq_false member])
      have outside' :=
        quiet' _ (List.getElem_mem bound') (by rw [inKey', decide_eq_false member])
      rw [outside.1, outside'.1]
  rw [Column.standing, Column.standing, inKey, inKey', whole, whole', direction]

/-- What is kept of a table that is written and read, however its key was declared. -/
structure KeepsMeaning (again table : Table) : Prop where
  /-- The columns are the same, apart from the key. -/
  columns : again.columns.map Column.unkeyed = table.columns.map Column.unkeyed
  /-- The key has the same members in the same order. -/
  key : again.primaryKey = table.primaryKey
  /-- Every column has the same part in the key. -/
  standing : again.columns.map Column.standing = table.columns.map Column.standing
  /-- One of the members is `AUTOINCREMENT` if one was. -/
  increments : again.keyColumns.any (·.autoincrement) = table.keyColumns.any (·.autoincrement)
  /-- Everything else is the same. -/
  rest : again = { table.written with columns := again.columns }

/-- **A table that was read keeps its meaning** when it is written and read again. -/
theorem IsGathered.keepsMeaning (gathered : table.written.IsGathered) (ne : table.columns ≠ [])
    (distinct : table.HasDistinctNames) (quiet : table.HasQuietColumns) :
    ∃ again, Statement.parse table.sql = .ok (.table again) ∧ again.KeepsMeaning table := by
  have unkeyed := gathered.map_unkeyed_reread
  have keeps := gathered.keepsKey_reread distinct
  have parsed := gathered.parse_sql ne
  rw [sql_written] at parsed
  obtain ⟨keys, quiet'⟩ := hasKeys_of_parse parsed
  have standing := map_standing_of_keepsKey keeps (by simpa using congrArg List.length unkeyed)
    gathered.contents.keys quiet keys quiet'
  have frame := gathered.reread_frame
  rw [keeps.key, keeps.conflict] at frame
  exact ⟨_, parsed, unkeyed, keeps.key, standing, keeps.increments, frame⟩

/-- **An edited key is read back.** From a table with columns that have distinct names, and any
changes of its key, a text comes that is read as a table of the same columns with the same key:
the same positions, each column with the same part in it, and `AUTOINCREMENT` members if there
were some. The rest of the table stays, but for the conflict clause of a key that is gone. -/
theorem parse_sql_editKey {text : String} (h : Statement.parse text = .ok (.table table))
    (ne : table.columns ≠ []) (distinct : table.HasDistinctNames)
    (valid : HasValidBodies (Statement.read text).transitions) (edits : List (Nat × Bool)) :
    ∃ again, Statement.parse (table.editKey edits).sql = .ok (.table again) ∧
      again.KeepsMeaning (table.editKey edits) := by
  obtain ⟨gathered, -⟩ := isGathered_of_parse h valid
  have quiet := (hasKeys_of_parse h).2.editKey edits
  refine (gathered.editKey edits).keepsMeaning ?_ (distinct.editKey edits) quiet
  rw [← List.length_pos_iff, length_editKey]
  exact List.length_pos_iff.2 ne

/-- A text that declares the key at a column and in a list. -/
def mixedText : String :=
  "CREATE TABLE t (a PRIMARY KEY DESC, b, c, PRIMARY KEY (b DESC AUTOINCREMENT) ON CONFLICT FAIL)"

/-- The tokens of the text. -/
def mixedTokens : List Token :=
  [keyword .CREATE, keyword .TABLE, Token.name "t", openParen, Token.name "a",
    keyword .PRIMARY, keyword .KEY, keyword .DESC, comma, Token.name "b", comma,
    Token.name "c", comma, keyword .PRIMARY, keyword .KEY, openParen, Token.name "b",
    keyword .DESC, keyword .AUTOINCREMENT, closeParen, keyword .ON, keyword .CONFLICT,
    keyword .FAIL, closeParen]

/-- The table that the text defines. -/
def mixed : Table where
  name := "t"
  columns := [{ Column.new "a" with inKey := true, columnDesc := true },
    { Column.new "b" with inKey := true, tableDesc := true, autoincrement := true },
    Column.new "c"]
  primaryKey := [0, 1]
  keyConflict := some .fail

/-- Changes that leave one of the members, and name a position that no column has. -/
def mixedEdits : List (Nat × Bool) :=
  [(0, false), (2, true), (9, true), (2, false)]

/-- The text is read as a run over its tokens. -/
theorem read_mixedText : Statement.read mixedText =
    runWithin mixedTokens.length (.opening .start) {} mixedTokens := by
  refine read_of_tokenize ?_ (by decide +kernel)
  rw [← Lexer.tokens_toList]
  cbv

/-- The member that is left was in a key list, and now declares the key itself. -/
theorem parse_sql_editKey_mixed :
    Statement.parse mixedText = .ok (.table mixed) ∧ mixed.columns ≠ [] ∧
      mixed.HasDistinctNames ∧ HasValidBodies (Statement.read mixedText).transitions ∧
      (mixed.editKey mixedEdits).sql =
        "CREATE TABLE t(a,b PRIMARY KEY DESC ON CONFLICT FAIL AUTOINCREMENT,c)" ∧
      ∃ again, Statement.parse (mixed.editKey mixedEdits).sql = .ok (.table again) ∧
        again.KeepsMeaning (mixed.editKey mixedEdits) := by
  have run : Statement.parse mixedText = .ok (.table mixed) ∧
      HasValidBodies (Statement.read mixedText).transitions := by
    rw [Statement.parse, read_mixedText, HasValidBodies]
    decide +kernel
  obtain ⟨parsed, valid⟩ := run
  have ne : mixed.columns ≠ [] := by decide
  have distinct : mixed.HasDistinctNames := by decide +kernel
  exact ⟨parsed, ne, distinct, valid, by decide +kernel,
    parse_sql_editKey parsed ne distinct valid mixedEdits⟩

/-! ### Tables from names -/

/-- A table of columns that only have names. -/
def ofNames (schema : Option String) (name : String) (names : List String) : Table :=
  { Table.new name with schema, columns := names.map Column.new }

/-- The columns say no more about the key than that they are in it. -/
def HasPlainColumns (table : Table) : Prop :=
  ∀ c ∈ table.columns, c.columnDesc = false ∧ c.tableDesc = false ∧ c.autoincrement = false

/-- Edits of the key give no column an order or `AUTOINCREMENT`. -/
theorem HasPlainColumns.editKey (h : table.HasPlainColumns) (edits : List (Nat × Bool)) :
    (table.editKey edits).HasPlainColumns := by
  refine editKey_induction (fun t i member plain => ?_) edits h
  refine forall_mem_setKeyMember plain (fun c plain => ?_) fun _ _ plain => plain
  cases member with
  | true => exact plain
  | false => exact ⟨rfl, rfl, rfl⟩

/-- Plain columns make a key list. -/
theorem HasPlainColumns.isListKey (h : table.HasPlainColumns) (keys : table.HasKeys) :
    table.IsListKey false := by
  have column {j : Nat} {notes : KeyNotes} (found : table.notes[j]? = some notes) :
      ∃ c, table.columns[j]? = some c ∧ c.notes = notes := by
    rwa [Table.notes, List.getElem?_map, Option.map_eq_some_iff] at found
  constructor
  · intro j notes found _
    obtain ⟨c, position, rfl⟩ := column found
    obtain ⟨columnDesc, -, increment⟩ := h c (List.mem_of_getElem? position)
    exact ⟨columnDesc, increment⟩
  · intro j notes found outside
    obtain ⟨c, position, rfl⟩ := column found
    obtain ⟨columnDesc, tableDesc, increment⟩ := h c (List.mem_of_getElem? position)
    obtain ⟨inKey, whole⟩ := keys.notes_eq position
    simp [Column.notes, inKey, whole, outside, columnDesc, tableDesc, increment]

/-- **A table of plain columns is read** from its own text as it is. -/
theorem IsGathered.parse_sql_of_plain (gathered : table.IsGathered)
    (plain : table.HasPlainColumns) (ne : table.columns ≠ [])
    (distinct : table.HasDistinctNames) :
    Statement.parse table.sql = .ok (.table table) := by
  have one := plain.isListKey gathered.contents.keys
  have single : table.IsPlainlyKeyed := fun _ c member _ => (plain c member).2.2
  rw [gathered.parse_sql ne, gathered.reread_eq (.inr ⟨false, one⟩) single distinct]

section OfNames

variable (schema : Option String) (name : String) {columns : List Column}

/-- Columns that have no types and no part in a key make a table in order. -/
theorem isGathered_of_columns (sound : ∀ c ∈ columns, c.IsSound IsWellSpelled)
    (untyped : ∀ c ∈ columns, c.type = "") (blank : ∀ c ∈ columns, c.notes = {}) :
    IsGathered { Table.new name with schema := schema, columns := columns } where
  contents := {
    columns := sound
    checks := by rintro _ ⟨⟩
    uniques := by rintro _ ⟨⟩
    foreignKeys := by rintro _ ⟨⟩
    keys := IsKeyless.hasKeys ⟨rfl, List.forall_mem_map.2 blank⟩ rfl }
  types := fun c member =>
    ⟨.type, [], .inl rfl, untyped c member, .nil, by rintro _ ⟨⟩⟩
  uniques := by rintro _ ⟨⟩
  foreignKeys := by rintro _ ⟨⟩

variable (names : List String)

/-- New columns say nothing of the key. -/
theorem hasPlainColumns_ofNames : (ofNames schema name names).HasPlainColumns := by
  intro c member
  obtain ⟨n, -, rfl⟩ := List.mem_map.1 member
  exact ⟨rfl, rfl, rfl⟩

/-- There is no key yet. -/
theorem isKeyless_ofNames : (ofNames schema name names).IsKeyless := by
  refine ⟨rfl, fun notes member => ?_⟩
  obtain ⟨c, found, rfl⟩ := List.mem_map.1 member
  obtain ⟨n, -, rfl⟩ := List.mem_map.1 found
  rfl

/-- A table of new columns is one that a text could have. -/
theorem isGathered_ofNames : (ofNames schema name names).IsGathered :=
  isGathered_of_columns schema name (List.forall_mem_map.2 fun n _ => Column.isSound_new n)
    (List.forall_mem_map.2 fun _ _ => rfl) (List.forall_mem_map.2 fun _ _ => rfl)

variable {names}

/-- **Any names are read back.** A table of columns with any names, as long as no two are the
same in any case, and with any of them in its key, is read from its own text as it is. -/
theorem parse_sql_ofNames (ne : names ≠ [])
    (distinct : names.Pairwise fun a b => Text.same a b = false) (edits : List (Nat × Bool)) :
    Statement.parse ((ofNames schema name names).editKey edits).sql =
      .ok (.table ((ofNames schema name names).editKey edits)) := by
  have gathered := (isGathered_ofNames schema name names).editKey edits
  have plain := (hasPlainColumns_ofNames schema name names).editKey edits
  have distinct : (ofNames schema name names).HasDistinctNames := List.pairwise_map.2 distinct
  have distinct := distinct.editKey edits
  have unresolved : ((ofNames schema name names).editKey edits).written =
      (ofNames schema name names).editKey edits := by
    obtain ⟨columns, key, frame⟩ := (ofNames schema name names).editKey_frame edits
    rw [frame, written]
    simp [ofNames, Table.new]
  rw [unresolved] at gathered
  have some : ((ofNames schema name names).editKey edits).columns ≠ [] := by
    rw [← List.length_pos_iff, length_editKey]
    simpa [ofNames, List.length_pos_iff] using ne
  exact gathered.parse_sql_of_plain plain some distinct

end OfNames

/-- Names that are nothing, words, quotes, or begin comments. -/
def strangeNames : List String :=
  ["", "primary", "a\"b", "/* x", "a, b)", "]", "Ω", "not  null"]

/-- The first and the fourth of these names make the key, and the text of the table quotes
all of them. -/
theorem parse_sql_ofNames_strange :
    strangeNames ≠ [] ∧ (strangeNames.Pairwise fun a b => Text.same a b = false) ∧
      ((ofNames (some "or") "--" strangeNames).editKey
        [(1, true), (0, true), (3, true), (1, false), (12, true)]).primaryKey = [0, 3] ∧
      ((ofNames (some "or") "--" strangeNames).editKey
        [(1, true), (0, true), (3, true), (1, false), (12, true)]).sql =
        "CREATE TABLE\"or\".\"--\"(\"\",\"primary\",\"a\"\"b\",\"/* x\",\"a, b)\",\"]\",\"Ω\"," ++
          "\"not  null\",PRIMARY KEY(\"\",\"/* x\"))" ∧
      Statement.parse ((ofNames (some "or") "--" strangeNames).editKey
        [(1, true), (0, true), (3, true), (1, false), (12, true)]).sql =
      .ok (.table ((ofNames (some "or") "--" strangeNames).editKey
        [(1, true), (0, true), (3, true), (1, false), (12, true)])) := by
  have ne : strangeNames ≠ [] := by decide
  have distinct : strangeNames.Pairwise fun a b => Text.same a b = false := by decide +kernel
  exact ⟨ne, distinct, by decide, by decide +kernel,
    parse_sql_ofNames (some "or") "--" ne distinct _⟩

end Table

end SchemaText
