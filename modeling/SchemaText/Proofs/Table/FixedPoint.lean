import SchemaText.Proofs.Index.RoundTrip
import SchemaText.Proofs.Table.RoundTrip

/-!
# Texts that stay as they are

The text of a table that was read is read again, and the text of what is read is the same text.
The tables need not be the same: a table that declares its key several times is written with
one declaration.

## Main definitions

* `Table.KeepsKey`: a table is written with the key of another.

## Main results

* `Table.keepsKey_keyed`: the key that is read from the text of a table is written alike.
* `Table.tokens_of_keepsKey`: tables that only differ in what they note about the key are
  written alike.
* `Statement.sql_eq_of_parse`: **a text that was written stays as it is** when it is read and
  written again.
-/

namespace SchemaText

open Token

variable {table other : Table} {column : Column} {i : Nat}

/-! ### Columns that are written alike -/

/-- Columns that only differ in the key are written alike where the key is. -/
theorem Column.tokens_of_unkeyed {a b : Column} {key : Option (Option ConflictAction)}
    (unkeyed : a.unkeyed = b.unkeyed)
    (declares : key ≠ none → a.isDescending = b.isDescending ∧ a.autoincrement = b.autoincrement) :
    a.tokens key = b.tokens key := by
  have same : key.elim [] a.keyTokens = key.elim [] b.keyTokens := by
    cases key with
    | none => rfl
    | some action =>
        obtain ⟨order, increment⟩ := declares (by simp)
        rw [Option.elim_some, Option.elim_some, keyTokens, keyTokens, order, increment]
  have plain (c : Column) : c.tokens key = Token.name c.unkeyed.name ::
      tokenize c.unkeyed.type ++ (key.elim [] c.keyTokens ++
        (c.unkeyed.flagTokens ++ c.unkeyed.dataTokens)) := Column.tokens_eq c key
  rw [plain a, plain b, unkeyed, same]

namespace Table

/-- A table is written with the key of another. -/
structure KeepsKey (other table : Table) : Prop where
  /-- The key has the same positions. -/
  key : other.primaryKey = table.primaryKey
  /-- The conflict clause is the same. -/
  conflict : other.keyConflict = table.keyConflict
  /-- The same column declares the key, if one does. -/
  inlined : other.inlineKey? = table.inlineKey?
  /-- The members are ordered alike. -/
  order : ∀ i ∈ table.primaryKey, other.columns[i]?.map Column.isDescending =
    table.columns[i]?.map Column.isDescending
  /-- The keys are `AUTOINCREMENT` alike. -/
  increments : other.keyColumns.any (·.autoincrement) = table.keyColumns.any (·.autoincrement)

/-! ### The key that is read -/

/-- What the definition of a column declares about a key is written alike. -/
theorem keepsKey_declared (inlined : table.inlineKey? = some i) :
    table.declared.KeepsKey table := by
  obtain ⟨key, c, found, marked⟩ := inlineKey?_eq_some_iff.1 inlined
  have keyAt : table.keyAt i = some table.keyConflict := by simp [keyAt, inlined]
  have position : table.declared.columns[i]? = some (c.declared (some table.keyConflict)) := by
    change (table.columns.mapIdx _)[i]? = _
    rw [List.getElem?_mapIdx, found, Option.map_some, keyAt]
  have declaredKey : table.declared.primaryKey = [i] := by simp [declared, inlined]
  have order : (c.declared (some table.keyConflict)).isDescending = c.isDescending := by
    simp [Column.declared, Column.isDescending, Column.unkeyed]
  constructor
  · exact declaredKey.trans key.symm
  · simp [declared, inlined]
  · rw [inlined]
    refine inlineKey?_eq_some_iff.2 ⟨declaredKey, _, position, ?_⟩
    rcases marked with increments | descends
    · exact .inl increments
    · exact .inr (by simp [Column.declared, Column.isDescending, descends])
  · intro j member
    obtain rfl : j = i := by simpa [key] using member
    rw [position, found, Option.map_some, Option.map_some, order]
  · have read : table.declared.keyColumns = [c.declared (some table.keyConflict)] := by
      simp [keyColumns, declaredKey, position]
    have written : table.keyColumns = [c] := by simp [keyColumns, key, found]
    rw [read, written]
    rfl

/-- A key list that is read is written alike. -/
theorem keepsKey_enterKey (keys : table.HasKeys) (distinct : table.HasDistinctNames)
    (apart : table.inlineKey? = none) (ne : table.primaryKey ≠ []) :
    { (Draft.enterKey (table.keyColumns.any (·.autoincrement))
      (table.keyColumns.map Column.keyPart) table.declared).1 with
        keyConflict := table.keyConflict }.KeepsKey table := by
  let entered := (Draft.enterKey (table.keyColumns.any (·.autoincrement))
    (table.keyColumns.map Column.keyPart) table.declared).1
  have keyless := isKeyless_declared apart
  have form : entered.IsListKey _ := keyless.enterKey _ _
  have hasKeys : entered.HasKeys :=
    Draft.hasKeys_enterKey (keyless.hasKeys (by simp [declared, apart])) _ _
  obtain ⟨key, orders⟩ : entered.primaryKey = table.primaryKey ∧ _ :=
    enterKey_keyList keys distinct apart
  have increments := form.any_autoincrement hasKeys (key ▸ ne)
  -- A member of the list has no order of its own.
  have members {i : Nat} {c : Column} (member : i ∈ table.primaryKey)
      (found : entered.columns[i]? = some c) :
      c.columnDesc = false ∧ c.autoincrement = table.keyColumns.any (·.autoincrement) :=
    form.members i c.notes (by rw [notes, List.getElem?_map, found]; rfl) (key ▸ member)
  refine ⟨key, rfl, ?_, fun i member => ?_, increments⟩
  · rw [apart, Option.eq_none_iff_forall_not_mem]
    intro i inlined
    obtain ⟨single, c, found, marked⟩ := inlineKey?_eq_some_iff.1 inlined
    have only : table.primaryKey = [i] := key.symm.trans single
    obtain ⟨columnDesc, increment⟩ := members (by simp [only]) found
    rw [increment, columnDesc, or_iff_left Bool.false_ne_true, List.any_eq_true] at marked
    obtain ⟨d, listed, declares⟩ := marked
    have position : table.columns[i]? = some d := by simpa [keyColumns, only] using listed
    have inlined := inlineKey?_eq_some_iff.2 ⟨only, d, position, .inl declares⟩
    exact absurd (apart.symm.trans inlined) (by simp)
  · refine Eq.trans ?_ (orders i member)
    change entered.columns[i]?.map _ = entered.columns[i]?.map _
    cases found : entered.columns[i]? with
    | none => rfl
    | some c => simp [Column.isDescending, (members member found).1]

/-- **The key that is read from the text of a table is written alike.** -/
theorem keepsKey_keyed (keys : table.HasKeys) (distinct : table.HasDistinctNames) :
    table.keyed.KeepsKey table := by
  cases inlined : table.inlineKey? with
  | some i =>
      have noList : table.hasKeyList = false := by simp [hasKeyList, inlined]
      rw [keyed, noList]
      exact keepsKey_declared inlined
  | none =>
      by_cases empty : table.primaryKey = []
      · have noList : table.hasKeyList = false := by simp [hasKeyList, empty]
        have unresolved := keys.keyConflict_eq_none empty
        have declaredKey : table.declared.primaryKey = [] := by simp [declared, inlined]
        rw [keyed, noList, if_neg Bool.false_ne_true]
        exact ⟨declaredKey.trans empty.symm, by simp [declared, inlined, unresolved],
          by simp [inlineKey?, declaredKey, empty], by simp [empty],
          by simp [keyColumns, declaredKey, empty]⟩
      · have hasList : table.hasKeyList = true := by simp [hasKeyList, inlined, empty]
        rw [keyed, hasList, if_pos rfl]
        exact keepsKey_enterKey keys distinct inlined empty

/-! ### Tables that are written alike -/

/-- Reading back changes nothing of the columns apart from their place in the key. -/
theorem map_unkeyed_keyed (rules : ∀ c ∈ table.columns,
      c.generated.map Generated.respace = c.generated) :
    table.keyed.columns.map Column.unkeyed = table.columns.map Column.unkeyed := by
  refine Eq.trans ?_ (map_unkeyed_declared rules)
  unfold keyed
  split
  · exact Draft.map_unkeyed_enterKey _ _ _
  · rfl

/-- The column definitions are written alike. -/
theorem columnTokens_of_keepsKey (keeps : other.KeepsKey table)
    (unkeyed : other.columns.map Column.unkeyed = table.columns.map Column.unkeyed) :
    other.columnTokens = table.columnTokens := by
  refine List.ext_getElem? fun i => ?_
  have same := congrArg (·[i]?) unkeyed
  simp only [List.getElem?_map] at same
  rw [columnTokens, columnTokens, List.getElem?_mapIdx, List.getElem?_mapIdx, keeps.inlined,
    keeps.conflict]
  cases new : other.columns[i]? with
  | none =>
      rw [new, Option.map_none, eq_comm, Option.map_eq_none_iff] at same
      rw [same]
  | some a =>
      rw [new, Option.map_some, eq_comm, Option.map_eq_some_iff] at same
      obtain ⟨b, old, unkeyed⟩ := same
      rw [old, Option.map_some, Option.map_some]
      refine congrArg some (Column.tokens_of_unkeyed unkeyed.symm fun declares => ?_)
      have inlined : table.inlineKey? = some i := by
        by_contra apart
        exact declares (if_neg apart)
      have key := (inlineKey?_eq_some_iff.1 inlined).1
      have order := keeps.order i (by simp [key])
      have increments := keeps.increments
      rw [new, old] at order
      simp only [keyColumns, keeps.key, key, List.filterMap_cons, List.filterMap_nil, new, old]
        at increments
      exact ⟨by simpa using order, by simpa using increments⟩

/-- The key list is written alike. -/
theorem keyListTokens_of_keepsKey (keeps : other.KeepsKey table)
    (unkeyed : other.columns.map Column.unkeyed = table.columns.map Column.unkeyed) :
    keyListTokens other.keyColumns other.keyConflict =
      keyListTokens table.keyColumns table.keyConflict := by
  have members : other.keyColumns.map (fun c => (c.unkeyed.name, c.isDescending)) =
      table.keyColumns.map fun c => (c.unkeyed.name, c.isDescending) := by
    rw [keyColumns, keyColumns, keeps.key, List.map_filterMap, List.map_filterMap]
    refine List.filterMap_congr fun i member => ?_
    have same := congrArg (·[i]?) unkeyed
    have order := keeps.order i member
    simp only [List.getElem?_map] at same
    cases new : other.columns[i]? <;> cases old : table.columns[i]? <;>
      simp_all
  have pieces (t : Table) : t.keyColumns.map (fun member =>
        Token.name member.name :: if member.isDescending then [ofKeyword .DESC] else []) =
      (t.keyColumns.map fun c => (c.unkeyed.name, c.isDescending)).map fun member =>
        Token.name member.1 :: if member.2 then [ofKeyword .DESC] else [] := by
    rw [List.map_map]
    rfl
  rw [keyListTokens, keyListTokens, pieces, members, ← pieces, keeps.increments,
    keeps.conflict]

/-- **Tables that only differ in what they note about the key are written alike.** -/
theorem tokens_of_keepsKey (keeps : other.KeepsKey table)
    (unkeyed : other.columns.map Column.unkeyed = table.columns.map Column.unkeyed)
    (same : other = { table with
      columns := other.columns, primaryKey := other.primaryKey
      keyConflict := other.keyConflict }) :
    other.tokens = table.tokens := by
  have heading : other.headingTokens = table.headingTokens := by rw [same]; rfl
  have options : other.optionTokens = table.optionTokens := by rw [same]; rfl
  have uniques : other.uniques = table.uniques := by rw [same]
  have checks : other.checks = table.checks := by rw [same]
  have foreignKeys : other.foreignKeys = table.foreignKeys := by rw [same]
  have constraints : other.constraintTokens = table.constraintTokens := by
    rw [constraintTokens, constraintTokens, keyListTokens_of_keepsKey keeps unkeyed,
      keeps.inlined, keeps.key, uniques, checks, foreignKeys]
  rw [tokens_eq, tokens_eq, heading, options, constraints,
    columnTokens_of_keepsKey keeps unkeyed]

namespace IsGathered

variable (gathered : table.IsGathered)

include gathered

/-- What is read from the text of a table has its key. -/
theorem keepsKey_reread (distinct : table.HasDistinctNames) : table.reread.KeepsKey table :=
  have keeps := keepsKey_keyed gathered.contents.keys distinct
  ⟨keeps.key, keeps.conflict, keeps.inlined, keeps.order, keeps.increments⟩

/-- What is read from the text of a table has its columns, apart from the key. -/
theorem map_unkeyed_reread :
    table.reread.columns.map Column.unkeyed = table.columns.map Column.unkeyed :=
  map_unkeyed_keyed fun c member => (gathered.contents.columns c member).map_respace

/-- What is read from the text of a table only differs in the columns and the key. -/
theorem reread_frame : table.reread = { table with
    columns := table.reread.columns, primaryKey := table.reread.primaryKey
    keyConflict := table.reread.keyConflict } := by
  obtain ⟨columns, key, conflict, frame⟩ := table.keyed_frame
  rw [reread, frame, gathered.respace_checks]
  rfl

/-- The text of the table that is read from a text is the same text. -/
theorem sql_reread (distinct : table.HasDistinctNames) : table.reread.sql = table.sql :=
  congrArg render (tokens_of_keepsKey (gathered.keepsKey_reread distinct)
    gathered.map_unkeyed_reread gathered.reread_frame)

end IsGathered

end Table

/-- **A text that was written stays as it is** when it is read and written again. -/
theorem Statement.sql_eq_of_parse {text : String} {statement : Statement}
    (h : Statement.parse text = .ok statement)
    (whole : ∀ table, statement.table? = some table →
      table.columns ≠ [] ∧ HasValidBodies (Statement.read text).transitions) :
    ∃ again, Statement.parse statement.sql = .ok again ∧
      ((∀ table, statement.table? = some table → table.HasDistinctNames) →
        again.sql = statement.sql) := by
  cases statement with
  | index index =>
      have parsed : Statement.parse index.sql = .ok (.index index) :=
        (Index.isReadable_of_parse h).parse_sql
      exact ⟨.index index, parsed, fun _ => rfl⟩
  | table table =>
      obtain ⟨ne, valid⟩ := whole table rfl
      obtain ⟨gathered, -⟩ := Table.isGathered_of_parse h valid
      exact ⟨.table table.reread, gathered.parse_sql ne, fun distinct =>
        gathered.sql_reread (distinct table rfl)⟩

/-- A text that declares the key twice. -/
def Table.twiceText : String :=
  "CREATE TABLE t (a PRIMARY KEY, b PRIMARY KEY DESC)"

/-- The tokens of the text. -/
def Table.twiceTokens : List Token :=
  [keyword .CREATE, keyword .TABLE, Token.name "t", openParen, Token.name "a",
    keyword .PRIMARY, keyword .KEY, comma, Token.name "b", keyword .PRIMARY, keyword .KEY,
    keyword .DESC, closeParen]

/-- The table that the text defines. -/
def Table.twice : Table where
  name := "t"
  columns := [{ Column.new "a" with inKey := true },
    { Column.new "b" with inKey := true, columnDesc := true }]
  primaryKey := [0, 1]

/-- The text is read as a run over its tokens. -/
theorem Table.read_twiceText : Statement.read twiceText =
    runWithin twiceTokens.length (.opening .start) {} twiceTokens := by
  refine read_of_tokenize ?_ (by decide +kernel)
  rw [← Lexer.tokens_toList]
  cbv

/-- Two declarations of the key become one key list. -/
theorem Statement.sql_eq_of_parse_twice :
    Statement.parse Table.twiceText = .ok (.table .twice) ∧
      Table.twice.sql = "CREATE TABLE t(a,b,PRIMARY KEY(a,b DESC))" ∧
      ∃ again, Statement.parse Table.twice.sql = .ok again ∧ again.sql = Table.twice.sql := by
  have parsed : Statement.parse Table.twiceText = .ok (.table .twice) := by
    rw [Statement.parse, Table.read_twiceText]
    decide +kernel
  have valid : HasValidBodies (Statement.read Table.twiceText).transitions := by
    rw [Table.read_twiceText, HasValidBodies]
    decide +kernel
  have distinct : Table.twice.HasDistinctNames := by decide +kernel
  obtain ⟨again, read, same⟩ := sql_eq_of_parse parsed (by
    rintro _ ⟨⟩
    exact ⟨by decide, valid⟩)
  refine ⟨parsed, by decide +kernel, again, read, same ?_⟩
  rintro _ ⟨⟩
  exact distinct

end SchemaText
