import SchemaText.Proofs.Table.FixedPoint
import SchemaText.Proofs.Table.KeyMembers

/-!
# Where a key is descending

A column is noted as descending at one of two places, its own definition or the key list of the
table, and these are not the same: only as an entry of a key list is a descending `INTEGER`
column another name for the row number.

A column that declares itself as descending is written so, and the entries of a key list are
written in a list. The only column of a key list is written at its definition if it is
`AUTOINCREMENT`; if it is descending as well, it is read as declared descending.

## Main definitions

* `Column.directions`: where the column is noted as descending.
* `Column.movesDirection`: the column is noted at the other place when it is read again.

## Main results

* `Table.directions_declared`: what is read of a key at the definition of its column.
* `Table.directions_of_parse`: **every column but such a one is descending at the same place**
  when its table is written and read.
-/

namespace SchemaText

open Token

/-- Where the column is noted as descending: at its definition and in the key list. -/
def Column.directions (column : Column) : Bool × Bool :=
  (column.columnDesc, column.tableDesc)

/-- The only column of a key list that is both descending and `AUTOINCREMENT`. -/
def Column.movesDirection (column : Column) : Bool :=
  column.isWholeKey && column.tableDesc && column.autoincrement

variable {table : Table} {column : Column} {i j : Nat}

namespace Table

/-- The key at the definition of a column is read as descending there, at either place it was,
and no other column is. -/
theorem directions_declared (inlined : table.inlineKey? = some i) (j : Nat) :
    table.declared.columns[j]?.map Column.directions =
      table.columns[j]?.map fun c =>
        if i = j then (c.isDescending, false) else (false, false) := by
  change (table.columns.mapIdx _)[j]?.map _ = _
  rw [List.getElem?_mapIdx, Option.map_map]
  refine congrArg (table.columns[j]?.map ·) (funext fun c => ?_)
  by_cases same : i = j <;>
    simp [keyAt, inlined, same, Column.declared, Column.directions, Column.unkeyed]

/-- A column in a key list of its own that is not written at its definition is not
`AUTOINCREMENT`. -/
theorem isPlainlyKeyed_of_apart (keys : table.HasKeys) (quiet : table.HasQuietColumns)
    (apart : table.inlineKey? = none) : table.IsPlainlyKeyed := by
  intro single c member _
  obtain ⟨i, found⟩ := List.mem_iff_getElem?.1 member
  by_contra increments
  by_cases listed : i ∈ table.primaryKey
  · obtain ⟨k, key⟩ := List.length_eq_one_iff.1 single
    obtain rfl : i = k := by simpa [key] using listed
    have inlined := inlineKey?_eq_some_iff.2 ⟨key, c, found, .inl (by simpa using increments)⟩
    exact absurd (apart.symm.trans inlined) nofun
  · have outside : c.inKey = false := by
      rw [(keys.notes_eq found).1, decide_eq_false listed]
    exact increments (quiet c member outside).2

/-- With a key that is declared once, the column that is written with it either declares it, or
is the only column of a key list and `AUTOINCREMENT`. -/
theorem directions_inlined (keys : table.HasKeys) (one : table.HasOneKey)
    (inlined : table.inlineKey? = some i) (found : table.columns[j]? = some column) :
    (if i = j then (column.isDescending, false) else (false, false)) =
      if column.movesDirection then (true, false) else column.directions := by
  obtain ⟨key, declaring, position, marked⟩ := inlineKey?_eq_some_iff.1 inlined
  have noted : table.notes[j]? = some column.notes := by
    rw [notes, List.getElem?_map, found]; rfl
  by_cases same : i = j
  · subst same
    obtain rfl : declaring = column := Option.some.inj (position.symm.trans found)
    have whole : declaring.isWholeKey = true := by simp [(keys.notes_eq found).2, key]
    rw [if_pos rfl]
    rcases one with ⟨k, declares⟩ | ⟨autoincrement, list⟩
    · obtain rfl : k = i := by simpa using declares.key.symm.trans key
      have tableDesc : declaring.tableDesc = false := declares.tableDesc _ noted
      simp [Column.movesDirection, Column.directions, Column.isDescending, tableDesc]
    · have columnDesc : declaring.columnDesc = false :=
        (list.members i _ noted (by simp [key])).1
      have increments : declaring.autoincrement = true := by simpa [columnDesc] using marked
      cases descends : declaring.tableDesc <;>
        simp [Column.movesDirection, Column.directions, Column.isDescending, columnDesc, whole,
          increments, descends]
  · have blank : column.notes = {} := by
      rcases one with ⟨k, declares⟩ | ⟨autoincrement, list⟩
      · obtain rfl : k = i := by simpa using declares.key.symm.trans key
        exact declares.blank j _ noted (Ne.symm same)
      · exact list.blank j _ noted (by simpa [key] using Ne.symm same)
    have whole : column.isWholeKey = false := congrArg KeyNotes.isWholeKey blank
    have columnDesc : column.columnDesc = false := congrArg KeyNotes.columnDesc blank
    have tableDesc : column.tableDesc = false := congrArg KeyNotes.tableDesc blank
    simp [same, Column.movesDirection, Column.directions, whole, columnDesc, tableDesc]

/-- A key that is written in a list has no column that moves. -/
theorem movesDirection_of_plain (keys : table.HasKeys) (plain : table.IsPlainlyKeyed)
    (found : table.columns[j]? = some column) : column.movesDirection = false := by
  by_contra moves
  simp only [Column.movesDirection, Bool.not_eq_false, Bool.and_eq_true] at moves
  obtain ⟨⟨whole, descends⟩, increments⟩ := moves
  have single : table.primaryKey.length = 1 := by
    have noted := (keys.notes_eq found).2
    rw [whole] at noted
    simpa using (Bool.and_eq_true_iff.1 noted.symm).2
  have steady := plain single column (List.mem_of_getElem? found) descends
  exact absurd (steady.symm.trans increments) Bool.false_ne_true

namespace IsGathered

variable (gathered : table.IsGathered)

include gathered

/-- Where the columns of a table are read as descending. -/
theorem directions_reread (one : table.HasOneKey) (quiet : table.HasQuietColumns)
    (distinct : table.HasDistinctNames) (found : table.columns[j]? = some column) :
    ∃ later, table.reread.columns[j]? = some later ∧
      later.directions = if column.movesDirection then (true, false) else column.directions := by
  have keys := gathered.contents.keys
  cases inlined : table.inlineKey? with
  | some i =>
      have noList : table.hasKeyList = false := by simp [hasKeyList, inlined]
      have columns : table.reread.columns = table.declared.columns := by
        rw [reread, keyed, noList, if_neg Bool.false_ne_true]
      have read := directions_declared inlined j
      rw [← columns, found, Option.map_some, directions_inlined keys one inlined found] at read
      obtain ⟨later, position, same⟩ := Option.map_eq_some_iff.1 read
      exact ⟨later, position, same⟩
  | none =>
      have plain := isPlainlyKeyed_of_apart keys quiet inlined
      rw [gathered.reread_eq one plain distinct, movesDirection_of_plain keys plain found]
      exact ⟨column, found, rfl⟩

end IsGathered

/-- **Every column is descending at the same place** when a table with one key is written and
read again, with one exception: the only column of a key list that is both descending and
`AUTOINCREMENT` is then declared descending by its own definition. -/
theorem directions_of_parse {text : String} (h : Statement.parse text = .ok (.table table))
    (ne : table.columns ≠ []) (distinct : table.HasDistinctNames)
    (valid : HasValidBodies (Statement.read text).transitions)
    (once : keyClauses (Statement.read text).transitions = 1) :
    ∃ again, Statement.parse table.sql = .ok (.table again) ∧
      again.columns.length = table.columns.length ∧
      ∀ (i : Nat) (column : Column), table.columns[i]? = some column →
        ∃ later, again.columns[i]? = some later ∧ later.directions =
          if column.movesDirection then (true, false) else column.directions := by
  obtain ⟨gathered, one⟩ := isGathered_of_parse h valid
  have quiet := (hasKeys_of_parse h).2
  refine ⟨table.reread, gathered.parse_sql ne, ?_, fun i column found =>
    gathered.directions_reread (one once.le) quiet distinct found⟩
  simpa using congrArg List.length gathered.map_unkeyed_reread

/-- A text with a key list over one column, descending and `AUTOINCREMENT`. -/
def descendingText : String :=
  "CREATE TABLE t (a INTEGER, PRIMARY KEY (a DESC AUTOINCREMENT))"

/-- The tokens of the text. -/
def descendingTokens : List Token :=
  [keyword .CREATE, keyword .TABLE, Token.name "t", openParen, Token.name "a",
    Token.name "INTEGER", comma, keyword .PRIMARY, keyword .KEY, openParen, Token.name "a",
    keyword .DESC, keyword .AUTOINCREMENT, closeParen, closeParen]

/-- The column that the text defines. -/
def descendingColumn : Column :=
  { Column.new "a" with
    type := "INTEGER", inKey := true, isWholeKey := true, tableDesc := true,
    autoincrement := true }

/-- The table that the text defines. -/
def descending : Table where
  name := "t"
  columns := [descendingColumn]
  primaryKey := [0]

/-- The text is read as a run over its tokens. -/
theorem read_descendingText : Statement.read descendingText =
    runWithin descendingTokens.length (.opening .start) {} descendingTokens := by
  refine read_of_tokenize ?_ (by decide +kernel)
  rw [← Lexer.tokens_toList]
  cbv

/-- The key moves to the definition of its column, with its direction. -/
theorem directions_of_parse_moved :
    Statement.parse descendingText = .ok (.table descending) ∧
      keyClauses (Statement.read descendingText).transitions = 1 ∧
      descendingColumn.directions = (false, true) ∧
      descending.sql = "CREATE TABLE t(a INTEGER PRIMARY KEY DESC AUTOINCREMENT)" ∧
      ∃ again later, Statement.parse descending.sql = .ok (.table again) ∧
        again.columns[0]? = some later ∧ later.directions = (true, false) := by
  obtain ⟨parsed, valid, once⟩ : Statement.parse descendingText = .ok (.table descending) ∧
      HasValidBodies (Statement.read descendingText).transitions ∧
      keyClauses (Statement.read descendingText).transitions = 1 := by
    rw [Statement.parse, read_descendingText, HasValidBodies]
    decide +kernel
  have distinct : descending.HasDistinctNames := by decide +kernel
  obtain ⟨again, read, -, directions⟩ :=
    directions_of_parse parsed (by decide) distinct valid once
  obtain ⟨later, found, moved⟩ := directions 0 descendingColumn rfl
  exact ⟨parsed, once, rfl, by decide +kernel, again, later, read, found, moved⟩

end Table

end SchemaText
