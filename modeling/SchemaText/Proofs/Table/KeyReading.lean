import Mathlib.Data.List.FinRange
import SchemaText.Proofs.Table.Reread

/-!
# Keys are read back

A key that was declared once is declared once in the text of the table, at the column or in a
key list, and from there the columns note the same about it. Only a key list over one column
that is `AUTOINCREMENT` and descending is not written as it was declared.

## Main definitions

* `Table.HasDistinctNames`: no two columns have the same name.
* `Table.IsPlainlyKeyed`: a single key column is not both `AUTOINCREMENT` and descending by
  its key list.

## Main results

* `Table.HasKeys.countP_inKey`: as many columns are members as positions are listed.
* `Table.enterKey_positions`, `Table.enterKey_keyList`: what a key list over known columns
  enters, and what the key list of a table does.
* `Table.keyed_eq`: **the key is read back** as it was declared.
-/

namespace SchemaText

variable {table other : Table} {column : Column} {i j : Nat}

namespace Table

/-- No two columns have the same name, in any case. -/
def HasDistinctNames (table : Table) : Prop :=
  table.columns.Pairwise fun a b => Text.same a.name b.name = false

instance (table : Table) : Decidable table.HasDistinctNames :=
  inferInstanceAs (Decidable (table.columns.Pairwise _))

/-- The only column of a key list is not both `AUTOINCREMENT` and descending. The key keeps
each column once, so a list that names its only column more than once is a key of one column
too. -/
def IsPlainlyKeyed (table : Table) : Prop :=
  table.primaryKey.length = 1 →
    ∀ column ∈ table.columns, column.tableDesc = true → column.autoincrement = false

/-- A column is found by its name at its position. -/
theorem HasDistinctNames.columnIndex? (h : table.HasDistinctNames)
    (found : table.columns[i]? = some column) : table.columnIndex? column.name = some i := by
  obtain ⟨bound, rfl⟩ := List.getElem?_eq_some_iff.1 found
  refine List.findIdx?_eq_some_iff_getElem.2 ⟨bound, Text.same_refl _, fun j before => ?_⟩
  have apart := List.pairwise_iff_getElem.1 h j i (Nat.lt_trans before bound) bound before
  simpa [Column.isNamed] using apart

/-! ### Members -/

/-- As many columns are members as positions are listed. -/
theorem HasKeys.countP_inKey (h : table.HasKeys) :
    table.columns.countP (·.inKey) = table.primaryKey.length := by
  let members := (List.finRange table.columns.length).filter fun i => table.columns[i].inKey
  have count : table.columns.countP (·.inKey) = members.length := by
    conv => lhs; rw [← List.map_get_finRange table.columns]
    rw [List.countP_map, List.countP_eq_length_filter]
    rfl
  have perm : (members.map Fin.val).Perm table.primaryKey := by
    refine (List.perm_ext_iff_of_nodup ?_ h.nodup).2 fun i => ?_
    · exact ((List.nodup_finRange _).filter _).map Fin.val_injective
    · rw [List.mem_map]
      constructor
      · rintro ⟨i, member, rfl⟩
        have inKey : table.columns[i].inKey = true := by simpa [members] using member
        exact (h.members i _ (List.getElem?_eq_getElem i.2)).1 inKey
      · intro listed
        have bound := h.range i listed
        have inKey := (h.members i _ (List.getElem?_eq_getElem bound)).2 listed
        exact ⟨⟨i, bound⟩, by simpa [members] using inKey, rfl⟩
  rw [count, ← perm.length_eq, List.length_map]

/-- What the places of the key say of a column. -/
theorem HasKeys.notes_eq (h : table.HasKeys) (found : table.columns[i]? = some column) :
    column.inKey = decide (i ∈ table.primaryKey) ∧
      column.isWholeKey = (decide (i ∈ table.primaryKey) && table.primaryKey.length == 1) := by
  have inKey : column.inKey = decide (i ∈ table.primaryKey) := by
    rw [Bool.eq_iff_iff, decide_eq_true_iff]
    exact h.members i column found
  refine ⟨inKey, ?_⟩
  rw [h.whole column (List.mem_of_getElem? found), h.countP_inKey, inKey]

end Table

/-- Columns are known from what they say about the key and what they say apart from it. -/
theorem Column.eq_of_notes {a b : Column} (unkeyed : a.unkeyed = b.unkeyed)
    (notes : a.notes = b.notes) : a = b := by
  have same (c : Column) : c = { c.unkeyed with
      inKey := c.notes.inKey, isWholeKey := c.notes.isWholeKey
      columnDesc := c.notes.columnDesc, tableDesc := c.notes.tableDesc
      autoincrement := c.notes.autoincrement } := rfl
  rw [same a, same b, unkeyed, notes]

namespace Table

/-- A column is known by its notes on the key and by the rest. -/
theorem columns_eq_of_notes
    (unkeyed : other.columns.map Column.unkeyed = table.columns.map Column.unkeyed)
    (notes : other.notes = table.notes) : other.columns = table.columns := by
  refine List.ext_getElem? fun i => ?_
  have unkeyed := congrArg (·[i]?) unkeyed
  have notes := congrArg (·[i]?) notes
  simp only [Table.notes, List.getElem?_map] at unkeyed notes
  cases new : other.columns[i]? with
  | none =>
      cases old : table.columns[i]? with
      | none => rfl
      | some b => simp [new, old] at unkeyed
  | some a =>
      cases old : table.columns[i]? with
      | none => simp [new, old] at unkeyed
      | some b =>
          simp only [new, old, Option.map_some, Option.some.injEq] at unkeyed notes
          rw [Column.eq_of_notes unkeyed notes]

/-! ### Entering a key list -/

/-- The order of a column is noted when it is entered. -/
theorem tableDesc_enterPart {autoincrement : Bool} {part : KeyPart}
    (old : i < table.columns.length) (j : Nat) :
    (table.enterPart autoincrement part i).columns[j]?.map (·.tableDesc) =
      table.columns[j]?.map fun c => if i = j then part.descending else c.tableDesc := by
  change ((table.setKeyMember i true).columns.modify i _)[j]?.map _ = _
  rw [List.getElem?_modify, columns_setKeyMember old, Column.getElem?_markWhole,
    List.getElem?_modify]
  cases table.columns[j]? with
  | none => rfl
  | some c => by_cases same : i = j <;> simp [same, KeyPart.mark, Column.withKeyMember]

/-- **What a key list over known columns enters**: its positions at the end of the key, and
their order. -/
theorem enterKey_positions {autoincrement : Bool} {part : Nat → KeyPart} {positions : List Nat}
    (found : ∀ k ∈ positions, table.columnIndex? (part k).name = some k)
    (nodup : positions.Nodup) (new : ∀ k ∈ positions, k ∉ table.primaryKey) :
    (Draft.enterKey autoincrement (positions.map part) table).1.primaryKey =
        table.primaryKey ++ positions ∧
      ∀ j, (Draft.enterKey autoincrement (positions.map part) table).1.columns[j]?.map
          (·.tableDesc) =
        table.columns[j]?.map fun c =>
          if j ∈ positions then (part j).descending else c.tableDesc := by
  induction positions generalizing table with
  | nil => simp [Draft.enterKey]
  | cons k positions ih =>
      obtain ⟨other, nodup⟩ := List.nodup_cons.1 nodup
      have first := found k (by simp)
      obtain ⟨old, -⟩ := List.findIdx?_eq_some_iff_getElem.1 first
      have key : (table.enterPart autoincrement (part k) k).primaryKey =
          table.primaryKey ++ [k] := by
        change (table.setKeyMember k true).primaryKey = _
        rw [primaryKey_setKeyMember_true old, if_neg]
        simpa using new k (by simp)
      obtain ⟨positionsEntered, orders⟩ := @ih (table.enterPart autoincrement (part k) k)
        (fun l member => by
          rw [columnIndex?_congr columnNames_enterPart]
          exact found l (by simp [member])) nodup (fun l member => by
          rw [key, List.mem_append, List.mem_singleton]
          rintro (listed | rfl)
          · exact new l (by simp [member]) listed
          · exact other member)
      rw [List.map_cons, Draft.enterKey_cons, first]
      refine ⟨by rw [positionsEntered, key, List.append_assoc]; rfl, fun j => ?_⟩
      rw [orders]
      have entered : (table.enterPart autoincrement (part k) k).columns[j]?.map (·.tableDesc) =
          table.columns[j]?.map _ := tableDesc_enterPart old j
      have split (columns : List Column) : columns[j]?.map (fun c =>
            if j ∈ positions then (part j).descending else c.tableDesc) =
          (columns[j]?.map (·.tableDesc)).map fun order =>
            if j ∈ positions then (part j).descending else order := by
        rw [Option.map_map]
        rfl
      rw [split, entered, Option.map_map]
      refine congrArg (table.columns[j]?.map ·) (funext fun c => ?_)
      by_cases same : k = j
      · subst same
        simp [other]
      · simp [same, Ne.symm same]

/-! ### Key lists -/

/-- The columns of the key, as a key list names them. -/
theorem keyColumns_eq (range : ∀ i ∈ table.primaryKey, i < table.columns.length) :
    table.keyColumns.map Column.keyPart = table.primaryKey.map fun i =>
      (table.columns[i]?.map Column.keyPart).getD ⟨"", none, false⟩ := by
  rw [keyColumns, List.map_filterMap, ← List.filterMap_eq_map]
  refine List.filterMap_congr fun i member => ?_
  simp [List.getElem?_eq_getElem (range i member)]

/-- Without a key the places of the key agree. -/
theorem IsKeyless.hasKeys (h : table.IsKeyless) (unresolved : table.keyConflict = none) :
    table.HasKeys where
  nodup := h.key ▸ List.nodup_nil
  range := by simp [h.key]
  members := fun i c found => by
    have blank := h.blank c.notes (List.mem_map_of_mem (List.mem_of_getElem? found))
    have inKey : c.inKey = false := congrArg KeyNotes.inKey blank
    simp [h.key, inKey]
  whole := fun c member => by
    have blank := h.blank c.notes (List.mem_map_of_mem member)
    have inKey : c.inKey = false := congrArg KeyNotes.inKey blank
    have whole : c.isWholeKey = false := congrArg KeyNotes.isWholeKey blank
    rw [inKey, whole]
    rfl
  conflict := fun some => absurd unresolved some

/-- In a table without its key no column says anything about the key. -/
theorem isKeyless_declared (apart : table.inlineKey? = none) : table.declared.IsKeyless := by
  have plain (i : Nat) : table.keyAt i = none := by simp [keyAt, apart]
  refine ⟨by simp [declared, apart], ?_⟩
  intro notes member
  obtain ⟨c, found, rfl⟩ := List.mem_map.1 member
  obtain ⟨i, position⟩ := List.mem_iff_getElem?.1 found
  change (table.columns.mapIdx _)[i]? = _ at position
  rw [List.getElem?_mapIdx] at position
  obtain ⟨d, -, rfl⟩ := Option.map_eq_some_iff.1 position
  rw [plain]
  rfl

/-- What a column says apart from the key is declared. -/
theorem map_unkeyed_declared (rules : ∀ c ∈ table.columns,
      c.generated.map Generated.respace = c.generated) :
    table.declared.columns.map Column.unkeyed = table.columns.map Column.unkeyed := by
  refine List.ext_getElem? fun i => ?_
  change ((table.columns.mapIdx _).map _)[i]? = _
  rw [List.getElem?_map, List.getElem?_mapIdx, List.getElem?_map]
  cases found : table.columns[i]? with
  | none => rfl
  | some c =>
      have rule := rules c (List.mem_of_getElem? found)
      rw [Option.map_some, Option.map_some]
      cases table.keyAt i <;> simp [Column.declared, Column.unkeyed, rule]

/-- The key list of a table is read with its positions and their order. -/
theorem enterKey_keyList {autoincrement : Bool} (keys : table.HasKeys)
    (distinct : table.HasDistinctNames) (apart : table.inlineKey? = none) :
    let entered := (Draft.enterKey autoincrement (table.keyColumns.map Column.keyPart)
      table.declared).1
    entered.primaryKey = table.primaryKey ∧ ∀ i ∈ table.primaryKey,
      entered.columns[i]?.map (·.tableDesc) = table.columns[i]?.map Column.isDescending := by
  intro entered
  have keyless := isKeyless_declared apart
  obtain ⟨key, orders⟩ := @enterKey_positions table.declared autoincrement (fun i =>
    (table.columns[i]?.map Column.keyPart).getD ⟨"", none, false⟩) table.primaryKey
    (fun i member => by
      have position := List.getElem?_eq_getElem (keys.range i member)
      rw [position, columnIndex?_congr (columnNames_eq_of_outline table.outline_declared)]
      exact distinct.columnIndex? position) keys.nodup (by simp [keyless.key])
  rw [← keyColumns_eq keys.range] at key orders
  refine ⟨by rw [key, keyless.key]; rfl, fun i member => ?_⟩
  have position := List.getElem?_eq_getElem (keys.range i member)
  have declared : (table.declared.columns[i]?).isSome = true := by
    change ((table.columns.mapIdx _)[i]?).isSome = true
    rw [List.getElem?_mapIdx, position]
    rfl
  obtain ⟨c, found⟩ := Option.isSome_iff_exists.1 declared
  rw [orders, found, position, Option.map_some, Option.map_some, if_pos member]
  rfl

/-- **The columns of a key list are read back.** -/
theorem columns_enterKey {autoincrement : Bool} (keys : table.HasKeys)
    (distinct : table.HasDistinctNames) (list : table.IsListKey autoincrement)
    (apart : table.inlineKey? = none)
    (rules : ∀ c ∈ table.columns, c.generated.map Generated.respace = c.generated) :
    let entered := (Draft.enterKey autoincrement (table.keyColumns.map Column.keyPart)
      table.declared).1
    entered.columns = table.columns ∧ entered.primaryKey = table.primaryKey := by
  intro entered
  have keyless := isKeyless_declared apart
  have unkeyed : entered.columns.map Column.unkeyed = table.columns.map Column.unkeyed :=
    (Draft.map_unkeyed_enterKey ..).trans (map_unkeyed_declared rules)
  have form : entered.IsListKey autoincrement := keyless.enterKey autoincrement _
  have hasKeys : entered.HasKeys :=
    Draft.hasKeys_enterKey (keyless.hasKeys (by simp [declared, apart])) autoincrement _
  obtain ⟨key, orders⟩ : entered.primaryKey = table.primaryKey ∧ _ :=
    enterKey_keyList keys distinct apart
  refine ⟨columns_eq_of_notes unkeyed (List.ext_getElem? fun i => ?_), key⟩
  have length : entered.columns.length = table.columns.length := by
    simpa using congrArg List.length unkeyed
  rw [notes, notes, List.getElem?_map, List.getElem?_map]
  by_cases bound : i < table.columns.length
  · have old : table.columns[i]? = some table.columns[i] := List.getElem?_eq_getElem bound
    have new : entered.columns[i]? = some entered.columns[i] :=
      List.getElem?_eq_getElem (length ▸ bound)
    have noted {t : Table} {c : Column} (found : t.columns[i]? = some c) :
        t.notes[i]? = some c.notes := by rw [notes, List.getElem?_map, found]; rfl
    rw [new, old, Option.map_some, Option.map_some]
    by_cases member : i ∈ table.primaryKey
    · obtain ⟨inKey, whole⟩ := keys.notes_eq old
      obtain ⟨inKey', whole'⟩ := hasKeys.notes_eq new
      obtain ⟨columnDesc, increment⟩ := list.members i _ (noted old) member
      obtain ⟨columnDesc', increment'⟩ := form.members i _ (noted new) (key ▸ member)
      have tableDesc : entered.columns[i].tableDesc = table.columns[i].tableDesc := by
        have order : entered.columns[i].tableDesc = table.columns[i].isDescending := by
          have order := orders i member
          rwa [new, old, Option.map_some, Option.map_some, Option.some.injEq] at order
        have plain : table.columns[i].columnDesc = false := columnDesc
        rw [order, Column.isDescending, plain, Bool.false_or]
      have first : entered.columns[i].inKey = table.columns[i].inKey := by
        rw [inKey, inKey', key]
      have second : entered.columns[i].isWholeKey = table.columns[i].isWholeKey := by
        rw [whole, whole', key]
      have third := columnDesc'.trans columnDesc.symm
      have last := increment'.trans increment.symm
      rw [Column.notes, first, second, tableDesc]
      exact congrArg some (congrArg₂ (KeyNotes.mk _ _ · _ ·) third last)
    · rw [list.blank i _ (noted old) member, form.blank i _ (noted new) (key ▸ member)]
  · rw [List.getElem?_eq_none (by omega), List.getElem?_eq_none (by omega)]

/-! ### The key of a whole table -/

/-- A column declares the key if it is the whole key and says so itself. -/
theorem inlineKey?_eq_some_iff : table.inlineKey? = some i ↔ table.primaryKey = [i] ∧
    ∃ c, table.columns[i]? = some c ∧ (c.autoincrement = true ∨ c.columnDesc = true) := by
  unfold inlineKey?
  split
  · rename_i k single
    rw [single]
    split
    · rename_i declares
      rw [Option.any_eq_true] at declares
      obtain ⟨c, found, marked⟩ := declares
      refine ⟨?_, fun h => by simpa using h.1⟩
      rintro ⟨⟩
      exact ⟨rfl, c, found, by simpa using marked⟩
    · rename_i silent
      refine ⟨fun h => absurd h (by simp), ?_⟩
      rintro ⟨⟨⟩, c, found, marked⟩
      exact absurd (by simpa [found] using marked) silent
  · rename_i several
    exact ⟨fun h => absurd h (by simp), fun h => absurd h.1 (several i)⟩

/-- A key list over one `AUTOINCREMENT` column is written at the column. -/
theorem HasOneKey.isColumnKey (one : table.HasOneKey) (plain : table.IsPlainlyKeyed)
    (inlined : table.inlineKey? = some i) : table.IsColumnKey i := by
  obtain ⟨key, c, found, marked⟩ := inlineKey?_eq_some_iff.1 inlined
  rcases one with ⟨k, h⟩ | ⟨autoincrement, h⟩
  · obtain rfl : k = i := by simpa using h.key.symm.trans key
    exact h
  · refine ⟨key, fun j notes position other => ?_, fun notes position => ?_⟩
    · exact h.blank j notes position (by simpa [key] using other)
    · obtain rfl : notes = c.notes := by simpa [Table.notes, found] using position.symm
      have silent : c.columnDesc = false := (h.members i _ position (by simp [key])).1
      have increments : c.autoincrement = true := by simpa [silent] using marked
      cases descends : c.tableDesc with
      | false => exact descends
      | true =>
          have := plain (by simp [key]) c (List.mem_of_getElem? found) descends
          exact absurd (this.symm.trans increments) (by simp)

/-- A column that says no more than that it is the key is written in a key list. -/
theorem HasOneKey.isListKey (one : table.HasOneKey) (keys : table.HasKeys)
    (apart : table.inlineKey? = none) : ∃ autoincrement, table.IsListKey autoincrement := by
  rcases one with ⟨k, h⟩ | list
  · have bound := keys.range k (by simp [h.key])
    have found : table.columns[k]? = some table.columns[k] := List.getElem?_eq_getElem bound
    refine ⟨false, fun j notes position member => ?_, fun j notes position other => ?_⟩
    · obtain rfl : j = k := by simpa [h.key] using member
      obtain rfl : notes = table.columns[j].notes := by
        simpa [Table.notes, found] using position.symm
      by_contra marked
      have inlined := inlineKey?_eq_some_iff.2 ⟨h.key, _, found, by
        simpa [Column.notes, or_comm, imp_iff_not_or] using marked⟩
      exact absurd (apart.symm.trans inlined) (by simp)
    · exact h.blank j notes position (by simpa [h.key] using other)
  · exact list

/-- The members of a key list have `AUTOINCREMENT` in common. -/
theorem IsListKey.any_autoincrement {autoincrement : Bool} (h : table.IsListKey autoincrement)
    (keys : table.HasKeys) (ne : table.primaryKey ≠ []) :
    table.keyColumns.any (·.autoincrement) = autoincrement := by
  have all : ∀ c ∈ table.keyColumns, c.autoincrement = autoincrement := by
    intro c member
    obtain ⟨i, listed, found⟩ := List.mem_filterMap.1 member
    exact (h.members i c.notes (by rw [notes, List.getElem?_map, found]; rfl) listed).2
  obtain ⟨i, key, same⟩ := List.exists_cons_of_ne_nil ne
  have bound := keys.range i (by simp [same])
  have first : table.columns[i] ∈ table.keyColumns :=
    List.mem_filterMap.2 ⟨i, by simp [same], List.getElem?_eq_getElem bound⟩
  cases autoincrement with
  | true => exact List.any_eq_true.2 ⟨_, first, all _ first⟩
  | false => exact List.any_eq_false.2 fun c member => by simp [all c member]

/-- The column that declares the key is read back, and so are the others. -/
theorem columns_declared (keys : table.HasKeys) (declares : table.IsColumnKey i)
    (inlined : table.inlineKey? = some i)
    (rules : ∀ c ∈ table.columns, c.generated.map Generated.respace = c.generated) :
    table.declared.columns = table.columns := by
  refine columns_eq_of_notes (map_unkeyed_declared rules) (List.ext_getElem? fun j => ?_)
  change ((table.columns.mapIdx _).map _)[j]? = _
  rw [List.getElem?_map, List.getElem?_mapIdx, notes, List.getElem?_map]
  cases found : table.columns[j]? with
  | none => rfl
  | some c =>
      have noted : table.notes[j]? = some c.notes := by
        rw [notes, List.getElem?_map, found]
        rfl
      rw [Option.map_some, Option.map_some, Option.map_some]
      by_cases same : j = i
      · subst same
        obtain ⟨inKey, whole⟩ := keys.notes_eq found
        have tableDesc : c.tableDesc = false := declares.tableDesc _ noted
        rw [keyAt, if_pos inlined]
        simp [Column.declared, Column.notes, Column.unkeyed, Column.isDescending, inKey, whole,
          tableDesc, declares.key]
      · rw [keyAt, if_neg (by simp [inlined, Ne.symm same]), declares.blank j _ noted same]
        rfl

/-- **The key is read back** as it was declared. -/
theorem keyed_eq (keys : table.HasKeys) (one : table.HasOneKey) (plain : table.IsPlainlyKeyed)
    (distinct : table.HasDistinctNames)
    (rules : ∀ c ∈ table.columns, c.generated.map Generated.respace = c.generated) :
    table.keyed = { table with
      uniques := [], foreignKeys := [], checks := [], hasRowid := true, isStrict := false } := by
  have frame : table.declared = { table with
      columns := table.declared.columns, primaryKey := table.inlineKey?.toList
      keyConflict := table.inlineKey?.elim none fun _ => table.keyConflict
      uniques := [], foreignKeys := [], checks := [], hasRowid := true, isStrict := false } := rfl
  cases inlined : table.inlineKey? with
  | some i =>
      have columns := columns_declared keys (one.isColumnKey plain inlined) inlined rules
      have key := (inlineKey?_eq_some_iff.1 inlined).1
      have noList : table.hasKeyList = false := by simp [hasKeyList, inlined]
      rw [keyed, noList, if_neg Bool.false_ne_true, frame, columns]
      simp [inlined, key]
  | none =>
      obtain ⟨autoincrement, list⟩ := one.isListKey keys inlined
      by_cases empty : table.primaryKey = []
      · have noList : table.hasKeyList = false := by simp [hasKeyList, empty]
        have unresolved := keys.keyConflict_eq_none empty
        have columns : table.declared.columns = table.columns := by
          have read := columns_enterKey keys distinct list inlined rules
          rw [keyColumns, empty] at read
          exact read.1
        rw [keyed, noList, if_neg Bool.false_ne_true, frame, columns]
        simp [inlined, empty, unresolved]
      · have hasList : table.hasKeyList = true := by simp [hasKeyList, inlined, empty]
        have increments := list.any_autoincrement keys empty
        have read := columns_enterKey keys distinct list inlined rules
        obtain ⟨columns, key, same⟩ := Draft.enterKey_frame autoincrement
          (table.keyColumns.map Column.keyPart) table.declared
        rw [keyed, hasList, if_pos rfl, increments]
        rw [same] at read ⊢
        obtain ⟨rfl, rfl⟩ := read
        rfl

end Table

end SchemaText
