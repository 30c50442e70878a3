import SchemaText.Proofs.Table.KeyEditing

/-!
# The order in which columns joined the key

A column enters the primary key or leaves it, again and again. The key lists its members in the
order in which they joined: what counts is the entry since which a column has been a member all
the time. To enter the key as a member already changes nothing, and so does any change at a
position where there is no column.

## Main definitions

* `LastJoined`: with this change a column joined the key, to stay.
* `Table.HasHistory`: the key lists what joined and stayed, in this order.
* `Table.KeepsBooks`: the key, what its columns note about it, and the order agree.

## Main results

* `lastJoined_append_true`, `lastJoined_append_false`: what one more change does.
* `Table.HasHistory.setKeyMember`, `Table.HasHistory.editKey`: **every change of the key keeps
  its members in order**.
-/

namespace SchemaText

/-! ### Changes and when they count -/

/-- With the change `k` the column at position `i` joined the key, and it is a member since:
it enters with this change, later changes never take it out, and whenever it had entered
before, it had left again. -/
structure LastJoined (calls : List (Nat × Bool)) (i k : Nat) : Prop where
  joins : calls[k]? = some (i, true)
  stays : ∀ l, k < l → calls[l]? ≠ some (i, false)
  anew : ∀ l, l < k → calls[l]? = some (i, true) →
    ∃ m, l < m ∧ m < k ∧ calls[m]? = some (i, false)

variable {calls : List (Nat × Bool)} {i j k l : Nat} {member : Bool}

/-- Where a column last joined is one of the calls. -/
theorem LastJoined.lt_length (h : LastJoined calls i k) : k < calls.length :=
  (List.getElem?_eq_some_iff.1 h.joins).1

/-- A column that entered and never left since is a member since some change. -/
theorem exists_lastJoined (joins : calls[k]? = some (i, true))
    (stays : ∀ l, k < l → calls[l]? ≠ some (i, false)) : ∃ k, LastJoined calls i k := by
  induction k using Nat.strongRecOn with
  | _ k ih =>
      by_cases anew : ∀ l, l < k → calls[l]? = some (i, true) →
          ∃ m, l < m ∧ m < k ∧ calls[m]? = some (i, false)
      · exact ⟨k, joins, stays, anew⟩
      · -- An earlier entry that was not undone before the change `k` counts instead.
        push Not at anew
        obtain ⟨l, before, entered, kept⟩ := anew
        refine ih l before entered fun m after left => ?_
        rcases Nat.lt_trichotomy m k with first | rfl | last
        · exact kept m after first left
        · exact absurd (joins.symm.trans left) (by simp)
        · exact stays m last left

/-- An entry of a list with one more at its end. -/
theorem getElem?_snoc_eq_some {α : Type} {l : List α} {a b : α} {i : Nat} :
    (l ++ [a])[i]? = some b ↔ l[i]? = some b ∨ i = l.length ∧ a = b := by
  rcases Nat.lt_trichotomy i l.length with before | rfl | after
  · simp [List.getElem?_append_left before, Nat.ne_of_lt before]
  · simp
  · simp [List.getElem?_eq_none after.le, Nat.ne_of_gt after, after]

/-- A column leaves the key. -/
theorem lastJoined_append_false :
    LastJoined (calls ++ [(j, false)]) i k ↔ LastJoined calls i k ∧ i ≠ j := by
  have old {l : Nat} : (calls ++ [(j, false)])[l]? = some (i, true) ↔
      calls[l]? = some (i, true) := by simp [getElem?_snoc_eq_some]
  constructor
  · rintro ⟨joins, stays, anew⟩
    rw [old] at joins
    obtain ⟨bound, -⟩ := List.getElem?_eq_some_iff.1 joins
    refine ⟨⟨joins, fun l after left => ?_, fun l before entered => ?_⟩, ?_⟩
    · exact stays l after (getElem?_snoc_eq_some.2 (.inl left))
    · obtain ⟨m, after, first, left⟩ := anew l before (old.2 entered)
      rw [List.getElem?_append_left (first.trans bound)] at left
      exact ⟨m, after, first, left⟩
    · rintro rfl
      exact stays calls.length bound (by simp)
  · rintro ⟨⟨joins, stays, anew⟩, other⟩
    refine ⟨old.2 joins, fun l after left => ?_, fun l before entered => ?_⟩
    · rcases getElem?_snoc_eq_some.1 left with left | ⟨-, same⟩
      · exact stays l after left
      · exact other (Prod.mk.inj same).1.symm
    · obtain ⟨m, after, first, left⟩ := anew l before (old.1 entered)
      exact ⟨m, after, first, getElem?_snoc_eq_some.2 (.inl left)⟩

/-- A column enters the key. It joins if it was no member. -/
theorem lastJoined_append_true : LastJoined (calls ++ [(j, true)]) i k ↔
    LastJoined calls i k ∨ k = calls.length ∧ i = j ∧ ∀ l, ¬LastJoined calls i l := by
  have old {l : Nat} : (calls ++ [(j, true)])[l]? = some (i, false) ↔
      calls[l]? = some (i, false) := by simp [getElem?_snoc_eq_some]
  constructor
  · rintro ⟨joins, stays, anew⟩
    simp only [ne_eq, old] at stays anew
    rcases getElem?_snoc_eq_some.1 joins with joins | ⟨rfl, same⟩
    · exact .inl ⟨joins, stays, fun l before entered =>
        anew l before (getElem?_snoc_eq_some.2 (.inl entered))⟩
    · refine .inr ⟨rfl, (Prod.mk.inj same).1.symm, fun l before => ?_⟩
      obtain ⟨m, after, -, left⟩ :=
        anew l before.lt_length (getElem?_snoc_eq_some.2 (.inl before.joins))
      exact before.stays m after left
  · rintro (joined | ⟨rfl, rfl, apart⟩)
    · refine ⟨getElem?_snoc_eq_some.2 (.inl joined.joins), ?_, fun l before entered => ?_⟩
      · simpa only [ne_eq, old] using joined.stays
      · rw [List.getElem?_append_left (before.trans joined.lt_length)] at entered
        simpa only [old] using joined.anew l before entered
    · refine ⟨by simp, fun l after left => ?_, fun l before entered => ?_⟩
      · exact absurd (old.1 left) (by simp [List.getElem?_eq_none after.le])
      · rw [List.getElem?_append_left before] at entered
        by_contra kept
        simp only [old, not_exists, not_and] at kept
        obtain ⟨k, joined⟩ := exists_lastJoined entered fun m after left =>
          kept m after (List.getElem?_eq_some_iff.1 left).1 left
        exact apart k joined

/-- A change at another position. -/
theorem lastJoined_append_of_ne (other : i ≠ j) :
    LastJoined (calls ++ [(j, member)]) i k ↔ LastJoined calls i k := by
  cases member with
  | false => rw [lastJoined_append_false, and_iff_left other]
  | true => simp [lastJoined_append_true, other]

/-! ### Members in order -/

namespace Table

variable {table other : Table}

/-- The key lists the positions of columns that joined and stayed, in the order in which they
joined. -/
structure HasHistory (calls : List (Nat × Bool)) (table : Table) : Prop where
  /-- The members are those that joined and stayed. -/
  listed : ∀ i, i ∈ table.primaryKey ↔ i < table.columns.length ∧ ∃ k, LastJoined calls i k
  /-- They are listed in the order in which they joined. -/
  order : table.primaryKey.Pairwise fun i j =>
    ∀ k l, LastJoined calls i k → LastJoined calls j l → k < l

namespace HasHistory

variable (h : table.HasHistory calls)

include h

/-- Only the members and the number of columns matter. -/
theorem congr (length : other.columns.length = table.columns.length)
    (key : other.primaryKey = table.primaryKey) : other.HasHistory calls :=
  ⟨length ▸ key ▸ h.listed, key ▸ h.order⟩

/-- A new column has not joined the key. -/
theorem addColumn (range : ∀ call ∈ calls, call.1 < table.columns.length) (column : Column) :
    { table with columns := table.columns ++ [column] }.HasHistory calls where
  listed := fun i => by
    rw [h.listed i, List.length_append, List.length_singleton]
    refine and_congr_left fun ⟨k, joined⟩ => ?_
    have old := range _ (List.mem_of_getElem? joined.joins)
    exact iff_of_true old (Nat.lt_succ_of_lt old)
  order := h.order

/-- A change at a position without a column. -/
theorem append_of_le (outside : table.columns.length ≤ i) (member : Bool) :
    table.HasHistory (calls ++ [(i, member)]) := by
  have same {j k : Nat} (bound : j < table.columns.length) :
      LastJoined (calls ++ [(i, member)]) j k ↔ LastJoined calls j k :=
    lastJoined_append_of_ne (Nat.ne_of_lt (bound.trans_le outside))
  constructor
  · intro j
    rw [h.listed j]
    exact and_congr_right fun bound => exists_congr fun k => (same bound).symm
  · refine h.order.imp_of_mem fun {a b} first second before k l => ?_
    rw [same ((h.listed a).1 first).1, same ((h.listed b).1 second).1]
    exact before k l

/-- **A column that enters the key** is its last member, if it was none before. -/
theorem setKeyMember_true (old : i < table.columns.length) :
    (table.setKeyMember i true).HasHistory (calls ++ [(i, true)]) := by
  have key := primaryKey_setKeyMember_true old
  have length := length_setKeyMember table i true
  -- The changes of a member count as before.
  have same {j k : Nat} (listed : j ∈ table.primaryKey) :
      LastJoined (calls ++ [(i, true)]) j k ↔ LastJoined calls j k := by
    obtain ⟨-, l, joined⟩ := (h.listed j).1 listed
    rw [lastJoined_append_true, or_iff_left]
    exact fun ⟨_, _, apart⟩ => apart l joined
  have order : table.primaryKey.Pairwise fun i' j => ∀ k l,
      LastJoined (calls ++ [(i, true)]) i' k → LastJoined (calls ++ [(i, true)]) j l → k < l :=
    h.order.imp_of_mem fun first second before k l => by
      rw [same first, same second]
      exact before k l
  by_cases listed : i ∈ table.primaryKey
  · rw [if_pos (by simpa using listed)] at key
    refine ⟨fun j => ?_, key ▸ order⟩
    rw [key, length, h.listed j]
    refine and_congr_right fun bound => ?_
    by_cases entered : j = i
    · subst entered
      exact exists_congr fun k => (same listed).symm
    · exact exists_congr fun k => (lastJoined_append_of_ne entered).symm
  · rw [if_neg (by simpa using listed)] at key
    have none (l : Nat) : ¬LastJoined calls i l := fun joined =>
      listed ((h.listed i).2 ⟨old, l, joined⟩)
    refine ⟨fun j => ?_, ?_⟩
    · rw [key, length, List.mem_append, List.mem_singleton, h.listed j]
      by_cases entered : j = i
      · subst entered
        exact iff_of_true (.inr rfl)
          ⟨old, calls.length, lastJoined_append_true.2 (.inr ⟨rfl, rfl, none⟩)⟩
      · simp [entered, lastJoined_append_of_ne]
    · rw [key, List.pairwise_append]
      refine ⟨order, List.pairwise_singleton _ _, fun a first b last k l joined entered => ?_⟩
      obtain rfl := List.mem_singleton.1 last
      have before := ((same first).1 joined).lt_length
      rcases lastJoined_append_true.1 entered with entered | ⟨rfl, -, -⟩
      · exact absurd entered (none l)
      · exact before

/-- **A column that leaves the key** leaves the others in their order. -/
theorem setKeyMember_false (old : i < table.columns.length) :
    (table.setKeyMember i false).HasHistory (calls ++ [(i, false)]) := by
  have key := primaryKey_setKeyMember_false old
  refine ⟨fun j => ?_, ?_⟩
  · rw [key, length_setKeyMember, List.mem_filter, bne_iff_ne, h.listed j]
    simp only [lastJoined_append_false, exists_and_right, and_assoc]
  · rw [key]
    refine (h.order.filter _).imp fun before k l first second => ?_
    exact before k l (lastJoined_append_false.1 first).1 (lastJoined_append_false.1 second).1

/-- **Every change of the key keeps its members in order.** -/
theorem setKeyMember (i : Nat) (member : Bool) :
    (table.setKeyMember i member).HasHistory (calls ++ [(i, member)]) := by
  by_cases old : i < table.columns.length
  · cases member with
    | true => exact h.setKeyMember_true old
    | false => exact h.setKeyMember_false old
  · rw [setKeyMember_of_le (Nat.not_lt.1 old)]
    exact h.append_of_le (Nat.not_lt.1 old) member

/-- Any number of changes. -/
theorem editKey (edits : List (Nat × Bool)) :
    (table.editKey edits).HasHistory (calls ++ edits) := by
  induction edits generalizing table calls with
  | nil => rwa [List.append_nil]
  | cons edit edits ih =>
      rw [List.append_cons]
      exact ih (h.setKeyMember edit.1 edit.2)

end HasHistory

/-- Without a key, nothing has joined. -/
theorem hasHistory_of_nil (key : table.primaryKey = []) : table.HasHistory [] where
  listed := fun i => by
    rw [key]
    exact iff_of_false List.not_mem_nil fun ⟨_, k, joined⟩ => absurd joined.joins (by simp)
  order := by simp [key]

/-! ### The books -/

/-- The key, what the columns note about it, and the changes that led to it agree. -/
structure KeepsBooks (calls : List (Nat × Bool)) (table : Table) : Prop where
  /-- No position is listed twice. -/
  nodup : table.primaryKey.Nodup
  /-- A listed position is that of a column. -/
  range : ∀ i ∈ table.primaryKey, i < table.columns.length
  /-- The members are those that are listed. -/
  members : ∀ i column, table.columns[i]? = some column →
    (column.inKey = true ↔ i ∈ table.primaryKey)
  /-- The members are those that joined and stayed. -/
  joined : ∀ i, i ∈ table.primaryKey ↔ i < table.columns.length ∧ ∃ k, LastJoined calls i k
  /-- They are listed in the order in which they joined. -/
  order : table.primaryKey.Pairwise fun i j =>
    ∀ k l, LastJoined calls i k → LastJoined calls j l → k < l
  /-- The whole key is the only member. -/
  whole : ∀ i column, table.columns[i]? = some column →
    (column.isWholeKey = true ↔ table.primaryKey = [i])
  /-- Outside the key nothing is noted about it. -/
  outside : ∀ i column, table.columns[i]? = some column → i ∉ table.primaryKey →
    column.columnDesc = false ∧ column.tableDesc = false ∧ column.autoincrement = false

/-- The places of the key agree, whatever the conflict clause, and so does the order. -/
theorem HasHistory.keepsBooks (h : table.HasHistory calls)
    (keys : table.written.HasKeys) (quiet : table.HasQuietColumns) :
    table.KeepsBooks calls where
  nodup := keys.nodup
  range := keys.range
  members := keys.members
  joined := h.listed
  order := h.order
  whole := fun i column found => by
    have whole : column.isWholeKey =
        (decide (i ∈ table.primaryKey) && table.primaryKey.length == 1) :=
      (keys.notes_eq found).2
    rw [whole, Bool.and_eq_true, decide_eq_true_iff, beq_iff_eq]
    constructor
    · rintro ⟨listed, single⟩
      obtain ⟨k, only⟩ := List.length_eq_one_iff.1 single
      obtain rfl : i = k := by simpa [only] using listed
      exact only
    · intro only
      simp [only]
  outside := fun i column found other => by
    have apart : column.inKey = false := by
      rw [(keys.notes_eq found).1]
      exact decide_eq_false other
    obtain ⟨plain, increments⟩ := quiet column (List.mem_of_getElem? found) apart
    obtain ⟨columnDesc, tableDesc⟩ := Bool.or_eq_false_iff.1 plain
    exact ⟨columnDesc, tableDesc, increments⟩

end Table

end SchemaText
