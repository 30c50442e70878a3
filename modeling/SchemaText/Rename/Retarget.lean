import SchemaText.Index.Basic
import SchemaText.Rename.Substitute

/-!
# Moving an index to a rebuilt table

When a table is rebuilt, its indexes are defined again on the new table, with the columns
under their new names. An index that uses a dropped column cannot be moved.

## Main definitions

* `Index.substitute`: renames the columns in the terms and the condition.
* `Index.retarget`: moves the index to a table and renames its columns.

## Main results

* `Index.fault_retarget`: the fault is that of the first term that has one, or that of the
  condition.
* `Index.retarget_eq`: **the moved index** is on the table, its columns renamed, and otherwise
  what it was.
* `Index.retarget_of_fault`: what is left if a term uses a dropped column.
-/

namespace SchemaText

namespace Index

/-- Visits terms from the first to the last, up to a fault. -/
def substituteTerms (map : RenameMap) : List Expr → Substituted (List Expr)
  | [] => ⟨[], none⟩
  | term :: terms =>
    let first := term.substitute map .indexTerm
    match first.fault with
    | some fault => ⟨first.value :: terms, some fault⟩
    | none =>
      let rest := substituteTerms map terms
      ⟨first.value :: rest.value, rest.fault⟩

/-- Renames the columns in the terms, then in the condition, up to a fault. -/
def substitute (map : RenameMap) (index : Index) : Substituted Index :=
  let terms := substituteTerms map index.terms
  let partly := { index with terms := terms.value }
  match terms.fault, index.predicate with
  | some fault, _ => ⟨partly, some fault⟩
  | none, none => ⟨partly, none⟩
  | none, some condition =>
    let renamed := condition.substitute map .predicate
    ⟨{ partly with predicate := some renamed.value }, renamed.fault⟩

/-- Moves the index to a table and renames its columns. -/
def retarget (table : String) (map : RenameMap) (index : Index) : Substituted Index :=
  { index with table := table }.substitute map

/-! ### What a visit leaves -/

variable {map : RenameMap} {es rest : List Expr} {e : Expr} {index : Index} {table : String}

/-- The visit goes on behind terms that have no fault. -/
theorem substituteTerms_append (ok : ∀ e ∈ es, (e.substitute map .indexTerm).fault = none) :
    substituteTerms map (es ++ rest) =
      ⟨(es.map fun e => (e.substitute map .indexTerm).value) ++
          (substituteTerms map rest).value,
        (substituteTerms map rest).fault⟩ := by
  induction es with
  | nil => rfl
  | cons e es ih =>
      obtain ⟨first, others⟩ := List.forall_mem_cons.1 ok
      simp only [List.cons_append, substituteTerms, first, ih others, List.map_cons]

/-- If no term has a fault, every term has been visited. -/
theorem substituteTerms_eq (ok : ∀ e ∈ es, (e.substitute map .indexTerm).fault = none) :
    substituteTerms map es = ⟨es.map fun e => (e.substitute map .indexTerm).value, none⟩ := by
  simpa [substituteTerms] using @substituteTerms_append map es [] ok

/-- The fault of the terms is that of the first term that has one. -/
theorem fault_substituteTerms : (substituteTerms map es).fault =
    es.findSome? fun e => (e.substitute map .indexTerm).fault := by
  induction es with
  | nil => rfl
  | cons e es ih =>
      rw [substituteTerms, List.findSome?_cons, ← ih]
      cases (e.substitute map .indexTerm).fault <;> rfl

/-- The fault of a moved index is that of the first term that has one, or else that of the
condition. The name of the table has no part in it. -/
theorem fault_retarget : (index.retarget table map).fault =
    (index.terms.findSome? fun e => (e.substitute map .indexTerm).fault).or
      (index.predicate.bind fun e => (e.substitute map .predicate).fault) := by
  rw [← fault_substituteTerms, retarget, substitute]
  dsimp only
  cases (substituteTerms map index.terms).fault <;> cases index.predicate <;> rfl

/-- An index is moved without a fault just if no term and no condition has one. -/
theorem fault_retarget_eq_none_iff : (index.retarget table map).fault = none ↔
    (∀ e ∈ index.terms, (e.substitute map .indexTerm).fault = none) ∧
      ∀ e ∈ index.predicate, (e.substitute map .predicate).fault = none := by
  simp only [fault_retarget, Option.or_eq_none_iff, List.findSome?_eq_none_iff,
    Option.bind_eq_none_iff, Option.mem_def]

/-- **The moved index** is on the table, its terms and its condition have their columns
renamed, and nothing else has changed. Only the condition can still be at fault if no term
is. -/
theorem retarget_eq (ok : ∀ e ∈ index.terms, (e.substitute map .indexTerm).fault = none) :
    index.retarget table map =
      ⟨{ index with
          table := table
          terms := index.terms.map fun e => (e.substitute map .indexTerm).value
          predicate := index.predicate.map fun e => (e.substitute map .predicate).value },
        index.predicate.bind fun e => (e.substitute map .predicate).fault⟩ := by
  simp only [retarget, substitute, substituteTerms_eq ok]
  cases index.predicate <;> rfl

/-- A fault in a term ends the visit there: the index is on the table, the terms before that
one have their columns renamed, and the terms behind it and the condition are what they were. -/
theorem retarget_of_fault {fault : DroppedColumn} (split : index.terms = es ++ e :: rest)
    (ok : ∀ e ∈ es, (e.substitute map .indexTerm).fault = none)
    (found : (e.substitute map .indexTerm).fault = some fault) :
    index.retarget table map =
      ⟨{ index with
          table := table
          terms := (es.map fun e => (e.substitute map .indexTerm).value) ++
            (e.substitute map .indexTerm).value :: rest },
        some fault⟩ := by
  simp only [retarget, substitute, split, substituteTerms_append ok, substituteTerms, found]

end Index

end SchemaText
