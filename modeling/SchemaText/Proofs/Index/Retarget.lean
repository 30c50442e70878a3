import SchemaText.Proofs.Index.RoundTrip
import SchemaText.Proofs.Rename.Substitution
import SchemaText.Rename.Retarget

/-!
# Moved indexes are read back

Renaming columns keeps terms terms and conditions conditions, so that an index that was moved
to another table is read back from its text like any other.

## Main results

* `Expr.Items.substitute`: renamed terms are terms.
* `Index.IsReadable.retarget`: what is readable stays so when it is moved.
* `Index.parse_sql_retarget`: **an index that was moved is read back** from its text.
-/

namespace SchemaText

open Token

/-! ### Terms -/

namespace Expr

variable {map : RenameMap} {e : Expr} {es : List Expr} {ts : List Token}

/-- A renamed token is one that the lexer produces. -/
theorem IsRenamed.isLexed {before after : Token} (h : before.IsRenamed after)
    (lexed : before.IsLexed) : after.IsLexed := by
  rcases h with rfl | kind
  · exact lexed
  · obtain ⟨text, _⟩ := after
    subst kind
    exact fun _ => .quotedIdentifier text

/-- Renamed tokens are ones that the lexer produces. -/
theorem Renamed.isLexed {ts' : List Token} (h : Renamed ts ts') (lexed : ∀ t ∈ ts, t.IsLexed) :
    ∀ t ∈ ts', t.IsLexed := by
  induction h with
  | nil => simp
  | cons same _ ih =>
      rw [List.forall_mem_cons] at lexed ⊢
      exact ⟨IsRenamed.isLexed same lexed.1, ih lexed.2⟩

/-- Renaming leaves the commas of a list where they are. -/
theorem isList_substituteAt (place : Place) (collation : Bool)
    (ok : (e.substituteAt map place collation).fault = none) :
    (e.substituteAt map place collation).value.isList = e.isList := by
  cases e with
  | empty => rfl
  | leaf t =>
      rcases substituteAt_leaf map place collation t with same | ⟨name, same⟩
      · rw [same]
      · rw [same]
        rfl
  | prefixed => rfl
  | binary left op right =>
      obtain ⟨p, c, q, d, -, -, value⟩ := substituteAt_binary ok
      rw [value]
      rfl
  | postfixed operand op =>
      obtain ⟨p, c, same⟩ := substituteAt_postfixed map place collation operand op
      rw [same]
      rfl
  | parens => rfl
  | call => rfl

/-- Nothing is renamed if the map mentions no column. -/
theorem substituteAt_empty (place : Place) (collation : Bool) (e : Expr) :
    e.substituteAt .empty place collation = ⟨e, none⟩ := by
  induction e generalizing place collation with
  | empty => rfl
  | leaf t =>
      unfold Expr.substituteAt substituteLeaf
      split
      · rfl
      · split <;> rfl
  | prefixed op operand ih | parens inner ih | call name arguments ih =>
      rw [Expr.substituteAt, ih]
  | binary left op right ihLeft ihRight =>
      unfold Expr.substituteAt
      simp only [ihLeft, ihRight, ite_self]
  | postfixed operand op ih =>
      unfold Expr.substituteAt
      simp only [ih, ite_self]

/-- Renamed terms are terms. -/
theorem Terms.substitute (h : Terms es ts)
    (ok : ∀ e ∈ es, (e.substitute map .indexTerm).fault = none) :
    ∃ ts', Terms (es.map fun e => (e.substitute map .indexTerm).value) ts' ∧
      Renamed ts ts' := by
  induction h with
  | last term single =>
      have okTerm := List.forall_mem_singleton.1 ok
      obtain ⟨ts', reads, renamed⟩ := term.substituteAt okTerm
      exact ⟨ts', .last reads ((isList_substituteAt _ _ okTerm).trans single), renamed⟩
  | more term rest ih =>
      obtain ⟨okTerm, okRest⟩ := List.forall_mem_cons.1 ok
      obtain ⟨ts', reads, renamed⟩ := term.substituteAt okTerm
      obtain ⟨rs', terms, renamedRest⟩ := ih okRest
      exact ⟨_, .more reads terms, renamed.append (.cons (.refl comma) renamedRest)⟩

/-- **Renamed lists are lists.** -/
theorem Items.substitute (h : Items es ts)
    (ok : ∀ e ∈ es, (e.substitute map .indexTerm).fault = none) :
    ∃ ts', Items (es.map fun e => (e.substitute map .indexTerm).value) ts' ∧
      Renamed ts ts' := by
  rcases h with ⟨rfl, rfl⟩ | terms
  · exact ⟨[], .inl ⟨rfl, rfl⟩, .nil⟩
  · obtain ⟨ts', renamedTerms, renamed⟩ := terms.substitute ok
    exact ⟨ts', .inr renamedTerms, renamed⟩

end Expr

/-! ### Indexes -/

namespace Index

variable {index : Index} {map : RenameMap}

/-- What is readable stays so when it is moved to another table. -/
theorem IsReadable.retarget (h : index.IsReadable) {table : String}
    (ok : (index.retarget table map).fault = none) :
    (index.retarget table map).value.IsReadable := by
  obtain ⟨okTerms, okPredicate⟩ := fault_retarget_eq_none_iff.1 ok
  rw [retarget_eq okTerms]
  constructor
  · obtain ⟨ts, lexed, items⟩ := h.terms
    obtain ⟨ts', terms, renamed⟩ := items.substitute okTerms
    exact ⟨ts', renamed.isLexed lexed, terms⟩
  · intro e found
    obtain ⟨condition, member, rfl⟩ := Option.map_eq_some_iff.1 found
    obtain ⟨ts, lexed, reads⟩ := h.predicate condition member
    obtain ⟨ts', renamedReads, renamed⟩ := reads.substituteAt (okPredicate condition member)
    exact ⟨ts', renamed.isLexed lexed, renamedReads⟩

/-- Nothing is changed by the same table name and no names of columns. -/
theorem retarget_empty (index : Index) :
    index.retarget index.table .empty = ⟨index, none⟩ := by
  have visited (placement : Placement) (e : Expr) :
      e.substitute .empty placement = ⟨e, none⟩ :=
    Expr.substituteAt_empty _ _ e
  rw [retarget_eq fun e _ => by rw [visited]]
  obtain ⟨unique, guard, schema, name, table, es, predicate⟩ := index
  cases predicate <;> simp [visited]

/-- **An index that was moved is read back.** From the text of an index that was moved to a
table of any name, with any columns renamed, the moved index is read. With the same name and
without renamed columns, it is the index that a whole text defines. -/
theorem parse_sql_retarget {text : String} (h : Statement.parse text = .ok (.index index)) :
    (∀ (table : String) (map : RenameMap), (index.retarget table map).fault = none →
        Statement.parse (index.retarget table map).value.sql =
          .ok (.index (index.retarget table map).value)) ∧
      index.retarget index.table .empty = ⟨index, none⟩ ∧
      Statement.parse index.sql = .ok (.index index) := by
  have readable := isReadable_of_parse h
  exact ⟨fun _ _ ok => (readable.retarget ok).parse_sql, retarget_empty index,
    readable.parse_sql⟩

/-- A partial index, for a run of the theorem above. -/
def sample : Index where
  name := "i"
  table := "t"
  terms := [.postfixed (.leaf ⟨"a", .identifier⟩) ⟨"DESC", .postfixOp⟩]
  predicate := some (.postfixed (.leaf ⟨"b", .identifier⟩) ⟨"ISNULL", .postfixOp⟩)

/-- The sample is an index that can be read back. -/
theorem isReadable_sample : sample.IsReadable := by
  have a : Token.name "a" = ⟨"a", .identifier⟩ := by decide +kernel
  have b : Token.name "b" = ⟨"b", .identifier⟩ := by decide +kernel
  constructor
  · refine ⟨[⟨"a", .identifier⟩, ⟨"DESC", .postfixOp⟩], ?_,
      .inr (.last (.last (.trailed (.bare (Expr.reads_plainName a)) (.word rfl))) rfl)⟩
    exact List.forall_mem_cons.2 ⟨Expr.isLexed_plainName a,
      List.forall_mem_singleton.2 fun _ => isWellSpelled_keyword .DESC⟩
  · rintro _ ⟨⟩
    refine ⟨[⟨"b", .identifier⟩, ⟨"ISNULL", .postfixOp⟩], ?_,
      .items rfl (.last (.trailed (.bare (Expr.reads_plainName b)) (.word rfl)))⟩
    exact List.forall_mem_cons.2 ⟨Expr.isLexed_plainName b,
      List.forall_mem_singleton.2 fun _ => isWellSpelled_keyword .ISNULL⟩

/-- A partial index moves to the table `u`, and its term gets a name with a blank; the column
of its condition keeps its name. -/
theorem parse_sql_retarget_sample :
    Statement.parse "CREATE INDEX i ON t(a DESC)WHERE b ISNULL" = .ok (.index sample) ∧
      (sample.retarget "u" (.insert .empty "A" (.renamed "c d"))).fault = none ∧
      (sample.retarget "u" (.insert .empty "A" (.renamed "c d"))).value =
        { sample with
          table := "u"
          terms := [.postfixed (.leaf ⟨"c d", .quotedIdentifier⟩) ⟨"DESC", .postfixOp⟩] } ∧
      (sample.retarget "u" (.insert .empty "A" (.renamed "c d"))).value.sql =
        "CREATE INDEX i ON u(\"c d\"DESC)WHERE b ISNULL" ∧
      Statement.parse (sample.retarget "u" (.insert .empty "A" (.renamed "c d"))).value.sql =
        .ok (.index (sample.retarget "u" (.insert .empty "A" (.renamed "c d"))).value) := by
  have written : sample.sql = "CREATE INDEX i ON t(a DESC)WHERE b ISNULL" := by
    decide +kernel
  have parsed := written ▸ isReadable_sample.parse_sql
  have ok : (sample.retarget "u" (.insert .empty "A" (.renamed "c d"))).fault = none := by
    decide +kernel
  exact ⟨parsed, ok, by decide +kernel, by decide +kernel,
    (parse_sql_retarget parsed).1 _ _ ok⟩

end Index

end SchemaText
