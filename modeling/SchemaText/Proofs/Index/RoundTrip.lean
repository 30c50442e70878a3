import SchemaText.Proofs.Expr.Terms
import SchemaText.Proofs.Statement.Heading
import SchemaText.Proofs.Statement.Transition

/-!
# Indexes are read back

The terms and the condition of an index that was read from a text belong to the grammar of
expressions. This is all that matters for the text of the index: with any names and any such
terms and condition it is read back.

## Main definitions

* `Index.IsReadable`: the terms and the condition belong to the grammar.

## Main results

* `Index.isReadable_of_parse`: what was read is readable.
* `Index.IsReadable.parse_sql`: **what is readable is read back** from its text.
-/

namespace SchemaText

open Token

variable {index : Index}

/-- The terms and the condition of an index belong to the grammar of expressions. -/
structure Index.IsReadable (index : Index) : Prop where
  /-- The terms are a list. -/
  terms : ∃ ts, (∀ t ∈ ts, t.IsLexed) ∧ Expr.Items index.terms ts
  /-- The condition is an expression. -/
  predicate : ∀ e, index.predicate = some e →
    ∃ ts, (∀ t ∈ ts, t.IsLexed) ∧ Expr.Reads (.items (.top [])) e ts

/-! ### What is read -/

/-- If the draft has an index, it is readable. -/
def Draft.HasReadable (draft : Draft) : Prop :=
  ∀ index, draft.statement = some (.index index) → index.IsReadable

section Invariant

variable {state target : State} {draft after : Draft} {token : Token} {rest : List Token}

/-- While a table is read, nothing is asked of an index. -/
theorem hasReadable_of_table {table : Table} (h : draft.statement = some (.table table)) :
    draft.HasReadable := by
  intro index found
  rw [h] at found
  exact absurd found (by simp)

/-- A step that changes the table is concerned with no index. -/
theorem hasReadable_of_changeTable {f : Table → Table} (h : draft.changeTable f = some after) :
    after.HasReadable := by
  obtain ⟨table, -, rfl⟩ := changeTable_eq_some h
  exact hasReadable_of_table rfl

/-- A step that changes the column is concerned with no index. -/
theorem hasReadable_of_changeColumn {f : Column → Column}
    (h : draft.changeColumn f = some after) : after.HasReadable := by
  obtain ⟨table, -, -, rfl⟩ := changeColumn_eq_some h
  exact hasReadable_of_table rfl

/-- A step that changes the index need only keep it readable. -/
theorem hasReadable_of_changeIndex {f : Index → Index} (h : draft.changeIndex f = some after)
    (holds : draft.HasReadable)
    (keeps : ∀ index : Index, index.IsReadable → (f index).IsReadable) :
    after.HasReadable := by
  obtain ⟨index, found, rfl⟩ := changeIndex_eq_some h
  rintro _ ⟨⟩
  exact keeps index (holds index found)

/-- What settles belongs to a table. -/
theorem Settles.hasReadable (h : Settles state draft target after)
    (holds : draft.HasReadable) :
    after.HasReadable := by
  cases h with
  | refl | column | constraint | firstConstraint => exact holds
  | key finished =>
      obtain ⟨table, entered, -, rfl, -⟩ := finishKey_eq_none finished
      exact hasReadable_of_table rfl
  | columnReference _ owner finished =>
      exact hasReadable_of_changeColumn (finishReference_column owner finished)
  | tableReference _ owner finished =>
      exact hasReadable_of_changeTable (finishReference_table owner finished)

/-- **Terms and conditions are read as expressions.** -/
theorem Takes.hasReadable (h : Takes token rest state draft target after)
    (lexed : ∀ t ∈ rest, t.IsLexed) (holds : draft.HasReadable) : after.HasReadable := by
  have piece {ts left : List Token} (same : rest = ts ++ left) : ∀ t ∈ ts, t.IsLexed :=
    fun t member => lexed t (by simp [same, member])
  cases h with
  | nameTable _ _ changed | guardTable changed | tableSchema changed | addColumn _ _ changed
  | beginKey _ _ changed | resolveKey changed | check _ _ changed | strict _ changed
  | withoutRowid changed => exact hasReadable_of_changeTable changed
  | extendType _ changed | orderKey changed | autoincrement _ changed | notNull changed
  | resolveNotNull changed | unique changed | resolveUnique changed | default _ changed
  | collate _ changed | storage changed | generated _ changed =>
      exact hasReadable_of_changeColumn changed
  | beginTable => exact hasReadable_of_table rfl
  | beginIndex =>
      rintro _ ⟨⟩
      exact ⟨⟨[], by simp, .inl ⟨rfl, rfl⟩⟩, by simp [Index.new]⟩
  | nameIndex _ _ changed | guardIndex changed | indexSchema changed | indexTable _ changed =>
      exact hasReadable_of_changeIndex changed holds fun _ readable => ⟨readable.1, readable.2⟩
  | terms found changed =>
      obtain ⟨ts, same, reads, -⟩ := Expr.read_sound (by simp [Expr.Level.IsPlain]) lexed found
      exact hasReadable_of_changeIndex changed holds fun _ readable =>
        ⟨⟨ts, piece same, reads.items_splitCommas⟩, readable.2⟩
  | predicate found _ changed =>
      obtain ⟨ts, same, reads, -⟩ := Expr.read_sound (by simp [Expr.Level.IsPlain]) lexed found
      refine hasReadable_of_changeIndex changed holds fun _ readable => ⟨readable.1, ?_⟩
      rintro _ ⟨⟩
      exact ⟨ts, piece same, reads⟩
  | body _ taken =>
      obtain ⟨depth, -, rfl⟩ := takeBody_eq_none taken
      exact holds
  | keyCollate _ changed | keyOrder _ changed =>
      obtain ⟨-, rfl⟩ := changeLastPart_eq_some changed
      exact holds
  | keyConflict finished =>
      obtain ⟨table, entered, -, rfl, -⟩ := finishKey_eq_none finished
      exact hasReadable_of_table rfl
  | _ => exact holds

end Invariant

/-- What was read is readable. -/
theorem Index.isReadable_of_parse {text : String}
    (h : Statement.parse text = .ok (.index index)) :
    index.IsReadable := by
  obtain ⟨_, after, holds, -, found⟩ := parse_invariant_of_takes
    (P := fun _ _ draft => draft.HasReadable) (fun holds settles => settles.hasReadable holds)
    (fun holds _ _ lexed takes => takes.hasReadable lexed holds) (by rintro _ ⟨⟩) h
  exact holds index found

/-! ### Reading an index back -/

section Reading

variable {rest : List Token} {statement : Statement}

/-- A list of terms in parentheses. -/
theorem completes_terms {es : List Expr} {ts : List Token} (items : Expr.Items es ts)
    (h : Completes (.index { index with terms := es }) (.term .closed) rest statement) :
    Completes (.index index) (.term .table) (openParen :: (ts ++ closeParen :: rest))
      statement := by
  intro d found
  obtain ⟨list, read, rfl⟩ := items.read_eq rest
  have taken : step (.term .table) d openParen (ts ++ closeParen :: rest) =
      .next (.term .terms)
        { d with statement := some (.index { index with terms := list.splitCommas }) }
        (closeParen :: rest) := by
    change Embedding.terms.read d (ts ++ closeParen :: rest) = _
    rw [Embedding.read, read]
    dsimp only
    rw [Draft.changeIndex, found]
    rfl
  rw [outcome_next taken]
  exact Completes.silent _ (fun _ => rfl) h _ rfl

/-- The condition of an index, up to the end of the statement. -/
theorem completes_predicate {e : Expr} {ts : List Token}
    (reads : Expr.Reads (.items (.top [])) e ts) :
    Completes (.index index) (.term .closed) (keyword .WHERE :: ts)
      (.index { index with predicate := some e }) := by
  intro d found
  have read : Expr.read (.top []) ts = .ok (e, []) := by
    have := reads.read_eq (Expr.closes_nil [])
    rwa [List.append_nil] at this
  have taken : step (.term .closed) d (keyword .WHERE) ts =
      .next (.term .predicate)
        { d with statement := some (.index { index with predicate := some e }) } [] := by
    have move : Move.ofState (.term .closed) d (keyword .WHERE) ts.head? = .embed .predicate d := by
      simp [Move.ofState, Move.term]
    rw [step, move]
    dsimp only
    rw [Embedding.read, read]
    dsimp only
    rw [reads.isEmpty_eq (by simp), if_neg (by decide), Draft.changeIndex, found]
    rfl
  rw [outcome_next taken]
  exact outcome_nil rfl rfl

end Reading

namespace Index

/-- The tokens of the statement up to the terms. -/
def heading (index : Index) : List Token :=
  (ofKeyword .CREATE :: if index.unique then [ofKeyword .UNIQUE] else []) ++
    (ofKeyword .INDEX :: existsGuard index.ifNotExists) ++ qualified index.schema index.name ++
    [ofKeyword .ON, Token.name index.table]

/-- The heading of an index is made of printed tokens. -/
theorem arePrinted_heading (index : Index) : ArePrinted index.heading := by
  unfold heading
  split <;> simp

/-- The heading of an index is read up to its terms. -/
theorem outcome_heading {rest : List Token} {statement : Statement}
    (h : Completes (.index { index with terms := [], predicate := none }) (.term .table) rest
      statement) :
    outcome (.opening .start) {} (index.heading.map spoken ++ rest) = .ok statement := by
  have named : Completes (.index { Index.new "" "" with unique := index.unique })
      (.indexName .begun)
      ((existsGuard index.ifNotExists).map spoken ++
        ((qualified index.schema index.name).map spoken ++
          keyword .ON :: Token.name index.table :: rest)) statement := by
    refine (readsName_index { Index.new "" "" with unique := index.unique }).completes ?_
    refine .changeIndex (.term .table) (fun i => { i with table := index.table })
      (fun d => ?_) ?_
    · simp [Move.ofState, Move.term]
    · simpa [Index.new] using h
  have created := outcome_createIndex index.unique named
  rw [← created, heading]
  cases index.unique <;> simp

/-- The statement is written with its heading, its terms and its condition. -/
theorem tokens_eq (index : Index) :
    index.tokens = index.heading ++ openParen ::
      (commaList (index.terms.map Expr.tokens) ++
        closeParen :: index.predicate.elim [] (ofKeyword .WHERE :: ·.tokens)) := by
  unfold Index.tokens heading inParens
  simp only [List.append_assoc, List.cons_append, List.nil_append]

/-- **What is readable is read back** from its text. -/
theorem IsReadable.parse_sql (h : index.IsReadable) :
    Statement.parse index.sql = .ok (.index index) := by
  obtain ⟨ts, lexed, items⟩ := h.terms
  obtain ⟨ps, spelled, valid, reads⟩ : ∃ ps,
      SpelledAs (index.predicate.elim [] (ofKeyword .WHERE :: ·.tokens)) ps ∧
        (∀ t ∈ ps, t.IsWellSpelled) ∧
        Completes (.index { index with predicate := none }) (.term .closed) ps
          (.index index) := by
    cases condition : index.predicate with
    | none =>
        refine ⟨[], .nil, by simp, fun d found => ?_⟩
        have same : { index with predicate := none } = index := by rw [← condition]
        exact outcome_nil rfl (found.trans (by rw [same]))
    | some e =>
        obtain ⟨ps, lexed, reads⟩ := h.predicate e condition
        refine ⟨keyword .WHERE :: ps, ?_, ?_, ?_⟩
        · refine .keyword rfl rfl rfl (by decide +kernel) (reads.spelledAs lexed)
        · exact List.forall_mem_cons.2 ⟨isWellSpelled_keyword _, reads.isWellSpelled lexed⟩
        · have := @completes_predicate { index with predicate := none } _ _ reads
          rwa [← condition] at this
  have all : ∀ t ∈ index.heading.map spoken ++ openParen :: (ts ++ closeParen :: ps),
      t.IsWellSpelled := by
    refine List.forall_mem_append.2 ⟨fun t member => ?_, List.forall_mem_cons.2
      ⟨isWellSpelled_openParen, List.forall_mem_append.2 ⟨fun t member => ?_,
        List.forall_mem_cons.2 ⟨isWellSpelled_closeParen, valid⟩⟩⟩⟩
    · obtain ⟨a, found, rfl⟩ := List.mem_map.1 member
      exact (arePrinted_heading index a found).isWellSpelled_spoken
    · exact lexed t member (items.kind_ne_invalid t member)
  have source : tokenize index.sql = index.heading.map spoken ++ openParen ::
      (ts ++ closeParen :: ps) := by
    rw [sql, tokens_eq]
    refine SpelledAs.tokenize_render ?_ all
    exact (spelledAs_spoken (arePrinted_heading index)).append
      (.cons _ ((items.spelledAs lexed).append (.cons _ spelled)))
  refine parse_of_outcome (fun t member => ?_) ?_
  · rw [source] at member
    exact (all t member).kind_ne_invalid
  · rw [source]
    exact outcome_heading (completes_terms items reads)

end Index

end SchemaText
