import Mathlib
import SchemaText.Proofs.Table.KeyReading
import SchemaText.Proofs.Table.Printed

/-!
# Tables are read back

A table that was read is read back from its own text, as long as its columns can be told apart
by their names and the key was declared once. In conditions and rules there must be no piece
of text that is no token, as such a piece has no spelling.

## Main definitions

* `HasValidBodies`: no invalid token is taken in a condition or rule.
* `Draft.IsGathered`, `Table.IsGathered`: what every step keeps then, and what comes of it.

## Main results

* `Table.isGathered_of_parse`: **what a table that was read has gathered**.
* `Table.IsGathered.arePrinted_tokens`: such a table can be spelled.
* `Table.IsGathered.parse_sql`: its text is read, as the table `Table.reread`.
* `Table.parse_sql_of_parse_table`: **round trip** — the text of a table that was read is read
  as the same table.
-/

namespace SchemaText

open Token

variable {table : Table} {column : Column} {text : String}

/-! ### What was gathered -/

/-- No invalid token is taken in a condition or rule. -/
def HasValidBodies (transitions : List Transition) : Prop :=
  ∀ transition ∈ transitions, transition.source.isBody = true →
    transition.token.kind ≠ .invalid

/-- What the draft has gathered is in order, after these steps. -/
structure Draft.IsGathered (past : List Transition) (state : State) (draft : Draft) : Prop where
  /-- What is being read belongs to the state. -/
  pending : draft.IsPending IsWellSpelled state
  /-- The contents of the table are in order. -/
  contents : draft.HasContents IsWellSpelled state
  /-- The table is arranged. -/
  arranged : draft.IsArranged state
  /-- The key has its form. -/
  key : draft.HasKeyForm (keyClauses past) state

/-- Nothing has been gathered at the start. -/
theorem Draft.isGathered_start : Draft.IsGathered [] (.opening .start) {} where
  pending := trivial
  contents := by rintro _ ⟨⟩
  arranged := by rintro _ ⟨⟩
  key := ⟨fun _ => ⟨rfl, rfl⟩, by rintro _ _ ⟨⟩, by rintro _ _ _ ⟨⟩, by rintro _ _ _ ⟨⟩,
    by rintro _ _ _ ⟨⟩⟩

/-- A key that is declared at most once is declared once in the table. -/
theorem Draft.HasKeyForm.hasOneKey {count : Nat} {state : State} {draft : Draft}
    (form : draft.HasKeyForm count state) (once : count ≤ 1)
    (found : draft.statement = some (.table table)) : table.HasOneKey := by
  rcases Nat.le_one_iff_eq_zero_or_eq_one.1 once with none | one
  · exact .inr ⟨false, (form.keyless none table found).isListKey false⟩
  · cases reading : draft.key.isPrimary with
    | true => exact .inr ⟨false, (form.pending one reading table found).isListKey false⟩
    | false => exact form.form one reading table found

/-- What a whole table has gathered. -/
structure Table.IsGathered (table : Table) : Prop where
  /-- Columns, conditions and keys are in order. -/
  contents : table.HasContents IsWellSpelled
  /-- The types are whole. -/
  types : ∀ column ∈ table.columns, IsType column.type
  /-- No unique key could be one of a column. -/
  uniques : ∀ key ∈ table.uniques, Draft.loneColumn? key.columns table = none
  /-- No foreign key could be one of a column. -/
  foreignKeys : ∀ key ∈ table.foreignKeys, Draft.loneChild? key.columns table = none

/-- **What a table that was read has gathered**; with one clause for the key, the key has one
of its forms. -/
theorem Table.isGathered_of_parse (h : Statement.parse text = .ok (.table table))
    (valid : HasValidBodies (Statement.read text).transitions) :
    table.IsGathered ∧
      (keyClauses (Statement.read text).transitions ≤ 1 → table.HasOneKey) := by
  let P (past : List Transition) (state : State) (draft : Draft) : Prop :=
    HasValidBodies past → draft.IsGathered past state
  obtain ⟨target, after, holds, accepting, found⟩ := @parse_invariant_of_takes P text _
    (fun {past state draft middle settled} holds settles valid => by
      have gathered := holds valid
      exact ⟨settles.isPending gathered.pending,
        settles.contents gathered.pending gathered.contents,
        settles.arranged gathered.arranged, settles.keyForm gathered.key⟩)
    (fun {past source state draft token rest target after} holds inBody first lexed takes
        valid => by
      obtain ⟨before, last⟩ := List.forall_mem_append.1 valid
      have gathered := holds before
      have proper (body : state.isBody = true) : token.IsWellSpelled :=
        first (last _ (List.mem_singleton_self _) (by rw [inBody body]; exact body))
      have key := takes.keyForm (fun table found => (gathered.contents table found).1.keys)
        gathered.key
      refine ⟨takes.isPending first proper gathered.pending,
        takes.contents lexed gathered.pending gathered.contents,
        takes.arranged first gathered.arranged, ?_⟩
      rwa [keyClauses, List.countP_append, List.countP_singleton])
    (fun _ => Draft.isGathered_start) h
  have gathered := holds valid
  have arranged := gathered.arranged table found
  refine ⟨⟨(gathered.contents table found).1, fun column member => ?_, arranged.uniques,
    arranged.foreignKeys⟩, fun once => ?_⟩
  · have types : ∀ text ∈ table.columns.map (·.type), IsType text := by
      have types := arranged.types
      cases target with
      | column => exact absurd accepting (by simp [State.isAccepting])
      | _ => exact types
    exact types _ (List.mem_map_of_mem member)
  · exact gathered.key.hasOneKey once found

/-! ### Pieces that are read back -/

/-- A text of well-spelled tokens is written with these tokens. -/
theorem Token.arePrinted_tokenize {ts : List Token} (valid : ∀ t ∈ ts, t.IsWellSpelled) :
    ArePrinted (tokenize (render ts)) := by
  rw [tokenize_render valid]
  exact fun t member => .inl (valid t member)

namespace IsBody

variable (body : IsBody IsWellSpelled text)

include body

/-- The parentheses of a body are balanced. -/
theorem path : BodyPath 1 (tokenize text) := by
  obtain ⟨ts, rfl, path, valid⟩ := body
  rwa [tokenize_render valid]

/-- The tokens of a body can be printed. -/
theorem arePrinted : ArePrinted (tokenize text) := by
  obtain ⟨ts, rfl, -, valid⟩ := body
  exact arePrinted_tokenize valid

/-- A body is spaced as it would be again. -/
theorem respace_eq : respace text = text := by
  obtain ⟨ts, rfl, -, valid⟩ := body
  exact respace_render valid

end IsBody

/-- The tokens of a type can be printed. -/
theorem IsType.arePrinted (type : IsType text) : ArePrinted (tokenize text) := by
  obtain ⟨-, ts, -, rfl, -, valid⟩ := type
  exact arePrinted_tokenize valid

/-- A complete reference can be printed. -/
theorem Reference.IsComplete.arePrinted_tokens {reference : Reference}
    (complete : reference.IsComplete) : ArePrinted reference.tokens := by
  obtain ⟨-, ts, -, clauses, -, valid⟩ := complete
  rw [Reference.tokens, clauses, arePrinted_append]
  refine ⟨?_, arePrinted_tokenize valid⟩
  split <;> simp [arePrinted_nameList]

/-- A conflict clause can be printed. -/
theorem arePrinted_clause (action : Option ConflictAction) :
    ArePrinted (ConflictAction.clause action) := by
  cases action <;> simp [ConflictAction.clause]

/-- A collation can be printed. -/
theorem arePrinted_collate (collation : Option String) :
    ArePrinted (Token.collate collation) := by
  cases collation <;> simp [Token.collate]

/-! ### Columns that are read back -/

namespace Column.IsSound

variable (sound : column.IsSound IsWellSpelled)

include sound

/-- **A column that a text can have is read back** once its type is one. -/
theorem isReadable (type : IsType column.type) : column.IsReadable where
  type := type
  default := sound.default
  references := sound.references
  generated := fun rule found => (sound.generated rule found).path
  notNull := sound.notNull
  unique := sound.unique

/-- The rule of a column keeps its text. -/
theorem map_respace : column.generated.map Generated.respace = column.generated := by
  cases found : column.generated with
  | none => rfl
  | some rule =>
      rw [Option.map_some, Generated.respace, (sound.generated rule found).respace_eq]

/-- What is stored of a column can be spelled. -/
theorem arePrinted_dataTokens : ArePrinted column.dataTokens := by
  simp only [Column.dataTokens, arePrinted_append]
  refine ⟨?_, arePrinted_collate _, ?_, ?_⟩
  · cases found : column.default with
    | none => exact arePrinted_nil
    | some value =>
        exact arePrinted_cons.2 ⟨isPrinted_ofKeyword _, fun t member =>
          .inl ((sound.default value found).valid t member)⟩
  · cases found : column.references with
    | none => exact arePrinted_nil
    | some reference => exact (sound.references reference found).arePrinted_tokens
  · cases found : column.generated with
    | none => exact arePrinted_nil
    | some rule =>
        have expression := (sound.generated rule found).arePrinted
        rw [Option.elim_some, Generated.tokens]
        rcases rule.storage with _ | _ | _ <;> cases rule.always <;> simp [expression]

/-- **A column definition can be spelled.** -/
theorem arePrinted_tokens (type : IsType column.type) (key : Option (Option ConflictAction)) :
    ArePrinted (column.tokens key) := by
  have flags : ArePrinted column.flagTokens := by
    unfold Column.flagTokens
    cases column.notNull <;> cases column.unique <;> simp [arePrinted_clause]
  have declared : ArePrinted (key.elim [] column.keyTokens) := by
    cases key with
    | none => exact arePrinted_nil
    | some action =>
        rw [Option.elim_some, Column.keyTokens]
        cases column.isDescending <;> cases column.autoincrement <;> simp [arePrinted_clause]
  simp [Column.tokens_eq, type.arePrinted, declared, flags, sound.arePrinted_dataTokens]

end Column.IsSound

/-! ### Tables that are read back -/

/-- A unique key can be printed. -/
theorem UniqueKey.arePrinted_tokens (key : UniqueKey) : ArePrinted key.tokens := by
  have parts : ArePrinted (commaList (key.columns.map KeyPart.tokens)) := by
    refine arePrinted_commaList fun piece member => ?_
    obtain ⟨part, -, rfl⟩ := List.mem_map.1 member
    rw [KeyPart.tokens]
    cases part.descending <;> simp [arePrinted_collate]
  simp [UniqueKey.tokens, parts, arePrinted_clause]

/-- A key list can be printed. -/
theorem Table.arePrinted_keyListTokens (members : List Column)
    (action : Option ConflictAction) : ArePrinted (keyListTokens members action) := by
  have names : ArePrinted (commaList (members.map fun member =>
      Token.name member.name :: if member.isDescending then [ofKeyword .DESC] else [])) := by
    refine arePrinted_commaList fun piece member => ?_
    obtain ⟨column, -, rfl⟩ := List.mem_map.1 member
    cases column.isDescending <;> simp
  rw [keyListTokens]
  cases members.any (·.autoincrement) <;> simp [names, arePrinted_clause]

namespace Table.IsGathered

variable (gathered : table.IsGathered)

include gathered

/-- What was gathered can be read. -/
theorem isReadable : table.IsReadable where
  columns := fun column member =>
    (gathered.contents.columns column member).isReadable (gathered.types column member)
  checks := fun condition member => (gathered.contents.checks condition member).path
  uniques := fun key member =>
    ⟨gathered.contents.uniques key member, gathered.uniques key member⟩
  foreignKeys := fun key member =>
    have ⟨ne, complete⟩ := gathered.contents.foreignKeys key member
    ⟨ne, complete, gathered.foreignKeys key member⟩
  key := gathered.contents.keys.range

/-- **A table that was read can be spelled.** -/
theorem arePrinted_tokens : ArePrinted table.tokens := by
  have heading : ArePrinted table.headingTokens := by
    unfold headingTokens
    cases table.isTemporary <;> simp
  have columns : ArePrinted (commaList table.columnTokens) := by
    refine arePrinted_commaList fun piece member => ?_
    obtain ⟨i, bound, rfl⟩ := List.mem_mapIdx.1 member
    have column := List.getElem_mem bound
    exact (gathered.contents.columns _ column).arePrinted_tokens (gathered.types _ column) _
  have options : ArePrinted table.optionTokens := by
    unfold optionTokens
    cases table.hasRowid <;> cases table.isStrict <;> simp [commaList]
  have constraints : ArePrinted (table.constraintTokens.flatMap (comma :: ·)) := by
    intro t member
    obtain ⟨piece, found, member⟩ := List.mem_flatMap.1 member
    refine arePrinted_cons.2 ⟨isPrinted_comma, ?_⟩ t member
    simp only [constraintTokens, List.mem_append] at found
    rcases found with ((found | found) | found) | found
    · split at found
      · obtain rfl := List.mem_singleton.1 found
        exact arePrinted_keyListTokens _ _
      · exact absurd found List.not_mem_nil
    · obtain ⟨key, -, rfl⟩ := List.mem_map.1 found
      exact key.arePrinted_tokens
    · obtain ⟨condition, listed, rfl⟩ := List.mem_map.1 found
      simp [checkTokens, (gathered.contents.checks condition listed).arePrinted]
    · obtain ⟨key, listed, rfl⟩ := List.mem_map.1 found
      have reference := (gathered.contents.foreignKeys key listed).2.arePrinted_tokens
      simp [ForeignKey.tokens, arePrinted_nameList, reference]
  simp [tokens_eq, heading, columns, constraints, options]

/-- The conditions keep their texts. -/
theorem respace_checks : table.checks.map respace = table.checks :=
  (List.map_congr_left fun condition member =>
    (gathered.contents.checks condition member).respace_eq).trans (List.map_id _)

/-- A table whose key was declared once is read from its text as it is. -/
theorem reread_eq (one : table.HasOneKey) (plain : table.IsPlainlyKeyed)
    (distinct : table.HasDistinctNames) : table.reread = table := by
  have rules (column : Column) (member : column ∈ table.columns) :=
    (gathered.contents.columns column member).map_respace
  rw [reread, keyed_eq gathered.contents.keys one plain distinct rules,
    gathered.respace_checks]

/-- A table that was read is read again from its text. -/
theorem parse_sql (ne : table.columns ≠ []) :
    Statement.parse table.sql = .ok (.table table.reread) := by
  have printed := gathered.arePrinted_tokens
  have tokens := tokenize_render_spoken printed
  refine parse_of_outcome (fun t member => ?_) ?_
  · rw [sql, tokens] at member
    obtain ⟨a, found, rfl⟩ := List.mem_map.1 member
    exact (printed a found).isWellSpelled_spoken.kind_ne_invalid
  · rw [sql, tokens]
    exact gathered.isReadable.outcome_tokens ne

end Table.IsGathered

/-- **Tables are read back.** A table with columns that have distinct names, with at most one
clause `PRIMARY KEY`, is read from its own text as it is, unless a condition or rule holds what
is no token or the only column of a key list is both descending and `AUTOINCREMENT`. -/
theorem Table.parse_sql_of_parse_table (h : Statement.parse text = .ok (.table table))
    (ne : table.columns ≠ []) (distinct : table.HasDistinctNames)
    (valid : HasValidBodies (Statement.read text).transitions)
    (once : keyClauses (Statement.read text).transitions ≤ 1) (plain : table.IsPlainlyKeyed) :
    Statement.parse table.sql = .ok (.table table) := by
  obtain ⟨gathered, one⟩ := isGathered_of_parse h valid
  rw [gathered.parse_sql ne, gathered.reread_eq (one once) plain distinct]

/-- A text with a condition, a rule and a key list. -/
def Table.sampleText : String :=
  "CREATE TABLE t (a INT CHECK (a > 0), b AS (a), PRIMARY KEY (b, a DESC))"

/-- The tokens of the text. -/
def Table.sampleTokens : List Token :=
  [keyword .CREATE, keyword .TABLE, Token.name "t", openParen, Token.name "a",
    Token.name "INT", keyword .CHECK, openParen, Token.name "a", ⟨">", .symbol⟩,
    ⟨"0", .numeric⟩, closeParen, comma, Token.name "b", keyword .AS, openParen, Token.name "a",
    closeParen, comma, keyword .PRIMARY, keyword .KEY, openParen, Token.name "b", comma,
    Token.name "a", keyword .DESC, closeParen, closeParen]

/-- The table that the text defines. -/
def Table.sample : Table where
  name := "t"
  columns := [{ Column.new "a" with type := "INT", inKey := true, tableDesc := true },
    { Column.new "b" with inKey := true, generated := some ⟨"a", false, none⟩ }]
  primaryKey := [1, 0]
  checks := ["a>0"]

/-- The text is read as a run over its tokens. -/
theorem Table.read_sampleText : Statement.read sampleText =
    runWithin sampleTokens.length (.opening .start) {} sampleTokens := by
  refine read_of_tokenize ?_ (by decide +kernel)
  rw [← Lexer.tokens_toList]
  cbv

/-- A condition moves to the end of the table, a key list keeps its order. -/
theorem Table.parse_sql_of_parse_sample :
    Statement.parse sampleText = .ok (.table sample) ∧ sample.columns ≠ [] ∧
      sample.HasDistinctNames ∧ HasValidBodies (Statement.read sampleText).transitions ∧
      keyClauses (Statement.read sampleText).transitions ≤ 1 ∧ sample.IsPlainlyKeyed ∧
      sample.sql = "CREATE TABLE t(a INT,b AS(a),PRIMARY KEY(b,a DESC),CHECK(a>0))" ∧
      Statement.parse sample.sql = .ok (.table sample) := by
  have parsed : Statement.parse sampleText = .ok (.table sample) := by
    rw [Statement.parse, read_sampleText]
    decide +kernel
  have ne : sample.columns ≠ [] := by decide
  have distinct : sample.HasDistinctNames := by decide +kernel
  have valid : HasValidBodies (Statement.read sampleText).transitions := by
    rw [read_sampleText, HasValidBodies]
    decide +kernel
  have once : keyClauses (Statement.read sampleText).transitions ≤ 1 := by
    rw [read_sampleText]
    decide +kernel
  have plain : sample.IsPlainlyKeyed := by
    unfold IsPlainlyKeyed
    decide +kernel
  exact ⟨parsed, ne, distinct, valid, once, plain, by decide +kernel,
    parse_sql_of_parse_table parsed ne distinct valid once plain⟩

end SchemaText
