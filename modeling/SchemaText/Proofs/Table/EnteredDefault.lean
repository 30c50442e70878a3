import SchemaText.Proofs.Expr.Derivation
import SchemaText.Proofs.Table.KeyEditing

/-!
# Default values that are entered

A user enters a default value as a text of its own: one literal, one of six keywords, a number
with a sign, or an expression in parentheses.

Inside the parentheses the parser reads up to the closing one, where a whole expression is read
up to the end of the input. The same sequences are accepted in both places, as both derive from
the grammar.

A statement reads default values in another way: a name stands for its own text there. No value
that is entered begins as a name does, so that a column keeps it.

## Main definitions

* `DefaultValue.IsWhole`: a sequence is a whole expression.
* `Table.ofDefaults`: a table of columns that only have names and default values.

## Main results

* `DefaultValue.isNested_iff_isWhole`: whole expressions are read between parentheses.
* `DefaultValue.isValid_iff_spells`: **a text is a default value just if its tokens spell
  one**, which is the one that is read.
* `DefaultValue.isReadBack_of_parse`: a statement reads what was entered.
* `Table.parse_sql_ofDefaults`: **entered values are read back** with the columns of a table.
-/

namespace SchemaText

open Token

namespace DefaultValue

variable {value : DefaultValue} {ts : List Token} {text : String}

/-! ### Which texts are entered -/

/-- The sequence is read as a whole expression, and nothing of it is left. -/
def IsWhole (ts : List Token) : Prop :=
  ∃ e, Expr.read (.top []) ts = .ok (e, [])

/-- A sequence is a whole expression just if the grammar derives it. -/
theorem isWhole_iff_derives (lexed : ∀ t ∈ ts, t.IsLexed) :
    IsWhole ts ↔ Expr.Derives (.expr false false) ts := by
  have reads (e : Expr) : Expr.read (.top []) ts = .ok (e, []) ↔
      Expr.Reads (.chain (.top []) false) e ts :=
    (Expr.read_top_iff lexed).trans (and_iff_right rfl)
  rw [IsWhole, exists_congr reads]
  exact Expr.exists_reads_iff_derives (.inl rfl) (by simp) lexed

/-- Between parentheses the same sequences are expressions. -/
theorem isNested_iff_derives (lexed : ∀ t ∈ ts, t.IsLexed) :
    IsNested ts ↔ Expr.Derives (.expr false false) ts := by
  have reads (e : Expr) : Expr.Reads (.items .nested) e ts ↔
      Expr.Reads (.chain .nested false) e ts := by
    refine ⟨fun h => ?_, .items rfl⟩
    cases h with
    | items _ inner => exact inner
  rw [IsNested, exists_congr reads]
  exact Expr.exists_reads_iff_derives (.inr (.inr (.inl rfl))) (by simp) lexed

/-- **Between parentheses, whole expressions are read.** -/
theorem isNested_iff_isWhole (lexed : ∀ t ∈ ts, t.IsLexed) : IsNested ts ↔ IsWhole ts :=
  (isNested_iff_derives lexed).trans (isWhole_iff_derives lexed).symm

/-- A text is read as the value that all its tokens spell. -/
theorem parse_eq_ok_iff : parse text = .ok value ↔ Spells IsNested (tokenize text) value := by
  have whole : parse text = .ok value ↔ read (tokenize text) = .ok (value, []) := by
    rw [parse]
    split <;> rename_i found <;> simp [found]
  rw [whole, read_iff_spells fun _ member => isLexed_of_mem member]
  constructor
  · rintro ⟨ts, same, spells⟩
    rw [List.append_nil] at same
    exact same ▸ spells
  · exact fun spells => ⟨_, (List.append_nil _).symm, spells⟩

/-- **A text is a default value just if its tokens spell one**: a literal, one of six keywords,
a number with a sign, or a whole expression in parentheses. The value that is read is the one
that they spell, and that of an expression is the text of all its tokens. -/
theorem isValid_iff_spells (text : String) :
    (isValid text = true ↔ ∃ value, Spells IsWhole (tokenize text) value) ∧
      ∀ value, parse text = .ok value ↔ Spells IsWhole (tokenize text) value := by
  have agree (us : List Token) (within : us ⊆ tokenize text) : IsNested us ↔ IsWhole us :=
    isNested_iff_isWhole fun t member => isLexed_of_mem (within member)
  have each (value : DefaultValue) :
      parse text = .ok value ↔ Spells IsWhole (tokenize text) value := by
    refine parse_eq_ok_iff.trans ⟨fun spells => ?_, fun spells => ?_⟩
    · exact spells.imp fun us within => (agree us within).1
    · exact spells.imp fun us within => (agree us within).2
  refine ⟨?_, each⟩
  rw [← exists_congr each, isValid]
  cases parse text <;> simp [Except.toOption]

/-! ### Statements -/

/-- **A statement reads what was entered.** -/
theorem isReadBack_of_parse (h : parse text = .ok value) : value.IsReadBack :=
  (parse_eq_ok_iff.1 h).isReadBack fun _ member => isLexed_of_mem member

end DefaultValue

namespace Table

/-- A table of columns that only have names and default values. -/
def ofDefaults (schema : Option String) (name : String)
    (columns : List (String × Option DefaultValue)) : Table :=
  { Table.new name with
    schema
    columns := columns.map fun column => { Column.new column.1 with default := column.2 } }

section OfDefaults

variable (schema : Option String) (name : String)
  {columns : List (String × Option DefaultValue)}

/-- The columns of the table say nothing of a key. -/
theorem hasPlainColumns_ofDefaults : (ofDefaults schema name columns).HasPlainColumns :=
  List.forall_mem_map.2 fun _ _ => ⟨rfl, rfl, rfl⟩

/-- The table is one that a text could have, if every default value is read back. -/
theorem isGathered_ofDefaults
    (entered : ∀ column ∈ columns, ∀ value ∈ column.2, value.IsReadBack) :
    (ofDefaults schema name columns).IsGathered := by
  refine isGathered_of_columns schema name (List.forall_mem_map.2 fun column member => ?_)
    (List.forall_mem_map.2 fun _ _ => rfl) (List.forall_mem_map.2 fun _ _ => rfl)
  exact { Column.isSound_new column.1 with default := entered column member }

/-- **Entered values are read back.** A table of columns with names of which no two are the
same in any case, each with any default value that some text is accepted as, or with none, is
read from its own text as it is. -/
theorem parse_sql_ofDefaults (ne : columns ≠ [])
    (distinct : columns.Pairwise fun a b => Text.same a.1 b.1 = false)
    (entered : ∀ column ∈ columns, ∀ value ∈ column.2,
      ∃ text, DefaultValue.parse text = .ok value) :
    Statement.parse (ofDefaults schema name columns).sql =
      .ok (.table (ofDefaults schema name columns)) := by
  have gathered := isGathered_ofDefaults schema name fun column member value some =>
    have ⟨_, parsed⟩ := entered column member value some
    DefaultValue.isReadBack_of_parse parsed
  have distinct : (ofDefaults schema name columns).HasDistinctNames :=
    List.pairwise_map.2 distinct
  have ne : (ofDefaults schema name columns).columns ≠ [] := by simpa [ofDefaults] using ne
  exact gathered.parse_sql_of_plain (hasPlainColumns_ofDefaults schema name) ne distinct

end OfDefaults

/-- Columns that are named like keywords, with values of several kinds. -/
def oddDefaults : List (String × Option DefaultValue) :=
  [("", none), ("primary", some ⟨"it's", false, true⟩), ("not  null", some ⟨"-5", false, false⟩),
    ("Current_Date", some ⟨"(\"x\")", true, false⟩), ("x", some ⟨"Current_Date", true, false⟩)]

/-- A text literal, a number with a sign, an expression and a time are read back. -/
theorem parse_sql_ofDefaults_odd :
    oddDefaults ≠ [] ∧ (oddDefaults.Pairwise fun a b => Text.same a.1 b.1 = false) ∧
      (∀ column ∈ oddDefaults, ∀ value ∈ column.2, ∃ text, DefaultValue.parse text = .ok value) ∧
      Statement.parse (ofDefaults none "t" oddDefaults).sql =
        .ok (.table (ofDefaults none "t" oddDefaults)) := by
  have ne : oddDefaults ≠ [] := by decide
  have distinct : oddDefaults.Pairwise fun a b => Text.same a.1 b.1 = false := by
    decide +kernel
  have quoted : DefaultValue.parse "'it''s'" = .ok ⟨"it's", false, true⟩ := by
    have tokens : tokenize "'it''s'" = [Token.string "it's"] := by
      rw [← Lexer.tokens_toList]
      cbv
    rw [DefaultValue.parse_eq_ok_iff, tokens]
    exact .string rfl
  have signed : DefaultValue.parse "- 5" = .ok ⟨"-5", false, false⟩ := by
    have tokens : tokenize "- 5" = [⟨"-", .sign⟩, ⟨"5", .numeric⟩] := by
      rw [← Lexer.tokens_toList]
      cbv
    rw [DefaultValue.parse_eq_ok_iff, tokens]
    exact .signed rfl rfl
  have enclosed : DefaultValue.parse "( \"x\" )" = .ok ⟨"(\"x\")", true, false⟩ := by
    have tokens : tokenize "( \"x\" )" =
        openParen :: ([⟨"x", .quotedIdentifier⟩] ++ [closeParen]) := by
      rw [← Lexer.tokens_toList]
      cbv
    rw [DefaultValue.parse_eq_ok_iff, tokens]
    exact .parens ⟨_, .items rfl (.last (.bare (.literal rfl)))⟩
  have timed : DefaultValue.parse "Current_Date" = .ok ⟨"Current_Date", true, false⟩ := by
    have tokens : tokenize "Current_Date" = [⟨"Current_Date", .identifier⟩] := by
      rw [← Lexer.tokens_toList]
      cbv
    have word : (⟨"Current_Date", .identifier⟩ : Token).is .CURRENT_DATE = true := by
      rw [← isSpelled_spelling]
      decide +kernel
    rw [DefaultValue.parse_eq_ok_iff, tokens]
    exact .word (by simp [DefaultValue.valueWords]) word
  have entered : ∀ column ∈ oddDefaults, ∀ value ∈ column.2,
      ∃ text, DefaultValue.parse text = .ok value := by
    simp only [oddDefaults, List.forall_mem_cons, Option.mem_def, Option.some.injEq,
      forall_eq', reduceCtorEq, false_implies, implies_true, true_and]
    exact ⟨⟨_, quoted⟩, ⟨_, signed⟩, ⟨_, enclosed⟩, ⟨_, timed⟩, by simp⟩
  exact ⟨ne, distinct, entered, parse_sql_ofDefaults none "t" ne distinct entered⟩

end Table

end SchemaText
