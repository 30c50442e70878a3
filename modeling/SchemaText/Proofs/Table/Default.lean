import SchemaText.Proofs.Expr.Spelling
import SchemaText.Table.Default
import SchemaText.Table.Printer

/-!
# Default values are read back

A default value keeps its source as text. The tokens of that text are those it was read
from, and from them it is read again, whatever follows.

What may stand between parentheses is left open in `DefaultValue.Spells`, as the parser reads
something else there than it reads from a whole text.

## Main definitions

* `DefaultValue.Spells`: the default values that tokens spell.
* `DefaultValue.IsReadBack`: a default value is read from its own tokens.

## Main results

* `DefaultValue.read_iff_spells`: the parser reads the value that the tokens at the front
  spell.
* `DefaultValue.readStored_sound`: **what is read as a default value is read back**.
-/

namespace SchemaText

namespace DefaultValue

open Token

variable {value : DefaultValue} {token : Token} {ts tokens rest : List Token}
  {inside : List Token → Prop}

/-- The default value is read from its own tokens. -/
structure IsReadBack (value : DefaultValue) : Prop where
  /-- It is read, whatever follows. -/
  reads : ∀ rest, readStored (value.tokens ++ rest) = .ok (value, rest)
  /-- Its tokens can be spelled. -/
  valid : ∀ t ∈ value.tokens, t.IsWellSpelled

/-! ### Words and parentheses -/

/-- A text that is kept as it is written has the tokens that it was written from. -/
theorem tokens_render {isExpression : Bool} (valid : ∀ t ∈ ts, t.IsWellSpelled) :
    DefaultValue.tokens ⟨render ts, isExpression, false⟩ = ts :=
  tokenize_render valid

/-- A word is written as its text. -/
theorem render_word (h : token.kind.isWord = true) : render [token] = token.text := by
  rw [render, renderAfter_cons, written_of_isWord h, spelling_of_isWord h]
  simp [gap]

/-- The keywords that are values, and whether the value is a time that is taken when a row is
inserted. -/
def valueWords : List (Keyword × Bool) :=
  [(.NULL, false), (.TRUE, false), (.FALSE, false),
    (.CURRENT_TIME, true), (.CURRENT_DATE, true), (.CURRENT_TIMESTAMP, true)]

/-- The value of a keyword is the keyword. -/
theorem ofWord?_eq_some_iff : ofWord? token = some value ↔ ∃ entry ∈ valueWords,
    token.is entry.1 = true ∧ value = ⟨token.text, entry.2, false⟩ := by
  constructor
  · intro h
    rw [ofWord?] at h
    split at h <;> rename_i known
    · exact ⟨(.NULL, false), by decide, is_of_keyword? known, (Option.some.inj h).symm⟩
    · exact ⟨(.TRUE, false), by decide, is_of_keyword? known, (Option.some.inj h).symm⟩
    · exact ⟨(.FALSE, false), by decide, is_of_keyword? known, (Option.some.inj h).symm⟩
    · exact ⟨(.CURRENT_TIME, true), by decide, is_of_keyword? known, (Option.some.inj h).symm⟩
    · exact ⟨(.CURRENT_DATE, true), by decide, is_of_keyword? known, (Option.some.inj h).symm⟩
    · exact ⟨(.CURRENT_TIMESTAMP, true), by decide, is_of_keyword? known,
        (Option.some.inj h).symm⟩
    · exact absurd h (by simp)
  · rintro ⟨entry, known, word, rfl⟩
    rw [ofWord?, keyword?_of_is word]
    simp only [valueWords, List.mem_cons, List.not_mem_nil, or_false] at known
    rcases known with rfl | rfl | rfl | rfl | rfl | rfl <;> rfl

/-- The words for values are plain words. -/
theorem kind_of_valueWord {k : Keyword} {timed : Bool} (lexed : token.IsLexed)
    (known : (k, timed) ∈ valueWords) (word : token.is k = true) :
    token.kind = .identifier := by
  have plain : ∀ entry ∈ valueWords, entry.1.kind = .identifier := by decide
  exact (lexed.kind_of_keyword? (keyword?_of_is word)).trans (plain _ known)

/-- An expression in parentheses keeps the text between them. -/
theorem sql_parens {e : Expr} (reads : Expr.Reads (.items .nested) e ts)
    (lexed : ∀ t ∈ ts, t.IsLexed) : (Expr.parens e).sql = "(" ++ render ts ++ ")" := by
  have alike : SpelledAs (Expr.parens e).tokens (openParen :: (ts ++ [closeParen])) :=
    .cons _ ((reads.spelledAs lexed).append (.refl _))
  exact alike.render_eq.trans (render_parens ts)

/-! ### Values and their tokens -/

/-- The default values that tokens spell, with certain sequences between parentheses. -/
inductive Spells (inside : List Token → Prop) : List Token → DefaultValue → Prop
  /-- A text literal stands for its content. -/
  | string {t : Token} (kind : t.kind = .stringLiteral) :
      Spells inside [t] ⟨t.text, false, true⟩
  | literal {t : Token} (kind : t.kind = .numeric ∨ t.kind = .blobLiteral) :
      Spells inside [t] ⟨render [t], false, false⟩
  | word {t : Token} {k : Keyword} {timed : Bool} (known : (k, timed) ∈ valueWords)
      (word : t.is k = true) : Spells inside [t] ⟨t.text, timed, false⟩
  | signed {sign number : Token} (kind : sign.kind = .sign) (numeric : number.kind = .numeric) :
      Spells inside [sign, number] ⟨render [sign, number], false, false⟩
  | parens {ts : List Token} (inner : inside ts) :
      Spells inside (openParen :: (ts ++ [closeParen])) ⟨"(" ++ render ts ++ ")", true, false⟩

/-- The sequences that the parser reads between parentheses. -/
def IsNested (ts : List Token) : Prop :=
  ∃ e, Expr.Reads (.items .nested) e ts

/-- Other sequences may stand between the parentheses. -/
theorem Spells.imp {other : List Token → Prop} (h : Spells inside ts value)
    (imp : ∀ us ⊆ ts, inside us → other us) : Spells other ts value := by
  cases h with
  | string kind => exact .string kind
  | literal kind => exact .literal kind
  | word known word => exact .word known word
  | signed kind numeric => exact .signed kind numeric
  | parens inner => exact .parens (imp _ (fun t member => by simp [member]) inner)

/-- What is read spells the value. -/
theorem read_sound (lexed : ∀ t ∈ tokens, t.IsLexed) (h : read tokens = .ok (value, rest)) :
    ∃ ts, tokens = ts ++ rest ∧ Spells IsNested ts value := by
  cases tokens with
  | nil => exact absurd h (by simp [read])
  | cons token after =>
      rw [read.eq_def] at h
      dsimp only at h
      split at h
      · rename_i kind
        obtain ⟨rfl, rfl⟩ := Prod.mk.inj (Except.ok.inj h)
        exact ⟨[token], rfl, .string kind⟩
      · rename_i kind
        obtain ⟨rfl, rfl⟩ := Prod.mk.inj (Except.ok.inj h)
        exact ⟨[token], rfl, .literal (.inl kind)⟩
      · rename_i kind
        obtain ⟨rfl, rfl⟩ := Prod.mk.inj (Except.ok.inj h)
        exact ⟨[token], rfl, .literal (.inr kind)⟩
      · split at h
        · rename_i found
          obtain ⟨rfl, rfl⟩ := Prod.mk.inj (Except.ok.inj h)
          obtain ⟨entry, known, word, rfl⟩ := ofWord?_eq_some_iff.1 found
          exact ⟨[token], rfl, .word known word⟩
        · exact absurd h (by simp)
      · rename_i kind
        split at h
        · exact absurd h (by simp)
        · rename_i number after
          split at h
          · rename_i numeric
            obtain ⟨rfl, rfl⟩ := Prod.mk.inj (Except.ok.inj h)
            exact ⟨[token, number], rfl, .signed kind (beq_iff_eq.1 numeric)⟩
          · exact absurd h (by simp)
      · rename_i kind
        have within : ∀ t ∈ after, t.IsLexed := fun t member => lexed t (by simp [member])
        split at h
        · rename_i e left enclosed
          obtain ⟨rfl, rfl⟩ := Prod.mk.inj (Except.ok.inj h)
          obtain ⟨inner, ts, rfl, rfl, reads⟩ :=
            Expr.enclosed_sound (by simp [Expr.Level.IsPlain]) (Expr.soundAt within) within enclosed
          obtain rfl := (lexed token (by simp)).eq_punctuation openParen kind (by simp)
          rw [sql_parens reads fun t member => within t (by simp [member])]
          exact ⟨openParen :: (ts ++ [closeParen]), by simp, .parens ⟨inner, reads⟩⟩
        · exact absurd h (by simp)
      · exact absurd h (by simp)

namespace Spells

variable (lexed : ∀ t ∈ ts, t.IsLexed)

include lexed

/-- **The value that tokens spell is read**, whatever follows. -/
theorem read_eq (h : Spells IsNested ts value) (rest : List Token) :
    read (ts ++ rest) = .ok (value, rest) := by
  rw [read.eq_def]
  cases h with
  | string kind => simp only [List.singleton_append, kind]
  | literal kind => rcases kind with kind | kind <;> simp only [List.singleton_append, kind]
  | @word t k timed known word =>
      have kind := kind_of_valueWord (lexed t (by simp)) known word
      have found := ofWord?_eq_some_iff.2 ⟨_, known, word, rfl⟩
      simp only [List.singleton_append, kind, found]
  | signed kind numeric =>
      simp only [List.cons_append, List.nil_append, kind, numeric, beq_self_eq_true, if_true]
  | parens inner =>
      obtain ⟨e, reads⟩ := inner
      simp only [List.cons_append, List.append_assoc, List.nil_append]
      rw [Expr.enclosed_read (.inr rfl) reads.isRead]
      dsimp only
      rw [sql_parens reads fun t member => lexed t (by simp [member])]
      rfl

/-- No token that stands for nothing spells a value. -/
theorem isWellSpelled (h : Spells IsNested ts value) : ∀ t ∈ ts, t.IsWellSpelled := by
  have valid (t : Token) (member : t ∈ ts) (kind : t.kind ≠ .invalid) : t.IsWellSpelled :=
    lexed t member kind
  cases h with
  | string kind => simpa using valid _ (by simp) (by simp [kind])
  | literal kind =>
      rcases kind with kind | kind <;> simpa using valid _ (by simp) (by simp [kind])
  | word known word =>
      simpa using valid _ (by simp) (Expr.kind_ne_invalid_of_isWord (Expr.isWord_of_is word))
  | @signed sign number kind numeric =>
      have first := valid sign (by simp) (by simp [kind])
      have second := valid number (by simp) (by simp [numeric])
      simpa using And.intro first second
  | parens inner =>
      obtain ⟨e, reads⟩ := inner
      have whole : Expr.Reads (.operand .nested false) (.parens e) _ := .parens reads
      exact whole.isWellSpelled lexed

/-- **A value keeps the tokens** that spell it. -/
theorem tokens_eq (h : Spells IsNested ts value) : value.tokens = ts := by
  have valid := h.isWellSpelled lexed
  cases h with
  | @string t kind =>
      have same : t = Token.string t.text := by rw [Token.string, ← kind]
      exact congrArg (· :: []) same.symm
  | literal | signed => exact tokens_render valid
  | word known word =>
      rw [← render_word (Expr.isWord_of_is word)]
      exact tokens_render valid
  | parens inner =>
      rw [← render_parens]
      exact tokens_render valid

/-- The tokens do not begin as a name does. -/
theorem readStored_eq (h : Spells IsNested ts value) (rest : List Token) :
    readStored (ts ++ rest) = read (ts ++ rest) := by
  cases h with
  | string kind =>
      simp [readStored, isNameValue, kind, TokenKind.isQuotedIdentifier, isOperatorName]
  | literal kind =>
      rcases kind with kind | kind <;>
        simp [readStored, isNameValue, kind, TokenKind.isQuotedIdentifier, isOperatorName]
  | @word t k timed known word =>
      have kind := kind_of_valueWord (lexed t (by simp)) known word
      have found := ofWord?_eq_some_iff.2 ⟨_, known, word, rfl⟩
      simp [readStored, isNameValue, kind, found]
  | signed kind =>
      simp [readStored, isNameValue, kind, TokenKind.isQuotedIdentifier, isOperatorName]
  | parens =>
      simp [readStored, isNameValue, openParen, TokenKind.isQuotedIdentifier, isOperatorName]

/-- **A value that tokens spell is read back** by a statement. -/
theorem isReadBack (h : Spells IsNested ts value) : value.IsReadBack where
  reads := fun rest => by rw [h.tokens_eq lexed, h.readStored_eq lexed, h.read_eq lexed]
  valid := (h.tokens_eq lexed).symm ▸ h.isWellSpelled lexed

end Spells

/-- **The parser reads the value that the tokens at the front spell.** -/
theorem read_iff_spells (lexed : ∀ t ∈ tokens, t.IsLexed) :
    read tokens = .ok (value, rest) ↔ ∃ ts, tokens = ts ++ rest ∧
      Spells IsNested ts value := by
  refine ⟨read_sound lexed, ?_⟩
  rintro ⟨ts, rfl, spells⟩
  exact spells.read_eq (fun t member => lexed t (List.mem_append_left _ member)) rest

/-- **A default value is read back** from the tokens that it was read from. -/
theorem readStored_sound (lexed : ∀ t ∈ tokens, t.IsLexed)
    (h : readStored tokens = .ok (value, rest)) :
    tokens = value.tokens ++ rest ∧ value.IsReadBack := by
  cases tokens with
  | nil => exact absurd h (by simp [readStored])
  | cons token after =>
      by_cases name : isNameValue token = true
      · rw [readStored, if_pos name] at h
        obtain ⟨rfl, rfl⟩ := Prod.mk.inj (Except.ok.inj h)
        have valid : token.IsWellSpelled := lexed token (by simp) fun invalid => by
          simp [isNameValue, isOperatorName, invalid, TokenKind.isQuotedIdentifier] at name
        have same : DefaultValue.tokens ⟨render [token], false, false⟩ = [token] :=
          tokens_render (List.forall_mem_singleton.2 valid)
        refine ⟨by rw [same, List.singleton_append], fun rest => ?_, ?_⟩
        · rw [same, List.singleton_append, readStored, if_pos name]
        · rw [same]
          exact List.forall_mem_singleton.2 valid
      · rw [readStored, if_neg name] at h
        obtain ⟨ts, split, spells⟩ := read_sound lexed h
        have lexed : ∀ t ∈ ts, t.IsLexed := fun t member =>
          lexed t (split ▸ List.mem_append_left _ member)
        exact ⟨by rw [spells.tokens_eq lexed, split], spells.isReadBack lexed⟩

end DefaultValue

end SchemaText
