import SchemaText.Proofs.Expr.Soundness
import SchemaText.Proofs.Token.Respelling

/-!
# How expressions are written

The tree of an expression keeps two words of an operator as one token and the type of a cast
as one name; its text is nevertheless the text of the tokens it was read from. Reading that
text therefore gives the tree back.

## Main results

* `Expr.Reads.kind_ne_invalid`: an expression has no invalid token.
* `Expr.Reads.spelledAs`: a tree stands for the tokens it was read from.
* `Expr.Reads.tokenize_sql`: those tokens are read from its text.
-/

namespace SchemaText

namespace Expr

open Token

variable {level : Level} {source ops ts rest : List Token} {op t n : Token} {e : Expr}

/-! ### Valid tokens -/

/-- A word is valid. -/
theorem kind_ne_invalid_of_isWord (h : t.kind.isWord = true) : t.kind ≠ .invalid := by
  intro invalid
  rw [invalid] at h
  exact absurd h (by decide)

/-- What `NOT` can negate is a word. -/
theorem isWord_of_followsNot (h : followsNot t = true) : t.kind.isWord = true := by
  by_contra other
  rw [followsNot, keyword?, if_neg other] at h
  exact absurd h (by simp)

/-- The name of a function is a word. -/
theorem isWord_of_isCallable (h : t.isCallable = true) : t.kind.isWord = true := by
  simp only [isCallable, Bool.and_eq_true, Bool.or_eq_true, beq_iff_eq] at h
  rcases h.2 with kind | ⟨kind | kind, -⟩ <;> rw [kind] <;> rfl

/-- `CAST` is a word. -/
theorem isWord_of_isCast (h : t.isCast = true) : t.kind.isWord = true := by
  rw [isCast, Bool.and_eq_true] at h
  exact isWord_of_is h.2

/-- A prefix operator has no invalid token. -/
theorem Opens.kind_ne_invalid (h : Opens level source ops rest) :
    ∀ t ∈ source, t.kind ≠ .invalid := by
  cases h with
  | sign kind => rcases kind with kind | kind <;> simp [kind]
  | notExists kind exists_ => simp [kind, kind_ne_invalid_of_isWord (isWord_of_is exists_)]
  | caseWhen kind case when => simp [kind, kind_ne_invalid_of_isWord (isWord_of_is when)]
  | not kind | word kind | distinct kind | case kind => simp [kind]

/-- A postfix operator has no invalid token. -/
theorem Trails.kind_ne_invalid (h : Trails source op) : ∀ t ∈ source, t.kind ≠ .invalid := by
  cases h with
  | word kind => simp [kind]
  | notNull kind null => simp [kind, kind_ne_invalid_of_isWord (isWord_of_is null)]

/-- A binary operator has no invalid token. -/
theorem Joins.kind_ne_invalid (h : Joins level source op rest) :
    ∀ t ∈ source, t.kind ≠ .invalid := by
  cases h with
  | comma => simp [Token.comma]
  | symbol kind => rcases kind with kind | kind <;> simp [kind]
  | not kind negates => simp [kind, kind_ne_invalid_of_isWord (isWord_of_followsNot negates)]
  | isNot kind is not => simp [kind, not]
  | word kind | is kind => simp [kind]

/-- A number has no invalid token. -/
theorem IsSignedNumber.kind_ne_invalid (h : IsSignedNumber ts) :
    ∀ t ∈ ts, t.kind ≠ .invalid := by
  cases h with
  | plain number => simp [number]
  | signed sign number => simp [sign, number]

/-- A width has no invalid token. -/
theorem IsTypeWidth.kind_ne_invalid (h : IsTypeWidth ts) : ∀ t ∈ ts, t.kind ≠ .invalid := by
  cases h with
  | one first =>
      intro t member
      rcases List.mem_append.1 member with inside | close
      · exact first.kind_ne_invalid t inside
      · obtain rfl := List.mem_singleton.1 close
        decide
  | two first second =>
      intro t member
      simp only [List.mem_append, List.mem_cons, List.not_mem_nil, or_false] at member
      rcases member with inside | rfl | inside | rfl
      · exact first.kind_ne_invalid t inside
      · decide
      · exact second.kind_ne_invalid t inside
      · decide

/-- The type of a cast has no invalid token. -/
theorem IsCastType.kind_ne_invalid (h : IsCastType ts) : ∀ t ∈ ts, t.kind ≠ .invalid := by
  cases h with
  | words ne all =>
      intro t member
      simp [all t member]
  | width ne all sized =>
      intro t member
      simp only [List.mem_append, List.mem_cons] at member
      rcases member with word | rfl | inside
      · simp [all t word]
      · decide
      · exact sized.kind_ne_invalid t inside

/-- **An expression has no invalid token.** -/
theorem Reads.kind_ne_invalid {part : Part} (h : Reads part e ts) :
    ∀ t ∈ ts, t.kind ≠ .invalid := by
  induction h with
  | @literal level list t literal =>
      intro n member
      obtain rfl := List.mem_singleton.1 member
      intro invalid
      rw [invalid] at literal
      exact absurd literal (by decide)
  | name name =>
      intro n member
      obtain rfl := List.mem_singleton.1 member
      exact kind_ne_invalid_of_isWord (name.elim isWord_of_isCallable isWord_of_isCast)
  | count name =>
      have valid := kind_ne_invalid_of_isWord (isWord_of_isCallable name)
      simp [valid, openParen, Token.star, closeParen]
  | call name _ ih =>
      have valid := kind_ne_invalid_of_isWord (isWord_of_isCallable name)
      intro n member
      simp only [List.mem_cons, List.mem_append, List.not_mem_nil, or_false] at member
      rcases member with rfl | rfl | inside | rfl
      · exact valid
      · decide
      · exact ih n inside
      · decide
  | cast name _ plain _ isType ih =>
      have valid := kind_ne_invalid_of_isWord (isWord_of_isCast name)
      intro n member
      simp only [List.mem_cons, List.mem_append, List.not_mem_nil, or_false] at member
      rcases member with rfl | rfl | inside | rfl | inside | rfl
      · exact valid
      · decide
      · exact ih n inside
      · simp [plain]
      · exact isType.kind_ne_invalid n inside
      · decide
  | parens _ ih =>
      intro n member
      simp only [List.mem_cons, List.mem_append, List.not_mem_nil, or_false] at member
      rcases member with rfl | inside | rfl
      · decide
      · exact ih n inside
      · decide
  | prefixed _ opens _ ih =>
      intro n member
      exact (List.mem_append.1 member).elim (opens.kind_ne_invalid n) (ih n)
  | trailed _ trails ih =>
      intro n member
      exact (List.mem_append.1 member).elim (ih n) (trails.kind_ne_invalid n)
  | more _ _ joins _ ih ihRight =>
      intro n member
      rcases List.mem_append.1 member with left | member
      · exact ih n left
      · exact (List.mem_append.1 member).elim (joins.kind_ne_invalid n) (ihRight n)
  | bare _ ih | last _ ih | items _ _ ih => exact ih
  | empty => simp

/-! ### A tree stands for its tokens -/

/-- The text of a keyword is found among the keywords. -/
theorem isSome_of_is {k : Keyword} (h : t.is k = true) :
    (Keyword.ofText? t.text).isSome = true := by
  have known := keyword?_of_is h
  rw [keyword?, if_pos (isWord_of_is h)] at known
  rw [known]
  rfl

/-- A word that is no plain name is a keyword. -/
theorem isSome_of_kind (h : t.IsLexed) (word : t.kind.isWord = true)
    (special : t.kind ≠ .identifier) : (Keyword.ofText? t.text).isSome = true := by
  by_contra unknown
  rw [Bool.not_eq_true, Option.isSome_eq_false_iff, Option.isNone_iff_eq_none] at unknown
  have kind := congrArg Token.kind (h.eq_word word)
  rw [Token.word, unknown] at kind
  exact special kind

/-- What `NOT` can negate is a keyword. -/
theorem isSome_of_followsNot (h : followsNot t = true) :
    (Keyword.ofText? t.text).isSome = true := by
  cases known : t.keyword? with
  | none =>
      rw [followsNot, known] at h
      exact absurd h (by simp)
  | some k => exact isSome_of_is (k := k) (is_of_keyword? known)

/-- A name stands for the word that it was read from. -/
theorem spelledAs_name (name : t.isCallable = true ∨ t.isCast = true) {ts ss : List Token}
    (rest : SpelledAs ts ss) : SpelledAs (⟨t.text, .identifier⟩ :: ts) (t :: ss) := by
  have word : t.kind.isWord = true := name.elim isWord_of_isCallable isWord_of_isCast
  by_cases kind : t.kind = .identifier
  · have same : (⟨t.text, .identifier⟩ : Token) = t := by rw [← kind]
    rw [same]
    exact .cons t rest
  · have known : (Keyword.ofText? t.text).isSome = true := by
      rcases name with callable | cast
      · simp only [isCallable, Bool.and_eq_true, Bool.or_eq_true, beq_iff_eq] at callable
        rcases callable.2 with plain | ⟨-, operator⟩
        · exact absurd plain kind
        · have some : (t.keyword?.any Keyword.isFallbackName) = true := by
            unfold isOperatorName at operator
            split at operator <;> first | exact operator | exact absurd operator (by simp)
          obtain ⟨k, known, -⟩ := (Option.any_eq_true ..).1 some
          exact isSome_of_is (k := k) (is_of_keyword? known)
      · rw [isCast, Bool.and_eq_true] at cast
        exact isSome_of_is cast.2
    exact .keyword rfl word rfl known rest

/-- Prefix operators are written before their operand, in order. -/
theorem tokens_prefixAll (ops : List Token) (e : Expr) :
    (prefixAll ops e).tokens = ops ++ e.tokens := by
  induction ops with
  | nil => rfl
  | cons op ops ih =>
      change op :: (prefixAll ops e).tokens = _
      rw [ih]
      rfl

/-- Prefix operators are spelled as in the text that they are read from. -/
theorem Opens.spelledAs (h : Opens level source ops rest) : SpelledAs ops source := by
  cases h with
  | notExists kind exists_ =>
      exact .join rfl (by rw [kind]; rfl) (isWord_of_is exists_) (isSome_of_is exists_) .nil
  | _ => exact .refl _

/-- A postfix operator is spelled as in the text that it is read from. -/
theorem Trails.spelledAs (h : Trails source op) : SpelledAs [op] source := by
  cases h with
  | notNull kind null =>
      exact .join rfl (by rw [kind]; rfl) (isWord_of_is null) (isSome_of_is null) .nil
  | word kind => exact .refl _

/-- A binary operator is spelled as in the text that it is read from. -/
theorem Joins.spelledAs (h : Joins level source op rest)
    (spelled : ∀ t ∈ source, t.IsLexed) : SpelledAs [op] source := by
  cases h with
  | @isNot t n _ kind is not =>
      have known :=
        isSome_of_kind (spelled n (by simp)) (by rw [not]; rfl) (by rw [not]; decide)
      exact .join rfl (by rw [kind]; rfl) (by rw [not]; rfl) known .nil
  | not kind negates =>
      exact .join rfl (by rw [kind]; rfl) (isWord_of_followsNot negates)
        (isSome_of_followsNot negates) .nil
  | _ => exact .refl _

/-- The type of a cast begins with a word. -/
theorem IsCastType.exists_cons (h : IsCastType ts) :
    ∃ a type, ts = a :: type ∧ a.kind = .identifier := by
  cases h with
  | words ne all =>
      obtain ⟨a, type, rfl⟩ := List.exists_cons_of_ne_nil ne
      exact ⟨a, type, rfl, all a (by simp)⟩
  | @width words width ne all sized =>
      obtain ⟨a, type, rfl⟩ := List.exists_cons_of_ne_nil ne
      exact ⟨a, type ++ openParen :: width, rfl, all a (by simp)⟩

/-- **A tree stands for the tokens it was read from.** -/
theorem Reads.spelledAs {part : Part} (h : Reads part e ts) (spelled : ∀ t ∈ ts, t.IsLexed) :
    SpelledAs e.tokens ts := by
  induction h with
  | literal literal => exact .refl _
  | name name => exact spelledAs_name name .nil
  | count name => exact spelledAs_name (.inl name) (.refl _)
  | call name _ ih =>
      refine spelledAs_name (.inl name) (.cons _ (.append (ih fun t member => ?_) (.refl _)))
      exact spelled t (by simp [member])
  | cast name _ _ _ isType ih =>
      obtain ⟨a, type, rfl, kind⟩ := isType.exists_cons
      refine .cons _ (.cons _ ?_)
      rw [Expr.tokens, List.append_eq, List.append_assoc]
      refine .append (ih fun t member => spelled t (by simp [member])) (.cons _ ?_)
      exact .type (by rw [kind]; rfl) .nil
  | parens _ ih =>
      refine .cons _ (.append (ih fun t member => ?_) (.refl _))
      exact spelled t (by simp [member])
  | prefixed _ opens _ ih =>
      rw [tokens_prefixAll]
      exact opens.spelledAs.append (ih fun t member => spelled t (by simp [member]))
  | trailed _ trails ih =>
      exact .append (ih fun t member => spelled t (by simp [member])) trails.spelledAs
  | @more _ _ l r op _ _ _ _ _ joins _ ih ihRight =>
      have one := joins.spelledAs fun t member => spelled t (by simp [member])
      have right := one.append (ihRight fun t member => spelled t (by simp [member]))
      exact .append (ih fun t member => spelled t (by simp [member])) right
  | bare _ ih | last _ ih | items _ _ ih => exact ih spelled
  | empty => exact .nil

/-- The tokens of an expression are well spelled. -/
theorem Reads.isWellSpelled {part : Part} (h : Reads part e ts)
    (spelled : ∀ t ∈ ts, t.IsLexed) : ∀ t ∈ ts, t.IsWellSpelled :=
  fun t member => spelled t member (h.kind_ne_invalid t member)

/-- **The tokens of an expression are read from its text.** -/
theorem Reads.tokenize_sql {part : Part} (h : Reads part e ts)
    (spelled : ∀ t ∈ ts, t.IsLexed) : tokenize e.sql = ts :=
  (h.spelledAs spelled).tokenize_render (h.isWellSpelled spelled)

end Expr

end SchemaText
