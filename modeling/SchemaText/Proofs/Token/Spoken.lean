import SchemaText.Proofs.Token.Respelling

/-!
# Written statements as they are read

Statements are written with keywords as plain words. The lexer gives each of them the kind of
its keyword, and leaves names, punctuation and stored tokens as they are.

## Main definitions

* `Token.keyword`: a keyword as it is read.
* `Token.spoken`: a written token as it is read.
* `Token.IsPrinted`: a well-spelled token or a keyword.

## Main results

* `Token.is_name`, `Token.isName_name`: a written name is a name and no reserved word.
* `tokenize_render_spoken`: **what is written is read**, token by token.
-/

namespace SchemaText

namespace Token

variable {a : Token} {k : Keyword}

/-! ### Keywords -/

/-- A keyword as it is read. -/
def keyword (k : Keyword) : Token :=
  word k.spelling

/-- A keyword that is read has its own kind. -/
@[simp] theorem kind_keyword (k : Keyword) : (keyword k).kind = k.kind := by
  rw [keyword, word, Keyword.ofText?_spelling]
  rfl

/-- The kinds of keywords are those of words. -/
theorem isWord_kind (k : Keyword) : k.kind.isWord = true := by
  cases k <;> rfl

/-- A keyword that is read is that keyword. -/
@[simp] theorem keyword?_keyword (k : Keyword) : (keyword k).keyword? = some k := by
  rw [keyword?, kind_keyword, isWord_kind, if_pos rfl]
  exact Keyword.ofText?_spelling k

/-- A keyword that is read is no other. -/
@[simp] theorem is_keyword (k k' : Keyword) : (keyword k).is k' = decide (k = k') := by
  rw [is, keyword?_keyword]
  by_cases same : k = k' <;> simp [same]

/-- A keyword is read from its spelling. -/
theorem isWellSpelled_keyword (k : Keyword) : (keyword k).IsWellSpelled :=
  isWellSpelled_ofKeyword k

/-- No keyword is a dot. -/
theorem keyword_ne_dot (k : Keyword) : (keyword k == dot) = false := by
  rw [beq_eq_false_iff_ne]
  intro same
  have word := isWord_kind k
  rw [← kind_keyword, same] at word
  exact absurd word (by decide)

/-! ### Names -/

/-- A name has its text, in quotes or not. -/
@[simp] theorem text_name (text : String) : (name text).text = text := by
  rcases name_eq text with same | ⟨same, -⟩ <;> rw [same]
  rfl

/-- A written name spells no reserved word. -/
theorem keyword?_name (text : String) :
    (name text).keyword?.any Keyword.isReserved = false := by
  unfold name
  split
  · rename_i plain
    rw [Bool.and_eq_true, Bool.not_eq_true'] at plain
    exact plain.2
  · rfl

/-- A name is none of the keywords that are reserved, since it is put in quotes. -/
theorem is_name (text : String) (reserved : k.isReserved = true) :
    (name text).is k = false := by
  rw [is, beq_eq_false_iff_ne]
  intro known
  have plain := keyword?_name text
  rw [known, Option.any_some, reserved] at plain
  exact absurd plain (by simp)

/-- **A written name is a name.** -/
@[simp] theorem isName_name (text : String) : (name text).isName = true := by
  unfold name
  split <;> rfl

/-! ### Written tokens -/

/-- A written token as it is read: the kind of a word is that of its keyword. -/
def spoken (token : Token) : Token :=
  if token.kind.isWord then word token.text else token

/-- The token of a keyword is spoken as that keyword. -/
@[simp] theorem spoken_ofKeyword (k : Keyword) : (ofKeyword k).spoken = keyword k := rfl

/-- What was read is spoken as it is. -/
theorem IsLexed.spoken_eq (h : a.IsLexed) : a.spoken = a := by
  unfold spoken
  split
  · rename_i word
    exact (h.eq_word word).symm
  · rfl

/-- What can be spelled is spoken as it is. -/
theorem IsWellSpelled.spoken_eq (h : a.IsWellSpelled) : a.spoken = a :=
  IsLexed.spoken_eq fun _ => h

/-- A name is spoken as it is. -/
@[simp] theorem spoken_name (text : String) : (name text).spoken = name text :=
  (isWellSpelled_name text).spoken_eq

/-- Punctuation is spoken as it is. -/
@[simp] theorem spoken_openParen : openParen.spoken = openParen := rfl

@[simp] theorem spoken_closeParen : closeParen.spoken = closeParen := rfl

@[simp] theorem spoken_comma : comma.spoken = comma := rfl

@[simp] theorem spoken_dot : dot.spoken = dot := rfl

/-- A token that a statement is written with: a keyword, or one that can be spelled. -/
def IsPrinted (token : Token) : Prop :=
  token.IsWellSpelled ∨ ∃ k, token = ofKeyword k

/-- A keyword can be printed. -/
theorem isPrinted_ofKeyword (k : Keyword) : (ofKeyword k).IsPrinted := .inr ⟨k, rfl⟩

/-- A name can be printed, whatever its characters. -/
theorem isPrinted_name (text : String) : (name text).IsPrinted :=
  .inl (isWellSpelled_name text)

/-- What is printed can be spelled as it is spoken. -/
theorem IsPrinted.isWellSpelled_spoken (h : a.IsPrinted) : a.spoken.IsWellSpelled := by
  rcases h with h | ⟨k, rfl⟩
  · rw [h.spoken_eq]
    exact h
  · exact isWellSpelled_keyword k

end Token

open Token

/-- Written tokens stand for what they are read as. -/
theorem spelledAs_spoken {ts : List Token} (h : ∀ t ∈ ts, t.IsPrinted) :
    SpelledAs ts (ts.map spoken) := by
  induction ts with
  | nil => exact .nil
  | cons a ts ih =>
      have rest := ih fun t member => h t (by simp [member])
      rcases h a (by simp) with spelled | ⟨k, rfl⟩
      · rw [List.map_cons, spelled.spoken_eq]
        exact .cons a rest
      · refine .keyword rfl ?_ rfl ?_ rest
        · rw [spoken_ofKeyword, kind_keyword]
          exact isWord_kind k
        · exact Option.isSome_iff_exists.2 ⟨k, Keyword.ofText?_spelling k⟩

/-- **What is written is read**, token by token. -/
theorem tokenize_render_spoken {ts : List Token} (h : ∀ t ∈ ts, t.IsPrinted) :
    tokenize (render ts) = ts.map spoken := by
  refine (spelledAs_spoken h).tokenize_render fun t member => ?_
  obtain ⟨a, found, rfl⟩ := List.mem_map.1 member
  exact (h a found).isWellSpelled_spoken

end SchemaText
