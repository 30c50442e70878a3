import SchemaText.Proofs.Token.Extent

/-!
# The first token of a text

A text is read token by token: what precedes the first token is skipped, the token is read,
and reading goes on after it. This module restates locality for that cycle, blanks and
comments included, and shows how the tokens of two texts come together when one is put
behind the other.

## Main definitions

* `Lexer.first`: the first token of a text, and the text after it.
* `Lexer.gapEnd`: where skipping stands at the end of a text of blanks and comments.
* `Lexer.remainder`: the text after the last token.
* `Lexer.endsInComment`: whether a comment is open at the end of a text.

## Main results

* `Lexer.skipFrom_append`: what was skipped is skipped before any text that begins with a
  token.
* `Lexer.first_append`: **locality** of the first token.
* `Lexer.tokens_append`: the tokens of a text put behind another one.
-/

namespace SchemaText

namespace Lexer

variable {u v : List Char} {token : Token}

/-! ### What is left is the end of the text -/

/-- What follows a closing quote is an end of the text. -/
theorem suffix_of_close {quote : Char} {cs content rest : List Char}
    (h : close quote cs = some (content, rest)) : rest <:+ cs := by
  obtain ⟨rfl, -⟩ := close_eq_some_iff.1 h
  exact (List.suffix_cons quote rest).trans (List.suffix_append _ _)

/-- What follows a quoted text is an end of the text. -/
theorem suffix_readQuoted (quote : Char) (kind : TokenKind) (r : List Char) :
    (readQuoted quote kind r).2 <:+ r := by
  unfold readQuoted
  split
  · rename_i found
    exact suffix_of_close found
  · exact List.nil_suffix

/-- What follows the first character that fails a test is an end of the text. -/
theorem suffix_of_dropWhile_eq {p : Char → Bool} {c : Char} {cs rest : List Char}
    (h : cs.dropWhile p = c :: rest) : rest <:+ cs :=
  (List.suffix_cons c rest).trans (h ▸ List.dropWhile_suffix p)

/-- What follows a name in brackets is an end of the text. -/
theorem suffix_readSquare (r : List Char) : (readSquare r).2 <:+ r := by
  unfold readSquare
  split
  · rename_i found
    exact suffix_of_dropWhile_eq found
  · exact List.nil_suffix

/-- What follows a blob is an end of the text. -/
theorem suffix_readBlob (x : Char) (r : List Char) : (readBlob x r).2 <:+ r := by
  unfold readBlob
  simp only
  split
  · rename_i found
    split <;> exact suffix_of_dropWhile_eq found
  · exact List.nil_suffix

/-- What follows a numeral is an end of the text. -/
theorem suffix_readNumeral (cs : List Char) : (Numeral.read cs).2 <:+ cs := by
  have rest : (Numeral.scan cs).rest <:+ cs :=
    ⟨(Numeral.scan cs).taken, Numeral.taken_append_rest cs⟩
  unfold Numeral.read
  simp only
  split
  · exact rest
  · exact (List.dropWhile_suffix _).trans rest

/-- What is left after a token is the end of the text. -/
theorem suffix_read (c : Char) (r : List Char) : (read c r).2 <:+ r := by
  unfold read
  split
  · exact suffix_readQuoted _ _ _
  split
  · exact suffix_readQuoted _ _ _
  split
  · exact suffix_readQuoted _ _ _
  split
  · exact suffix_readSquare _
  split
  · rename_i starts
    have shorter := Numeral.length_read_lt starts
    rcases List.suffix_cons_iff.1 (suffix_readNumeral (c :: r)) with all | rest
    · rw [all] at shorter
      exact absurd shorter (Nat.lt_irrefl _)
    · exact rest
  split
  · split
    · split
      · exact (suffix_readBlob _ _).trans (List.suffix_cons _ _)
      · exact List.dropWhile_suffix _
    · exact List.dropWhile_suffix _
  · unfold readSign
    split
    · exact List.drop_suffix _ _
    · exact List.suffix_rfl

/-! ### Skipping -/

/-- Where skipping stands at the end of a text of blanks and comments; between tokens, if the
text is something else. -/
def gapEnd : Gap → List Char → Gap
  | gap, [] => gap
  | .open, '-' :: '-' :: r => gapEnd .line r
  | .open, '/' :: '*' :: r => gapEnd .block r
  | .open, c :: r => if Text.isBlank c then gapEnd .open r else .open
  | .line, '\n' :: r => gapEnd .open r
  | .line, _ :: r => gapEnd .line r
  | .block, '*' :: '/' :: r => gapEnd .open r
  | .block, _ :: r => gapEnd .block r

/-- Nothing is skipped before what is left. -/
theorem skip_skipFrom (gap : Gap) (cs : List Char) :
    skip (skipFrom gap cs) = skipFrom gap cs := by
  fun_induction skipFrom gap cs with
  | case1 => rfl
  | case5 c r line block blank =>
      rw [skip, skipFrom.eq_def]
      split <;> simp_all
  | _ => assumption

/-- Between tokens a blank is skipped. -/
theorem skipFrom_isBlank {c : Char} (h : Text.isBlank c = true) (r : List Char) :
    skipFrom .open (c :: r) = skipFrom .open r := by
  simp only [Text.isBlank, Bool.or_eq_true, beq_iff_eq] at h
  rcases h with (((rfl | rfl) | rfl) | rfl) | rfl <;> rfl

/-- Inside a block comment every character is skipped that does not begin its end. -/
theorem skipFrom_block {c : Char} {r : List Char} (h : ∀ s, c = '*' → r ≠ '/' :: s) :
    skipFrom .block (c :: r) = skipFrom .block r ∧
      gapEnd .block (c :: r) = gapEnd .block r := by
  rw [skipFrom.eq_def, gapEnd.eq_def]
  constructor <;> (split <;> simp_all)

/-- In a line comment everything but the end of the line is skipped. -/
theorem skipFrom_line {c : Char} {r : List Char} (h : c ≠ '\n') :
    skipFrom .line (c :: r) = skipFrom .line r ∧ gapEnd .line (c :: r) = gapEnd .line r := by
  rw [skipFrom.eq_def, gapEnd.eq_def]
  constructor <;> (split <;> simp_all)

/-- A blank begins no comment. -/
theorem gapEnd_isBlank {c : Char} (h : Text.isBlank c = true) (r : List Char) :
    gapEnd .open (c :: r) = gapEnd .open r := by
  simp only [Text.isBlank, Bool.or_eq_true, beq_iff_eq] at h
  rcases h with (((rfl | rfl) | rfl) | rfl) | rfl <;> rfl

/-- What precedes the first token is skipped and leaves no comment open. -/
theorem exists_gap_of_skipFrom {gap : Gap} {cs s : List Char} (h : skipFrom gap cs = s)
    (ne : s ≠ []) : ∃ g, cs = g ++ s ∧ skipFrom gap g = [] ∧ gapEnd gap g = .open := by
  fun_induction skipFrom gap cs with
  | case1 => exact absurd h.symm ne
  | case2 r ih =>
      obtain ⟨g, rfl, skipped, closed⟩ := ih h
      exact ⟨'-' :: '-' :: g, rfl, skipped, closed⟩
  | case3 r ih =>
      obtain ⟨g, rfl, skipped, closed⟩ := ih h
      exact ⟨'/' :: '*' :: g, rfl, skipped, closed⟩
  | case4 c r _ _ blank ih =>
      obtain ⟨g, rfl, skipped, closed⟩ := ih h
      refine ⟨c :: g, rfl, ?_, ?_⟩
      · rw [skipFrom_isBlank blank, skipped]
      · rw [gapEnd_isBlank blank, closed]
  | case5 => exact ⟨[], h, rfl, rfl⟩
  | case6 r ih =>
      obtain ⟨g, rfl, skipped, closed⟩ := ih h
      exact ⟨'\n' :: g, rfl, skipped, closed⟩
  | case7 c r other ih =>
      obtain ⟨g, rfl, skipped, closed⟩ := ih h
      obtain ⟨skips, ends⟩ := skipFrom_line (r := g) other
      exact ⟨c :: g, rfl, skips.trans skipped, ends.trans closed⟩
  | case8 r ih =>
      obtain ⟨g, rfl, skipped, closed⟩ := ih h
      exact ⟨'*' :: '/' :: g, rfl, skipped, closed⟩
  | case9 c r other ih =>
      obtain ⟨g, rfl, skipped, closed⟩ := ih h
      have still : ∀ t, c = '*' → g ≠ '/' :: t := by
        rintro t star rfl
        exact other (t ++ s) star rfl
      obtain ⟨skips, ends⟩ := skipFrom_block still
      exact ⟨c :: g, rfl, skips.trans skipped, ends.trans closed⟩

/-- **What was skipped is skipped again** before any text that begins with a token. -/
theorem skipFrom_append {gap : Gap} {g w : List Char} (skipped : skipFrom gap g = [])
    (closed : gapEnd gap g = .open) (bare : skip w = w) : skipFrom gap (g ++ w) = w := by
  fun_induction skipFrom gap g with
  | case1 gap =>
      cases gap with
      | «open» => exact bare
      | line => simp [gapEnd] at closed
      | block => simp [gapEnd] at closed
  | case2 r ih => exact ih skipped closed
  | case3 r ih => exact ih skipped closed
  | case4 c r _ _ blank ih =>
      rw [List.cons_append, skipFrom_isBlank blank]
      rw [gapEnd_isBlank blank] at closed
      exact ih skipped closed
  | case5 => simp at skipped
  | case6 r ih => exact ih skipped closed
  | case7 c r other ih =>
      rw [List.cons_append, (skipFrom_line other).1]
      rw [(skipFrom_line other).2] at closed
      exact ih skipped closed
  | case8 r ih => exact ih skipped closed
  | case9 c r other ih =>
      have ends := (skipFrom_block (r := r) fun s star => other s star).2
      rw [ends] at closed
      have still : ∀ t, c = '*' → r ++ w ≠ '/' :: t := by
        rintro t star split
        cases r with
        | nil => simp [gapEnd] at closed
        | cons d r =>
            obtain ⟨rfl, -⟩ := List.cons.inj split
            exact other r star rfl
      rw [List.cons_append, (skipFrom_block still).1]
      exact ih skipped closed

/-! ### The first token -/

/-- What is neither a blank nor begins a comment is not skipped. -/
theorem skip_cons {c : Char} (blank : Text.isBlank c = false) {r : List Char}
    (minus : c = '-' → r.head? ≠ some '-') (slash : c = '/' → r.head? ≠ some '*') :
    skip (c :: r) = c :: r := by
  rw [skip, skipFrom.eq_def]
  split <;> simp_all

/-- What is not skipped is no blank. -/
theorem isBlank_of_skip {c : Char} {r : List Char} (bare : skip (c :: r) = c :: r) :
    Text.isBlank c = false := by
  by_contra blank
  rw [Bool.not_eq_false] at blank
  rw [skip, skipFrom_isBlank blank] at bare
  have := length_skipFrom_le .open r
  rw [bare, List.length_cons] at this
  omega

/-- What nothing is skipped before. -/
theorem skip_cons_iff {c : Char} {r : List Char} : skip (c :: r) = c :: r ↔
    Text.isBlank c = false ∧ (c = '-' → r.head? ≠ some '-') ∧
      (c = '/' → r.head? ≠ some '*') := by
  refine ⟨fun bare => ⟨isBlank_of_skip bare, ?_, ?_⟩, fun h => skip_cons h.1 h.2.1 h.2.2⟩
  · rintro rfl next
    obtain ⟨s, rfl⟩ := List.head?_eq_some_iff.1 next
    have short := length_skipFrom_le .line s
    rw [show skipFrom .line s = _ from bare] at short
    simp only [List.length_cons] at short
    omega
  · rintro rfl next
    obtain ⟨s, rfl⟩ := List.head?_eq_some_iff.1 next
    have short := length_skipFrom_le .block s
    rw [show skipFrom .block s = _ from bare] at short
    simp only [List.length_cons] at short
    omega

/-- A token does not become the beginning of a comment before a character that leaves it as
it is. -/
theorem skip_append {c : Char} (h : read c (u ++ v) = (token, v))
    (valid : token.kind ≠ .invalid) (bare : skip (c :: u ++ v) = c :: u ++ v) {w : List Char}
    (stop : ∀ d ∈ w.head?, token.stopsAt d = true) : skip (c :: u ++ w) = c :: u ++ w := by
  have blank := isBlank_of_skip bare
  cases u with
  | nil =>
      have plain : ∀ sign, c = sign → isQuote sign = false →
          Text.isWordStart sign = false → (∀ r, Numeral.starts sign r = false) →
          ∃ kind, token = ⟨String.ofList [sign], kind⟩ ∧ ([sign], kind) ∈ signs := by
        rintro sign rfl quote word numeral
        rw [read_sign quote (numeral _) word] at h
        obtain ⟨⟨spelling, kind⟩, member, rfl, rfl, -, -⟩ := readSign_append h valid
        exact ⟨kind, rfl, member⟩
      refine skip_cons blank ?_ ?_
      · rintro rfl next
        obtain ⟨kind, rfl, member⟩ := plain '-' rfl (by decide) (by decide) fun _ => rfl
        have := stop '-' next
        rw [stopsAt_sign member] at this
        simp at this
      · rintro rfl next
        obtain ⟨kind, rfl, member⟩ := plain '/' rfl (by decide) (by decide) fun _ => rfl
        have := stop '*' next
        rw [stopsAt_sign member] at this
        simp at this
  | cons d u =>
      obtain ⟨-, minus, slash⟩ := skip_cons_iff.1 bare
      exact skip_cons blank minus slash

/-- The first token of a text and the text after it; none if there is no token. -/
def first (cs : List Char) : Option (Token × List Char) :=
  match skip cs with
  | [] => none
  | c :: r => some (read c r)

/-- The first token is read where skipping ends. -/
theorem first_of_skip {cs r : List Char} {c : Char} (h : skip cs = c :: r) :
    first cs = some (read c r) := by
  rw [first, h]

/-- The first token begins where skipping ends. -/
theorem first_eq_some {cs : List Char} (h : first cs = some (token, v)) :
    ∃ c r, skip cs = c :: r ∧ read c r = (token, v) := by
  unfold first at h
  split at h
  · exact absurd h (by simp)
  · rename_i c r skipped
    exact ⟨c, r, skipped, Option.some.inj h⟩

/-- A text without a token is skipped as a whole. -/
theorem skip_of_first_none {cs : List Char} (h : first cs = none) : skip cs = [] := by
  unfold first at h
  split at h
  · assumption
  · exact absurd h (by simp)

/-- **Locality** of the first token: it ends before a character that leaves it as it is, and
is read again from the same characters before any such character. -/
theorem first_append {cs : List Char} (h : first cs = some (token, v))
    (valid : token.kind ≠ .invalid) :
    ∃ p, p ≠ [] ∧ cs = p ++ v ∧ (∀ d ∈ v.head?, token.stopsAt d = true) ∧
      ∀ w : List Char, (∀ d ∈ w.head?, token.stopsAt d = true) →
        first (p ++ w) = some (token, w) := by
  obtain ⟨c, r, skipped, here⟩ := first_eq_some h
  obtain ⟨u, whole⟩ := suffix_read c r
  rw [here] at whole
  subst whole
  have bare : skip (c :: (u ++ v)) = c :: (u ++ v) := by
    rw [← skipped]
    exact skip_skipFrom .open cs
  obtain ⟨g, rfl, gap, closed⟩ := exists_gap_of_skipFrom skipped (by simp)
  obtain ⟨stop, again⟩ := read_append here valid bare
  refine ⟨g ++ c :: u, by simp, by simp, stop, fun w stopped => ?_⟩
  have still : skip (g ++ c :: u ++ w) = c :: (u ++ w) := by
    rw [List.append_assoc]
    exact skipFrom_append gap closed (skip_append here valid bare stopped)
  rw [first_of_skip still, again w stopped]

/-! ### All tokens -/

/-- The tokens of a text. -/
def tokens (cs : List Char) : List Token :=
  (lexemes cs).map Lexeme.token

/-- The tokens of the characters are those of the text. -/
@[simp] theorem tokens_toList (text : String) : tokens text.toList = tokenize text := rfl

/-- The same, from the characters to the text. -/
theorem tokenize_ofList (cs : List Char) : tokenize (String.ofList cs) = tokens cs := by
  rw [tokenize, String.toList_ofList, tokens]

/-- The tokens are the first one and those of the text after it. -/
theorem tokens_of_first {cs : List Char} (h : first cs = some (token, v)) :
    tokens cs = token :: tokens v := by
  obtain ⟨c, r, skipped, h⟩ := first_eq_some h
  rw [tokens, lexemes_of_skip_cons skipped, h, List.map_cons, tokens]

/-- Without a first token there is none. -/
theorem tokens_of_first_none {cs : List Char} (h : first cs = none) : tokens cs = [] := by
  rw [tokens, lexemes_of_skip_nil (skip_of_first_none h)]
  rfl

/-- A text is read token by token. -/
theorem tokens_cases (cs : List Char) :
    (first cs = none ∧ tokens cs = []) ∨
      ∃ token v, first cs = some (token, v) ∧ tokens cs = token :: tokens v := by
  cases h : first cs with
  | none => exact .inl ⟨rfl, tokens_of_first_none h⟩
  | some found => exact .inr ⟨found.1, found.2, rfl, tokens_of_first h⟩

/-- Texts with the same first token and the same text from there on have the same tokens. -/
theorem tokens_of_skip_eq {cs ds : List Char} (same : skip cs = skip ds) :
    tokens cs = tokens ds := by
  cases skipped : skip ds with
  | nil =>
      rw [tokens, tokens, lexemes_of_skip_nil (same.trans skipped),
        lexemes_of_skip_nil skipped]
  | cons c r =>
      rw [tokens, tokens, lexemes_of_skip_cons (same.trans skipped),
        lexemes_of_skip_cons skipped]

/-- A blank at the front is skipped. -/
theorem tokens_blank (cs : List Char) : tokens (' ' :: cs) = tokens cs :=
  tokens_of_skip_eq rfl

/-- A text without tokens is skipped as a whole. -/
theorem skip_of_tokens_eq_nil {cs : List Char} (h : tokens cs = []) : skip cs = [] := by
  rcases tokens_cases cs with ⟨none, -⟩ | ⟨token, v, -, cons⟩
  · exact skip_of_first_none none
  · rw [h] at cons
    exact absurd cons (by simp)

/-! ### One text behind another -/

/-- The text after the last token; all of it if there is no token. -/
def remainder (cs : List Char) : List Char :=
  ((lexemes cs).getLast?.map Lexeme.rest).getD cs

/-- Whether a comment is open at the end of the text. -/
def endsInComment (cs : List Char) : Bool :=
  match gapEnd .open (remainder cs) with
  | .open => false
  | _ => true

/-- What follows the last token follows it in the text after the first one, too. -/
theorem remainder_of_first {cs : List Char} (h : first cs = some (token, v)) :
    remainder cs = remainder v := by
  obtain ⟨c, r, skipped, h⟩ := first_eq_some h
  rw [remainder, remainder, lexemes_of_skip_cons skipped, h, List.getLast?_cons]
  cases (lexemes v).getLast? <;> rfl

/-- Without a token everything is left over. -/
theorem remainder_of_first_none {cs : List Char} (h : first cs = none) :
    remainder cs = cs := by
  rw [remainder, lexemes_of_skip_nil (skip_of_first_none h)]
  rfl

/-- A text without tokens leaves skipping between tokens if no comment is open at its end. -/
theorem gapEnd_of_endsInComment {cs : List Char} (none : first cs = none)
    (closed : endsInComment cs = false) : gapEnd .open cs = .open := by
  rw [endsInComment, remainder_of_first_none none] at closed
  split at closed
  · assumption
  · exact absurd closed (by simp)

/-- **The tokens of one text put behind another**, if no token can run over the seam and no
comment hides it. -/
theorem tokens_append {cs w : List Char} (valid : ∀ t ∈ tokens cs, t.kind ≠ .invalid)
    (closed : endsInComment cs = false) (bare : skip w = w)
    (stop : ∀ t ∈ tokens cs, ∀ d ∈ w.head?, t.stopsAt d = true) :
    tokens (cs ++ w) = tokens cs ++ tokens w := by
  induction n : cs.length using Nat.strongRecOn generalizing cs with
  | _ n ih =>
      subst n
      rcases tokens_cases cs with ⟨none, nil⟩ | ⟨token, v, found, cons⟩
      · have skipped : skip (cs ++ w) = w :=
          skipFrom_append (skip_of_first_none none) (gapEnd_of_endsInComment none closed) bare
        rw [nil, List.nil_append, tokens_of_skip_eq (skipped.trans bare.symm)]
      · rw [cons] at valid stop ⊢
        obtain ⟨p, some, rfl, limit, again⟩ := first_append found (valid token (by simp))
        have next : first (p ++ v ++ w) = Option.some (token, v ++ w) := by
          rw [List.append_assoc]
          refine again (v ++ w) ?_
          cases v with
          | nil => exact stop token (by simp)
          | cons d v => exact limit
        have shorter : v.length < (p ++ v).length := by
          have := List.length_pos_iff.2 some
          rw [List.length_append]
          omega
        have still : endsInComment v = false := by
          rw [endsInComment, ← remainder_of_first found]
          exact closed
        rw [tokens_of_first next, List.cons_append]
        rw [ih v.length shorter (fun t member => valid t (by simp [member])) still
          (fun t member => stop t (by simp [member])) rfl]

end Lexer

end SchemaText
