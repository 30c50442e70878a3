import SchemaText.Proofs.Token.WellSpelled

/-!
# Sequences that are written alike

A tree does not keep its tokens as the lexer found them: a keyword may be kept as a plain
word, two words as one operator, the tokens of a type as one name. Such a sequence is written
as the same text as the tokens that it stands for.

## Main definitions

* `SpelledAs`: a sequence stands for another one that is written alike.

## Main results

* `renderAfter_append`: a sequence is written piece by piece.
* `render_parens`: nothing is set off from the parentheses around it.
* `SpelledAs.render_eq`: **both sequences have the same text**.
* `SpelledAs.tokenize_render`: a sequence is read back as the well-spelled one that it stands
  for.
-/

namespace SchemaText

/-- No keyword has a blank in it. -/
theorem Keyword.ofText?_eq_none_of_blank {text : String} (blank : ' ' ∈ Text.fold text) :
    Keyword.ofText? text = none := by
  have noBlank : ∀ entry ∈ Keyword.lexicon, ' ' ∉ entry.1 := by decide +kernel
  refine List.lookup_eq_none_iff.2 fun entry member => ?_
  rw [bne_iff_ne]
  rintro same
  exact noBlank entry member (same ▸ blank)

namespace Token

/-! ### What a neighbour can tell -/

/-- The edges of a word. -/
theorem edge_of_isWord {kind : TokenKind} (h : kind.isWord = true) :
    kind.trailingEdge = .word ∧ kind.leadingEdge = .word := by
  cases kind <;> first | exact ⟨rfl, rfl⟩ | exact absurd h (by decide)

/-- A word is none of the tokens that are told apart by more than their edges. -/
theorem apart_of_isWord {a : Token} (h : a.kind.isWord = true) :
    (a == dot) = false ∧ (a.kind == .numeric) = false ∧
      (a.kind == .stringLiteral) = false := by
  have other (kind : TokenKind) (not : kind.isWord = false) : a.kind ≠ kind := by
    rintro same
    rw [same, not] at h
    exact absurd h (by simp)
  refine ⟨beq_false_of_ne fun same => other .symbol rfl (by rw [same]; rfl), ?_, ?_⟩
  · exact beq_false_of_ne (other .numeric rfl)
  · exact beq_false_of_ne (other .stringLiteral rfl)

/-- A word that does not spell `x` is set off from words only. -/
theorem needsSpace_word_left {a : Token} (h : a.kind.isWord = true)
    (plain : Text.same a.text "x" = false) (t : Token) :
    a.needsSpace t = Edge.runsInto .word t.kind.leadingEdge := by
  obtain ⟨notDot, notNumber, -⟩ := apart_of_isWord h
  rw [needsSpace, (edge_of_isWord h).1, plain, notDot, notNumber]
  simp only [Bool.and_false, Bool.false_and, Bool.or_false]

/-- A word is set off from words only. -/
theorem needsSpace_word_right {a : Token} (h : a.kind.isWord = true) (t : Token) :
    t.needsSpace a = Edge.runsInto t.kind.trailingEdge .word := by
  obtain ⟨notDot, notNumber, notString⟩ := apart_of_isWord h
  rw [needsSpace, (edge_of_isWord h).2, notDot, notNumber, notString]
  simp only [Bool.and_false, Bool.false_and, Bool.or_false]

/-- Two words after the same token are set off alike. -/
theorem gap_word {a b : Token} (left : a.kind.isWord = true) (right : b.kind.isWord = true)
    (previous : Option Token) : gap previous a = gap previous b := by
  cases previous with
  | none => rfl
  | some t =>
      rw [gap, gap, Option.any_some, Option.any_some, needsSpace_word_right left,
        needsSpace_word_right right]

/-- The gap before a token depends on whether the token before it needs one. -/
theorem gap_congr {p q : Option Token}
    (alike : ∀ t, p.any (needsSpace · t) = q.any (needsSpace · t)) (t : Token) :
    gap p t = gap q t := by
  rw [gap, gap, alike]

/-- A closing parenthesis needs no gap. -/
theorem gap_closeParen (previous : Option Token) : gap previous closeParen = [] := by
  cases previous with
  | none => rfl
  | some t => rw [gap, Option.any_some, needsSpace_of_closed t rfl, if_neg (by simp)]

/-- Nothing needs a gap behind an opening parenthesis. -/
theorem gap_openParen (t : Token) : gap (some openParen) t = [] := by
  have closed : openParen.kind.trailingEdge = .closed := rfl
  rw [gap, Option.any_some, needsSpace, closed]
  rfl

/-- A word is written as it is. -/
theorem written_of_isWord {a : Token} (h : a.kind.isWord = true) : a.written = a := by
  rw [written, if_neg]
  rw [Bool.and_eq_true, beq_iff_eq]
  rintro ⟨square, -⟩
  rw [square] at h
  exact absurd h (by decide)

/-- A word is spelled as its text. -/
theorem spelling_of_isWord {a : Token} (h : a.kind.isWord = true) :
    a.spelling = a.text.toList := by
  obtain ⟨text, kind⟩ := a
  cases kind <;> simp [TokenKind.isWord] at h <;> rfl

/-- A keyword does not spell `x`. -/
theorem same_x_of_keyword {text : String} (h : (Keyword.ofText? text).isSome = true) :
    Text.same text "x" = false := by
  by_contra isX
  rw [Bool.not_eq_false] at isX
  rw [Keyword.ofText?_congr isX] at h
  exact absurd h (by decide +kernel)

/-- Joined words are compared word by word. -/
theorem fold_join (kind : TokenKind) (a b : Token) :
    Text.fold (join kind a b).text = Text.fold a.text ++ ' ' :: Text.fold b.text := by
  simp only [Text.fold, join, String.toList_append, List.map_append, List.append_assoc]
  rfl

/-- A joined word does not spell `x`. -/
theorem same_x_join (kind : TokenKind) (a b : Token) :
    Text.same (join kind a b).text "x" = false := by
  by_contra isX
  rw [Bool.not_eq_false, Text.same_iff] at isX
  have blank : ' ' ∈ Text.fold "x" := by
    rw [← isX, fold_join]
    simp
  exact absurd blank (by decide)

/-- A joined word is no keyword. -/
theorem is_join (kind : TokenKind) (a b : Token) (k : Keyword) :
    (join kind a b).is k = false := by
  have unknown : Keyword.ofText? (join kind a b).text = none :=
    Keyword.ofText?_eq_none_of_blank (by rw [fold_join]; simp)
  rw [is, keyword?, unknown, ite_self]
  rfl

end Token

open Token

/-! ### Writing piece by piece -/

/-- The token before what follows a sequence. -/
def lastOr (previous : Option Token) (ts : List Token) : Option Token :=
  match ts.getLast? with
  | some token => some token.written
  | none => previous

/-- The last token of a sequence is the last of what follows its first. -/
theorem lastOr_cons (previous : Option Token) (a : Token) (ts : List Token) :
    lastOr previous (a :: ts) = lastOr (some a.written) ts := by
  rw [lastOr, lastOr, List.getLast?_cons]
  cases ts.getLast? <;> rfl

/-- A sequence is written piece by piece. -/
theorem renderAfter_append (previous : Option Token) (ts ss : List Token) :
    renderAfter previous (ts ++ ss) =
      renderAfter previous ts ++ renderAfter (lastOr previous ts) ss := by
  induction ts generalizing previous with
  | nil => rfl
  | cons a ts ih =>
      rw [List.cons_append, renderAfter_cons, renderAfter_cons, lastOr_cons, ih]
      simp only [List.append_assoc]

/-- Nothing is set off from the parentheses around it. -/
theorem render_parens (ts : List Token) :
    render (openParen :: (ts ++ [closeParen])) = "(" ++ render ts ++ ")" := by
  have opening : renderAfter (some openParen) ts = renderAfter none ts := by
    cases ts with
    | nil => rfl
    | cons t ts =>
        rw [renderAfter_cons, renderAfter_cons, gap_openParen]
        rfl
  have closing (previous : Option Token) : renderAfter previous [closeParen] = [')'] := by
    rw [renderAfter_cons]
    change gap previous closeParen ++ [')'] ++ [] = [')']
    rw [gap_closeParen]
    rfl
  have whole : renderAfter none (openParen :: (ts ++ [closeParen])) =
      '(' :: (renderAfter none ts ++ [')']) := by
    rw [renderAfter_cons]
    change '(' :: renderAfter (some openParen) (ts ++ [closeParen]) = _
    rw [renderAfter_append, opening, closing]
  rw [render, whole]
  apply String.toList_inj.1
  simp [render]

/-! ### Standing for another sequence -/

/-- A sequence stands for another one that is written alike: keywords may be words of any
kind, two keywords may be one word, and the tokens of a type may be one name in front of a
closing parenthesis. -/
inductive SpelledAs : List Token → List Token → Prop
  | nil : SpelledAs [] []
  | cons (a : Token) {ts ss : List Token} (rest : SpelledAs ts ss) :
      SpelledAs (a :: ts) (a :: ss)
  | keyword {a b : Token} {ts ss : List Token} (left : a.kind.isWord = true)
      (right : b.kind.isWord = true) (same : a.text = b.text)
      (known : (Keyword.ofText? a.text).isSome = true) (rest : SpelledAs ts ss) :
      SpelledAs (a :: ts) (b :: ss)
  | join {a b : Token} {kind : TokenKind} {ts ss : List Token} (word : kind.isWord = true)
      (left : a.kind.isWord = true) (right : b.kind.isWord = true)
      (known : (Keyword.ofText? b.text).isSome = true) (rest : SpelledAs ts ss) :
      SpelledAs (join kind a b :: ts) (a :: b :: ss)
  | type {a : Token} {type ts ss : List Token} (left : a.kind.isWord = true)
      (rest : SpelledAs ts ss) :
      SpelledAs (⟨render (a :: type), .identifier⟩ :: closeParen :: ts)
        (a :: type ++ closeParen :: ss)

namespace SpelledAs

/-- Every sequence stands for itself. -/
theorem refl (ts : List Token) : SpelledAs ts ts := by
  induction ts with
  | nil => exact .nil
  | cons a ts ih => exact .cons a ih

/-- Pieces stand for pieces. -/
theorem append {ts ts' ss ss' : List Token} (h : SpelledAs ts ts') (h' : SpelledAs ss ss') :
    SpelledAs (ts ++ ss) (ts' ++ ss') := by
  induction h with
  | nil => exact h'
  | cons a _ ih => exact .cons a ih
  | keyword left right same known _ ih => exact .keyword left right same known ih
  | join word left right known _ ih => exact .join word left right known ih
  | type left _ ih =>
      rw [List.append_assoc]
      exact .type left ih

/-- What stands before a sequence matters only as far as it can be told apart. -/
theorem renderAfter_eq {ts ss : List Token} (h : SpelledAs ts ss) {p q : Option Token}
    (alike : ∀ t, p.any (needsSpace · t) = q.any (needsSpace · t)) :
    renderAfter p ts = renderAfter q ss := by
  induction h generalizing p q with
  | nil => rfl
  | cons a _ ih =>
      rw [renderAfter_cons, renderAfter_cons, gap_congr alike, ih fun _ => rfl]
  | @keyword a b ts ss left right same known _ ih =>
      have after : renderAfter (some a) ts = renderAfter (some b) ss := by
        refine ih fun t => ?_
        have plain := same_x_of_keyword known
        rw [Option.any_some, Option.any_some, needsSpace_word_left left plain,
          needsSpace_word_left right (same ▸ plain)]
      rw [renderAfter_cons, renderAfter_cons, written_of_isWord left, written_of_isWord right,
        gap_congr alike, gap_word left right, spelling_of_isWord left, spelling_of_isWord right,
        same, after]
  | @join a b kind ts ss word left right known _ ih =>
      have whole : (Token.join kind a b).kind.isWord = true := word
      have after : renderAfter (some (Token.join kind a b)) ts = renderAfter (some b) ss := by
        refine ih fun t => ?_
        rw [Option.any_some, Option.any_some, needsSpace_word_left whole (same_x_join kind a b),
          needsSpace_word_left right (same_x_of_keyword known)]
      have between : gap (some a) b = [' '] := by
        rw [gap, Option.any_some, needsSpace_word_right right, (edge_of_isWord left).1]
        rfl
      rw [renderAfter_cons, renderAfter_cons, renderAfter_cons, written_of_isWord whole,
        written_of_isWord left, written_of_isWord right, gap_congr alike, gap_word whole left,
        spelling_of_isWord whole, spelling_of_isWord left, spelling_of_isWord right, after,
        between]
      simp [Token.join]
  | @type a type ts ss left _ ih =>
      have whole : (⟨render (a :: type), .identifier⟩ : Token).kind.isWord = true := rfl
      rw [renderAfter_cons, renderAfter_cons, renderAfter_append, renderAfter_cons,
        renderAfter_cons, written_of_isWord whole, written_of_isWord left, gap_congr alike,
        gap_word whole left, spelling_of_isWord whole, ih fun _ => rfl]
      change _ ++ _ ++ (gap _ closeParen ++ _ ++ _) = _ ++ (gap _ closeParen ++ _ ++ _)
      rw [gap_closeParen, gap_closeParen]
      simp only [render, renderAfter_cons, written_of_isWord left, String.toList_ofList]
      simp [gap]

/-- **Both sequences have the same text.** -/
theorem render_eq {ts ss : List Token} (h : SpelledAs ts ss) : render ts = render ss := by
  rw [render, render, h.renderAfter_eq fun _ => rfl]

/-- **A sequence is read back** as the well-spelled one that it stands for. -/
theorem tokenize_render {ts ss : List Token} (h : SpelledAs ts ss)
    (spelled : ∀ t ∈ ss, t.IsWellSpelled) : tokenize (render ts) = ss := by
  rw [h.render_eq, SchemaText.tokenize_render spelled]

end SpelledAs

end SchemaText
