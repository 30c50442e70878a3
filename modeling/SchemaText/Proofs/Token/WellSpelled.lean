import SchemaText.Proofs.Token.First

/-!
# Tokens that are read back

A token is well spelled if its text is one that a token of its kind can have. Exactly these
tokens are found in texts, leaving aside what is no token at all, and a sequence of them is
read back from the text that it is written as: the spaces that `Token.needsSpace` asks for
are enough.

## Main definitions

* `Token.IsWellSpelled`: the tokens that are read back from their spelling.

## Main results

* `Token.isWellSpelled_of_mem`: a token of a text is well spelled unless it is invalid.
* `Token.IsWellSpelled.first_spelling`: a well-spelled token is read from its spelling.
* `Token.IsWellSpelled.stopsAt_of_not_needsSpace`: what stands without a space between them
  does not run together.
* `tokenize_render`: **round trip** — a sequence of well-spelled tokens is read back from its
  text.
* `tokenize_render_of_mem`: any valid tokens of any texts are read back together.
* `render_injective`: different sequences of them have different texts.
-/

namespace SchemaText

open Lexer

namespace Token

/-! ### Well-spelled tokens -/

/-- The tokens that are read back from their spelling. -/
inductive IsWellSpelled : Token → Prop
  | quotedIdentifier (text : String) : IsWellSpelled ⟨text, .quotedIdentifier⟩
  | backQuotedIdentifier (text : String) : IsWellSpelled ⟨text, .backQuotedIdentifier⟩
  | stringLiteral (text : String) : IsWellSpelled ⟨text, .stringLiteral⟩
  | squareIdentifier {text : String} (open_ : ']' ∉ text.toList) :
      IsWellSpelled ⟨text, .squareIdentifier⟩
  | blobLiteral {text : String} (even : text.toList.length % 2 = 0)
      (hex : text.toList.all Text.isHexDigit = true) : IsWellSpelled ⟨text, .blobLiteral⟩
  | numeric {c : Char} {r : List Char} (starts : Numeral.starts c r = true)
      (read : Numeral.read (c :: r) = (⟨String.ofList (c :: r), .numeric⟩, [])) :
      IsWellSpelled ⟨String.ofList (c :: r), .numeric⟩
  | word {c : Char} {r : List Char} (start : Text.isWordStart c = true)
      (parts : ∀ d ∈ r, Text.isWordPart d = true) :
      IsWellSpelled (word (String.ofList (c :: r)))
  | sign {sign : List Char × TokenKind} (member : sign ∈ signs) :
      IsWellSpelled ⟨String.ofList sign.1, sign.2⟩

/-- A token that was read is well spelled unless it is invalid. -/
theorem isWellSpelled_of_read {c : Char} {u v : List Char} {token : Token}
    (h : Lexer.read c (u ++ v) = (token, v)) (valid : token.kind ≠ .invalid) :
    token.IsWellSpelled := by
  cases read_cases c (u ++ v) with
  | quoted kind quote reads =>
      rw [reads] at h
      obtain ⟨rfl, -⟩ := readQuoted_append h valid
      obtain ⟨text, kind⟩ := token
      simp only [quotes, List.mem_cons, Prod.mk.injEq, List.not_mem_nil, or_false] at quote
      rcases quote with ⟨-, rfl⟩ | ⟨-, rfl⟩ | ⟨-, rfl⟩
      · exact .stringLiteral text
      · exact .quotedIdentifier text
      · exact .backQuotedIdentifier text
  | square bracket reads =>
      rw [reads] at h
      obtain ⟨kind, inside, -, -⟩ := readSquare_append h valid
      obtain ⟨text, kind⟩ := token
      subst kind
      exact .squareIdentifier inside
  | numeral starts =>
      rw [read_of_starts starts, ← List.cons_append] at h
      obtain ⟨same, stop, again⟩ := Numeral.read_append h valid (by simp)
      rw [same] at again ⊢
      have alone := again [] (by simp)
      have begins := starts_append starts stop []
      rw [List.append_nil] at alone begins
      exact .numeric begins alone
  | blob isX quote =>
      obtain ⟨t, rfl, digits⟩ := exists_of_read_blob isX quote h
      obtain ⟨kind, even, hex, -, -⟩ := readBlob_append digits valid
      obtain ⟨text, kind⟩ := token
      subst kind
      exact .blobLiteral even hex
  | word start noBlob =>
      rw [read_of_isWordStart start noBlob] at h
      obtain ⟨same, parts, -, -⟩ := readWord_append h
      exact same ▸ .word start parts
  | sign quote numeral word =>
      rw [read_sign quote numeral word] at h
      obtain ⟨sign, member, same, -, -, -⟩ := readSign_append h valid
      exact same ▸ .sign member

/-- **The tokens of a text are well spelled**, but for the invalid ones. -/
theorem isWellSpelled_of_mem {cs : List Char} {token : Token} (h : token ∈ tokens cs)
    (valid : token.kind ≠ .invalid) : token.IsWellSpelled := by
  induction n : cs.length using Nat.strongRecOn generalizing cs with
  | _ n ih =>
      subst n
      unfold tokens at h
      rw [lexemes.eq_def] at h
      split at h
      · simp at h
      · rename_i c r skipped
        rw [List.map_cons, List.mem_cons] at h
        rcases h with rfl | later
        · obtain ⟨u, whole⟩ := suffix_read c r
          refine isWellSpelled_of_read (c := c) (u := u) (v := (Lexer.read c r).2) ?_ valid
          rw [whole]
        · exact ih _ (length_read_of_skip skipped) later rfl

namespace IsWellSpelled

variable {a b : Token}

/-! ### Reading a spelling -/

/-- A well-spelled token is valid. -/
theorem kind_ne_invalid (h : a.IsWellSpelled) : a.kind ≠ .invalid := by
  cases h with
  | @word c r _ _ =>
      intro invalid
      have := isWord_word (String.ofList (c :: r))
      rw [invalid] at this
      exact absurd this (by decide)
  | sign member =>
      have kinds : ∀ sign ∈ signs, sign.2 ≠ .invalid := by decide
      exact kinds _ member
  | _ => simp

/-- A well-spelled token is written as it is. -/
theorem written_eq (h : a.IsWellSpelled) : a.written = a := by
  cases h with
  | squareIdentifier inside => simp [written, inside]
  | @word c r _ _ =>
      have other : (Token.word (String.ofList (c :: r))).kind ≠ .squareIdentifier := by
        intro square
        have := isWord_word (String.ofList (c :: r))
        rw [square] at this
        exact absurd this (by decide)
      rw [written, if_neg]
      rw [Bool.and_eq_true, beq_iff_eq]
      exact fun both => other both.1
  | sign member =>
      have kinds : ∀ sign ∈ signs, sign.2 ≠ .squareIdentifier := by decide
      simp [written, kinds _ member]
  | _ => rfl

theorem text_word (text : String) : (Token.word text).text = text := rfl

/-- A word is spelled as its text. -/
theorem spelling_word (text : String) : (Token.word text).spelling = text.toList := by
  unfold Token.word
  cases Keyword.ofText? text with
  | none => rfl
  | some keyword => cases keyword <;> rfl

/-- A sign is spelled as in the table. -/
theorem spelling_sign {sign : List Char × TokenKind} (member : sign ∈ signs) :
    spelling ⟨String.ofList sign.1, sign.2⟩ = sign.1 := by
  have kinds : ∀ sign ∈ signs, sign.2 ∈ [TokenKind.openParen, .closeParen, .comma, .symbol,
      .symbolPrefix, .sign] := by decide
  have kind := kinds sign member
  simp only [List.mem_cons, List.not_mem_nil, or_false] at kind
  rcases kind with kind | kind | kind | kind | kind | kind <;>
    simp only [spelling, kind, String.toList_ofList]

/-- Between quotes any text is read, whatever follows the second one but a third. -/
theorem first_quoted {quote : Char} {kind : TokenKind} {text : String} {w : List Char}
    (bare : ∀ s : List Char, skip (quote :: s) = quote :: s)
    (reads : ∀ s : List Char, Lexer.read quote s = readQuoted quote kind s)
    (stop : w.head? ≠ some quote) :
    first (quote :: Text.doubled quote text.toList ++ [quote] ++ w) = some (⟨text, kind⟩, w) := by
  have found : close quote (Text.doubled quote text.toList ++ ([quote] ++ w)) =
      some (text.toList, w) := close_eq_some_iff.2 ⟨rfl, stop⟩
  rw [List.append_assoc, List.cons_append, first_of_skip (bare _), reads, readQuoted]
  simp only [found, String.ofList_toList]

/-- No sign begins another token, or a comment with what follows it in the table. -/
theorem signs_bare : ∀ sign ∈ signs, sign.1 ≠ [] ∧ ∀ c ∈ sign.1.head?,
    (Text.isBlank c = false ∧ isQuote c = false ∧ Text.isWordStart c = false ∧
      c.isDigit = false) ∧ (c = '.' → sign.1.tail = []) ∧
      (c = '-' → sign.1.tail.head? ≠ some '-') ∧ (c = '/' → sign.1.tail = []) := by
  decide

/-- No comment begins with a digit, a point or the beginning of a word. -/
theorem skip_of_isWordPart {c : Char} (h : Text.isWordPart c = true ∨ c = '.')
    (r : List Char) : skip (c :: r) = c :: r := by
  rcases h with part | rfl
  · refine skip_cons ?_ (fun minus => ?_) fun slash => ?_
    · by_contra blank
      rw [Bool.not_eq_false] at blank
      rw [Text.isWordPart_of_isBlank blank] at part
      exact absurd part (by simp)
    · rw [minus] at part
      exact absurd part (by decide)
    · rw [slash] at part
      exact absurd part (by decide)
  · rfl

/-- A sign is read before what does not make it longer. -/
theorem first_sign {sign : List Char × TokenKind} (member : sign ∈ signs) {w : List Char}
    (stop : ∀ d ∈ w.head?, stopsAt ⟨String.ofList sign.1, sign.2⟩ d = true) :
    first (sign.1 ++ w) = some (⟨String.ofList sign.1, sign.2⟩, w) := by
  obtain ⟨some, bare⟩ := signs_bare sign member
  obtain ⟨spelling, kind⟩ := sign
  cases spelling with
  | nil => exact absurd rfl some
  | cons c r =>
      obtain ⟨⟨blank, quote, word, digit⟩, dot, minus, slash⟩ := bare c rfl
      rw [List.tail_cons] at dot minus slash
      have limit (d : Char) (next : d ∈ w.head?) :
          (∀ other ∈ signs, other.1 ≠ c :: r ++ [d]) ∧ ¬ (c :: r = ['.'] ∧ d.isDigit = true) ∧
            ¬ (c :: r = ['-'] ∧ d = '-') ∧ ¬ (c :: r = ['/'] ∧ d = '*') := by
        have := stop d next
        rw [stopsAt_sign member] at this
        simpa only [Bool.and_eq_true, Bool.not_eq_true', ← Bool.not_eq_true, List.all_eq_true,
          bne_iff_ne, beq_iff_eq, and_assoc] using this
      have still : skip (c :: (r ++ w)) = c :: (r ++ w) := by
        refine skip_cons blank (fun first next => ?_) fun first next => ?_
        · cases r with
          | nil => exact (limit '-' next).2.2.1 ⟨by rw [first], rfl⟩
          | cons d r => exact minus first next
        · obtain rfl := slash first
          exact (limit '*' next).2.2.2 ⟨by rw [first], rfl⟩
      have numeral : Numeral.starts c (r ++ w) = false := by
        rw [Numeral.starts, digit, Bool.false_or, Bool.and_eq_false_iff, beq_eq_false_iff_ne]
        by_cases first : c = '.'
        · right
          rw [dot first, List.nil_append, ← Bool.not_eq_true, Option.any_eq_true]
          rintro ⟨d, next, digit⟩
          exact (limit d next).2.1 ⟨by rw [first, dot first], digit⟩
        · exact .inl first
      have found := find?_signs_append member fun d next => (limit d next).1
      rw [List.cons_append, first_of_skip still, read_sign quote numeral word, readSign]
      rw [List.cons_append] at found
      simp only [found]
      simp

/-- **A well-spelled token is read from its spelling**, before any character that leaves it
as it is. -/
theorem first_spelling (h : a.IsWellSpelled) {w : List Char}
    (stop : ∀ d ∈ w.head?, a.stopsAt d = true) : first (a.spelling ++ w) = some (a, w) := by
  cases h with
  | quotedIdentifier text =>
      refine first_quoted (fun _ => rfl) (fun _ => rfl) fun same => ?_
      exact absurd (stop _ same) (by simp [stopsAt])
  | backQuotedIdentifier text =>
      refine first_quoted (fun _ => rfl) (fun _ => rfl) fun same => ?_
      exact absurd (stop _ same) (by simp [stopsAt])
  | stringLiteral text =>
      refine first_quoted (fun _ => rfl) (fun _ => rfl) fun same => ?_
      exact absurd (stop _ same) (by simp [stopsAt])
  | @squareIdentifier text inside =>
      have all : ∀ c ∈ text.toList, (c != ']') = true := by
        intro c member
        rw [bne_iff_ne]
        rintro rfl
        exact inside member
      have ends : ∀ c ∈ (']' :: w).head?, (c != ']') = false := by simp
      change first ('[' :: (text.toList ++ [']'] ++ w)) = _
      rw [first_of_skip rfl, List.append_assoc, List.singleton_append]
      change some (readSquare _) = _
      rw [readSquare, dropWhile_append_stop all ends, takeWhile_append_stop all ends]
      simp only [String.ofList_toList]
  | @blobLiteral text even hex =>
      change first ('X' :: '\x27' :: (text.toList ++ ['\x27'] ++ w)) = _
      rw [first_of_skip rfl, List.append_assoc, List.singleton_append]
      change some (readBlob _ _) = _
      rw [readBlob_of_isHexDigit even hex, String.ofList_toList]
  | @numeric c r starts read =>
      have limit : ∀ d ∈ w.head?, Numeral.isTail d = false := fun d next => by
        simpa [stopsAt] using stop d next
      have again := (Numeral.read_append (r := []) (by rw [List.append_nil]; exact read)
        (by simp) (by simp)).2.2 w limit
      have begins : Numeral.starts c (r ++ w) = true :=
        starts_append (v := []) (by simpa using starts) (by simp) w
      have still : skip (c :: (r ++ w)) = c :: (r ++ w) := by
        simp only [Numeral.starts, Bool.or_eq_true, Bool.and_eq_true, beq_iff_eq] at starts
        exact skip_of_isWordPart (starts.imp Text.isWordPart_of_isDigit And.left) _
      change first ((String.ofList (c :: r)).toList ++ w) = _
      rw [String.toList_ofList, List.cons_append, first_of_skip still, read_of_starts begins,
        ← List.cons_append, again]
  | @word c r start parts =>
      have limit (d : Char) (next : d ∈ w.head?) : Text.isWordPart d = false ∧
          ¬ ((r = [] ∧ (c = 'x' ∨ c = 'X')) ∧ d = '\x27') := by
        have := stop d next
        rwa [stopsAt_word, Bool.and_eq_true, Bool.not_eq_true', Bool.not_eq_true',
          ← Bool.not_eq_true (_ && _), Bool.and_eq_true, beq_iff_eq, same_x_iff] at this
      have still : skip (c :: (r ++ w)) = c :: (r ++ w) :=
        skip_of_isWordPart (.inl (Text.isWordPart_of_isWordStart start)) _
      have noBlob : c = 'x' ∨ c = 'X' → (r ++ w).head? ≠ some '\x27' := by
        intro isX quote
        cases r with
        | nil => exact (limit '\x27' quote).2 ⟨⟨rfl, isX⟩, rfl⟩
        | cons d r =>
            obtain rfl : d = '\x27' := by simpa using quote
            exact absurd (parts '\x27' (by simp)) (by decide)
      have ends : ∀ d ∈ w.head?, Text.isWordPart d = false := fun d next => (limit d next).1
      rw [spelling_word, String.toList_ofList, List.cons_append, first_of_skip still,
        read_of_isWordStart start noBlob, readWord, takeWhile_append_stop parts ends,
        dropWhile_append_stop parts ends]
  | sign member =>
      rw [spelling_sign member]
      exact first_sign member stop

/-! ### Neighbours -/

/-- What the spelling of a token begins with, by its kind. -/
theorem exists_cons_spelling (h : a.IsWellSpelled) : ∃ d s, a.spelling = d :: s ∧
    ((a.kind.leadingEdge = .word ∧ Text.isWordStart d = true) ∨
      (a.kind = .numeric ∧ a.text.toList.head? = some d ∧ (d.isDigit = true ∨ d = '.')) ∨
      (a.kind.leadingEdge = .quote d ∧ isQuote d = true) ∨
      (a.kind = .squareIdentifier ∧ d = '[') ∨
      (∃ sign ∈ signs, a = ⟨String.ofList sign.1, sign.2⟩ ∧ sign.1.head? = some d)) := by
  cases h with
  | quotedIdentifier text => exact ⟨_, _, rfl, .inr (.inr (.inl ⟨rfl, rfl⟩))⟩
  | backQuotedIdentifier text => exact ⟨_, _, rfl, .inr (.inr (.inl ⟨rfl, rfl⟩))⟩
  | stringLiteral text => exact ⟨_, _, rfl, .inr (.inr (.inl ⟨rfl, rfl⟩))⟩
  | squareIdentifier inside => exact ⟨_, _, rfl, .inr (.inr (.inr (.inl ⟨rfl, rfl⟩)))⟩
  | blobLiteral even hex => exact ⟨_, _, rfl, .inl ⟨rfl, by decide⟩⟩
  | @numeric c r starts read =>
      refine ⟨c, r, String.toList_ofList, .inr (.inl ⟨rfl, by simp, ?_⟩)⟩
      simp only [Numeral.starts, Bool.or_eq_true, Bool.and_eq_true, beq_iff_eq] at starts
      exact starts.imp_right And.left
  | @word c r start parts =>
      refine ⟨c, r, by rw [spelling_word, String.toList_ofList], .inl ⟨?_, start⟩⟩
      have word := isWord_word (String.ofList (c :: r))
      generalize (Token.word (String.ofList (c :: r))).kind = kind at word
      cases kind <;> simp_all [TokenKind.isWord, TokenKind.leadingEdge, TokenKind.trailingEdge]
  | @sign sign member =>
      obtain ⟨c, r, split⟩ := List.exists_cons_of_ne_nil (signs_bare sign member).1
      refine ⟨c, r, by rw [spelling_sign member, split], .inr (.inr (.inr (.inr ?_)))⟩
      exact ⟨sign, member, rfl, by rw [split]; rfl⟩

/-- The characters that make a sign longer, or a comment of it. -/
def extendsSign (c : Char) : Bool :=
  c == '>' || c == '|' || c == '<' || c == '=' || c == '-' || c == '*'

/-- Only signs with an open edge can be made longer, and only by a few characters. -/
theorem signs_extend : ∀ sign ∈ signs, ∀ other ∈ signs, sign.1 <+: other.1 →
    other.1 ≠ sign.1 → ∀ d ∈ other.1.getLast?, extendsSign d = true := by
  decide

/-- A sign stops at all but a few characters, and the dot at those and digits. -/
theorem stopsAt_sign_of {sign : List Char × TokenKind} (member : sign ∈ signs) {d : Char}
    (plain : extendsSign d = false) (point : sign.1 = ['.'] → d.isDigit = false) :
    stopsAt ⟨String.ofList sign.1, sign.2⟩ d = true := by
  rw [stopsAt_sign member, Bool.and_eq_true, Bool.and_eq_true, Bool.and_eq_true]
  refine ⟨⟨⟨List.all_eq_true.2 fun other found => ?_, ?_⟩, ?_⟩, ?_⟩
  · rw [bne_iff_ne]
    intro longer
    have := signs_extend sign member other found (longer ▸ List.prefix_append _ _)
      (by rw [longer]; simp) d (by rw [longer]; simp)
    rw [plain] at this
    exact absurd this (by simp)
  · rw [Bool.not_eq_true', Bool.and_eq_false_iff, beq_eq_false_iff_ne]
    exact or_iff_not_imp_left.2 fun dot => point (not_not.1 dot)
  · rw [Bool.not_eq_true', Bool.and_eq_false_iff]
    right
    rw [beq_eq_false_iff_ne]
    rintro rfl
    exact absurd plain (by decide)
  · rw [Bool.not_eq_true', Bool.and_eq_false_iff]
    right
    rw [beq_eq_false_iff_ne]
    rintro rfl
    exact absurd plain (by decide)

/-- Words make no sign longer. -/
theorem extendsSign_of_isWordPart {d : Char} (h : Text.isWordPart d = true) :
    extendsSign d = false := by
  by_contra ext
  simp only [extendsSign, Bool.not_eq_false, Bool.or_eq_true, beq_iff_eq] at ext
  rcases ext with ((((rfl | rfl) | rfl) | rfl) | rfl) | rfl <;> exact absurd h (by decide)

/-- Quotes make no sign longer. -/
theorem extendsSign_of_isQuote {d : Char} (h : isQuote d = true) : extendsSign d = false := by
  simp only [isQuote, Bool.or_eq_true, beq_iff_eq] at h
  rcases h with ((rfl | rfl) | rfl) | rfl <;> decide

/-- Parentheses and commas are left as they are by anything. -/
theorem signs_closedEdge : ∀ sign ∈ signs, sign.2.trailingEdge = .closed →
    (∀ other ∈ signs, sign.1 <+: other.1 → other.1 = sign.1) ∧
      sign.1 ≠ ['.'] ∧ sign.1 ≠ ['-'] ∧ sign.1 ≠ ['/'] := by
  decide

/-- A sign with a closed edge stops anywhere. -/
theorem stopsAt_of_closed {sign : List Char × TokenKind} (member : sign ∈ signs)
    (closed : sign.2.trailingEdge = .closed) (d : Char) :
    stopsAt ⟨String.ofList sign.1, sign.2⟩ d = true := by
  obtain ⟨alone, dot, minus, slash⟩ := signs_closedEdge sign member closed
  rw [stopsAt_sign member, beq_false_of_ne dot, beq_false_of_ne minus, beq_false_of_ne slash]
  simp only [Bool.false_and, Bool.not_false, Bool.and_true, List.all_eq_true, bne_iff_ne]
  intro other found longer
  have := alone other found (longer ▸ List.prefix_append _ _)
  rw [longer] at this
  simp at this

/-- The first characters of signs. -/
theorem signs_head : ∀ sign ∈ signs, ∀ d ∈ sign.1.head?,
    Text.isWordPart d = false ∧ isQuote d = false ∧
      (sign.2.leadingEdge ≠ .sign → extendsSign d = false) ∧
      (d = '.' → sign = (['.'], .symbol)) := by
  decide

/-- The edge of a sign is a sign or closed. -/
theorem signs_edge : ∀ sign ∈ signs, sign.2.leadingEdge = sign.2.trailingEdge ∧
    (sign.2.trailingEdge = .sign ∨ sign.2.trailingEdge = .closed) := by
  decide

/-- No quote continues a word. -/
theorem isWordPart_of_isQuote {d : Char} (h : isQuote d = true) :
    Text.isWordPart d = false := by
  simp only [isQuote, Bool.or_eq_true, beq_iff_eq] at h
  rcases h with ((rfl | rfl) | rfl) | rfl <;> decide

/-- No token but one in these quotes begins with them. -/
theorem ne_quote {quote d : Char} {s : List Char} (hb : b.IsWellSpelled)
    (spelled : b.spelling = d :: s) (isMark : isQuote quote = true) (notSquare : quote ≠ '[')
    (edge : b.kind.leadingEdge ≠ .quote quote) : d ≠ quote := by
  obtain ⟨d', s', spelled', lead⟩ := hb.exists_cons_spelling
  obtain ⟨rfl, rfl⟩ := List.cons.inj (spelled.symm.trans spelled')
  have noPart := isWordPart_of_isQuote isMark
  rintro rfl
  rcases lead with ⟨-, start⟩ | ⟨-, -, digit | rfl⟩ | ⟨same, -⟩ | ⟨-, rfl⟩ | ⟨sign, member, -, head⟩
  · rw [Text.isWordPart_of_isWordStart start] at noPart
    exact absurd noPart (by simp)
  · rw [Text.isWordPart_of_isDigit digit] at noPart
    exact absurd noPart (by simp)
  · exact absurd isMark (by decide)
  · exact edge same
  · exact notSquare rfl
  · rw [(signs_head sign member d head).2.1] at isMark
    exact absurd isMark (by simp)

/-- A token with no word at its edge begins with no character of a word. -/
theorem isWordPart_of_edge {d : Char} {s : List Char} (hb : b.IsWellSpelled)
    (spelled : b.spelling = d :: s) (edge : b.kind.leadingEdge ≠ .word) :
    Text.isWordPart d = false ∧ (d = '.' → b = dot) := by
  obtain ⟨d', s', spelled', lead⟩ := hb.exists_cons_spelling
  obtain ⟨rfl, rfl⟩ := List.cons.inj (spelled.symm.trans spelled')
  rcases lead with ⟨word, -⟩ | ⟨number, -⟩ | ⟨-, quote⟩ | ⟨-, rfl⟩ | ⟨sign, member, rfl, head⟩
  · exact absurd word edge
  · exact absurd (by rw [number]; rfl) edge
  · refine ⟨isWordPart_of_isQuote quote, ?_⟩
    rintro rfl
    exact absurd quote (by decide)
  · exact ⟨by decide, fun same => absurd same (by decide)⟩
  · obtain ⟨part, -, -, point⟩ := signs_head sign member d head
    refine ⟨part, fun same => ?_⟩
    rw [point same]
    rfl

/-- A token with no sign at its edge begins with no character that extends a sign. -/
theorem extendsSign_of_edge {d : Char} {s : List Char} (hb : b.IsWellSpelled)
    (spelled : b.spelling = d :: s) (edge : b.kind.leadingEdge ≠ .sign) :
    extendsSign d = false := by
  obtain ⟨d', s', spelled', lead⟩ := hb.exists_cons_spelling
  obtain ⟨rfl, rfl⟩ := List.cons.inj (spelled.symm.trans spelled')
  rcases lead with ⟨-, start⟩ | ⟨-, -, digit | rfl⟩ | ⟨-, quote⟩ | ⟨-, rfl⟩ |
    ⟨sign, member, rfl, head⟩
  · exact extendsSign_of_isWordPart (Text.isWordPart_of_isWordStart start)
  · exact extendsSign_of_isWordPart (Text.isWordPart_of_isDigit digit)
  · decide
  · exact extendsSign_of_isQuote quote
  · decide
  · exact (signs_head sign member d head).2.2.1 edge

/-- Only a numeral begins with a digit. -/
theorem numeric_of_isDigit {d : Char} {s : List Char} (hb : b.IsWellSpelled)
    (spelled : b.spelling = d :: s) (digit : d.isDigit = true) :
    b.kind = .numeric ∧ b.text.toList.head? = some d := by
  obtain ⟨d', s', spelled', lead⟩ := hb.exists_cons_spelling
  obtain ⟨rfl, rfl⟩ := List.cons.inj (spelled.symm.trans spelled')
  have part := Text.isWordPart_of_isDigit digit
  rcases lead with ⟨-, start⟩ | ⟨number, head, -⟩ | ⟨-, quote⟩ | ⟨-, rfl⟩ | ⟨sign, member, -, head⟩
  · have := starts_of_isWordStart start []
    simp [Numeral.starts, digit] at this
  · exact ⟨number, head⟩
  · rw [isWordPart_of_isQuote quote] at part
    exact absurd part (by simp)
  · exact absurd digit (by decide)
  · rw [(signs_head sign member d head).1] at part
    exact absurd part (by simp)

/-- `x` is no keyword. -/
theorem kind_word_of_same_x {text : String} (h : Text.same text "x" = true) :
    (Token.word text).kind = .identifier := by
  have none : Keyword.ofText? text = none := by
    rw [Keyword.ofText?_congr h]
    decide +kernel
  rw [Token.word, none]
  rfl

/-- **What stands without a space between them does not run together**: the first of two
well-spelled tokens is left as it is by the second. -/
theorem stopsAt_of_not_needsSpace (ha : a.IsWellSpelled) (hb : b.IsWellSpelled)
    (h : a.needsSpace b = false) : ∀ d ∈ b.spelling.head?, a.stopsAt d = true := by
  obtain ⟨d, s, spelled, lead⟩ := hb.exists_cons_spelling
  rw [spelled]
  rintro _ ⟨⟩
  simp only [needsSpace, Bool.or_eq_false_iff] at h
  obtain ⟨⟨⟨runs, noBlob⟩, beforeDot⟩, afterDot⟩ := h
  cases ha with
  | quotedIdentifier text =>
      refine bne_iff_ne.2 (ne_quote hb spelled rfl (by decide) fun same => ?_)
      simp [same, TokenKind.trailingEdge, Edge.runsInto] at runs
  | backQuotedIdentifier text =>
      refine bne_iff_ne.2 (ne_quote hb spelled rfl (by decide) fun same => ?_)
      simp [same, TokenKind.trailingEdge, Edge.runsInto] at runs
  | stringLiteral text =>
      refine bne_iff_ne.2 (ne_quote hb spelled rfl (by decide) fun same => ?_)
      simp [same, TokenKind.trailingEdge, Edge.runsInto] at runs
  | squareIdentifier inside => rfl
  | blobLiteral even hex => rfl
  | @numeric c r starts read =>
      have edge : b.kind.leadingEdge ≠ .word := fun word => by
        simp [word, TokenKind.trailingEdge, Edge.runsInto] at runs
      obtain ⟨part, point⟩ := isWordPart_of_edge hb spelled edge
      have notDot : d ≠ '.' := fun same => by
        simp [point same] at beforeDot
      simp [stopsAt, Numeral.isTail, part, notDot]
  | @word c r start parts =>
      have edge : b.kind.leadingEdge ≠ .word := fun word => by
        have kind := isWord_word (String.ofList (c :: r))
        rw [word] at runs
        generalize (Token.word (String.ofList (c :: r))).kind = kind' at kind runs
        cases kind' <;>
          simp_all [TokenKind.isWord, TokenKind.trailingEdge, Edge.runsInto]
      obtain ⟨part, -⟩ := isWordPart_of_edge hb spelled edge
      rw [stopsAt_word, part, Bool.not_false, Bool.true_and, Bool.not_eq_true',
        Bool.and_eq_false_iff]
      by_cases isX : Text.same (String.ofList (c :: r)) "x" = true
      · right
        rw [beq_eq_false_iff_ne]
        refine ne_quote hb spelled rfl (by decide) fun same => ?_
        have string : b.kind = .stringLiteral := by
          generalize b.kind = kind at same
          cases kind <;> simp_all [TokenKind.leadingEdge, TokenKind.trailingEdge]
        rw [kind_word_of_same_x isX, text_word, isX, string] at noBlob
        exact absurd noBlob (by decide)
      · exact .inl (by simpa using isX)
  | @sign sign member =>
      rcases (signs_edge sign member).2 with isOpen | closed
      · have edge : b.kind.leadingEdge ≠ .sign := fun same => by
          simp [same, isOpen, Edge.runsInto] at runs
        refine stopsAt_sign_of member (extendsSign_of_edge hb spelled edge) fun point => ?_
        by_contra digit
        rw [Bool.not_eq_false] at digit
        obtain ⟨number, head⟩ := numeric_of_isDigit hb spelled digit
        have isDot : sign = (['.'], .symbol) :=
          (signs_head sign member '.' (by rw [point]; rfl)).2.2.2 rfl
        rw [isDot, number, head, Option.any_some, digit] at afterDot
        exact absurd afterDot (by decide)
      · exact stopsAt_of_closed member closed d

end IsWellSpelled

/-! ### Tokens known by their kind -/

namespace IsWellSpelled

variable {a : Token}

/-- A token that is neither a word nor a literal is a sign of the table. -/
theorem exists_sign (h : a.IsWellSpelled) (notWord : a.kind.isWord = false)
    (notLiteral : a.kind ∉ [TokenKind.quotedIdentifier, .backQuotedIdentifier,
      .squareIdentifier, .stringLiteral, .blobLiteral, .numeric]) :
    ∃ sign ∈ signs, a = ⟨String.ofList sign.1, sign.2⟩ := by
  cases h with
  | @word c r _ _ =>
      rw [isWord_word] at notWord
      exact absurd notWord (by simp)
  | sign member => exact ⟨_, member, rfl⟩
  | _ => exact absurd notLiteral (by simp)

/-- A number is read whole from its text. -/
theorem exists_numeral (h : a.IsWellSpelled) (kind : a.kind = .numeric) :
    ∃ c r, a.text.toList = c :: r ∧ Numeral.starts c r = true ∧
      Numeral.read (c :: r) = (a, []) := by
  cases h with
  | @numeric c r starts read => exact ⟨c, r, String.toList_ofList, starts, read⟩
  | @word c r _ _ =>
      have word := isWord_word (String.ofList (c :: r))
      rw [kind] at word
      exact absurd word (by decide)
  | sign member =>
      have kinds : ∀ sign ∈ signs, sign.2 ≠ .numeric := by decide
      exact absurd kind (kinds _ member)
  | _ => exact absurd kind (by simp)

end IsWellSpelled

/-- Whether a token is well spelled unless it is invalid, as the tokens of a text are. -/
def IsLexed (token : Token) : Prop :=
  token.kind ≠ .invalid → token.IsWellSpelled

namespace IsLexed

variable {a : Token}

/-- A parenthesis or a comma is known by its kind. -/
theorem eq_punctuation (h : a.IsLexed) (b : Token) (kind : a.kind = b.kind)
    (mark : b ∈ [openParen, closeParen, comma]) : a = b := by
  have kinds : ∀ b ∈ [openParen, closeParen, comma], b.kind ≠ .invalid ∧
      b.kind.isWord = false ∧ b.kind ∉ [TokenKind.quotedIdentifier, .backQuotedIdentifier,
        .squareIdentifier, .stringLiteral, .blobLiteral, .numeric] := by decide
  obtain ⟨valid, notWord, notLiteral⟩ := kinds b mark
  rw [← kind] at valid notWord notLiteral
  obtain ⟨sign, member, rfl⟩ := (h valid).exists_sign notWord notLiteral
  have only : ∀ b ∈ [openParen, closeParen, comma], ∀ sign ∈ signs, sign.2 = b.kind →
      (⟨String.ofList sign.1, sign.2⟩ : Token) = b := by decide
  exact only b mark sign member kind

/-- A word is the one that the lexer makes of its text. -/
theorem eq_word (h : a.IsLexed) (word : a.kind.isWord = true) : a = Token.word a.text := by
  have valid : a.kind ≠ .invalid := by
    intro invalid
    rw [invalid] at word
    exact absurd word (by decide)
  cases h valid with
  | word start parts => rfl
  | sign member =>
      have kinds : ∀ sign ∈ signs, sign.2.isWord = false := by decide
      rw [kinds _ member] at word
      exact absurd word (by simp)
  | _ => exact absurd word (by simp [TokenKind.isWord])

/-- The kind of a word is the kind of its keyword. -/
theorem kind_of_keyword? (h : a.IsLexed) {k : Keyword} (known : a.keyword? = some k) :
    a.kind = k.kind := by
  unfold keyword? at known
  split at known
  · rename_i word
    rw [h.eq_word word, Token.word, known]
    rfl
  · exact absurd known (by simp)

end IsLexed

/-- **The tokens of a text are lexed.** -/
theorem isLexed_of_mem {text : String} {token : Token} (h : token ∈ tokenize text) :
    token.IsLexed :=
  isWellSpelled_of_mem h

/-! ### Written tokens -/

/-- A keyword is read from its spelling. -/
theorem isWellSpelled_ofKeyword (keyword : Keyword) :
    (Token.word keyword.spelling).IsWellSpelled := by
  have spelled : ∀ k ∈ Keyword.every, k.spelling.toList ≠ [] ∧
      (∀ c ∈ k.spelling.toList.head?, Text.isWordStart c = true) ∧
      ∀ d ∈ k.spelling.toList.tail, Text.isWordPart d = true := by decide +kernel
  obtain ⟨some, start, parts⟩ := spelled keyword (by cases keyword <;> decide +kernel)
  obtain ⟨c, r, split⟩ := List.exists_cons_of_ne_nil some
  rw [split] at start parts
  rw [← String.ofList_toList (s := keyword.spelling), split]
  exact .word (start c rfl) parts

/-- A letter or an underscore begins a word. -/
theorem isWordStart_of_isAlpha {c : Char} (h : (c.isAlpha || c == '_') = true) :
    Text.isWordStart c = true := by
  rw [Text.isWordStart, h, Bool.true_or]

/-- A letter, a digit or an underscore continues a word. -/
theorem isWordPart_of_isAlphanum {c : Char} (h : (c.isAlphanum || c == '_') = true) :
    Text.isWordPart c = true := by
  rw [Text.isWordPart, h, Bool.true_or, Bool.true_or]

/-- A bare name is read as a word. -/
theorem name_eq (text : String) : name text = ⟨text, .quotedIdentifier⟩ ∨
    (name text = word text ∧ isPlainName text = true) := by
  unfold name
  split
  · rename_i plain
    rw [Bool.and_eq_true, Bool.not_eq_true'] at plain
    refine .inr ⟨?_, plain.1⟩
    unfold word
    cases known : Keyword.ofText? text with
    | none => rfl
    | some keyword =>
        rw [known, Option.any_some] at plain
        cases keyword <;> first | rfl | exact absurd plain.2 (by decide)
  · exact .inl rfl

/-- **A name is well spelled**, whatever its characters are. -/
theorem isWellSpelled_name (text : String) : (name text).IsWellSpelled := by
  rcases name_eq text with same | ⟨same, plain⟩
  · rw [same]
    exact .quotedIdentifier text
  · rw [same]
    unfold isPlainName at plain
    split at plain
    · exact absurd plain (by simp)
    · rename_i c r split
      rw [Bool.and_eq_true, List.all_eq_true] at plain
      rw [← String.ofList_toList (s := text), split]
      exact .word (isWordStart_of_isAlpha plain.1) fun d member =>
        isWordPart_of_isAlphanum (plain.2 d member)

/-- Punctuation is well spelled. -/
theorem isWellSpelled_openParen : openParen.IsWellSpelled :=
  .sign (show (['('], TokenKind.openParen) ∈ signs by decide)

theorem isWellSpelled_closeParen : closeParen.IsWellSpelled :=
  .sign (show ([')'], TokenKind.closeParen) ∈ signs by decide)

theorem isWellSpelled_comma : comma.IsWellSpelled :=
  .sign (show ([','], TokenKind.comma) ∈ signs by decide)

theorem isWellSpelled_dot : dot.IsWellSpelled :=
  .sign (show (['.'], TokenKind.symbol) ∈ signs by decide)

/-- No space stands before a parenthesis or a comma. -/
theorem needsSpace_of_closed (a : Token) {b : Token} (h : b.kind.leadingEdge = .closed) :
    a.needsSpace b = false := by
  obtain ⟨text, kind⟩ := b
  cases kind <;> simp [TokenKind.leadingEdge, TokenKind.trailingEdge] at h <;>
    simp [needsSpace, TokenKind.leadingEdge, TokenKind.trailingEdge, Edge.runsInto, dot]

end Token

/-! ### Sequences -/

open Token

/-- Every valid token is left as it is by a blank. -/
theorem Token.IsWellSpelled.stopsAt_space {a : Token} (h : a.IsWellSpelled) :
    a.stopsAt ' ' = true := by
  cases h with
  | word start parts =>
      rw [stopsAt_word, show (' ' == '\x27') = false from rfl, Bool.and_false]
      rfl
  | sign member => exact IsWellSpelled.stopsAt_sign_of member rfl fun _ => rfl
  | _ => rfl

/-- The first of some well-spelled tokens is read, whatever stands before it. What follows the
sequence has to be a text that its last token stops at. -/
theorem first_renderAfter {a : Token} {ts : List Token} (h : ∀ t ∈ a :: ts, t.IsWellSpelled)
    {w : List Char} (seam : ∀ t ∈ (a :: ts).getLast?, ∀ d ∈ w.head?, t.stopsAt d = true)
    (previous : Option Token) :
    first (renderAfter previous (a :: ts) ++ w) = some (a, renderAfter (some a) ts ++ w) := by
  have ha := h a (by simp)
  have stop : ∀ d ∈ (renderAfter (some a) ts ++ w).head?, a.stopsAt d = true := by
    cases ts with
    | nil => exact seam a rfl
    | cons b ts =>
        have hb := h b (by simp)
        rw [renderAfter_cons, hb.written_eq, gap, Option.any_some]
        by_cases space : a.needsSpace b = true
        · rw [if_pos space]
          rintro _ ⟨⟩
          exact ha.stopsAt_space
        · rw [Bool.not_eq_true] at space
          obtain ⟨d, s, spelled, -⟩ := hb.exists_cons_spelling
          have stop := ha.stopsAt_of_not_needsSpace hb space
          simpa [space, spelled] using stop
  rw [renderAfter_cons, ha.written_eq, gap, List.append_assoc, List.append_assoc]
  split
  · rw [← ha.first_spelling stop]
    rfl
  · exact ha.first_spelling stop

/-- A sequence of well-spelled tokens is read back, whatever stands before it, up to a text
that its last token stops at. -/
theorem tokens_renderAfter_append {ts : List Token} (h : ∀ t ∈ ts, t.IsWellSpelled)
    {w : List Char} (seam : ∀ t ∈ ts.getLast?, ∀ d ∈ w.head?, t.stopsAt d = true)
    (previous : Option Token) : tokens (renderAfter previous ts ++ w) = ts ++ tokens w := by
  induction ts generalizing previous with
  | nil => rfl
  | cons a ts ih =>
      have last : ∀ t ∈ ts.getLast?, ∀ d ∈ w.head?, t.stopsAt d = true := by
        intro t member
        refine seam t ?_
        rw [List.getLast?_cons, Option.mem_def.1 member]
        rfl
      rw [tokens_of_first (first_renderAfter h seam previous),
        ih (fun t member => h t (by simp [member])) last, List.cons_append]

/-- No comment is open at the end of a written sequence. -/
theorem endsInComment_renderAfter {ts : List Token} (h : ∀ t ∈ ts, t.IsWellSpelled)
    (previous : Option Token) : endsInComment (renderAfter previous ts) = false := by
  have same : remainder (renderAfter previous ts) = [] := by
    induction ts generalizing previous with
    | nil => exact remainder_of_first_none rfl
    | cons a ts ih =>
        have found := first_renderAfter h (w := []) (by simp) previous
        rw [List.append_nil, List.append_nil] at found
        rw [remainder_of_first found, ih fun t member => h t (by simp [member])]
  rw [endsInComment, same]
  rfl

/-- Tokens are read back from their text, whatever token was written before them. -/
theorem tokens_renderAfter {ts : List Token} (h : ∀ t ∈ ts, t.IsWellSpelled)
    (previous : Option Token) : tokens (renderAfter previous ts) = ts := by
  have all := tokens_renderAfter_append h (w := []) (by simp) previous
  rwa [List.append_nil, tokens_of_first_none (rfl : first [] = none), List.append_nil] at all

/-- **Round trip**: a sequence of well-spelled tokens is read back from its text. -/
theorem tokenize_render {ts : List Token} (h : ∀ t ∈ ts, t.IsWellSpelled) :
    tokenize (render ts) = ts := by
  rw [render, tokenize_ofList, tokens_renderAfter h]

/-- A well-spelled token is a token of the text that it is written as on its own. -/
theorem Token.IsWellSpelled.mem_tokenize {a : Token} (h : a.IsWellSpelled) :
    a ∈ tokenize (render [a]) := by
  rw [tokenize_render (List.forall_mem_singleton.2 h)]
  exact List.mem_singleton_self a

/-- **Any tokens of texts are read back**, in any order, from the text that they are written
as together; only what is no token has to be left aside. -/
theorem tokenize_render_of_mem {ts : List Token}
    (h : ∀ t ∈ ts, t.kind ≠ .invalid ∧ ∃ text, t ∈ tokenize text) :
    tokenize (render ts) = ts :=
  tokenize_render fun t member =>
    have ⟨valid, _, found⟩ := h t member
    isWellSpelled_of_mem found valid

/-- Tokens that would run together: an `x` before a string, two signs that begin a comment,
a number before a dot, a slash before a star, and twice the same quotes. -/
def adjoining : List Token :=
  [⟨"x", .identifier⟩, ⟨"00", .stringLiteral⟩, ⟨"\x27", .stringLiteral⟩, ⟨"-", .sign⟩,
    ⟨"-", .sign⟩, ⟨"1", .numeric⟩, ⟨".", .symbol⟩, ⟨"/", .symbol⟩, ⟨"*", .symbol⟩,
    ⟨"00", .blobLiteral⟩, ⟨"\x22", .quotedIdentifier⟩, ⟨"", .quotedIdentifier⟩]

/-- Each token of the example is well spelled. -/
theorem isWellSpelled_adjoining : ∀ t ∈ adjoining, t.IsWellSpelled := by
  have sign (s : List Char × TokenKind) (member : s ∈ signs) :
      Token.IsWellSpelled ⟨String.ofList s.1, s.2⟩ := .sign member
  have minus := sign (['-'], .sign) (by decide)
  have digit : Token.IsWellSpelled ⟨"1", .numeric⟩ :=
    .numeric (c := '1') (r := []) (by decide +kernel) (by decide +kernel)
  simp only [adjoining, List.forall_mem_cons]
  refine ⟨?_, .stringLiteral _, .stringLiteral _, minus, minus, digit,
    sign (['.'], .symbol) (by decide), sign (['/'], .symbol) (by decide),
    sign (['*'], .symbol) (by decide), .blobLiteral (by decide) (by decide),
    .quotedIdentifier _, .quotedIdentifier _, by simp⟩
  exact .word (c := 'x') (r := []) (by decide +kernel) (by simp)

/-- Spaces keep apart what would run together, and nothing else. -/
theorem tokenize_render_adjoining :
    (∀ t ∈ adjoining, t.kind ≠ .invalid ∧ ∃ text, t ∈ tokenize text) ∧
      render adjoining = "x '00' '\x27\x27'- -1 . / *X'00'\x22\x22\x22\x22 \x22\x22" ∧
      tokenize "x '00' '\x27\x27'- -1 . / *X'00'\x22\x22\x22\x22 \x22\x22" = adjoining := by
  have tokens : ∀ t ∈ adjoining, t.kind ≠ .invalid ∧ ∃ text, t ∈ tokenize text :=
    fun t member =>
    have spelled := isWellSpelled_adjoining t member
    ⟨spelled.kind_ne_invalid, _, spelled.mem_tokenize⟩
  have written : render adjoining =
      "x '00' '\x27\x27'- -1 . / *X'00'\x22\x22\x22\x22 \x22\x22" := by decide +kernel
  exact ⟨tokens, written, written ▸ tokenize_render_of_mem tokens⟩

/-- Different sequences of well-spelled tokens have different texts. -/
theorem render_injective {ts ss : List Token} (ht : ∀ t ∈ ts, t.IsWellSpelled)
    (hs : ∀ t ∈ ss, t.IsWellSpelled) (h : render ts = render ss) : ts = ss := by
  rw [← tokenize_render ht, h, tokenize_render hs]

end SchemaText
