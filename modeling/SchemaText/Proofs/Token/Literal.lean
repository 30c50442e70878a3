import SchemaText.Proofs.Token.Gap
import SchemaText.Proofs.Token.WellSpelled

/-!
# Numbers and blobs

The grammar of numbers and of blobs, stated apart from the lexer. A text is a single number if
and only if it follows the one, and a single blob if and only if it follows the other between
blanks and comments. In particular no beginning of a malformed number is read as a shorter
number.

## Main definitions

* `Numeral.IsMantissa`, `Numeral.IsExponent`, `Numeral.IsNumeral`: the grammar of numbers.
* `Lexer.IsBlob`: the texts of a blob with given digits.

## Main results

* `Numeral.read_eq_iff`: what is read whole as a number is what follows the grammar.
* `tokenize_eq_numeric_iff`, `tokenize_eq_blobLiteral_iff`: the texts that are one number or
  one blob.
* `tokenize_eq_literal_iff`: **numbers and blobs are recognised exactly**.
-/

namespace SchemaText

/-! ### The grammar of numbers -/

namespace Numeral

/-- One or more decimal digits. -/
def IsDigits (cs : List Char) : Prop :=
  cs ≠ [] ∧ ∀ c ∈ cs, c.isDigit = true

/-- Digits with an optional point and optional further digits, or a point and digits. -/
inductive IsMantissa : List Char → Prop
  | whole {a : List Char} (digits : IsDigits a) : IsMantissa a
  | point {a b : List Char} (digits : IsDigits a) (fraction : ∀ c ∈ b, c.isDigit = true) :
      IsMantissa (a ++ '.' :: b)
  | fraction {b : List Char} (digits : IsDigits b) : IsMantissa ('.' :: b)

/-- Nothing, or `e` or `E`, an optional sign and digits. -/
inductive IsExponent : List Char → Prop
  | none : IsExponent []
  | some {e : Char} {sign ds : List Char} (isE : e = 'e' ∨ e = 'E')
      (isSign : sign ∈ [['+'], ['-'], []]) (digits : IsDigits ds) :
      IsExponent (e :: (sign ++ ds))

/-- The numbers. -/
inductive IsNumeral : List Char → Prop
  | hexadecimal {x : Char} {ds : List Char} (isX : x = 'x' ∨ x = 'X') (some : ds ≠ [])
      (hex : ∀ c ∈ ds, Text.isHexDigit c = true) : IsNumeral ('0' :: x :: ds)
  | decimal {a b : List Char} (mantissa : IsMantissa a) (exponent : IsExponent b) :
      IsNumeral (a ++ b)

variable {a b cs w : List Char}

/-! ### What follows the grammar is read -/

/-- A mantissa is read up to what is neither a digit nor a point. -/
theorem IsMantissa.mantissa_append (h : IsMantissa a)
    (digit : ∀ c ∈ w.head?, c.isDigit = false)
    (point : ∀ c ∈ w.head?, c ≠ '.') : Numeral.mantissa (a ++ w) = (a, w) := by
  cases h with
  | whole digits => exact mantissa_whole digits.2 digit point
  | point digits fraction => exact mantissa_fraction digits.2 fraction digit
  | fraction digits => exact mantissa_fraction (a := []) (by simp) digits.2 digit

/-- An exponent is read to its end. -/
theorem IsExponent.exponent_eq (h : IsExponent b) : Numeral.exponent b = ⟨b, [], true⟩ := by
  cases h with
  | none => rfl
  | @some e sign ds isE isSign digits =>
      have signed : Numeral.sign (sign ++ ds) = (sign, ds) := by
        simp only [List.mem_cons, List.not_mem_nil, or_false] at isSign
        rcases isSign with rfl | rfl | rfl
        · rfl
        · rfl
        · obtain ⟨d, r, rfl⟩ := List.exists_cons_of_ne_nil digits.1
          exact sign_of_isDigit (digits.2 d (by simp)) r
      have first : (e == 'e' || e == 'E') = true := by simpa using isE
      have taken := takeWhile_append_stop (v := []) digits.2 (by simp)
      have rest := dropWhile_append_stop (v := []) digits.2 (by simp)
      rw [List.append_nil] at taken rest
      simp [Numeral.exponent, first, signed, taken, rest, digits.1]

/-- The characters of a mantissa are digits and a point. -/
theorem IsMantissa.chars (h : IsMantissa a) : ∀ c ∈ a, c.isDigit = true ∨ c = '.' := by
  intro c member
  cases h with
  | whole digits => exact .inl (digits.2 c member)
  | point digits fraction =>
      rw [List.mem_append, List.mem_cons] at member
      rcases member with first | rfl | second
      · exact .inl (digits.2 c first)
      · exact .inr rfl
      · exact .inl (fraction c second)
  | fraction digits =>
      rw [List.mem_cons] at member
      exact member.symm.imp_left (digits.2 c)

/-- The characters of an exponent are digits, its letter and its sign. -/
theorem IsExponent.chars (h : IsExponent b) :
    ∀ c ∈ b, c.isDigit = true ∨ c ∈ ['e', 'E', '+', '-'] := by
  intro c member
  cases h with
  | none => exact absurd member (by simp)
  | @some e sign ds isE isSign digits =>
      rw [List.mem_cons, List.mem_append] at member
      rcases member with rfl | signed | last
      · rcases isE with rfl | rfl <;> exact .inr (by simp)
      · simp only [List.mem_cons, List.not_mem_nil, or_false] at isSign
        rcases isSign with rfl | rfl | rfl
        · exact .inr (by simp_all)
        · exact .inr (by simp_all)
        · exact absurd signed (by simp)
      · exact .inl (digits.2 c last)

/-- No decimal number is taken for the beginning of a hexadecimal one. -/
theorem not_x_of_decimal (mantissa : IsMantissa a) (exponent : IsExponent b) :
    ∀ c ∈ a ++ b, c ≠ 'x' ∧ c ≠ 'X' := by
  intro c member
  have kind : c.isDigit = true ∨ c ∈ ['.', 'e', 'E', '+', '-'] := by
    rcases List.mem_append.1 member with first | second
    · exact (mantissa.chars c first).imp_right fun point => by simp [point]
    · exact (exponent.chars c second).imp_right (List.mem_cons_of_mem '.')
  constructor <;>
    · rintro rfl
      exact absurd kind (by decide)

/-- A numeral is scanned to its end. -/
theorem IsNumeral.scan_eq (h : IsNumeral cs) : scan cs = ⟨cs, [], true⟩ := by
  cases h with
  | @hexadecimal x ds isX some hex =>
      have first : (x == 'x' || x == 'X') = true := by simpa using isX
      have taken := takeWhile_append_stop (v := []) hex (by simp)
      have rest := dropWhile_append_stop (v := []) hex (by simp)
      rw [List.append_nil] at taken rest
      simp [scan, first, taken, rest, some]
  | @decimal a b mantissa exponent =>
      have plain := not_x_of_decimal mantissa exponent
      have front : ∀ c ∈ b.head?, c = 'e' ∨ c = 'E' := head_exponent exponent.exponent_eq
      have whole : Numeral.mantissa (a ++ b) = (a, b) := by
        refine mantissa.mantissa_append (fun c first => ?_) fun c first => ?_ <;>
          rcases front c first with rfl | rfl <;> decide
      rw [scan_eq_decimal fun x r split => plain x (by rw [split]; simp)]
      simp only [Numeral.decimal, whole, exponent.exponent_eq]

/-- Numerals begin where the lexer looks for them. -/
theorem IsNumeral.exists_starts (h : IsNumeral cs) :
    ∃ c r, cs = c :: r ∧ starts c r = true := by
  have digits {a : List Char} (h : IsDigits a) (w : List Char) :
      ∃ c r, a ++ w = c :: r ∧ starts c r = true := by
    obtain ⟨c, r, rfl⟩ := List.exists_cons_of_ne_nil h.1
    exact ⟨c, r ++ w, rfl, by simp [starts, h.2 c]⟩
  cases h with
  | @hexadecimal x ds => exact ⟨'0', x :: ds, rfl, rfl⟩
  | @decimal a b mantissa exponent =>
      cases mantissa with
      | whole some => exact digits some b
      | @point a c some fraction =>
          rw [List.append_assoc]
          exact digits some _
      | @fraction c some =>
          obtain ⟨d, r, rfl⟩ := List.exists_cons_of_ne_nil some.1
          exact ⟨'.', d :: r ++ b, rfl, by simp [starts, some.2 d]⟩

/-! ### What is read follows the grammar -/

/-- What is read as a mantissa where a numeral begins is one. -/
theorem isMantissa_of_starts {c : Char} {r : List Char} (h : starts c r = true) :
    IsMantissa (mantissa (c :: r)).1 := by
  have digits := all_of_takeWhile_eq (rfl : (c :: r).takeWhile Char.isDigit = _)
  by_cases digit : c.isDigit = true
  · have some : (c :: r).takeWhile Char.isDigit ≠ [] := by simp [digit]
    by_cases point : ∃ s, (c :: r).dropWhile Char.isDigit = '.' :: s
    · obtain ⟨s, point⟩ := point
      rw [mantissa_of_point point]
      exact .point ⟨some, digits⟩ (all_of_takeWhile_eq rfl)
    · rw [mantissa_of_no_point]
      · exact .whole ⟨some, digits⟩
      · exact fun first => point (List.head?_eq_some_iff.1 first)
  · simp only [starts, digit, Bool.false_or, Bool.and_eq_true, beq_iff_eq,
      Option.any_eq_true] at h
    obtain ⟨rfl, d, first, isDigit⟩ := h
    obtain ⟨s, rfl⟩ := List.head?_eq_some_iff.1 first
    rw [mantissa_of_point (r := d :: s) rfl]
    exact .fraction ⟨by simp [isDigit], all_of_takeWhile_eq rfl⟩

/-- What is read as a complete exponent is one. -/
theorem isExponent_of_complete (h : (exponent cs).complete = true) :
    IsExponent (exponent cs).taken := by
  unfold exponent at h ⊢
  split
  · exact .none
  · rename_i c r
    split
    · rename_i isE
      simp only [isE, if_true, Bool.not_eq_true', List.isEmpty_eq_false_iff] at h
      refine .some (by simpa using isE) ?_ ⟨h, all_of_takeWhile_eq rfl⟩
      rcases sign_fst r with plus | minus | none <;> simp [*]
    · exact .none

/-- What is scanned to its end is a numeral. -/
theorem isNumeral_of_scan {c : Char} {r : List Char} (begins : starts c r = true)
    (h : scan (c :: r) = ⟨c :: r, [], true⟩) : IsNumeral (c :: r) := by
  by_cases hex : ∃ x s, c :: r = '0' :: x :: s ∧ (x == 'x' || x == 'X') = true
  · obtain ⟨x, s, split, isX⟩ := hex
    rw [split] at h ⊢
    simp only [scan, isX, if_true, Scan.mk.injEq, List.cons.injEq, true_and] at h
    obtain ⟨whole, -, some⟩ := h
    rw [whole, Bool.not_eq_true', List.isEmpty_eq_false_iff] at some
    exact .hexadecimal (by simpa using isX) some (all_of_takeWhile_eq whole)
  · have plain (x : Char) (s : List Char) (split : c :: r = '0' :: x :: s) :
        x ≠ 'x' ∧ x ≠ 'X' := by
      refine ⟨?_, ?_⟩ <;>
        · rintro rfl
          exact hex ⟨_, s, split, rfl⟩
    rw [scan_eq_decimal plain, decimal, Scan.mk.injEq] at h
    obtain ⟨whole, -, complete⟩ := h
    rw [← whole]
    exact .decimal (isMantissa_of_starts begins) (isExponent_of_complete complete)

/-- **What is read whole as a number** is what follows the grammar. -/
theorem read_eq_iff {c : Char} {r : List Char} (begins : starts c r = true) :
    read (c :: r) = (⟨String.ofList (c :: r), .numeric⟩, []) ↔ IsNumeral (c :: r) := by
  constructor
  · intro h
    have split := taken_append_rest (c :: r)
    refine isNumeral_of_scan begins ?_
    unfold read at h
    generalize scan (c :: r) = found at h split
    obtain ⟨taken, rest, complete⟩ := found
    simp only at h split
    split at h
    · rename_i found
      rw [Bool.and_eq_true] at found
      obtain ⟨rfl, -⟩ := found
      obtain rfl : rest = [] := (Prod.mk.inj h).2
      rw [List.append_nil] at split
      rw [split]
    · exact absurd (congrArg (Token.kind ∘ Prod.fst) h) (by simp)
  · intro h
    simp [read, h.scan_eq]

end Numeral

open Lexer

/-- A text is **a single number** if and only if it follows the grammar. -/
theorem tokenize_eq_numeric_iff (w : String) :
    tokenize w = [⟨w, .numeric⟩] ↔ Numeral.IsNumeral w.toList := by
  constructor
  · intro h
    have member : (⟨w, .numeric⟩ : Token) ∈ tokens w.toList := by
      rw [tokens_toList, h]
      exact List.mem_singleton_self _
    obtain ⟨c, r, text, begins, read⟩ :=
      (Token.isWellSpelled_of_mem member (by simp)).exists_numeral rfl
    rw [text]
    exact (Numeral.read_eq_iff begins).1 (by rw [read, ← text, String.ofList_toList])
  · intro h
    obtain ⟨c, r, split, begins⟩ := h.exists_starts
    rw [split] at h
    have spelled := Token.IsWellSpelled.numeric begins ((Numeral.read_eq_iff begins).2 h)
    have found := spelled.first_spelling (w := []) (by simp)
    rw [← split, String.ofList_toList, List.append_nil] at found
    rw [← tokens_toList, tokens_of_first (show first w.toList = _ from found),
      tokens_of_first_none rfl]

/-! ### Blobs -/

namespace Lexer

/-- The texts of a blob with the given digits: `x` or `X`, a quote, an even number of
hexadecimal digits and a quote, between blanks and comments. A comment behind it may be open. -/
inductive IsBlob (digits : List Char) : List Char → Prop
  | intro {x : Char} {before after : List Char} {ends : Gap} (isX : x = 'x' ∨ x = 'X')
      (even : digits.length % 2 = 0) (hex : ∀ c ∈ digits, Text.isHexDigit c = true)
      (front : IsGap before .open) (back : IsGap after ends) :
      IsBlob digits (before ++ x :: '\x27' :: (digits ++ '\x27' :: after))

/-- A quoted text has the kind of its quotes, or is invalid. -/
theorem kind_readQuoted (quote : Char) (kind : TokenKind) (r : List Char) :
    (readQuoted quote kind r).1.kind = kind ∨ (readQuoted quote kind r).1.kind = .invalid := by
  unfold readQuoted
  split
  · exact .inl rfl
  · exact .inr rfl

/-- A name in brackets has their kind, or is invalid. -/
theorem kind_readSquare (r : List Char) :
    (readSquare r).1.kind = .squareIdentifier ∨ (readSquare r).1.kind = .invalid := by
  unfold readSquare
  split
  · exact .inl rfl
  · exact .inr rfl

/-- What begins like a numeral is one, or invalid. -/
theorem kind_readNumeral (cs : List Char) :
    (Numeral.read cs).1.kind = .numeric ∨ (Numeral.read cs).1.kind = .invalid := by
  unfold Numeral.read
  simp only
  split
  · exact .inl rfl
  · exact .inr rfl

/-- A sign has the kind of the table, or is invalid. -/
theorem kind_readSign (c : Char) (r : List Char) :
    (∃ sign ∈ signs, (readSign c r).1.kind = sign.2) ∨ (readSign c r).1.kind = .invalid := by
  unfold readSign
  split
  · rename_i found
    exact .inl ⟨_, List.mem_of_find?_eq_some found, rfl⟩
  · exact .inr rfl

/-- Only a blob is read as a blob. -/
theorem isBlob_of_kind {c : Char} {r : List Char} (h : (read c r).1.kind = .blobLiteral) :
    (c = 'x' ∨ c = 'X') ∧ r.head? = some '\x27' := by
  cases read_cases c r with
  | quoted kind quote reads =>
      have other : ∀ q ∈ quotes, q.2 ≠ .blobLiteral := by decide
      rw [reads] at h
      rcases kind_readQuoted c kind r with same | invalid
      · exact absurd (same.symm.trans h) (other _ quote)
      · cases invalid.symm.trans h
  | square bracket reads =>
      rw [reads] at h
      rcases kind_readSquare r with kind | kind <;> cases kind.symm.trans h
  | numeral starts =>
      rw [read_of_starts starts] at h
      rcases kind_readNumeral (c :: r) with kind | kind <;> cases kind.symm.trans h
  | blob isX quote => exact ⟨isX, quote⟩
  | word start noBlob =>
      rw [read_of_isWordStart start noBlob] at h
      have isWord := isWord_word (String.ofList (c :: r.takeWhile Text.isWordPart))
      rw [show (Token.word _).kind = .blobLiteral from h] at isWord
      exact absurd isWord (by decide)
  | sign quote numeral word =>
      have other : ∀ sign ∈ signs, sign.2 ≠ .blobLiteral := by decide
      rw [read_sign quote numeral word] at h
      rcases kind_readSign c r with ⟨sign, member, kind⟩ | kind
      · exact absurd (kind.symm.trans h) (other sign member)
      · cases kind.symm.trans h

/-- A text with a single token that is a blob has the form of one. -/
theorem isBlob_of_tokens {cs digits : List Char}
    (single : tokens cs = [⟨String.ofList digits, .blobLiteral⟩]) : IsBlob digits cs := by
  cases skipped : skip cs with
  | nil =>
      rw [tokens_of_first_none (by rw [first, skipped])] at single
      exact absurd single (by simp)
  | cons c r =>
      have found : first cs = some ((read c r).1, (read c r).2) := first_of_skip skipped
      rw [tokens_of_first found] at single
      obtain ⟨token, nothing⟩ := List.cons.inj single
      obtain ⟨isX, quote⟩ := isBlob_of_kind (congrArg Token.kind token)
      obtain ⟨s, rfl⟩ := List.head?_eq_some_iff.1 quote
      rw [read_blob isX] at token nothing
      -- What precedes the blob is skipped, and so is what is left after it.
      obtain ⟨before, rfl, gap, closed⟩ := exists_gap_of_skipFrom skipped (by simp)
      obtain ⟨u, whole⟩ := suffix_readBlob c s
      have again : readBlob c (u ++ (readBlob c s).2) =
          (⟨String.ofList digits, .blobLiteral⟩, (readBlob c s).2) := by
        rw [whole, ← token]
      obtain ⟨-, even, hex, rfl, -⟩ := readBlob_append again (by simp)
      simp only [String.toList_ofList] at even hex whole
      rw [← whole, List.append_assoc]
      exact .intro isX even (List.all_eq_true.1 hex) (isGap_iff.2 ⟨gap, closed⟩)
        (isGap_iff.2 ⟨skip_of_tokens_eq_nil nothing, rfl⟩)

/-- A blob is one token with its digits. -/
theorem IsBlob.tokens_eq {cs digits : List Char} (h : IsBlob digits cs) :
    tokens cs = [⟨String.ofList digits, .blobLiteral⟩] := by
  cases h with
  | @intro x before after ends isX even hex front back =>
      have bare : skip (x :: '\x27' :: (digits ++ '\x27' :: after)) =
          x :: '\x27' :: (digits ++ '\x27' :: after) := by
        rcases isX with rfl | rfl <;> rfl
      have found := first_of_skip ((front.skip_append rfl _).trans bare)
      rw [read_blob isX, readBlob_of_isHexDigit even (List.all_eq_true.2 hex)] at found
      have nothing : first after = none := by rw [first, back.skip_eq.1]
      rw [tokens_of_first found, tokens_of_first_none nothing]

end Lexer

/-- A text is **a single blob** if and only if it is one between blanks and comments. -/
theorem tokenize_eq_blobLiteral_iff (w h : String) :
    tokenize w = [⟨h, .blobLiteral⟩] ↔ IsBlob h.toList w.toList := by
  rw [← tokens_toList, ← String.ofList_toList (s := h), String.toList_ofList]
  exact ⟨isBlob_of_tokens, IsBlob.tokens_eq⟩

/-- **Numbers and blobs are recognised exactly**: a text is a single number if and only if it
follows the grammar of numbers, and a single blob if and only if it is one, between blanks and
comments. -/
theorem tokenize_eq_literal_iff (w h : String) :
    (tokenize w = [⟨w, .numeric⟩] ↔ Numeral.IsNumeral w.toList) ∧
      (tokenize w = [⟨h, .blobLiteral⟩] ↔ IsBlob h.toList w.toList) :=
  ⟨tokenize_eq_numeric_iff w, tokenize_eq_blobLiteral_iff w h⟩

end SchemaText
