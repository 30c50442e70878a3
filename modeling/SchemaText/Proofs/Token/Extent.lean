import Mathlib.Data.List.Basic
import SchemaText.Token.Spelling

/-!
# How far a token extends

What the lexer takes for a token depends on the characters of the token and on the single
character after it. This module states, reader by reader, what a token that was read looks
like in the text, and puts them together: a text that begins with the same characters, and
goes on in a way that cannot extend the token, has the same first token.

## Main definitions

* `Token.stopsAt`: the characters that cannot extend a token.

## Main results

* `Lexer.close_eq_some_iff`: the content of a quoted token is what stands doubled before
  the closing quote.
* `Numeral.scan_append`: a complete numeral is read again before any text that cannot
  extend it.
* `Lexer.read_append`: **locality** — a token is read again from the same characters before
  any text that begins alike or cannot extend the token.
-/

namespace SchemaText

/-! ### Decisions -/

-- There are finitely many characters, so what is said of those of a text could be decided over
-- all of them; these instances come first.

instance (priority := 2000) decidableForallMemOption {α : Type} {p : α → Prop} [DecidablePred p]
    (o : Option α) : Decidable (∀ a ∈ o, p a) :=
  Option.decidableForallMem o

instance (priority := 2000) decidableForallMemList {α : Type} {p : α → Prop} [DecidablePred p]
    (l : List α) : Decidable (∀ a ∈ l, p a) :=
  List.decidableBAll p l

/-! ### Prefixes of one class -/

section Prefix

variable {α : Type} {p : α → Bool}

/-- A prefix whose characters all have a property is taken whole, up to a character
without it. -/
theorem takeWhile_append_stop {u v : List α}
    (all : ∀ c ∈ u, p c = true) (stop : ∀ c ∈ v.head?, p c = false) :
    (u ++ v).takeWhile p = u := by
  rw [List.takeWhile_append_of_pos all]
  cases v with
  | nil => simp
  | cons c r => simp [stop c (by simp)]

/-- What is left after such a prefix. -/
theorem dropWhile_append_stop {u v : List α}
    (all : ∀ c ∈ u, p c = true) (stop : ∀ c ∈ v.head?, p c = false) :
    (u ++ v).dropWhile p = v := by
  rw [List.dropWhile_append_of_pos all]
  cases v with
  | nil => simp
  | cons c r => simp [stop c (by simp)]

/-- The characters that were taken all have the property. -/
theorem all_of_takeWhile_eq {u cs : List α} (h : cs.takeWhile p = u) :
    ∀ c ∈ u, p c = true := by
  subst h
  exact fun c member => List.all_eq_true.1 (List.all_takeWhile (p := p)) c member

/-- The character after them does not have it. -/
theorem stop_of_dropWhile_eq {v cs : List α} (h : cs.dropWhile p = v) :
    ∀ c ∈ v.head?, p c = false := by
  subst h
  intro c member
  have := List.head?_dropWhile_not p cs
  rw [Option.mem_def.1 member] at this
  simpa using this

end Prefix

/-- The codes of the letters. -/
theorem isAlpha_iff {c : Char} :
    c.isAlpha = true ↔ (65 ≤ c.toNat ∧ c.toNat ≤ 90) ∨ (97 ≤ c.toNat ∧ c.toNat ≤ 122) :=
  Bool.or_eq_true_iff.trans <| or_congr decide_eq_true_iff <|
    (Bool.and_eq_true_iff).trans (and_congr decide_eq_true_iff decide_eq_true_iff)

/-! ### Numerals -/

namespace Numeral

/-- A character that can follow a numeral is no digit. -/
theorem isDigit_of_not_isTail {c : Char} (h : isTail c = false) : c.isDigit = false := by
  by_contra digit
  rw [Bool.not_eq_false] at digit
  simp [isTail, Text.isWordPart_of_isDigit digit] at h

/-- A character that can follow a numeral is no hexadecimal digit. -/
theorem isHexDigit_of_not_isTail {c : Char} (h : isTail c = false) :
    Text.isHexDigit c = false := by
  have digit := isDigit_of_not_isTail h
  have letter : ¬ c.isAlpha = true := by
    simp only [isTail, Text.isWordPart, Char.isAlphanum, Bool.or_eq_false_iff] at h
    rw [h.2.1.1.1.1]
    exact Bool.false_ne_true
  rw [isAlpha_iff] at letter
  rw [Text.isHexDigit, digit, Bool.false_or, Bool.or_eq_false_iff, Bool.and_eq_false_iff,
    Bool.and_eq_false_iff]
  simp only [decide_eq_false_iff_not, Char.le_def, UInt32.le_iff_toNat_le] at *
  change (¬ 97 ≤ c.toNat ∨ ¬ c.toNat ≤ 102) ∧ (¬ 65 ≤ c.toNat ∨ ¬ c.toNat ≤ 70)
  omega

variable {n w : List Char}

/-- A mantissa with a point goes on with the digits after it. -/
theorem mantissa_of_point {cs r : List Char} (point : cs.dropWhile Char.isDigit = '.' :: r) :
    mantissa cs = (cs.takeWhile Char.isDigit ++ '.' :: r.takeWhile Char.isDigit,
      r.dropWhile Char.isDigit) := by
  simp only [mantissa, point]

/-- A mantissa without a point is its digits. -/
theorem mantissa_of_no_point {cs : List Char}
    (point : (cs.dropWhile Char.isDigit).head? ≠ some '.') :
    mantissa cs = (cs.takeWhile Char.isDigit, cs.dropWhile Char.isDigit) := by
  unfold mantissa
  split
  · rename_i split
    rw [split] at point
    exact absurd rfl point
  · rfl

/-- Digits are read as a mantissa before any text that begins with no digit and no point. -/
theorem mantissa_whole {a : List Char} (digits : ∀ c ∈ a, c.isDigit = true)
    (digit : ∀ c ∈ w.head?, c.isDigit = false) (point : ∀ c ∈ w.head?, c ≠ '.') :
    mantissa (a ++ w) = (a, w) := by
  have rest := dropWhile_append_stop digits digit
  have none : ((a ++ w).dropWhile Char.isDigit).head? ≠ some '.' := by
    rw [rest]
    exact fun first => point '.' first rfl
  rw [mantissa_of_no_point none, rest, takeWhile_append_stop digits digit]

/-- Digits around a point are read as a mantissa before any text that begins with no digit. -/
theorem mantissa_fraction {a b : List Char} (digits : ∀ c ∈ a, c.isDigit = true)
    (fraction : ∀ c ∈ b, c.isDigit = true) (digit : ∀ c ∈ w.head?, c.isDigit = false) :
    mantissa (a ++ '.' :: b ++ w) = (a ++ '.' :: b, w) := by
  have first : ∀ c ∈ ('.' :: (b ++ w)).head?, c.isDigit = false := by simp
  rw [List.append_assoc, List.cons_append, mantissa_of_point (dropWhile_append_stop digits first),
    takeWhile_append_stop digits first, takeWhile_append_stop fraction digit,
    dropWhile_append_stop fraction digit]

/-- A mantissa is read again before any text that begins with no digit and no point. -/
theorem mantissa_append_of {r : List Char} (h : mantissa (n ++ r) = (n, r))
    (digit : ∀ c ∈ w.head?, c.isDigit = false) (point : ∀ c ∈ w.head?, c ≠ '.') :
    mantissa (n ++ w) = (n, w) := by
  have digits := all_of_takeWhile_eq (rfl : (n ++ r).takeWhile Char.isDigit = _)
  unfold mantissa at h
  split at h
  · rename_i s split
    obtain ⟨whole, -⟩ := Prod.mk.inj h
    have fraction := all_of_takeWhile_eq (rfl : s.takeWhile Char.isDigit = _)
    rw [← whole]
    exact mantissa_fraction digits fraction digit
  · obtain ⟨whole, -⟩ := Prod.mk.inj h
    rw [whole] at digits
    exact mantissa_whole digits digit point

/-- What an exponent begins with. -/
theorem head_exponent {cs e r : List Char} {complete : Bool}
    (h : exponent cs = ⟨e, r, complete⟩) : ∀ c ∈ e.head?, c = 'e' ∨ c = 'E' := by
  unfold exponent at h
  split at h
  · rw [Scan.mk.injEq] at h
    simp [← h.1]
  · split at h
    · rename_i c s first
      rw [Scan.mk.injEq] at h
      simpa [← h.1] using first
    · rw [Scan.mk.injEq] at h
      simp [← h.1]

/-- The only signs. -/
theorem sign_fst (cs : List Char) :
    (sign cs).1 = ['+'] ∨ (sign cs).1 = ['-'] ∨ (sign cs).1 = [] := by
  unfold sign
  split <;> simp

/-- A digit is no sign. -/
theorem sign_of_isDigit {d : Char} (h : d.isDigit = true) (r : List Char) :
    sign (d :: r) = ([], d :: r) := by
  unfold sign
  split
  · rename_i first
    obtain ⟨rfl, -⟩ := List.cons.inj first
    exact absurd h (by decide)
  · rename_i first
    obtain ⟨rfl, -⟩ := List.cons.inj first
    exact absurd h (by decide)
  · rfl

/-- An exponent, or its absence, is read again before any text that cannot extend it. -/
theorem exponent_append_of {r : List Char} (h : exponent (n ++ r) = ⟨n, r, true⟩)
    (stop : ∀ c ∈ w.head?, isTail c = false) : exponent (n ++ w) = ⟨n, w, true⟩ := by
  have stopDigit : ∀ c ∈ w.head?, c.isDigit = false := fun c member =>
    isDigit_of_not_isTail (stop c member)
  cases n with
  | nil =>
      cases w with
      | nil => rfl
      | cons d s =>
          have tail := stop d (by simp)
          have notE : (d == 'e' || d == 'E') = false := by
            by_contra isE
            rw [Bool.not_eq_false, Bool.or_eq_true, beq_iff_eq, beq_iff_eq] at isE
            rcases isE with rfl | rfl <;> exact absurd tail (by decide)
          simp [exponent, notE]
  | cons c n =>
      have first := head_exponent h c (by simp)
      have isE : (c == 'e' || c == 'E') = true := by simpa using first
      simp only [exponent, List.cons_append, isE, if_true, Scan.mk.injEq, List.cons.injEq,
        true_and] at h ⊢
      obtain ⟨whole, -, some⟩ := h
      generalize hd : (sign (n ++ r)).2.takeWhile Char.isDigit = digits at whole some
      have digit := all_of_takeWhile_eq hd
      have signed : sign (n ++ w) = ((sign (n ++ r)).1, digits ++ w) := by
        rcases sign_fst (n ++ r) with plus | minus | none
        · rw [plus] at whole ⊢
          rw [← whole]
          rfl
        · rw [minus] at whole ⊢
          rw [← whole]
          rfl
        · rw [none] at whole ⊢
          obtain ⟨d, ds, rfl⟩ := List.exists_cons_of_ne_nil
            (show digits ≠ [] by rintro rfl; simp at some)
          rw [← whole]
          exact sign_of_isDigit (digit d (by simp)) _
      rw [signed, takeWhile_append_stop digit stopDigit, dropWhile_append_stop digit stopDigit]
      exact ⟨whole, rfl, some⟩

/-- A decimal numeral is read again before any text that cannot extend it. -/
theorem decimal_append_of {r : List Char} (h : decimal (n ++ r) = ⟨n, r, true⟩)
    (stop : ∀ c ∈ w.head?, isTail c = false) : decimal (n ++ w) = ⟨n, w, true⟩ := by
  simp only [decimal, Scan.mk.injEq] at h
  obtain ⟨whole, rest, complete⟩ := h
  have split := exponent_append (mantissa (n ++ r)).2
  generalize hm : mantissa (n ++ r) = m at whole rest complete split
  obtain ⟨m, tail⟩ := m
  simp only at whole rest complete split
  generalize he : exponent tail = e at whole rest complete split
  obtain ⟨e, r', done⟩ := e
  simp only at whole rest complete split
  subst rest complete split whole
  have first := head_exponent he
  have read : mantissa (m ++ (e ++ w)) = (m, e ++ w) := by
    refine mantissa_append_of (r := e ++ r') (by simpa using hm) ?_ ?_
    · intro c member
      cases e with
      | nil => exact isDigit_of_not_isTail (stop c member)
      | cons d e =>
          obtain rfl : d = c := by simpa using member
          rcases first d (by simp) with rfl | rfl <;> decide
    · intro c member
      cases e with
      | nil =>
          rintro rfl
          exact absurd (stop '.' member) (by decide)
      | cons d e =>
          obtain rfl : d = c := by simpa using member
          rcases first d (by simp) with rfl | rfl <;> decide
  simp [decimal, read, exponent_append_of he stop]

/-- The numerals that `scan` reads as decimal: all but those that begin with `0x`. -/
theorem scan_eq_decimal {cs : List Char}
    (h : ∀ x r, cs = '0' :: x :: r → x ≠ 'x' ∧ x ≠ 'X') : scan cs = decimal cs := by
  unfold scan
  split
  · rename_i x r
    obtain ⟨small, capital⟩ := h x r rfl
    simp [small, capital]
  · rfl

/-- **A complete numeral is read again** before any text that cannot extend it. -/
theorem scan_append {r : List Char} (h : scan (n ++ r) = ⟨n, r, true⟩) (ne : n ≠ [])
    (stopBefore : ∀ c ∈ r.head?, isTail c = false)
    (stop : ∀ c ∈ w.head?, isTail c = false) : scan (n ++ w) = ⟨n, w, true⟩ := by
  by_cases hex : ∃ x m, n = '0' :: x :: m ∧ (x == 'x' || x == 'X') = true
  · obtain ⟨x, m, rfl, isX⟩ := hex
    simp only [scan, List.cons_append, isX, if_true, Scan.mk.injEq, List.cons.injEq,
      true_and] at h ⊢
    obtain ⟨whole, -, some⟩ := h
    have digits := all_of_takeWhile_eq whole
    have stopHex : ∀ c ∈ w.head?, Text.isHexDigit c = false := fun c member =>
      isHexDigit_of_not_isTail (stop c member)
    rw [takeWhile_append_stop digits stopHex, dropWhile_append_stop digits stopHex]
    rw [whole] at some
    exact ⟨rfl, rfl, some⟩
  · have plain : ∀ s : List Char, (∀ c ∈ s.head?, isTail c = false) →
        scan (n ++ s) = decimal (n ++ s) := by
      refine fun s stop => scan_eq_decimal fun x t split => ?_
      have notX : (x == 'x' || x == 'X') = false := by
        by_contra isX
        rw [Bool.not_eq_false] at isX
        match n, ne with
        | [a], _ =>
          obtain ⟨rfl, rfl⟩ := List.cons.inj split
          have := stop x (by simp)
          simp only [Bool.or_eq_true, beq_iff_eq] at isX
          rcases isX with rfl | rfl <;> exact absurd this (by decide)
        | a :: b :: m, _ =>
          obtain ⟨rfl, again⟩ := List.cons.inj split
          obtain ⟨rfl, -⟩ := List.cons.inj again
          exact hex ⟨b, m, rfl, isX⟩
      simpa using notX
    rw [plain r stopBefore] at h
    rw [plain w stop]
    exact decimal_append_of h stop

/-- A numeral token is spelled as it stands in the text, ends before a character that
cannot extend it, and is read again before any text that begins with none. -/
theorem read_append {cs r : List Char} {token : Token} (h : read (cs ++ r) = (token, r))
    (valid : token.kind ≠ .invalid) (ne : cs ≠ []) :
    token = ⟨String.ofList cs, .numeric⟩ ∧ (∀ c ∈ r.head?, isTail c = false) ∧
      ∀ w : List Char, (∀ c ∈ w.head?, isTail c = false) → read (cs ++ w) = (token, w) := by
  unfold read at h
  have split := taken_append_rest (cs ++ r)
  generalize scanned : scan (cs ++ r) = found at h split
  obtain ⟨taken, rest, complete⟩ := found
  simp only at h split
  split at h
  · rename_i found
    rw [Bool.and_eq_true, Bool.not_eq_true'] at found
    obtain ⟨rfl, tail⟩ := found
    obtain ⟨rfl, rfl⟩ := Prod.mk.inj h
    rw [List.append_cancel_right_eq] at split
    subst split
    have stopBefore : ∀ c ∈ rest.head?, isTail c = false := by
      intro c member
      rw [Option.mem_def.1 member] at tail
      simpa using tail
    refine ⟨rfl, stopBefore, fun w stop => ?_⟩
    have again := scan_append scanned ne stopBefore stop
    have stopped : (w.head?.any isTail) = false := by
      cases w with
      | nil => rfl
      | cons d s => simpa using stop d (by simp)
    simp [read, again, stopped]
  · exact absurd (congrArg Token.kind (Prod.mk.inj h).1).symm valid

end Numeral

namespace Lexer

variable {u v : List Char} {token : Token}

/-! ### Quoted tokens -/

/-- **The content of a quoted token** is what stands doubled before the closing quote, which
is not followed by another one. -/
theorem close_eq_some_iff {quote : Char} {cs content rest : List Char} :
    close quote cs = some (content, rest) ↔
      cs = Text.doubled quote content ++ quote :: rest ∧ rest.head? ≠ some quote := by
  constructor
  · intro h
    fun_induction close quote cs generalizing content with
    | case1 => simp at h
    | case2 =>
        obtain ⟨rfl, rfl⟩ : [] = content ∧ [] = rest := by simpa using h
        exact ⟨rfl, by simp⟩
    | case3 s ih =>
        obtain ⟨found, read, same⟩ := Option.map_eq_some_iff.1 h
        obtain ⟨rfl, rfl⟩ := Prod.mk.inj same
        obtain ⟨whole, stop⟩ := ih read
        exact ⟨by rw [whole]; simp [Text.doubled], stop⟩
    | case4 d s other =>
        obtain ⟨rfl, rfl⟩ : [] = content ∧ d :: s = rest := by simpa using h
        exact ⟨rfl, by simpa using other⟩
    | case5 c r other ih =>
        obtain ⟨found, read, same⟩ := Option.map_eq_some_iff.1 h
        obtain ⟨rfl, rfl⟩ := Prod.mk.inj same
        obtain ⟨whole, stop⟩ := ih read
        exact ⟨by rw [whole]; simp [Text.doubled, other], stop⟩
  · rintro ⟨rfl, stop⟩
    induction content with
    | nil =>
        cases rest with
        | nil => simp [Text.doubled, close]
        | cons d s =>
            have other : d ≠ quote := by simpa using stop
            simp [Text.doubled, close, other]
    | cons c content ih =>
        by_cases same : c = quote
        · subst same
          rw [Text.doubled, if_pos rfl, List.cons_append, List.cons_append, close.eq_def]
          simp [ih]
        · rw [Text.doubled, if_neg same, List.cons_append, close.eq_def]
          simp [same, ih]

/-- A quoted token, with the text that it stands for. -/
theorem readQuoted_append {quote : Char} {kind : TokenKind}
    (h : readQuoted quote kind (u ++ v) = (token, v)) (valid : token.kind ≠ .invalid) :
    token.kind = kind ∧ u = Text.doubled quote token.text.toList ++ [quote] ∧
      v.head? ≠ some quote ∧
      ∀ w : List Char, w.head? ≠ some quote → readQuoted quote kind (u ++ w) = (token, w) := by
  unfold readQuoted at h
  split at h
  · rename_i content rest found
    obtain ⟨rfl, rfl⟩ := Prod.mk.inj h
    obtain ⟨whole, stop⟩ := close_eq_some_iff.1 found
    rw [List.append_cons, List.append_cancel_right_eq] at whole
    subst whole
    refine ⟨rfl, by simp, stop, fun w stop => ?_⟩
    have again : close quote (Text.doubled quote content ++ [quote] ++ w) = some (content, w) :=
      close_eq_some_iff.2 ⟨by simp, stop⟩
    simp only [readQuoted, again]
  · exact absurd (congrArg Token.kind (Prod.mk.inj h).1).symm valid

/-- The part of a text up to the first character that ends it. -/
theorem append_of_dropWhile {stop first : Char} {cs rest : List Char}
    (h : cs.dropWhile (· != stop) = first :: rest) :
    cs = cs.takeWhile (· != stop) ++ stop :: rest := by
  have ends := stop_of_dropWhile_eq h first (by simp)
  rw [bne_eq_false_iff_eq] at ends
  conv_lhs => rw [← List.takeWhile_append_dropWhile (p := (· != stop)) (l := cs), h, ends]

/-- A name in square brackets, with the text that it stands for. -/
theorem readSquare_append (h : readSquare (u ++ v) = (token, v))
    (valid : token.kind ≠ .invalid) :
    token.kind = .squareIdentifier ∧ ']' ∉ token.text.toList ∧
      u = token.text.toList ++ [']'] ∧
      ∀ w : List Char, readSquare (u ++ w) = (token, w) := by
  unfold readSquare at h
  split at h
  · rename_i c rest found
    obtain ⟨rfl, rfl⟩ := Prod.mk.inj h
    have whole := append_of_dropWhile found
    have inside := all_of_takeWhile_eq (rfl : (u ++ rest).takeWhile (· != ']') = _)
    generalize (u ++ rest).takeWhile (· != ']') = name at whole inside
    rw [List.append_cons, List.append_cancel_right_eq] at whole
    subst whole
    refine ⟨rfl, fun member => ?_, by simp, fun w => ?_⟩
    · simpa using inside ']' (by simpa using member)
    · have ends : ∀ c ∈ (']' :: w).head?, (c != ']') = false := by simp
      rw [List.append_assoc, List.singleton_append, readSquare,
        dropWhile_append_stop inside ends, takeWhile_append_stop inside ends]
  · exact absurd (congrArg Token.kind (Prod.mk.inj h).1).symm valid

/-- An even number of hexadecimal digits before a quote is read as a blob. -/
theorem readBlob_of_isHexDigit {digits : List Char} (even : digits.length % 2 = 0)
    (hex : digits.all Text.isHexDigit = true) (x : Char) (w : List Char) :
    readBlob x (digits ++ '\x27' :: w) = (⟨String.ofList digits, .blobLiteral⟩, w) := by
  have all : ∀ c ∈ digits, (c != '\x27') = true := by
    intro c member
    rw [bne_iff_ne]
    rintro rfl
    exact absurd (List.all_eq_true.1 hex _ member) (by decide)
  have ends : ∀ c ∈ ('\x27' :: w).head?, (c != '\x27') = false := by simp
  rw [readBlob, dropWhile_append_stop all ends, takeWhile_append_stop all ends]
  simp [even, hex]

/-- A blob, with its digits. -/
theorem readBlob_append {x : Char} (h : readBlob x (u ++ v) = (token, v))
    (valid : token.kind ≠ .invalid) :
    token.kind = .blobLiteral ∧ token.text.toList.length % 2 = 0 ∧
      token.text.toList.all Text.isHexDigit = true ∧ u = token.text.toList ++ ['\x27'] ∧
      ∀ (y : Char) (w : List Char), readBlob y (u ++ w) = (token, w) := by
  unfold readBlob at h
  simp only at h
  split at h
  · rename_i c rest found
    split at h
    · rename_i digits
      obtain ⟨rfl, rfl⟩ := Prod.mk.inj h
      have whole := append_of_dropWhile found
      generalize (u ++ rest).takeWhile (· != '\x27') = blob at whole digits
      rw [List.append_cons, List.append_cancel_right_eq] at whole
      subst whole
      rw [Bool.and_eq_true, beq_iff_eq] at digits
      obtain ⟨even, hex⟩ := digits
      refine ⟨rfl, by simpa using even, by simpa using hex, by simp, fun y w => ?_⟩
      rw [List.append_assoc, List.singleton_append, readBlob_of_isHexDigit even hex]
    · exact absurd (congrArg Token.kind (Prod.mk.inj h).1).symm valid
  · exact absurd (congrArg Token.kind (Prod.mk.inj h).1).symm valid

/-! ### Signs -/

/-- A sign alone is read as that sign. -/
theorem find?_signs_self :
    ∀ sign ∈ signs, signs.find? (·.1.isPrefixOf sign.1) = some sign := by
  decide

/-- Between a sign and a longer one lies one that is a character longer. -/
theorem signs_closed : ∀ sign ∈ signs, ∀ longer ∈ signs, sign.1 <+: longer.1 →
    longer.1 = sign.1 ∨ ∃ other ∈ signs, other.1 = longer.1.take (sign.1.length + 1) := by
  decide

/-- No sign of the table begins a later one. -/
theorem signs_pairwise : signs.Pairwise fun a b => ¬ a.1 <+: b.1 := by
  decide

/-- A sign is read again before any character that does not make it a longer one. -/
theorem find?_signs_append {sign : List Char × TokenKind} (member : sign ∈ signs)
    {w : List Char} (stop : ∀ d ∈ w.head?, ∀ other ∈ signs, other.1 ≠ sign.1 ++ [d]) :
    signs.find? (·.1.isPrefixOf (sign.1 ++ w)) = some sign := by
  have self := find?_signs_self sign member
  rw [List.find?_eq_some_iff_append] at self ⊢
  obtain ⟨-, before, after, split, earlier⟩ := self
  refine ⟨by simp, before, after, split, fun longer early => ?_⟩
  have first := earlier longer early
  rw [Bool.not_eq_true', ← Bool.not_eq_true, List.isPrefixOf_iff_prefix] at first ⊢
  intro begins
  have inTable : longer ∈ signs := by rw [split]; simp [early]
  rcases List.prefix_or_prefix_of_prefix begins (List.prefix_append sign.1 w) with short | long
  · exact first short
  · rcases signs_closed sign member longer inTable long with same | ⟨other, found, cut⟩
    · exact first (same ▸ List.prefix_rfl)
    · obtain ⟨t, ht⟩ := long
      cases t with
      | nil => exact first (by rw [← ht]; simp)
      | cons d t =>
          rw [← ht, List.prefix_append_right_inj] at begins
          obtain ⟨s, rfl⟩ := begins
          refine stop d (by simp) other found ?_
          rw [cut, ← ht]
          simp [List.take_append, List.take_of_length_le]

/-- The sign that is read is the longest one. -/
theorem stop_of_find?_signs {sign : List Char × TokenKind} {v : List Char}
    (h : signs.find? (·.1.isPrefixOf (sign.1 ++ v)) = some sign) :
    ∀ d ∈ v.head?, ∀ other ∈ signs, other.1 ≠ sign.1 ++ [d] := by
  rw [List.find?_eq_some_iff_append] at h
  obtain ⟨-, before, after, split, earlier⟩ := h
  rintro d member other found longer
  obtain ⟨v, rfl⟩ : ∃ r, v = d :: r := List.head?_eq_some_iff.1 member
  have fits : other.1.isPrefixOf (sign.1 ++ d :: v) = true := by
    rw [List.isPrefixOf_iff_prefix, longer, List.append_cons sign.1 d v]
    exact List.prefix_append _ _
  rw [split, List.mem_append, List.mem_cons] at found
  rcases found with early | rfl | late
  · exact absurd fits
      (by simpa only [Bool.not_eq_true', Bool.not_eq_true] using earlier other early)
  · simpa using congrArg List.length longer
  · have apart := signs_pairwise
    rw [split, List.pairwise_append, List.pairwise_cons] at apart
    exact apart.2.1.1 other late (longer ▸ List.prefix_append _ _)

/-- A sign, with its entry in the table. -/
theorem readSign_append {c : Char} (h : readSign c (u ++ v) = (token, v))
    (valid : token.kind ≠ .invalid) :
    ∃ sign ∈ signs, token = ⟨String.ofList sign.1, sign.2⟩ ∧ c :: u = sign.1 ∧
      (∀ d ∈ v.head?, ∀ other ∈ signs, other.1 ≠ sign.1 ++ [d]) ∧
      ∀ w : List Char, (∀ d ∈ w.head?, ∀ other ∈ signs, other.1 ≠ sign.1 ++ [d]) →
        readSign c (u ++ w) = (token, w) := by
  unfold readSign at h
  split at h
  · rename_i spelling kind found
    obtain ⟨rfl, rest⟩ := Prod.mk.inj h
    have member := List.mem_of_find?_eq_some found
    have begins := List.find?_some found
    rw [List.isPrefixOf_iff_prefix] at begins
    obtain ⟨s, split⟩ := begins
    have nonempty : spelling ≠ [] := by
      rintro rfl
      exact absurd member (by simp [signs])
    obtain ⟨a, m, rfl⟩ := List.exists_cons_of_ne_nil nonempty
    obtain ⟨rfl, whole⟩ : a = c ∧ m ++ s = u ++ v := List.cons.inj split
    rw [← whole] at rest
    obtain rfl : s = v := by simpa using rest
    rw [List.append_cancel_right_eq] at whole
    subst whole
    refine ⟨_, member, rfl, rfl, @stop_of_find?_signs (a :: m, kind) _ found, ?_⟩
    intro w stop
    have again := find?_signs_append member stop
    rw [List.cons_append] at again
    simp only [readSign, again]
    simp
  · exact absurd (congrArg Token.kind (Prod.mk.inj h).1).symm valid

/-! ### Words -/

/-- The kinds of words are not those of other tokens. -/
theorem isWord_word (text : String) : (Token.word text).kind.isWord = true := by
  unfold Token.word
  cases Keyword.ofText? text with
  | none => rfl
  | some keyword => cases keyword <;> rfl

/-- A word, with its characters. -/
theorem readWord_append {c : Char} (h : readWord c (u ++ v) = (token, v)) :
    token = Token.word (String.ofList (c :: u)) ∧ (∀ d ∈ u, Text.isWordPart d = true) ∧
      (∀ d ∈ v.head?, Text.isWordPart d = false) ∧
      ∀ w : List Char, (∀ d ∈ w.head?, Text.isWordPart d = false) →
        readWord c (u ++ w) = (token, w) := by
  unfold readWord at h
  obtain ⟨text, rest⟩ := Prod.mk.inj h
  have stop := stop_of_dropWhile_eq rest
  have split := List.takeWhile_append_dropWhile (p := Text.isWordPart) (l := u ++ v)
  rw [rest, List.append_cancel_right_eq] at split
  have all := all_of_takeWhile_eq split
  rw [split] at text
  refine ⟨text.symm, all, stop, fun w stop => ?_⟩
  rw [readWord, takeWhile_append_stop all stop, dropWhile_append_stop all stop, text]

end Lexer

/-! ### Any token -/

/-- Whether the character after a token leaves the token as it is: it neither extends the
token nor makes a comment or a numeral of it. -/
def Token.stopsAt (token : Token) (c : Char) : Bool :=
  match token.kind with
  | .quotedIdentifier => c != '\x22'
  | .backQuotedIdentifier => c != '\x60'
  | .stringLiteral => c != '\x27'
  | .squareIdentifier | .blobLiteral => true
  | .numeric => !Numeral.isTail c
  | .identifier | .operator | .postfixOp | .prefixOp | .not =>
    !Text.isWordPart c && !(Text.same token.text "x" && c == '\x27')
  | .openParen | .closeParen | .comma | .symbol | .symbolPrefix | .sign =>
    Lexer.signs.all (·.1 != token.text.toList ++ [c]) && !(token.text == "." && c.isDigit)
      && !(token.text == "-" && c == '-') && !(token.text == "/" && c == '*')
  | .invalid => false

namespace Lexer

/-- A word stops at what cannot continue it, but `x` does not stop at a quote. -/
theorem stopsAt_word {text : String} {c : Char} :
    (Token.word text).stopsAt c =
      (!Text.isWordPart c && !(Text.same text "x" && c == '\x27')) := by
  unfold Token.word
  cases Keyword.ofText? text with
  | none => rfl
  | some keyword => cases keyword <;> rfl

/-- A sign stops at what makes neither a longer sign nor a numeral nor a comment of it. -/
theorem stopsAt_sign {sign : List Char × TokenKind} (member : sign ∈ signs) {c : Char} :
    Token.stopsAt ⟨String.ofList sign.1, sign.2⟩ c =
      (signs.all (·.1 != sign.1 ++ [c]) && !(sign.1 == ['.'] && c.isDigit)
        && !(sign.1 == ['-'] && c == '-') && !(sign.1 == ['/'] && c == '*')) := by
  have same (a b : List Char) : (String.ofList a == String.ofList b) = (a == b) := by
    rw [Bool.eq_iff_iff]
    simp [String.ofList_inj]
  have kinds : ∀ sign ∈ signs, sign.2 ∈ [TokenKind.openParen, .closeParen, .comma, .symbol,
      .symbolPrefix, .sign] := by decide
  have kind := kinds sign member
  have dot := same sign.1 ['.']
  have minus := same sign.1 ['-']
  have slash := same sign.1 ['/']
  simp only [List.mem_cons, List.not_mem_nil, or_false] at kind
  rcases kind with kind | kind | kind | kind | kind | kind <;>
    simp only [Token.stopsAt, kind, String.toList_ofList, ← dot, ← minus, ← slash]

/-- The letters that spell `x`. -/
theorem toLower_eq_x_iff {c : Char} : c.toLower = 'x' ↔ c = 'x' ∨ c = 'X' := by
  constructor
  · intro h
    unfold Char.toLower at h
    split at h
    · rename_i upper
      right
      have code := congrArg (fun d => d.val.toNat) h
      have lo : (65 : Nat) ≤ c.val.toNat := UInt32.le_iff_toNat_le.1 upper.1
      have hi : c.val.toNat ≤ 90 := UInt32.le_iff_toNat_le.1 upper.2
      simp only [UInt32.toNat_add] at code
      change (c.val.toNat + 32) % 2 ^ 32 = 120 at code
      refine Char.ext (UInt32.toNat_inj.1 ?_)
      change c.val.toNat = 88
      omega
    · exact .inl h
  · rintro (rfl | rfl) <;> decide

/-- The only words that could be the beginning of a blob. -/
theorem same_x_iff {c : Char} {u : List Char} :
    Text.same (String.ofList (c :: u)) "x" = true ↔ u = [] ∧ (c = 'x' ∨ c = 'X') := by
  rw [Text.same_iff, ← toLower_eq_x_iff]
  simp [Text.fold, and_comm]

/-- Whether a quoted token begins with the character. -/
def isQuote (c : Char) : Bool :=
  c == '\x27' || c == '\x22' || c == '\x60' || c == '['

/-- No numeral begins with a quote. -/
theorem isQuote_of_starts {c : Char} {r : List Char} (h : Numeral.starts c r = true) :
    isQuote c = false := by
  by_contra quote
  simp only [isQuote, Bool.not_eq_false, Bool.or_eq_true, beq_iff_eq] at quote
  rcases quote with ((rfl | rfl) | rfl) | rfl <;> exact absurd h (by simp [Numeral.starts])

/-- No word begins with a quote. -/
theorem isQuote_of_isWordStart {c : Char} (h : Text.isWordStart c = true) :
    isQuote c = false := by
  by_contra quote
  simp only [isQuote, Bool.not_eq_false, Bool.or_eq_true, beq_iff_eq] at quote
  rcases quote with ((rfl | rfl) | rfl) | rfl <;> exact absurd h (by decide)

/-- No word begins like a numeral. -/
theorem starts_of_isWordStart {c : Char} (h : Text.isWordStart c = true) (r : List Char) :
    Numeral.starts c r = false := by
  have digit : c.isDigit = false := by
    simp only [Text.isWordStart, Text.isWide, Bool.or_eq_true, isAlpha_iff, decide_eq_true_eq,
      beq_iff_eq] at h
    simp only [Char.isDigit, Bool.and_eq_false_iff, decide_eq_false_iff_not, ge_iff_le,
      UInt32.le_iff_toNat_le]
    change ¬ 48 ≤ c.toNat ∨ ¬ c.toNat ≤ 57
    rcases h with ((upper | lower) | rfl) | wide
    · omega
    · omega
    · decide
    · omega
  have point : (c == '.') = false := by
    by_contra dot
    rw [Bool.not_eq_false, beq_iff_eq] at dot
    exact absurd h (by rw [dot]; decide)
  simp [Numeral.starts, digit, point]

/-- Where a numeral begins, it is read. -/
theorem read_of_starts {c : Char} {r : List Char} (h : Numeral.starts c r = true) :
    read c r = Numeral.read (c :: r) := by
  have := isQuote_of_starts h
  simp_all [read, isQuote]

/-- Where a word begins, it is read, unless it turns out to be a blob. -/
theorem read_of_isWordStart {c : Char} {r : List Char} (h : Text.isWordStart c = true)
    (noBlob : c = 'x' ∨ c = 'X' → r.head? ≠ some '\x27') : read c r = readWord c r := by
  have quote := isQuote_of_isWordStart h
  have numeral := starts_of_isWordStart h r
  simp only [isQuote, Bool.or_eq_false_iff] at quote
  obtain ⟨⟨⟨single, double⟩, back⟩, square⟩ := quote
  simp only [read, single, double, back, square, numeral, h, if_false, if_true,
    Bool.false_eq_true]
  split
  · split
    · rename_i isX
      exact absurd rfl (noBlob (by simpa using isX))
    · rfl
  · rfl

/-- `x` before a quote begins a blob. -/
theorem read_blob {c : Char} (h : c = 'x' ∨ c = 'X') (r : List Char) :
    read c ('\x27' :: r) = readBlob c r := by
  rcases h with rfl | rfl <;> rfl

/-- What begins nothing else is read as a sign. -/
theorem read_sign {c : Char} {r : List Char} (quote : isQuote c = false)
    (numeral : Numeral.starts c r = false) (word : Text.isWordStart c = false) :
    read c r = readSign c r := by
  simp_all [read, isQuote]

/-- The quotes, with the kinds of what stands between them. -/
def quotes : List (Char × TokenKind) :=
  [('\x27', .stringLiteral), ('\x22', .quotedIdentifier), ('\x60', .backQuotedIdentifier)]

/-- What is read at the front of the text `c :: r`. -/
inductive ReadCase (c : Char) (r : List Char) : Prop
  | quoted (kind : TokenKind) (quote : (c, kind) ∈ quotes)
      (reads : ∀ s, read c s = readQuoted c kind s)
  | square (bracket : c = '[') (reads : ∀ s, read c s = readSquare s)
  | numeral (starts : Numeral.starts c r = true)
  | blob (isX : c = 'x' ∨ c = 'X') (quote : r.head? = some '\x27')
  | word (start : Text.isWordStart c = true)
      (noBlob : c = 'x' ∨ c = 'X' → r.head? ≠ some '\x27')
  | sign (quote : isQuote c = false) (numeral : Numeral.starts c r = false)
      (word : Text.isWordStart c = false)

/-- **The cases of reading** a token. -/
theorem read_cases (c : Char) (r : List Char) : ReadCase c r := by
  by_cases quote : isQuote c = true
  · simp only [isQuote, Bool.or_eq_true, beq_iff_eq] at quote
    rcases quote with ((rfl | rfl) | rfl) | rfl
    · exact .quoted .stringLiteral (by simp [quotes]) fun _ => rfl
    · exact .quoted .quotedIdentifier (by simp [quotes]) fun _ => rfl
    · exact .quoted .backQuotedIdentifier (by simp [quotes]) fun _ => rfl
    · exact .square rfl fun _ => rfl
  rw [Bool.not_eq_true] at quote
  by_cases numeral : Numeral.starts c r = true
  · exact .numeral numeral
  rw [Bool.not_eq_true] at numeral
  by_cases word : Text.isWordStart c = true
  · by_cases blob : (c = 'x' ∨ c = 'X') ∧ r.head? = some '\x27'
    · exact .blob blob.1 blob.2
    · exact .word word fun isX next => blob ⟨isX, next⟩
  · exact .sign quote numeral ((Bool.not_eq_true _).mp word)

/-- Whether `c :: u` before `v` is the whole text of the token: the token ends there because
of what follows, and would be read from `c :: u` before anything that leaves it as it is. -/
def IsExtent (token : Token) (c : Char) (u v : List Char) : Prop :=
  (∀ d ∈ v.head?, token.stopsAt d = true) ∧
    ∀ w : List Char, (∀ d ∈ w.head?, token.stopsAt d = true) → read c (u ++ w) = (token, w)

/-- A quoted text is read from its quotes alone. -/
theorem isExtent_quoted {quote : Char} {kind : TokenKind} (member : (quote, kind) ∈ quotes)
    (reads : ∀ s : List Char, read quote s = readQuoted quote kind s)
    (h : read quote (u ++ v) = (token, v)) (valid : token.kind ≠ .invalid) :
    IsExtent token quote u v := by
  rw [reads] at h
  obtain ⟨same, -, stop, again⟩ := readQuoted_append h valid
  have bound (d : Char) : token.stopsAt d = (d != quote) := by
    simp only [quotes, List.mem_cons, Prod.mk.injEq, List.not_mem_nil, or_false] at member
    rcases member with ⟨rfl, rfl⟩ | ⟨rfl, rfl⟩ | ⟨rfl, rfl⟩ <;> rw [Token.stopsAt, same]
  simp only [IsExtent, bound, bne_iff_ne, reads]
  exact ⟨fun d member same => stop (same ▸ member),
    fun w stop => again w fun same => stop quote same rfl⟩

/-- A name in brackets is read from its brackets alone. -/
theorem isExtent_square (h : read '[' (u ++ v) = (token, v)) (valid : token.kind ≠ .invalid) :
    IsExtent token '[' u v := by
  have reads (s : List Char) : read '[' s = readSquare s := rfl
  rw [reads] at h
  obtain ⟨kind, -, -, again⟩ := readSquare_append h valid
  have bound (d : Char) : token.stopsAt d = true := by simp only [Token.stopsAt, kind]
  exact ⟨fun d _ => bound d, fun w _ => by rw [reads, again]⟩

/-- Whether a numeral begins is seen from its own characters. -/
theorem starts_append {c : Char} (h : Numeral.starts c (u ++ v) = true)
    (stop : ∀ d ∈ v.head?, Numeral.isTail d = false) (w : List Char) :
    Numeral.starts c (u ++ w) = true := by
  cases u with
  | nil =>
      simp only [Numeral.starts, List.nil_append, Bool.or_eq_true, Bool.and_eq_true,
        Option.any_eq_true] at h ⊢
      refine h.imp_right fun both => ?_
      obtain ⟨d, member, digit⟩ := both.2
      exact absurd (stop d member) (by simp [Numeral.isTail, Text.isWordPart_of_isDigit digit])
  | cons d u => exact h

/-- A numeral is read from its characters alone. -/
theorem isExtent_numeral {c : Char} (starts : Numeral.starts c (u ++ v) = true)
    (h : read c (u ++ v) = (token, v)) (valid : token.kind ≠ .invalid) :
    IsExtent token c u v := by
  rw [read_of_starts starts, ← List.cons_append] at h
  obtain ⟨rfl, stop, again⟩ := Numeral.read_append h valid (by simp)
  have bound (d : Char) : Token.stopsAt ⟨String.ofList (c :: u), .numeric⟩ d = true ↔
      Numeral.isTail d = false := by simp [Token.stopsAt]
  simp only [IsExtent, bound]
  refine ⟨stop, fun w stopped => ?_⟩
  rw [read_of_starts (starts_append starts stop w), ← List.cons_append, again w stopped]

/-- A blob takes its opening quote along. -/
theorem exists_of_read_blob {c : Char} (isX : c = 'x' ∨ c = 'X')
    (quote : (u ++ v).head? = some '\x27') (h : read c (u ++ v) = (token, v)) :
    ∃ t, u = '\x27' :: t ∧ readBlob c (t ++ v) = (token, v) := by
  cases u with
  | nil =>
      obtain ⟨s, rfl⟩ := List.head?_eq_some_iff.1 quote
      have shorter := length_readBlob_le c s
      rw [List.nil_append, read_blob isX] at h
      rw [h, List.length_cons] at shorter
      omega
  | cons d t =>
      obtain rfl : d = '\x27' := by simpa using quote
      exact ⟨t, rfl, by rw [← h, List.cons_append, read_blob isX]⟩

/-- A blob is read from its letter and quotes alone. -/
theorem isExtent_blob {c : Char} (isX : c = 'x' ∨ c = 'X')
    (quote : (u ++ v).head? = some '\x27') (h : read c (u ++ v) = (token, v))
    (valid : token.kind ≠ .invalid) : IsExtent token c u v := by
  obtain ⟨t, rfl, blob⟩ := exists_of_read_blob isX quote h
  obtain ⟨kind, -, -, -, again⟩ := readBlob_append blob valid
  have bound (d : Char) : token.stopsAt d = true := by simp only [Token.stopsAt, kind]
  exact ⟨fun d _ => bound d, fun w _ => by rw [List.cons_append, read_blob isX, again]⟩

/-- A word is read from its characters alone. -/
theorem isExtent_word {c : Char} (start : Text.isWordStart c = true)
    (noBlob : c = 'x' ∨ c = 'X' → (u ++ v).head? ≠ some '\x27')
    (h : read c (u ++ v) = (token, v)) : IsExtent token c u v := by
  rw [read_of_isWordStart start noBlob] at h
  obtain ⟨rfl, parts, stop, again⟩ := readWord_append h
  have bound (d : Char) : (Token.word (String.ofList (c :: u))).stopsAt d = true ↔
      Text.isWordPart d = false ∧ ¬ ((u = [] ∧ (c = 'x' ∨ c = 'X')) ∧ d = '\x27') := by
    rw [stopsAt_word, ← same_x_iff, Bool.and_eq_true, Bool.not_eq_true', Bool.not_eq_true',
      ← Bool.not_eq_true, ← Bool.not_eq_true, Bool.and_eq_true, beq_iff_eq]
  simp only [IsExtent, bound]
  refine ⟨fun d member => ⟨stop d member, ?_⟩, fun w stopped => ?_⟩
  · rintro ⟨⟨rfl, isX⟩, rfl⟩
    exact noBlob isX member
  · rw [read_of_isWordStart start, again w fun d member => (stopped d member).1]
    rintro isX quote
    cases u with
    | nil => exact (stopped '\x27' quote).2 ⟨⟨rfl, isX⟩, rfl⟩
    | cons d u =>
        obtain rfl : d = '\x27' := by simpa using quote
        exact absurd (parts '\x27' (by simp)) (by decide)

/-- A sign is read from its characters alone. -/
theorem isExtent_sign {c : Char} (quote : isQuote c = false)
    (numeral : Numeral.starts c (u ++ v) = false) (word : Text.isWordStart c = false)
    (bare : skip (c :: u ++ v) = c :: u ++ v) (h : read c (u ++ v) = (token, v))
    (valid : token.kind ≠ .invalid) : IsExtent token c u v := by
  rw [read_sign quote numeral word] at h
  obtain ⟨sign, member, rfl, whole, stop, again⟩ := readSign_append h valid
  have bound (d : Char) : Token.stopsAt ⟨String.ofList sign.1, sign.2⟩ d = true ↔
      (∀ other ∈ signs, other.1 ≠ sign.1 ++ [d]) ∧ ¬ (c :: u = ['.'] ∧ d.isDigit = true) ∧
        ¬ (c :: u = ['-'] ∧ d = '-') ∧ ¬ (c :: u = ['/'] ∧ d = '*') := by
    rw [stopsAt_sign member, ← whole]
    simp only [Bool.and_eq_true, Bool.not_eq_true', ← Bool.not_eq_true, List.all_eq_true,
      bne_iff_ne, beq_iff_eq, and_assoc]
  have shorter := length_skipFrom_le
  simp only [IsExtent, bound]
  refine ⟨fun d next => ⟨stop d next, ?_, ?_, ?_⟩, fun w stopped => ?_⟩
  · rintro ⟨dot, digit⟩
    obtain ⟨rfl, rfl⟩ : c = '.' ∧ u = [] := by simpa using dot
    obtain ⟨s, rfl⟩ := List.head?_eq_some_iff.1 next
    simp [Numeral.starts, digit] at numeral
  · rintro ⟨minus, rfl⟩
    obtain ⟨rfl, rfl⟩ : c = '-' ∧ u = [] := by simpa using minus
    obtain ⟨s, rfl⟩ := List.head?_eq_some_iff.1 next
    have short := shorter .line s
    rw [show skipFrom .line s = '-' :: '-' :: s from bare] at short
    simp only [List.length_cons] at short
    omega
  · rintro ⟨slash, rfl⟩
    obtain ⟨rfl, rfl⟩ : c = '/' ∧ u = [] := by simpa using slash
    obtain ⟨s, rfl⟩ := List.head?_eq_some_iff.1 next
    have short := shorter .block s
    rw [show skipFrom .block s = '/' :: '*' :: s from bare] at short
    simp only [List.length_cons] at short
    omega
  · have still : Numeral.starts c (u ++ w) = false := by
      cases u with
      | nil =>
          rw [Numeral.starts, Bool.or_eq_false_iff, Bool.and_eq_false_iff] at numeral ⊢
          refine ⟨numeral.1, ?_⟩
          by_cases dot : c = '.'
          · right
            rw [List.nil_append, ← Bool.not_eq_true, Option.any_eq_true]
            rintro ⟨d, next, digit⟩
            exact (stopped d next).2.1 ⟨by rw [dot], digit⟩
          · exact .inl (by simpa using dot)
      | cons d u => exact numeral
    rw [read_sign quote still word]
    exact again w fun d next => (stopped d next).1

/-- **Locality**: a token that was read ends before a character that leaves it as it is, and
is read again from the same characters before any such character. -/
theorem read_append {c : Char} (h : read c (u ++ v) = (token, v))
    (valid : token.kind ≠ .invalid) (bare : skip (c :: u ++ v) = c :: u ++ v) :
    IsExtent token c u v := by
  cases read_cases c (u ++ v) with
  | quoted kind quote reads => exact isExtent_quoted quote reads h valid
  | square bracket =>
      subst bracket
      exact isExtent_square h valid
  | numeral starts => exact isExtent_numeral starts h valid
  | blob isX quote => exact isExtent_blob isX quote h valid
  | word start noBlob => exact isExtent_word start noBlob h
  | sign quote numeral word => exact isExtent_sign quote numeral word bare h valid

end Lexer

end SchemaText
