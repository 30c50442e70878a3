import Mathlib
import SchemaText.Proofs.Token.Gap

/-!
# Texts put behind one another

What stands behind a blank has no part in the tokens before it. Every reader of the lexer,
those of malformed numbers and of stray characters included, commutes with putting a text
behind its own that begins with a blank; the exception are quotes, brackets and blobs that are
not closed, which take along everything. From one token this carries over to a text.

## Main definitions

* `Lexer.IsUnclosed`: a quote, bracket or blob that goes on to the end of the text.
* `Lexer.IsClosed`: a text at whose end no token and no comment is open.

## Main results

* `Lexer.read_append_blank`: a token is read the same before a text that begins with a blank.
* `Lexer.IsClosed.tokens_append`: the tokens of a text before one that begins with a blank.
* `tokenize_append_gap`: **the tokens of a text, a gap and a text** are those of the two texts.
-/

namespace SchemaText

/-! ### Blanks -/

namespace Text

/-- The blanks. -/
def blanks : List Char :=
  [' ', '\t', '\n', '\x0c', '\r']

variable {r w : List Char} (blank : ∀ d ∈ w.head?, isBlank d = true)
include blank

/-- What none of the blanks has does not hold of the first character. -/
theorem not_of_blank {p : Char → Bool} (none : ∀ d ∈ blanks, p d = false) :
    ∀ d ∈ w.head?, p d = false := by
  intro d first
  have five := blank d first
  simp only [isBlank, Bool.or_eq_true, beq_iff_eq, or_assoc] at five
  exact none d (by simpa [blanks] using five)

/-- A text that begins with a blank begins with nothing else. -/
theorem ne_of_blank {c : Char} (none : c ∉ blanks) : ∀ d ∈ w.head?, d ≠ c := by
  have other (d : Char) (member : d ∈ blanks) : (d == c) = false := by
    rw [beq_eq_false_iff_ne]
    rintro rfl
    exact none member
  exact fun d first => beq_eq_false_iff_ne.1 (not_of_blank blank other d first)

/-- Behind a text a blank brings in no other character. -/
theorem head_append_blank {c : Char} (none : c ∉ blanks) (here : r.head? ≠ some c) :
    (r ++ w).head? ≠ some c := by
  cases r with
  | nil => exact fun first => ne_of_blank blank none c first rfl
  | cons d r => exact here

end Text

/-! ### What is taken from a text -/

section Prefix

variable {p : Char → Bool} {r w : List Char}

/-- What is taken from a text is taken from it before any other text, if it is seen in the
first text where taking stops, or seen from the first character of the other. -/
theorem span_append (stop : ∀ c ∈ (r.dropWhile p ++ w).head?, p c = false) :
    (r ++ w).takeWhile p = r.takeWhile p ∧ (r ++ w).dropWhile p = r.dropWhile p ++ w := by
  have all := all_of_takeWhile_eq (rfl : r.takeWhile p = _)
  have split : r ++ w = r.takeWhile p ++ (r.dropWhile p ++ w) := by
    rw [← List.append_assoc, List.takeWhile_append_dropWhile]
  rw [split, takeWhile_append_stop all stop, dropWhile_append_stop all stop]
  exact ⟨rfl, rfl⟩

/-- A run of characters other than blanks ends at a blank at the latest. -/
theorem span_append_blank (blank : ∀ d ∈ w.head?, Text.isBlank d = true)
    (none : ∀ d ∈ Text.blanks, p d = false) (r : List Char) :
    (r ++ w).takeWhile p = r.takeWhile p ∧ (r ++ w).dropWhile p = r.dropWhile p ++ w := by
  refine span_append fun c first => ?_
  cases rest : r.dropWhile p with
  | nil =>
      rw [rest] at first
      exact Text.not_of_blank blank none c first
  | cons d s =>
      rw [rest] at first
      exact stop_of_dropWhile_eq rest c first

end Prefix

/-! ### Numerals -/

namespace Numeral

variable {w : List Char} (blank : ∀ d ∈ w.head?, Text.isBlank d = true)

include blank

/-- The mantissa is the same with a blank behind the text. -/
theorem mantissa_append_blank (r : List Char) :
    mantissa (r ++ w) = ((mantissa r).1, (mantissa r).2 ++ w) := by
  obtain ⟨taken, dropped⟩ := span_append_blank blank (p := Char.isDigit) (by decide) r
  by_cases point : ∃ s, r.dropWhile Char.isDigit = '.' :: s
  · obtain ⟨s, point⟩ := point
    obtain ⟨fraction, rest⟩ := span_append_blank blank (p := Char.isDigit) (by decide) s
    rw [mantissa_of_point point, mantissa_of_point (r := s ++ w) (by rw [dropped, point]; rfl),
      taken, fraction, rest]
  · have none : (r.dropWhile Char.isDigit).head? ≠ some '.' :=
      fun first => point (List.head?_eq_some_iff.1 first)
    have still : ((r ++ w).dropWhile Char.isDigit).head? ≠ some '.' := by
      rw [dropped]
      exact Text.head_append_blank blank (by decide) none
    rw [mantissa_of_no_point none, mantissa_of_no_point still, taken, dropped]

/-- The sign is the same with a blank behind the text. -/
theorem sign_append_blank (r : List Char) : sign (r ++ w) = ((sign r).1, (sign r).2 ++ w) := by
  cases r with
  | nil =>
      rw [List.nil_append]
      unfold sign
      split
      · exact absurd rfl (Text.ne_of_blank blank (c := '+') (by decide) '+' rfl)
      · exact absurd rfl (Text.ne_of_blank blank (c := '-') (by decide) '-' rfl)
      · rfl
  | cons c r =>
      rw [List.cons_append, sign.eq_def, sign.eq_def]
      split <;> split <;> simp_all

/-- The exponent is the same with a blank behind the text. -/
theorem exponent_append_blank (r : List Char) :
    exponent (r ++ w) =
      ⟨(exponent r).taken, (exponent r).rest ++ w, (exponent r).complete⟩ := by
  cases r with
  | nil =>
      cases w with
      | nil => rfl
      | cons d w =>
          have small := Text.ne_of_blank blank (c := 'e') (by decide) d rfl
          have capital := Text.ne_of_blank blank (c := 'E') (by decide) d rfl
          simp [exponent, small, capital]
  | cons c r =>
      have digits := span_append_blank blank (p := Char.isDigit) (by decide) (sign r).2
      simp only [exponent, List.cons_append, sign_append_blank blank, digits]
      split <;> rfl

/-- A decimal numeral is the same with a blank behind the text. -/
theorem decimal_append_blank (r : List Char) :
    decimal (r ++ w) = ⟨(decimal r).taken, (decimal r).rest ++ w, (decimal r).complete⟩ := by
  simp only [decimal, mantissa_append_blank blank, exponent_append_blank blank]

/-- Scanning a numeral ends at a blank at the latest. -/
theorem scan_append_blank (r : List Char) :
    scan (r ++ w) = ⟨(scan r).taken, (scan r).rest ++ w, (scan r).complete⟩ := by
  by_cases hex : ∃ x s, r = '0' :: x :: s ∧ (x == 'x' || x == 'X') = true
  · obtain ⟨x, s, rfl, isX⟩ := hex
    have digits := span_append_blank blank (p := Text.isHexDigit) (by decide) s
    simp only [scan, List.cons_append, isX, if_true, digits]
  · have plain (x : Char) (s : List Char) (split : r = '0' :: x :: s) : x ≠ 'x' ∧ x ≠ 'X' := by
      refine ⟨?_, ?_⟩ <;>
        · rintro rfl
          exact hex ⟨_, s, split, rfl⟩
    rw [scan_eq_decimal plain, scan_eq_decimal, decimal_append_blank blank]
    intro x s split
    rcases r with _ | ⟨a, _ | ⟨b, r⟩⟩
    · obtain rfl : w = '0' :: x :: s := split
      exact absurd rfl (Text.ne_of_blank blank (c := '0') (by decide) '0' rfl)
    · obtain ⟨-, rfl⟩ : _ ∧ w = x :: s := List.cons.inj split
      exact ⟨Text.ne_of_blank blank (by decide) x rfl,
        Text.ne_of_blank blank (by decide) x rfl⟩
    · obtain ⟨rfl, again⟩ := List.cons.inj split
      obtain ⟨rfl, -⟩ := List.cons.inj again
      exact plain b r rfl

/-- **A numeral, complete or malformed**, is read the same before a blank. -/
theorem read_append_blank (r : List Char) : read (r ++ w) = ((read r).1, (read r).2 ++ w) := by
  have tail : ∀ d ∈ w.head?, isTail d = false := Text.not_of_blank blank (by decide)
  have next (s : List Char) : (s ++ w).head?.any isTail = s.head?.any isTail := by
    cases s with
    | nil =>
        cases w with
        | nil => rfl
        | cons d w => simpa using tail d rfl
    | cons c s => rfl
  have junk := span_append_blank blank (p := isTail) (by decide) (scan r).rest
  simp only [read, scan_append_blank blank, next, junk]
  split <;> rfl

/-- Whether a numeral begins does not depend on a blank behind the text. -/
theorem starts_append_blank (c : Char) (r : List Char) : starts c (r ++ w) = starts c r := by
  cases r with
  | nil =>
      cases w with
      | nil => rfl
      | cons d w =>
          have digit := Text.not_of_blank blank (p := Char.isDigit) (by decide) d rfl
          simp [starts, digit]
  | cons d r => rfl

end Numeral

namespace Lexer

/-! ### Unclosed tokens -/

/-- A quote, bracket or blob that is not closed before the end of the text. Inside quotes a
doubled quote closes nothing. -/
inductive IsUnclosed : List Char → Prop
  | quote {quote : Char} (isQuote : quote ∈ ['\x27', '\x22', '\x60']) (content : List Char) :
      IsUnclosed (quote :: Text.doubled quote content)
  | square {r : List Char} (inside : ']' ∉ r) : IsUnclosed ('[' :: r)
  | blob {x : Char} {r : List Char} (isX : x = 'x' ∨ x = 'X') (inside : '\x27' ∉ r) :
      IsUnclosed (x :: '\x27' :: r)

/-- Quotes are not closed if all that occur are doubled. -/
theorem close_eq_none_iff {quote : Char} {r : List Char} :
    close quote r = none ↔ ∃ content, r = Text.doubled quote content := by
  constructor
  · intro h
    fun_induction close quote r with
    | case1 => exact ⟨[], rfl⟩
    | case2 => exact absurd h (by simp)
    | case3 s ih =>
        obtain ⟨content, rfl⟩ := ih (Option.map_eq_none_iff.1 h)
        exact ⟨quote :: content, by simp [Text.doubled]⟩
    | case4 => exact absurd h (by simp)
    | case5 c r other ih =>
        obtain ⟨content, rfl⟩ := ih (Option.map_eq_none_iff.1 h)
        exact ⟨c :: content, by simp [Text.doubled, other]⟩
  · rintro ⟨content, rfl⟩
    induction content with
    | nil => rfl
    | cons c content ih =>
        by_cases same : c = quote
        · subst same
          simp [Text.doubled, close, ih]
        · rw [Text.doubled, if_neg same, close.eq_def]
          simp [same, ih]

/-- When the token at the front of a text is not closed. -/
theorem isUnclosed_cons_iff {c : Char} {r : List Char} : IsUnclosed (c :: r) ↔
    (c ∈ ['\x27', '\x22', '\x60'] ∧ close c r = none) ∨ (c = '[' ∧ ']' ∉ r) ∨
      ((c = 'x' ∨ c = 'X') ∧ r.head? = some '\x27' ∧ '\x27' ∉ r.tail) := by
  constructor
  · rintro (⟨isQuote, content⟩ | inside | ⟨isX, inside⟩)
    · exact .inl ⟨isQuote, close_eq_none_iff.2 ⟨content, rfl⟩⟩
    · exact .inr (.inl ⟨rfl, inside⟩)
    · exact .inr (.inr ⟨isX, rfl, inside⟩)
  · rintro (⟨isQuote, unclosed⟩ | ⟨rfl, inside⟩ | ⟨isX, first, inside⟩)
    · obtain ⟨content, rfl⟩ := close_eq_none_iff.1 unclosed
      exact .quote isQuote content
    · exact .square inside
    · obtain ⟨s, rfl⟩ := List.head?_eq_some_iff.1 first
      exact .blob isX inside

instance : DecidablePred IsUnclosed
  | [] => isFalse nofun
  | _ :: _ => decidable_of_iff _ isUnclosed_cons_iff.symm

/-! ### One token -/

section Readers

variable {r w : List Char}

/-- What is taken up to a character that occurs. -/
theorem span_append_of_mem {stop : Char} (h : stop ∈ r) : ∃ rest,
    r.dropWhile (· != stop) = stop :: rest ∧
      (r ++ w).takeWhile (· != stop) = r.takeWhile (· != stop) ∧
      (r ++ w).dropWhile (· != stop) = stop :: (rest ++ w) := by
  cases found : r.dropWhile (· != stop) with
  | nil => exact absurd (List.dropWhile_eq_nil_iff.1 found stop h) (by simp)
  | cons d rest =>
      have ends := stop_of_dropWhile_eq found
      have same := ends d rfl
      rw [bne_eq_false_iff_eq] at same
      subst same
      have pieces := span_append (p := (· != d)) (r := r) (w := w) (by rw [found]; exact ends)
      rw [found] at pieces
      exact ⟨rest, rfl, pieces⟩

/-- A name whose bracket is closed is read the same before any text. -/
theorem readSquare_append_of_mem (closed : ']' ∈ r) :
    readSquare (r ++ w) = ((readSquare r).1, (readSquare r).2 ++ w) := by
  obtain ⟨rest, found, taken, dropped⟩ := span_append_of_mem (w := w) closed
  simp only [readSquare, found, taken, dropped]

/-- A blob whose quote is closed, valid or not, is read the same before any text. -/
theorem readBlob_append_of_mem (x : Char) (closed : '\x27' ∈ r) :
    readBlob x (r ++ w) = ((readBlob x r).1, (readBlob x r).2 ++ w) := by
  obtain ⟨rest, found, taken, dropped⟩ := span_append_of_mem (w := w) closed
  simp only [readBlob, found, taken, dropped]
  split <;> rfl

variable (blank : ∀ d ∈ w.head?, Text.isBlank d = true)
include blank

/-- A quoted text that is closed is the same with a blank behind the text. -/
theorem readQuoted_append_blank {quote : Char} (kind : TokenKind) (none : quote ∉ Text.blanks)
    (closed : close quote r ≠ .none) :
    readQuoted quote kind (r ++ w) =
      ((readQuoted quote kind r).1, (readQuoted quote kind r).2 ++ w) := by
  obtain ⟨⟨content, rest⟩, found⟩ := Option.ne_none_iff_exists'.1 closed
  obtain ⟨rfl, stop⟩ := close_eq_some_iff.1 found
  have again : close quote (Text.doubled quote content ++ quote :: rest ++ w) =
      some (content, rest ++ w) :=
    close_eq_some_iff.2 ⟨by simp, Text.head_append_blank blank none stop⟩
  simp only [readQuoted, found, again]

/-- What begins a text with a blank behind it, begins the text. -/
theorem isPrefixOf_append_blank {p : List Char} (none : ∀ d ∈ p, d ∉ Text.blanks)
    (r : List Char) : p.isPrefixOf (r ++ w) = p.isPrefixOf r := by
  induction p generalizing r with
  | nil => simp
  | cons a p ih =>
      rw [List.forall_mem_cons] at none
      cases r with
      | nil =>
          cases w with
          | nil => rfl
          | cons d w => simp [List.isPrefixOf, (Text.ne_of_blank blank none.1 d rfl).symm]
      | cons c r => simp [List.isPrefixOf, ih none.2]

/-- A sign is the same with a blank behind the text. -/
theorem readSign_append_blank (c : Char) (r : List Char) :
    readSign c (r ++ w) = ((readSign c r).1, (readSign c r).2 ++ w) := by
  have plain : ∀ sign ∈ signs, ∀ d ∈ sign.1, d ∉ Text.blanks := by decide
  have same : (signs.find? fun sign => sign.1.isPrefixOf (c :: (r ++ w))) =
      signs.find? fun sign => sign.1.isPrefixOf (c :: r) :=
    List.find?_congr fun sign member =>
      isPrefixOf_append_blank blank (plain sign member) (c :: r)
  unfold readSign
  rw [same]
  split
  · rename_i spelling kind found
    have begins := List.find?_some found
    rw [List.isPrefixOf_iff_prefix] at begins
    have short := begins.length_le
    simp only [List.length_cons] at short
    rw [List.drop_append_of_le_length (by omega)]
  · rfl

/-- A word is the same with a blank behind the text. -/
theorem readWord_append_blank (c : Char) (r : List Char) :
    readWord c (r ++ w) = ((readWord c r).1, (readWord c r).2 ++ w) := by
  obtain ⟨taken, dropped⟩ := span_append_blank blank (p := Text.isWordPart) (by decide) r
  rw [readWord, readWord, taken, dropped]

/-- **A token, valid or not, is read the same** before a text that begins with a blank, unless
it is not closed. -/
theorem read_append_blank {c : Char} (closed : ¬IsUnclosed (c :: r)) :
    read c (r ++ w) = ((read c r).1, (read c r).2 ++ w) := by
  rw [isUnclosed_cons_iff, not_or, not_or] at closed
  obtain ⟨noQuote, noSquare, noBlob⟩ := closed
  have still := Numeral.starts_append_blank blank c r
  cases read_cases c r with
  | quoted kind quote reads =>
      have plain : ∀ q ∈ quotes, q.1 ∉ Text.blanks ∧ q.1 ∈ ['\x27', '\x22', '\x60'] := by
        decide
      obtain ⟨none, isQuote⟩ := plain _ quote
      rw [reads, reads]
      exact readQuoted_append_blank blank kind none fun open_ => noQuote ⟨isQuote, open_⟩
  | square bracket reads =>
      rw [reads, reads]
      exact readSquare_append_of_mem (not_not.1 fun inside => noSquare ⟨bracket, inside⟩)
  | numeral starts =>
      rw [read_of_starts starts, read_of_starts (still.trans starts), ← List.cons_append,
        Numeral.read_append_blank blank]
  | blob isX quote =>
      obtain ⟨s, rfl⟩ := List.head?_eq_some_iff.1 quote
      rw [List.cons_append, read_blob isX, read_blob isX]
      exact readBlob_append_of_mem c (not_not.1 fun inside => noBlob ⟨isX, rfl, inside⟩)
  | word start noBlob =>
      rw [read_of_isWordStart start noBlob, read_of_isWordStart start,
        readWord_append_blank blank]
      exact fun isX => Text.head_append_blank blank (by decide) (noBlob isX)
  | sign quote numeral word =>
      rw [read_sign quote numeral word, read_sign quote (still.trans numeral) word,
        readSign_append_blank blank]

/-- What precedes the first token is skipped, and no comment arises behind it. -/
theorem skip_append_blank {cs : List Char} {c : Char} (skipped : skip cs = c :: r) :
    skip (cs ++ w) = c :: (r ++ w) := by
  have bare : skip (c :: r) = c :: r := by
    rw [← skipped]
    exact skip_skipFrom .open cs
  obtain ⟨notBlank, minus, slash⟩ := skip_cons_iff.1 bare
  have still : skip (c :: (r ++ w)) = c :: (r ++ w) :=
    skip_cons_iff.2 ⟨notBlank, fun first => Text.head_append_blank blank (by decide) (minus first),
      fun first => Text.head_append_blank blank (by decide) (slash first)⟩
  obtain ⟨g, rfl, gap, closed⟩ := exists_gap_of_skipFrom skipped (by simp)
  rw [List.append_assoc]
  exact skipFrom_append gap closed still

end Readers

/-! ### All tokens -/

/-- A text at whose end no quote, bracket, blob or comment is open. -/
structure IsClosed (cs : List Char) : Prop where
  /-- Every token is closed. -/
  tokens : ∀ lexeme ∈ lexemes cs, ¬IsUnclosed lexeme.source
  /-- So is every comment. -/
  comments : endsInComment cs = false

/-- **The tokens of a text before a blank.** Induction on the length of the text: its first
token is read the same, and what is left after it is closed too. -/
theorem IsClosed.tokens_append {cs w : List Char} (h : IsClosed cs)
    (blank : ∀ d ∈ w.head?, Text.isBlank d = true) :
    Lexer.tokens (cs ++ w) = Lexer.tokens cs ++ Lexer.tokens w := by
  induction n : cs.length using Nat.strongRecOn generalizing cs with
  | _ n ih =>
      subst n
      cases skipped : skip cs with
      | nil =>
          have none : first cs = none := by rw [first, skipped]
          have gap : IsGap cs .open :=
            isGap_iff.2 ⟨skipped, gapEnd_of_endsInComment none h.comments⟩
          rw [tokens_of_skip_eq (gap.skip_append rfl w), tokens_of_first_none none,
            List.nil_append]
      | cons c r =>
          have split := lexemes_of_skip_cons skipped
          have closed : ¬IsUnclosed (c :: r) :=
            h.tokens ⟨_, c :: r, _⟩ (by rw [split]; exact List.mem_cons_self)
          have found : first cs = some ((read c r).1, (read c r).2) := first_of_skip skipped
          have rest : IsClosed (read c r).2 := by
            refine ⟨fun lexeme member => h.tokens lexeme ?_, ?_⟩
            · rw [split]
              exact List.mem_cons_of_mem _ member
            · rw [endsInComment, ← remainder_of_first found]
              exact h.comments
          have next := first_of_skip (skip_append_blank blank skipped)
          rw [read_append_blank blank closed] at next
          have later := ih _ (length_read_of_skip skipped) rest rfl
          rw [tokens_of_first next, tokens_of_first found, later, List.cons_append]

end Lexer

open Lexer

/-- **The tokens of a text, a gap and a text** are those of the two texts, whatever they are,
if nothing is open at the end of the first and the gap begins with a blank. -/
theorem tokenize_append_gap {s g t : String} (closed : IsClosed s.toList)
    (gap : IsGap g.toList .open) (blank : ∃ c ∈ g.toList.head?, Text.isBlank c = true) :
    tokenize (s ++ g ++ t) = tokenize s ++ tokenize t := by
  obtain ⟨c, first, isBlank⟩ := blank
  obtain ⟨r, split⟩ := List.head?_eq_some_iff.1 first
  have front : ∀ d ∈ (g.toList ++ t.toList).head?, Text.isBlank d = true := by
    rw [split]
    rintro _ ⟨⟩
    exact isBlank
  rw [← tokens_toList, String.toList_append, String.toList_append, List.append_assoc,
    closed.tokens_append front, tokens_of_skip_eq (gap.skip_append rfl t.toList), tokens_toList,
    tokens_toList]

/-- A malformed number before a gap of all kinds and a quote that stays open: four tokens stand
before the gap and three after it. -/
theorem tokenize_append_gap_malformed :
    IsClosed "[a'] x'1' 'é''' 1.5e".toList ∧ IsGap "\n/* ' **/--[\n".toList .open ∧
      (∃ c ∈ "\n/* ' **/--[\n".toList.head?, Text.isBlank c = true) ∧
      tokenize "[a'] x'1' 'é''' 1.5e" =
        [⟨"a'", .squareIdentifier⟩, ⟨"x'1'", .invalid⟩, ⟨"é'", .stringLiteral⟩,
          ⟨"1.5e", .invalid⟩] ∧
      tokenize "+2 'b" = [⟨"+", .sign⟩, ⟨"2", .numeric⟩, ⟨"'b", .invalid⟩] ∧
      tokenize ("[a'] x'1' 'é''' 1.5e" ++ "\n/* ' **/--[\n" ++ "+2 'b") =
        tokenize "[a'] x'1' 'é''' 1.5e" ++ tokenize "+2 'b" := by
  have closed : IsClosed "[a'] x'1' 'é''' 1.5e".toList := by
    refine ⟨?_, ?_⟩
    · have all : (lexemes "[a'] x'1' 'é''' 1.5e".toList).all
          (fun lexeme => !decide (IsUnclosed lexeme.source)) = true := by cbv
      simpa using all
    · cbv
  have gap : IsGap "\n/* ' **/--[\n".toList .open := isGap_iff.2 ⟨by cbv, by cbv⟩
  have blank : ∃ c ∈ "\n/* ' **/--[\n".toList.head?, Text.isBlank c = true :=
    ⟨'\n', rfl, rfl⟩
  have before : tokenize "[a'] x'1' 'é''' 1.5e" =
      [⟨"a'", .squareIdentifier⟩, ⟨"x'1'", .invalid⟩, ⟨"é'", .stringLiteral⟩,
        ⟨"1.5e", .invalid⟩] := by
    rw [← tokens_toList]
    cbv
  have after : tokenize "+2 'b" = [⟨"+", .sign⟩, ⟨"2", .numeric⟩, ⟨"'b", .invalid⟩] := by
    rw [← tokens_toList]
    cbv
  exact ⟨closed, gap, blank, before, after, tokenize_append_gap closed gap blank⟩

end SchemaText
