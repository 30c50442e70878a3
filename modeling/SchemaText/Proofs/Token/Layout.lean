import Mathlib.Data.List.Chain
import Mathlib.Data.List.ReduceOption
import Mathlib.Data.List.TakeWhile
import SchemaText.Proofs.Token.Spoken
import SchemaText.Table.Printer

/-!
# Texts with more blanks than they need

A text in which the tokens are spelled one by one, with blanks between them here and there.
It is read as these tokens if no blank is missing. Parentheses and commas need none.

## Main definitions

* `Layout`: tokens and the blanks between them, and `Layout.chars`: how they are written.
* `Layout.IsLegible`: no blank is missing.
* `Layout.spaced`, `Layout.listed`, `Layout.enclosed`: words in a row, pieces with commas
  between them, and what stands in parentheses.
* `Token.numeral`, `Layout.ofInt`: numbers.

## Main results

* `Layout.IsLegible.tokens_chars`: **a legible layout is read token by token**.
-/

namespace SchemaText

open Token Lexer

variable {a b : Token} {ts : List Token}

/-- A keyword is written in capitals. -/
theorem Token.spelling_keyword (k : Keyword) : (keyword k).spelling = k.spelling.toList :=
  IsWellSpelled.spelling_word k.spelling

/-! ### Layouts -/

/-- Tokens with blanks between them: each item is a token, or a blank. -/
abbrev Layout :=
  List (Option Token)

namespace Layout

variable {l l' : Layout} {pieces : List Layout}

/-- A layout as it is written. -/
def chars (l : Layout) : List Char :=
  l.flatMap (·.elim [' '] spelling)

/-- The tokens are well spelled, and no blank is missing between two of them. -/
structure IsLegible (l : Layout) : Prop where
  /-- The tokens are well spelled. -/
  spelled : ∀ t ∈ l.reduceOption, t.IsWellSpelled
  /-- No blank is missing. -/
  apart : l.IsChain fun p q => ∀ a ∈ p, ∀ b ∈ q, a.needsSpace b = false

/-- The layout can stand behind any token, as it begins with a blank, a comma or a
parenthesis. -/
def IsLoose (l : Layout) : Prop :=
  ∀ b, l.head? = some (some b) → b.kind.leadingEdge = .closed

@[simp] theorem chars_nil : chars [] = [] := rfl

/-- A blank is written as one space. -/
@[simp] theorem chars_blank : chars (none :: l) = ' ' :: chars l := rfl

/-- A token is written as it is spelled. -/
@[simp] theorem chars_token : chars (some a :: l) = a.spelling ++ chars l := rfl

/-- Layouts are written one after the other. -/
@[simp] theorem chars_append : chars (l ++ l') = chars l ++ chars l' :=
  List.flatMap_append

theorem isLegible_nil : IsLegible [] :=
  ⟨by simp, .nil⟩

/-- A blank may stand before a legible layout. -/
theorem IsLegible.blank (h : IsLegible l) : IsLegible (none :: l) :=
  ⟨h.spelled, List.isChain_cons.2 ⟨by simp, h.apart⟩⟩

/-- A token can stand before what does not run into it. -/
theorem IsLegible.token (h : IsLegible l) (spelled : a.IsWellSpelled)
    (apart : ∀ b, l.head? = some (some b) → a.needsSpace b = false) :
    IsLegible (some a :: l) where
  spelled := List.forall_mem_cons.2 ⟨spelled, h.spelled⟩
  apart := by
    refine List.isChain_cons.2 ⟨?_, h.apart⟩
    rintro q next _ ⟨⟩ b rfl
    exact apart b next

/-- A loose layout can stand behind another one. -/
theorem IsLegible.append (h : IsLegible l) (h' : IsLegible l') (loose : IsLoose l') :
    IsLegible (l ++ l') where
  spelled := by
    rw [List.reduceOption_append]
    exact List.forall_mem_append.2 ⟨h.spelled, h'.spelled⟩
  apart := by
    refine List.isChain_append.2 ⟨h.apart, h'.apart, ?_⟩
    rintro p - q next a - b rfl
    exact needsSpace_of_closed a (loose b next)

/-- A loose layout can stand behind a token. -/
theorem IsLegible.cons (h : IsLegible l) (spelled : a.IsWellSpelled) (loose : IsLoose l) :
    IsLegible (some a :: l) :=
  h.token spelled fun b next => needsSpace_of_closed a (loose b next)

/-- A single token is legible if it is well spelled. -/
theorem isLegible_token (spelled : a.IsWellSpelled) : IsLegible [some a] :=
  isLegible_nil.token spelled (by simp)

/-- An empty layout can stand behind any token. -/
theorem isLoose_nil : IsLoose [] := by
  rintro b ⟨⟩

/-- So can one that begins with a blank. -/
theorem isLoose_blank : IsLoose (none :: l) := by
  rintro b ⟨⟩

/-- So can two such layouts together. -/
theorem IsLoose.append (h : IsLoose l) (h' : IsLoose l') : IsLoose (l ++ l') := by
  cases l with
  | nil => exact h'
  | cons p l => exact h

/-- A legible layout is so without its first entry. -/
theorem IsLegible.tail {p : Option Token} (h : IsLegible (p :: l)) : IsLegible l where
  spelled := fun t member => h.spelled t <| by
    rw [List.reduceOption_mem_iff] at member ⊢
    exact List.mem_cons_of_mem _ member
  apart := (List.isChain_cons.1 h.apart).2

/-- A token is left as it is by what follows it in a legible layout. -/
theorem IsLegible.stopsAt (h : IsLegible (some a :: l)) :
    ∀ c ∈ (chars l).head?, a.stopsAt c = true := by
  have spelled : a.IsWellSpelled := h.spelled a (by simp)
  cases l with
  | nil => simp
  | cons p l =>
      cases p with
      | none =>
          rintro _ ⟨⟩
          exact spelled.stopsAt_space
      | some b =>
          have next : b.IsWellSpelled := h.tail.spelled b (by simp)
          have apart := (List.isChain_cons_cons.1 h.apart).1 a rfl b rfl
          obtain ⟨c, s, split, -⟩ := next.exists_cons_spelling
          have stop := spelled.stopsAt_of_not_needsSpace next apart
          rw [chars_token, split]
          rw [split] at stop
          exact stop

/-- **A legible layout is read token by token.** -/
theorem IsLegible.tokens_chars (h : IsLegible l) : tokens (chars l) = l.reduceOption := by
  induction l with
  | nil => exact tokens_of_first_none rfl
  | cons p l ih =>
      cases p with
      | none =>
          rw [chars_blank, List.reduceOption_cons_of_none]
          exact (tokens_blank _).trans (ih h.tail)
      | some a =>
          have spelled : a.IsWellSpelled := h.spelled a (by simp)
          rw [chars_token, List.reduceOption_cons_of_some,
            tokens_of_first (spelled.first_spelling h.stopsAt), ih h.tail]

/-! ### Words and lists -/

/-- Tokens with a blank before each of them. -/
def spaced (ts : List Token) : Layout :=
  ts.flatMap fun t => [none, some t]

@[simp] theorem chars_spaced_nil : chars (spaced []) = [] := rfl

/-- Every token is written behind its blank. -/
@[simp] theorem chars_spaced_cons :
    chars (spaced (a :: ts)) = ' ' :: (a.spelling ++ chars (spaced ts)) := rfl

/-- The blanks between tokens add no token. -/
@[simp] theorem reduceOption_spaced : (spaced ts).reduceOption = ts := by
  induction ts with
  | nil => rfl
  | cons t ts ih => exact congrArg (t :: ·) ih

/-- Spaced tokens can stand behind any token. -/
theorem isLoose_spaced : IsLoose (spaced ts) := by
  cases ts with
  | nil => exact isLoose_nil
  | cons t ts => exact isLoose_blank

/-- Spaced tokens are legible if they are well spelled. -/
theorem isLegible_spaced (spelled : ∀ t ∈ ts, t.IsWellSpelled) : IsLegible (spaced ts) := by
  induction ts with
  | nil => exact isLegible_nil
  | cons t ts ih =>
      obtain ⟨first, others⟩ := List.forall_mem_cons.1 spelled
      exact ((ih others).cons first isLoose_spaced).blank

/-- So is a single one. -/
theorem isLegible_word (spelled : a.IsWellSpelled) : IsLegible (spaced [a]) :=
  isLegible_spaced (List.forall_mem_singleton.2 spelled)

/-- Pieces with a comma and a blank between them. -/
def listed (pieces : List Layout) : Layout :=
  [some comma, none].intercalate pieces

/-- A list is written with a comma and a blank between two pieces. -/
theorem chars_listed : chars (listed pieces) = [',', ' '].intercalate (pieces.map chars) := by
  induction pieces with
  | nil => rfl
  | cons piece pieces ih =>
      cases pieces with
      | nil => simp [listed]
      | cons next pieces =>
          rw [listed, List.intercalate_cons_cons, chars_append, chars_append, ← listed, ih,
            List.map_cons, List.map_cons, List.map_cons, List.intercalate_cons_cons]
          rfl

/-- The tokens of a list are those of its pieces with commas between them. -/
theorem reduceOption_listed :
    (listed pieces).reduceOption = commaList (pieces.map List.reduceOption) := by
  induction pieces with
  | nil => rfl
  | cons piece pieces ih =>
      cases pieces with
      | nil => simp [listed]
      | cons next pieces =>
          rw [listed, List.intercalate_cons_cons, List.reduceOption_append,
            List.reduceOption_append, ← listed, ih, List.append_assoc]
          exact (commaList_cons _ (by simp)).symm

/-- A list of legible pieces is legible. -/
theorem isLegible_listed (legible : ∀ piece ∈ pieces, IsLegible piece) :
    IsLegible (listed pieces) := by
  induction pieces with
  | nil => exact isLegible_nil
  | cons piece pieces ih =>
      obtain ⟨first, others⟩ := List.forall_mem_cons.1 legible
      cases pieces with
      | nil => simpa [listed] using first
      | cons next pieces =>
          rw [listed, List.intercalate_cons_cons, List.append_assoc]
          refine first.append ((ih others).blank.cons isWellSpelled_comma isLoose_blank) ?_
          rintro _ ⟨⟩
          rfl

/-- A layout in parentheses. -/
def enclosed (l : Layout) : Layout :=
  some openParen :: (l ++ [some closeParen])

/-- An enclosed layout is written between parentheses. -/
theorem chars_enclosed : chars (enclosed l) = '(' :: (chars l ++ [')']) := by
  rw [enclosed, chars_token, chars_append]
  rfl

/-- Its tokens stand between parentheses. -/
theorem reduceOption_enclosed :
    (enclosed l).reduceOption = openParen :: (l.reduceOption ++ [closeParen]) := by
  rw [enclosed, List.reduceOption_cons_of_some, List.reduceOption_append]
  rfl

/-- It can stand behind any token. -/
theorem isLoose_enclosed : IsLoose (enclosed l) := by
  rintro _ ⟨⟩
  rfl

/-- It is legible if what it encloses is. -/
theorem IsLegible.enclosed (h : IsLegible l) : IsLegible (Layout.enclosed l) := by
  have inner := h.append (isLegible_token isWellSpelled_closeParen)
  refine (inner ?_).token isWellSpelled_openParen fun b _ => ?_
  · rintro _ ⟨⟩
    rfl
  · have closed : openParen.kind.trailingEdge = .closed := rfl
    rw [needsSpace, closed]
    rfl

end Layout

/-! ### Numbers -/

/-- A natural number in decimal digits. -/
def Token.numeral (n : Nat) : Token :=
  ⟨toString n, .numeric⟩

/-- A number is written in its digits. -/
@[simp] theorem Token.spelling_numeral (n : Nat) :
    (numeral n).spelling = (toString n).toList := rfl

/-- Digits are a number. -/
theorem Token.isWellSpelled_numeral (n : Nat) : (numeral n).IsWellSpelled := by
  have digits : ∀ d ∈ Nat.toDigits 10 n, d.isDigit = true := fun d member =>
    Nat.isDigit_of_mem_toDigits (by decide) (by decide) member
  obtain ⟨c, r, split⟩ := List.exists_cons_of_ne_nil (@Nat.toDigits_ne_nil n 10)
  have same : numeral n = ⟨String.ofList (c :: r), .numeric⟩ := by
    rw [numeral, ← split]
    rfl
  rw [split] at digits
  have takes : (c :: r).takeWhile Char.isDigit = c :: r := List.takeWhile_eq_self_iff.2 digits
  have drops : (c :: r).dropWhile Char.isDigit = [] := List.dropWhile_eq_nil_iff.2 digits
  have decimal : Numeral.decimal (c :: r) = ⟨c :: r, [], true⟩ := by
    simp [Numeral.decimal, Numeral.mantissa, takes, drops, Numeral.exponent]
  have scan : Numeral.scan (c :: r) = ⟨c :: r, [], true⟩ := by
    rw [← decimal]
    refine Numeral.scan_eq_decimal fun x s same => ?_
    have digit := digits x (by simp [same])
    exact ⟨by rintro rfl; exact absurd digit (by decide),
      by rintro rfl; exact absurd digit (by decide)⟩
  rw [same]
  refine .numeric ?_ ?_
  · simp [Numeral.starts, digits c (by simp)]
  · simp [Numeral.read, scan]

namespace Layout

/-- A number with its sign, if it is negative. -/
def ofInt : Int → Layout
  | .ofNat n => [some (numeral n)]
  | .negSucc n => [some ⟨"-", .sign⟩, some (numeral (n + 1))]

/-- An integer is written as usual. -/
theorem chars_ofInt (value : Int) : chars (ofInt value) = (toString value).toList := by
  cases value with
  | ofNat n => exact List.append_nil _
  | negSucc n =>
      have sign : (toString (Int.negSucc n)).toList = "-".toList ++
          (toString (n + 1)).toList :=
        String.toList_append
      rw [sign, ofInt, chars_token, chars_token, chars_nil, List.append_nil]
      rfl

/-- An integer is legible, its sign included. -/
theorem isLegible_ofInt (value : Int) : IsLegible (ofInt value) := by
  cases value with
  | ofNat n => exact isLegible_token (isWellSpelled_numeral n)
  | negSucc n =>
      refine (isLegible_token (isWellSpelled_numeral (n + 1))).token
        (.sign (show (['-'], TokenKind.sign) ∈ signs by decide)) ?_
      rintro _ ⟨⟩
      rfl

end Layout

end SchemaText
