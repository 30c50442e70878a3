import SchemaText.Text.Character
import SchemaText.Token.Basic

/-!
# Numerals

A numeral is either `0x` with hexadecimal digits, or decimal digits with at most one point
among, before or after them, and an optional exponent. A numeral ends where no
point and no word character follows; otherwise everything up to that place is one invalid
token.

## Main definitions

* `Numeral.scan`: the longest piece at the front that follows the rules so far, and
  whether it is a complete numeral.
* `Numeral.read`: the token at the front of a text that begins with a numeral.

## Main results

* `Numeral.taken_append_rest`: scanning loses no character.
* `Numeral.length_read_lt`: reading uses up at least one character.
-/

namespace SchemaText

namespace Numeral

/-- A piece of text read from the front, and what it leaves. -/
structure Scan where
  /-- The characters read. -/
  taken : List Char
  /-- The characters after them. -/
  rest : List Char
  /-- Whether the characters read are a complete numeral. -/
  complete : Bool

/-- Reads decimal digits, and digits after a point if there is one. -/
def mantissa (cs : List Char) : List Char × List Char :=
  match cs.dropWhile Char.isDigit with
  | '.' :: r => (cs.takeWhile Char.isDigit ++ '.' :: r.takeWhile Char.isDigit,
      r.dropWhile Char.isDigit)
  | r => (cs.takeWhile Char.isDigit, r)

/-- Reads one sign, if there is one. -/
def sign : List Char → List Char × List Char
  | '+' :: r => (['+'], r)
  | '-' :: r => (['-'], r)
  | r => ([], r)

/-- Reads an exponent, if there is one: `e` or `E`, a sign or none, and at least one digit. -/
def exponent (cs : List Char) : Scan :=
  match cs with
  | [] => ⟨[], [], true⟩
  | c :: r =>
    if c == 'e' || c == 'E' then
      let digits := (sign r).2.takeWhile Char.isDigit
      ⟨c :: (sign r).1 ++ digits, (sign r).2.dropWhile Char.isDigit, !digits.isEmpty⟩
    else
      ⟨[], c :: r, true⟩

/-- Reads a decimal numeral. -/
def decimal (cs : List Char) : Scan :=
  let tail := exponent (mantissa cs).2
  ⟨(mantissa cs).1 ++ tail.taken, tail.rest, tail.complete⟩

/-- Reads the longest piece at the front that follows the rules of numerals. -/
def scan (cs : List Char) : Scan :=
  match cs with
  | '0' :: x :: r =>
    if x == 'x' || x == 'X' then
      let digits := r.takeWhile Text.isHexDigit
      ⟨'0' :: x :: digits, r.dropWhile Text.isHexDigit, !digits.isEmpty⟩
    else
      decimal ('0' :: x :: r)
  | _ => decimal cs

/-- The characters that cannot follow a numeral directly. -/
def isTail (c : Char) : Bool :=
  c == '.' || Text.isWordPart c

/-- The token at the front of a text that begins with a numeral, and the text after it. A
malformed numeral takes along everything up to the next character that can follow one. -/
def read (cs : List Char) : Token × List Char :=
  let found := scan cs
  if found.complete && !found.rest.head?.any isTail then
    (⟨String.ofList found.taken, .numeric⟩, found.rest)
  else
    (⟨String.ofList (found.taken ++ found.rest.takeWhile isTail), .invalid⟩,
      found.rest.dropWhile isTail)

/-! ### Nothing is lost -/

/-- The mantissa and what follows it make up the text. -/
theorem mantissa_append (cs : List Char) : (mantissa cs).1 ++ (mantissa cs).2 = cs := by
  have h := List.takeWhile_append_dropWhile (p := Char.isDigit) (l := cs)
  unfold mantissa
  split
  · rename_i r hr
    simp only [List.append_assoc, List.cons_append, List.takeWhile_append_dropWhile]
    rw [← hr, h]
  · exact h

/-- The sign and what follows it make up the text. -/
theorem sign_append (cs : List Char) : (sign cs).1 ++ (sign cs).2 = cs := by
  unfold sign
  split <;> rfl

/-- The exponent and what follows it make up the text. -/
theorem exponent_append (cs : List Char) : (exponent cs).taken ++ (exponent cs).rest = cs := by
  unfold exponent
  split
  · rfl
  · split
    · simp only [List.cons_append, List.append_assoc, List.takeWhile_append_dropWhile,
        sign_append]
    · rfl

/-- A decimal numeral and what follows it make up the text. -/
theorem decimal_append (cs : List Char) : (decimal cs).taken ++ (decimal cs).rest = cs := by
  simp only [decimal, List.append_assoc, exponent_append, mantissa_append]

/-- Scanning a numeral loses no character. -/
theorem taken_append_rest (cs : List Char) : (scan cs).taken ++ (scan cs).rest = cs := by
  unfold scan
  split
  · split
    · simp only [List.cons_append, List.takeWhile_append_dropWhile]
    · exact decimal_append _
  · exact decimal_append _

/-! ### Reading makes progress -/

/-- Whether a numeral begins with the character `c`, followed by `r`. -/
def starts (c : Char) (r : List Char) : Bool :=
  c.isDigit || (c == '.' && r.head?.any Char.isDigit)

/-- A numeral that begins with a digit or a point has a mantissa. -/
theorem mantissa_ne_nil {c : Char} {r : List Char} (h : starts c r = true) :
    (mantissa (c :: r)).1 ≠ [] := by
  unfold mantissa
  by_cases digit : c.isDigit = true
  · split <;> simp [digit]
  · have point : c = '.' := by
      simp only [starts, Bool.or_eq_true, Bool.and_eq_true, beq_iff_eq] at h
      exact (h.resolve_left digit).1
    subst point
    split
    · simp
    · rename_i h'
      exact absurd rfl (h' r)

/-- Scanning makes progress wherever a numeral begins. -/
theorem scan_taken_ne_nil {c : Char} {r : List Char} (h : starts c r = true) :
    (scan (c :: r)).taken ≠ [] := by
  unfold scan
  split
  · split
    · simp
    · rename_i x t hc _
      injection hc with hc ht
      subst hc ht
      simp [decimal, mantissa_ne_nil h]
  · simp [decimal, mantissa_ne_nil h]

/-- A numeral takes a character at least. -/
theorem length_read_lt {c : Char} {r : List Char} (h : starts c r = true) :
    (read (c :: r)).2.length < (c :: r).length := by
  have nonempty := scan_taken_ne_nil h
  have whole := congrArg List.length (taken_append_rest (c :: r))
  have shorter : (read (c :: r)).2.length ≤ (scan (c :: r)).rest.length := by
    unfold read
    simp only
    split
    · exact Nat.le_refl _
    · exact (List.dropWhile_suffix _).length_le
  have := List.length_pos_iff.2 nonempty
  simp only [List.length_append] at whole
  omega

end Numeral

end SchemaText
