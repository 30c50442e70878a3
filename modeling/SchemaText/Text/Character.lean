/-!
# Character classes of SQL text

The lexer distinguishes blanks, digits and the characters of words. A character outside
ASCII always belongs to a word.

## Main definitions

* `Text.isBlank`: what separates tokens.
* `Text.isSpace`: white space in any script.
* `Text.isHexDigit`: the digits of hexadecimal numbers and blobs.
* `Text.isWordStart`, `Text.isWordPart`: what a word begins with and goes on with.

## Main results

* `Text.isWordPart_of_isWordStart`: what begins a word can also continue it.
* `Text.isWordPart_of_isDigit`: digits continue a word.
* `Text.isWordPart_of_isBlank`: a blank ends a word.
-/

namespace SchemaText

namespace Text

/-- The characters that separate tokens: space, tab, line feed, form feed and carriage
return. -/
def isBlank (c : Char) : Bool :=
  c == ' ' || c == '\t' || c == '\n' || c == '\x0c' || c == '\r'

/-- The characters that are white space in any script. -/
def isSpace (c : Char) : Bool :=
  isBlank c || c == '\x0b' || c == '\x85' || c == '\xa0' || c == '\u1680'
    || ('\u2000' ≤ c && c ≤ '\u200a') || c == '\u2028' || c == '\u2029' || c == '\u202f'
    || c == '\u205f' || c == '\u3000'

/-- The digits `0` to `9`, `a` to `f` and `A` to `F`. -/
def isHexDigit (c : Char) : Bool :=
  c.isDigit || ('a' ≤ c && c ≤ 'f') || ('A' ≤ c && c ≤ 'F')

/-- Whether a character lies outside ASCII. -/
def isWide (c : Char) : Bool :=
  128 ≤ c.toNat

/-- Whether a word can begin with the character. -/
def isWordStart (c : Char) : Bool :=
  c.isAlpha || c == '_' || isWide c

/-- Whether a word can go on with the character. -/
def isWordPart (c : Char) : Bool :=
  c.isAlphanum || c == '_' || c == '$' || isWide c

/-- What can begin a word can also continue it. -/
theorem isWordPart_of_isWordStart {c : Char} (h : isWordStart c = true) :
    isWordPart c = true := by
  simp only [isWordStart, isWordPart, Char.isAlphanum, Bool.or_eq_true] at *
  grind

/-- A digit continues a word. -/
theorem isWordPart_of_isDigit {c : Char} (h : c.isDigit = true) : isWordPart c = true := by
  simp [isWordPart, Char.isAlphanum, h]

/-- A blank ends a word. -/
theorem isWordPart_of_isBlank {c : Char} (h : isBlank c = true) : isWordPart c = false := by
  simp only [isBlank, Bool.or_eq_true, beq_iff_eq] at h
  rcases h with (((rfl | rfl) | rfl) | rfl) | rfl <;> decide

end Text

end SchemaText
