import SchemaText.Token.Numeral

/-!
# The lexer

Splits a text into tokens. No text is refused: a quote that is never closed, a malformed
number or a stray character becomes an invalid token, and reading goes on after it.

Between tokens, blanks and comments are skipped. A comment runs from `--` to the end of its
line, or from `/*` to the next `*/`, or to the end of the text.

## Main definitions

* `Lexer.skip`: the text without its leading blanks and comments.
* `Lexer.read`: the first token of a text that begins with one.
* `lexemes`: the tokens of a text, each with the text from it on and the text after it.
* `tokenize`: the tokens of a text.

## Main results

* `Lexer.length_read_of_skip`: a token uses up at least one character.
* `lexemes_of_skip_cons`: a text is its first token and the lexemes of what follows.
-/

namespace SchemaText

namespace Lexer

/-! ### Between tokens -/

/-- Where skipping stands: between tokens, in a line comment or in a block comment. -/
inductive Gap
  | open
  | line
  | block

/-- The text after leading blanks and comments. -/
def skipFrom : Gap → List Char → List Char
  | _, [] => []
  | .open, '-' :: '-' :: r => skipFrom .line r
  | .open, '/' :: '*' :: r => skipFrom .block r
  | .open, c :: r => if Text.isBlank c then skipFrom .open r else c :: r
  | .line, '\n' :: r => skipFrom .open r
  | .line, _ :: r => skipFrom .line r
  | .block, '*' :: '/' :: r => skipFrom .open r
  | .block, _ :: r => skipFrom .block r

/-- The text after leading blanks and comments. -/
def skip (cs : List Char) : List Char :=
  skipFrom .open cs

/-- Blanks and comments are skipped forwards only. -/
theorem length_skipFrom_le (gap : Gap) (cs : List Char) :
    (skipFrom gap cs).length ≤ cs.length := by
  fun_induction skipFrom gap cs <;> simp_all <;> omega

/-! ### Quoted tokens -/

/-- Splits a text at the quote that closes it: the content, in which a doubled quote stands
for one, and the text after the quote. -/
def close (quote : Char) : List Char → Option (List Char × List Char)
  | [] => none
  | c :: r =>
    if c = quote then
      match r with
      | [] => some ([], [])
      | d :: s =>
        if d = quote then (close quote s).map fun found => (quote :: found.1, found.2)
        else some ([], d :: s)
    else
      (close quote r).map fun found => (c :: found.1, found.2)

/-- The token between two quotes, for a text that begins with a quote and goes on with `r`. -/
def readQuoted (quote : Char) (kind : TokenKind) (r : List Char) : Token × List Char :=
  match close quote r with
  | some (content, rest) => (⟨String.ofList content, kind⟩, rest)
  | none => (⟨String.ofList (quote :: r), .invalid⟩, [])

/-- The name between `[` and the next `]`. -/
def readSquare (r : List Char) : Token × List Char :=
  match r.dropWhile (· != ']') with
  | _ :: rest => (⟨String.ofList (r.takeWhile (· != ']')), .squareIdentifier⟩, rest)
  | [] => (⟨String.ofList ('[' :: r), .invalid⟩, [])

/-- The blob between `x'` or `X'` and the next single quote. -/
def readBlob (x : Char) (r : List Char) : Token × List Char :=
  let digits := r.takeWhile (· != '\x27')
  match r.dropWhile (· != '\x27') with
  | quote :: rest =>
    if digits.length % 2 == 0 && digits.all Text.isHexDigit then
      (⟨String.ofList digits, .blobLiteral⟩, rest)
    else
      (⟨String.ofList (x :: quote :: digits ++ [quote]), .invalid⟩, rest)
  | [] => (⟨String.ofList (x :: '\x27' :: r), .invalid⟩, [])

/-! ### Signs and words -/

/-- The signs and their kinds, a longer one before its beginning. -/
def signs : List (List Char × TokenKind) :=
  [(['-', '>', '>'], .symbol), (['-', '>'], .symbol), (['|', '|'], .symbol),
   (['<', '<'], .symbol), (['<', '>'], .symbol), (['<', '='], .symbol),
   (['>', '>'], .symbol), (['>', '='], .symbol), (['=', '='], .symbol),
   (['!', '='], .symbol), (['('], .openParen), ([')'], .closeParen), ([','], .comma),
   (['~'], .symbolPrefix), (['+'], .sign), (['-'], .sign), (['*'], .symbol),
   (['/'], .symbol), (['%'], .symbol), (['&'], .symbol), (['|'], .symbol),
   (['<'], .symbol), (['>'], .symbol), (['='], .symbol), (['.'], .symbol)]

/-- The first sign of the table that the text begins with; else its first character, which
is invalid. -/
def readSign (c : Char) (r : List Char) : Token × List Char :=
  match signs.find? fun sign => sign.1.isPrefixOf (c :: r) with
  | some (spelling, kind) =>
    (⟨String.ofList spelling, kind⟩, r.drop (spelling.length - 1))
  | none => (⟨String.ofList [c], .invalid⟩, r)

/-- The word at the front of a text that begins with one. -/
def readWord (c : Char) (r : List Char) : Token × List Char :=
  (Token.word (String.ofList (c :: r.takeWhile Text.isWordPart)),
    r.dropWhile Text.isWordPart)

/-! ### Any token -/

/-- The first token of the text `c :: r`, where `c` is neither a blank nor begins a comment,
and the text after it. -/
def read (c : Char) (r : List Char) : Token × List Char :=
  if c == '\x27' then readQuoted c .stringLiteral r
  else if c == '\x22' then readQuoted c .quotedIdentifier r
  else if c == '\x60' then readQuoted c .backQuotedIdentifier r
  else if c == '[' then readSquare r
  else if Numeral.starts c r then Numeral.read (c :: r)
  else if Text.isWordStart c then
    match r with
    | '\x27' :: s => if c == 'x' || c == 'X' then readBlob c s else readWord c r
    | _ => readWord c r
  else readSign c r

/-- The closing quote is consumed. -/
theorem length_close_lt {quote : Char} {cs content rest : List Char}
    (h : close quote cs = some (content, rest)) : rest.length < cs.length := by
  fun_induction close quote cs generalizing content with
  | case1 => simp at h
  | case2 => simp_all
  | case3 s ih =>
    obtain ⟨found, hfound, heq⟩ := Option.map_eq_some_iff.1 h
    obtain ⟨-, rfl⟩ := Prod.mk.injEq .. ▸ heq
    have := ih hfound
    simp only [List.length_cons]
    omega
  | case4 => simp_all
  | case5 c r _ ih =>
    obtain ⟨found, hfound, heq⟩ := Option.map_eq_some_iff.1 h
    obtain ⟨-, rfl⟩ := Prod.mk.injEq .. ▸ heq
    have := ih hfound
    simp only [List.length_cons]
    omega

/-- A quoted text ends behind its opening quote. -/
theorem length_readQuoted_le (quote : Char) (kind : TokenKind) (r : List Char) :
    (readQuoted quote kind r).2.length ≤ r.length := by
  unfold readQuoted
  split
  · rename_i found
    exact Nat.le_of_lt (length_close_lt found)
  · simp

/-- What follows the first character that fails a test is shorter than the whole. -/
theorem length_of_dropWhile_eq_cons {p : Char → Bool} {r rest : List Char} {c : Char}
    (h : r.dropWhile p = c :: rest) : rest.length < r.length := by
  have := (List.dropWhile_suffix p (l := r)).length_le
  rw [h] at this
  simp only [List.length_cons] at this
  omega

/-- A name in brackets ends behind its opening bracket. -/
theorem length_readSquare_le (r : List Char) : (readSquare r).2.length ≤ r.length := by
  unfold readSquare
  split
  · rename_i found
    exact Nat.le_of_lt (length_of_dropWhile_eq_cons found)
  · simp

/-- A blob ends behind its letter. -/
theorem length_readBlob_le (x : Char) (r : List Char) :
    (readBlob x r).2.length ≤ r.length := by
  unfold readBlob
  simp only
  split
  · rename_i found
    have := length_of_dropWhile_eq_cons found
    split <;> simp only <;> omega
  · simp

/-- A sign takes its first character along. -/
theorem length_readSign_le (c : Char) (r : List Char) :
    (readSign c r).2.length ≤ r.length := by
  unfold readSign
  split <;> simp

/-- A word takes its first character along. -/
theorem length_readWord_le (c : Char) (r : List Char) : (readWord c r).2.length ≤ r.length :=
  (List.dropWhile_suffix _).length_le

/-- Every token takes its first character along, so the lexer comes to an end. -/
theorem length_read_le (c : Char) (r : List Char) : (read c r).2.length ≤ r.length := by
  unfold read
  split
  · exact length_readQuoted_le _ _ _
  split
  · exact length_readQuoted_le _ _ _
  split
  · exact length_readQuoted_le _ _ _
  split
  · exact length_readSquare_le _
  split
  · rename_i h
    exact Nat.le_of_lt_succ (Numeral.length_read_lt h)
  split
  · split
    · split
      · have := length_readBlob_le c ‹_›
        simp only [List.length_cons]
        omega
      · exact length_readWord_le _ _
    · exact length_readWord_le _ _
  · exact length_readSign_le _ _

/-- The text after a token is shorter than the text before it. -/
theorem length_read_of_skip {cs r : List Char} {c : Char} (h : skip cs = c :: r) :
    (read c r).2.length < cs.length := by
  have before := length_skipFrom_le .open cs
  have after := length_read_le c r
  rw [show skipFrom .open cs = c :: r from h, List.length_cons] at before
  omega

end Lexer

/-- A token in its text. -/
structure Lexeme where
  /-- The token. -/
  token : Token
  /-- The text from the first character of the token on. -/
  source : List Char
  /-- The text after the token. -/
  rest : List Char

/-- The tokens of a text, in their places. -/
def lexemes (cs : List Char) : List Lexeme :=
  match _skipped : Lexer.skip cs with
  | [] => []
  | c :: r => ⟨(Lexer.read c r).1, c :: r, (Lexer.read c r).2⟩ :: lexemes (Lexer.read c r).2
termination_by cs.length
decreasing_by
  exact Lexer.length_read_of_skip _skipped

/-- The tokens of a text. -/
def tokenize (text : String) : List Token :=
  (lexemes text.toList).map Lexeme.token

/-- A text of blanks and comments has no tokens. -/
theorem lexemes_of_skip_nil {cs : List Char} (h : Lexer.skip cs = []) : lexemes cs = [] := by
  rw [lexemes]
  split
  · rfl
  · simp_all

/-- The equation of `lexemes`: the first token, and those of the text after it. -/
theorem lexemes_of_skip_cons {cs r : List Char} {c : Char} (h : Lexer.skip cs = c :: r) :
    lexemes cs =
      ⟨(Lexer.read c r).1, c :: r, (Lexer.read c r).2⟩ :: lexemes (Lexer.read c r).2 := by
  rw [lexemes]
  split
  · simp_all
  · rename_i h'
    rw [h] at h'
    injection h' with hc hr
    subst hc hr
    rfl

end SchemaText
