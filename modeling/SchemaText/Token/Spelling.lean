import SchemaText.Text.Quoted
import SchemaText.Token.Lexer

/-!
# Spelling tokens

Writes a sequence of tokens as text that reads as the same tokens, with as few blanks as
that allows: one space stands between two tokens exactly where their spellings would run
together.

## Main definitions

* `Token.written`: the token in a form that can be spelled.
* `Token.spelling`: its spelling, quotes included.
* `Token.needsSpace`: whether a space has to stand between two tokens.
* `render`: the text of a sequence of tokens.

## Main results

* `renderAfter_cons`: a sequence is its first token, set off from what stands before it,
  and the rest.
-/

namespace SchemaText

/-! ### Edges -/

/-- What the spelling of a token begins or ends with, as far as its neighbour can tell. -/
inductive Edge
  /-- A character of a word or a number. -/
  | word
  /-- A sign that a further sign could extend. -/
  | sign
  /-- A quote, which the same quote would double. -/
  | quote (mark : Char)
  /-- Nothing that can be extended. -/
  | closed
  deriving DecidableEq, Repr

namespace TokenKind

/-- What a token of this kind ends with. -/
def trailingEdge : TokenKind → Edge
  | .quotedIdentifier => .quote '\x22'
  | .backQuotedIdentifier => .quote '\x60'
  | .stringLiteral | .blobLiteral => .quote '\x27'
  | .symbol | .sign | .symbolPrefix => .sign
  | .squareIdentifier | .openParen | .closeParen | .comma => .closed
  | .identifier | .numeric | .operator | .postfixOp | .prefixOp | .not | .invalid => .word

/-- What a token of this kind begins with. -/
def leadingEdge : TokenKind → Edge
  | .blobLiteral => .word
  | kind => kind.trailingEdge

end TokenKind

/-- Whether an edge would run into the next one. -/
def Edge.runsInto : Edge → Edge → Bool
  | .word, .word => true
  | .sign, .sign => true
  | .quote a, .quote b => a == b
  | _, _ => false

namespace Token

/-! ### One token -/

/-- The token in a form that can be spelled: a name with `]` in it does not fit between
square brackets and is put in double quotes. -/
def written (token : Token) : Token :=
  if token.kind == .squareIdentifier && token.text.toList.contains ']' then
    { token with kind := .quotedIdentifier }
  else
    token

/-- The spelling of a token, with the quotes of its kind. -/
def spelling (token : Token) : List Char :=
  let content := token.text.toList
  match token.kind with
  | .quotedIdentifier => '\x22' :: Text.doubled '\x22' content ++ ['\x22']
  | .backQuotedIdentifier => '\x60' :: Text.doubled '\x60' content ++ ['\x60']
  | .stringLiteral => '\x27' :: Text.doubled '\x27' content ++ ['\x27']
  | .squareIdentifier => '[' :: content ++ [']']
  | .blobLiteral => 'X' :: '\x27' :: content ++ ['\x27']
  | _ => content

/-! ### Neighbours -/

/-- Whether a space has to stand between two tokens: where their edges run together, between
`x` and a text literal, which would read as a blob, and between a number and a point on
either side of it. -/
def needsSpace (first second : Token) : Bool :=
  first.kind.trailingEdge.runsInto second.kind.leadingEdge
    || (first.kind == .identifier && Text.same first.text "x"
      && second.kind == .stringLiteral)
    || (first.kind == .numeric && second == dot)
    || (first == dot && second.kind == .numeric
      && second.text.toList.head?.any Char.isDigit)

/-- The blank before a token that follows `previous`. -/
def gap (previous : Option Token) (token : Token) : List Char :=
  if previous.any (needsSpace · token) then [' '] else []

end Token

/-! ### Sequences -/

/-- The spelling of a sequence of tokens after the written token `previous`. -/
def renderAfter (previous : Option Token) : List Token → List Char
  | [] => []
  | token :: rest =>
    Token.gap previous token.written ++ token.written.spelling
      ++ renderAfter (some token.written) rest

/-- The text of a sequence of tokens. -/
def render (tokens : List Token) : String :=
  String.ofList (renderAfter none tokens)

/-- No tokens, no text. -/
@[simp] theorem renderAfter_nil (previous : Option Token) : renderAfter previous [] = [] := rfl

/-- A token is written behind its gap, and the rest after it. -/
theorem renderAfter_cons (previous : Option Token) (token : Token) (rest : List Token) :
    renderAfter previous (token :: rest) =
      Token.gap previous token.written ++ token.written.spelling
        ++ renderAfter (some token.written) rest := rfl

@[simp] theorem render_nil : render [] = "" := rfl

end SchemaText
