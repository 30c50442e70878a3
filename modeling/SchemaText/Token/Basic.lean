import SchemaText.Keyword

/-!
# Tokens

A schema text is a sequence of tokens: names, literals, operators and punctuation. A
token is its text together with its kind. The text of a quoted token is the content
between the quotes, with doubled quotes undone; the kind tells which quotes they were.

Words that act as operators in expressions have kinds of their own. Every other word,
keyword or not, is an `identifier`.

## Main definitions

* `TokenKind`, `Token`: the tokens.
* `Token.keyword?`: the keyword that a bare word spells.
* `Token.isName`: whether a token can name a table, a column, an index or a collation.
* `Token.ofKeyword`, `Token.name`, `Token.comma` and the like: the tokens that are
  written.

## Main results

* `Token.isSpelled_spelling`: a token spells a keyword if it is spelled like it.
* `Token.keyword?_ofKeyword`: a written keyword is read as that keyword.
-/

namespace SchemaText

/-- What a token is. -/
inductive TokenKind
  /-- A name between double quotes. -/
  | quotedIdentifier
  /-- A name between grave accents. -/
  | backQuotedIdentifier
  /-- A name between square brackets. -/
  | squareIdentifier
  /-- A bare word that is no operator. -/
  | identifier
  /-- A text between single quotes. -/
  | stringLiteral
  /-- Hexadecimal digits between `X'` and `'`. -/
  | blobLiteral
  /-- A number, as it is written. -/
  | numeric
  /-- A word between two operands, such as `AND`. -/
  | operator
  /-- A word after its operand, such as `DESC`. -/
  | postfixOp
  /-- A word before its operand, such as `CASE`. -/
  | prefixOp
  /-- The word `NOT`, whose role depends on its neighbours. -/
  | not
  /-- An opening parenthesis. -/
  | openParen
  /-- A closing parenthesis. -/
  | closeParen
  /-- A comma. -/
  | comma
  /-- A sign between two operands, such as `||`. -/
  | symbol
  /-- The sign `~`, which stands before its operand. -/
  | symbolPrefix
  /-- One of `+` and `-`, which stand before an operand or between two. -/
  | sign
  /-- A piece of text that is no token. -/
  | invalid
  deriving DecidableEq, Repr

namespace TokenKind

/-- The kinds of names between quotes or brackets. -/
def isQuotedIdentifier : TokenKind → Bool
  | quotedIdentifier | backQuotedIdentifier | squareIdentifier => true
  | _ => false

/-- The kinds of bare words. -/
def isWord : TokenKind → Bool
  | identifier | operator | postfixOp | prefixOp | not => true
  | _ => false

end TokenKind

/-- The kind of a word in an expression, by the keyword it spells. -/
def Keyword.kind : Keyword → TokenKind
  | .NOT => .not
  | .AND | .OR | .IS | .IN | .LIKE | .GLOB | .MATCH | .REGEXP | .BETWEEN | .ESCAPE
  | .COLLATE | .WHEN | .THEN | .ELSE => .operator
  | .ASC | .DESC | .ISNULL | .NOTNULL | .END => .postfixOp
  | .CASE | .CAST | .DISTINCT | .EXISTS => .prefixOp
  | _ => .identifier

/-- The operator words that are read as names where no operator can stand. -/
def Keyword.isFallbackName : Keyword → Bool
  | .ASC | .DESC | .END | .MATCH | .LIKE | .GLOB | .REGEXP | .CAST => true
  | _ => false

/-- A token: its text, without the quotes of a quoted token, and its kind. -/
structure Token where
  /-- The text, without quotes. -/
  text : String
  /-- What the token is. -/
  kind : TokenKind
  deriving DecidableEq, Repr

namespace Token

/-! ### Words -/

/-- A bare word of the input, of the kind that its keyword gives it. -/
def word (text : String) : Token :=
  ⟨text, ((Keyword.ofText? text).map Keyword.kind).getD .identifier⟩

/-- The keyword that a bare word spells. -/
def keyword? (token : Token) : Option Keyword :=
  if token.kind.isWord then Keyword.ofText? token.text else none

/-- Whether the token spells this keyword. -/
def is (token : Token) (keyword : Keyword) : Bool :=
  token.keyword? == some keyword

/-- Whether the token is a bare word of this spelling, in any case. -/
def isSpelled (token : Token) (spelling : String) : Bool :=
  token.kind.isWord && Text.same token.text spelling

/-- Whether the token is an operator word that can also be a name. -/
def isOperatorName (token : Token) : Bool :=
  match token.kind with
  | .operator | .postfixOp | .prefixOp => token.keyword?.any Keyword.isFallbackName
  | _ => false

/-- Whether the token can name a table, a column, an index or a collation. -/
def isName (token : Token) : Bool :=
  token.kind.isQuotedIdentifier || token.kind == .identifier
    || token.kind == .stringLiteral || token.isOperatorName

/-! ### Written tokens -/

/-- A keyword in capital letters. -/
def ofKeyword (keyword : Keyword) : Token :=
  ⟨keyword.spelling, .identifier⟩

/-- Whether a text is a letter or underscore followed by letters, digits and underscores,
all of them ASCII. -/
def isPlainName (text : String) : Bool :=
  match text.toList with
  | [] => false
  | c :: r => (c.isAlpha || c == '_') && r.all fun d => d.isAlphanum || d == '_'

/-- The token that names `text`: bare where that is unambiguous, else in double quotes. -/
def name (text : String) : Token :=
  if isPlainName text && !(Keyword.ofText? text).any Keyword.isReserved then
    ⟨text, .identifier⟩
  else
    ⟨text, .quotedIdentifier⟩

/-- The token `(`. -/
def openParen : Token := ⟨"(", .openParen⟩

/-- The token `)`. -/
def closeParen : Token := ⟨")", .closeParen⟩

/-- The token `,`. -/
def comma : Token := ⟨",", .comma⟩

/-- The token `.` of a qualified name. -/
def dot : Token := ⟨".", .symbol⟩

/-- The `*` of `count(*)`. -/
def star : Token := ⟨"*", .symbol⟩

/-- A text literal with this content. -/
def string (content : String) : Token := ⟨content, .stringLiteral⟩

/-- Two words as one operator. -/
def join (kind : TokenKind) (first second : Token) : Token :=
  ⟨first.text ++ " " ++ second.text, kind⟩

/-! ### Keywords of tokens -/

/-- A token that is compared with a keyword successfully has that keyword. -/
theorem keyword?_of_is {token : Token} {keyword : Keyword} (h : token.is keyword = true) :
    token.keyword? = some keyword :=
  beq_iff_eq.1 h

/-- A token is the keyword that it has. -/
theorem is_of_keyword? {token : Token} {keyword : Keyword}
    (h : token.keyword? = some keyword) : token.is keyword = true :=
  beq_iff_eq.2 h

/-- A token spells a keyword if it is spelled like it. -/
theorem isSpelled_spelling (token : Token) (keyword : Keyword) :
    token.isSpelled keyword.spelling = token.is keyword := by
  rw [isSpelled, is, keyword?]
  cases word : token.kind.isWord with
  | false => rfl
  | true =>
    rw [if_pos rfl, Bool.true_and, Bool.eq_iff_iff, beq_iff_eq]
    refine ⟨fun same => ?_, Keyword.same_of_ofText?⟩
    rw [Keyword.ofText?_congr same, Keyword.ofText?_spelling]

/-- The token of a keyword has that keyword. -/
@[simp] theorem keyword?_ofKeyword (keyword : Keyword) :
    (ofKeyword keyword).keyword? = some keyword := by
  simp [ofKeyword, keyword?, TokenKind.isWord]

end Token

end SchemaText
