import SchemaText.Catalog.Error
import SchemaText.Token.Lexer

/-!
# Reading statements as the database does

The database has its own view of which words are names. Most of its keywords are read as
names wherever they have no meaning of their own, among them `DESC`, `KEY` and `GENERATED`;
so a type goes on for as long as its words can be names.

A reader takes lexemes from the front of a statement. It keeps the lexemes rather than their
tokens, since the catalogue shows types and default values as they are written.

## Main definitions

* `Token.isFreeWord`, `Token.isEntityName`: which tokens are names.
* `Catalog.Reader`: readers, with `peek`, `take`, `accept`, `expect` and their like.
* `Catalog.Reader.separated`, `Catalog.Reader.gather`: lists with and without commas.
* `Catalog.Reader.typeText`: a type as it is written.
-/

namespace SchemaText

/-! ### Names -/

/-- The keywords that are names where they have no meaning of their own. -/
def Keyword.isYielding : Keyword → Bool
  | .ABORT | .ACTION | .AFTER | .ALWAYS | .ANALYZE | .ASC | .ATTACH | .BEFORE | .BEGIN
  | .BY | .CASCADE | .CAST | .COLUMN | .CONFLICT | .CURRENT | .CURRENT_DATE
  | .CURRENT_TIME | .CURRENT_TIMESTAMP | .DATABASE | .DEFERRED | .DESC | .DETACH | .DO
  | .EACH | .END | .EXCLUDE | .EXCLUSIVE | .EXPLAIN | .FAIL | .FIRST | .FOLLOWING | .FOR
  | .GENERATED | .GLOB | .GROUPS | .IF | .IGNORE | .IMMEDIATE | .INITIALLY | .INSTEAD
  | .KEY | .LAST | .LIKE | .MATCH | .MATERIALIZED | .NO | .NULLS | .OF | .OFFSET
  | .OTHERS | .PARTITION | .PLAN | .PRAGMA | .PRECEDING | .QUERY | .RAISE | .RANGE
  | .RECURSIVE | .REGEXP | .REINDEX | .RELEASE | .RENAME | .REPLACE | .RESTRICT
  | .ROLLBACK | .ROW | .ROWS | .SAVEPOINT | .TEMP | .TEMPORARY | .TIES | .TRIGGER
  | .UNBOUNDED | .VACUUM | .VIEW | .VIRTUAL | .WITH | .WITHOUT => true
  | .FILTER | .OVER | .WINDOW => true
  | keyword => !keyword.isReserved

/-- The keywords that name tables and columns, though not types and collations. -/
def Keyword.isObjectWord : Keyword → Bool
  | .CROSS | .FULL | .INNER | .LEFT | .NATURAL | .OUTER | .RIGHT | .INDEXED => true
  | _ => false

/-- Whether the token is a name that may stand anywhere. -/
def Token.isFreeWord (token : Token) : Bool :=
  token.kind.isQuotedIdentifier
    || token.kind.isWord && token.keyword?.all Keyword.isYielding

/-- Whether the token is a word or a quoted name that can stand for a value. -/
def Token.isValueName (token : Token) : Bool :=
  token.isFreeWord || token.keyword?.any Keyword.isObjectWord

/-- Whether the token can name a table, a column or an index. -/
def Token.isEntityName (token : Token) : Bool :=
  token.isValueName || token.kind == .stringLiteral

/-- Whether the token can name a collation or stand in a type. -/
def Token.isTypeWord (token : Token) : Bool :=
  token.isFreeWord || token.kind == .stringLiteral

/-! ### Places in the text -/

namespace Lexeme

/-- The text from one token to the end of another one after it. -/
def through (first last : Lexeme) : List Char :=
  first.source.take (first.source.length - last.rest.length)

/-- The token as it is written, with its quotes. -/
def written (lexeme : Lexeme) : String :=
  String.ofList (lexeme.through lexeme)

end Lexeme

/-- A text without the blanks at its ends. -/
def Text.trimBlanks (cs : List Char) : List Char :=
  ((cs.dropWhile isBlank).reverse.dropWhile isBlank).reverse

/-! ### Readers -/

namespace Catalog

/-- Takes lexemes from the front of a statement, or refuses it. -/
abbrev Reader := StateT (List Lexeme) (Except CatalogError)

namespace Reader

variable {α : Type}

/-- The next token, which stays where it is. -/
def peek : Reader (Option Token) := do
  return (← get).head?.map Lexeme.token

/-- Refuses the statement at the next token. -/
def refuse : Reader α := do
  match (← get).head? with
  | some lexeme => throw (.unexpected lexeme.written)
  | none => throw .incomplete

/-- Takes the next lexeme. -/
def take : Reader Lexeme := do
  match ← get with
  | lexeme :: rest =>
    set rest
    return lexeme
  | [] => refuse

/-- Takes the next lexeme if its token passes a test. -/
def takeIf? (test : Token → Bool) : Reader (Option Lexeme) := do
  if (← peek).any test then return some (← take) else return none

/-- Takes the next lexeme, whose token has to pass a test. -/
def takeIf (test : Token → Bool) : Reader Lexeme := do
  if (← peek).any test then take else refuse

/-- Takes a keyword if it comes next. -/
def accept (keyword : Keyword) : Reader Bool := do
  return (← takeIf? (·.is keyword)).isSome

/-- Takes a keyword that has to come next. -/
def expect (keyword : Keyword) : Reader Unit := do
  let _ ← takeIf (·.is keyword)

/-- Takes a token of a kind if it comes next. -/
def acceptKind (kind : TokenKind) : Reader Bool := do
  return (← takeIf? (·.kind == kind)).isSome

/-- Takes a token of a kind that has to come next. -/
def expectKind (kind : TokenKind) : Reader Unit := do
  let _ ← takeIf (·.kind == kind)

/-- The name of a table, a column or an index. -/
def name : Reader String := do
  return (← takeIf Token.isEntityName).token.text

/-- The name of a collation. -/
def collation : Reader String := do
  return (← takeIf Token.isTypeWord).token.text

/-! ### Lists -/

/-- At most so many items, with commas between them. -/
def separatedUpTo (item : Reader α) : Nat → Reader (List α)
  | 0 => refuse
  | bound + 1 => do
    let first ← item
    if ← acceptKind .comma then
      return first :: (← separatedUpTo item bound)
    else
      return [first]

/-- One item or more, with commas between them. -/
def separated (item : Reader α) : Reader (List α) := do
  separatedUpTo item ((← get).length + 1)

/-- At most so many items, up to the first place where there is none. -/
def gatherUpTo (item? : Reader (Option α)) : Nat → Reader (List α)
  | 0 => refuse
  | bound + 1 => do
    match ← item? with
    | some item => return item :: (← gatherUpTo item? bound)
    | none => return []

/-- The items up to the first place where there is none. -/
def gather (item? : Reader (Option α)) : Reader (List α) := do
  gatherUpTo item? ((← get).length + 1)

/-- Something in parentheses. -/
def parenthesized (content : Reader α) : Reader α := do
  expectKind .openParen
  let found ← content
  expectKind .closeParen
  return found

/-! ### Types -/

/-- A number, with a sign or without. -/
def signedNumber : Reader Unit := do
  let _ ← acceptKind .sign
  expectKind .numeric

/-- A type as it is written: words, and one or two numbers in parentheses. Nothing if no type
is given. -/
def typeText : Reader String := do
  let lexemes ← get
  let words := lexemes.takeWhile (·.token.isTypeWord)
  set (lexemes.dropWhile (·.token.isTypeWord))
  match words with
  | [] => return ""
  | first :: others =>
    if ← acceptKind .openParen then
      signedNumber
      if ← acceptKind .comma then signedNumber
      return String.ofList (first.through (← takeIf (·.kind == .closeParen)))
    else
      return String.ofList (first.through ((first :: others).getLastD first))

end Reader

end Catalog

end SchemaText
