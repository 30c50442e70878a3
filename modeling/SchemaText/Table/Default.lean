import SchemaText.Expr.Parser
import SchemaText.Table.Column

/-!
# Reading default values

A default value is one literal, a number with a sign, one of a few keywords, or an
expression in parentheses. A statement may also give a bare or quoted name, which stands
for its own text.

## Main definitions

* `DefaultValue.ofWord?`: the keywords that are values.
* `DefaultValue.read`: the default value at the front of the tokens.
* `DefaultValue.readStored`: the same for statements, where names are values too.
* `DefaultValue.parse`, `DefaultValue.isValid`: whether a whole text is a default value.

## Main results

* `DefaultValue.length_readStored_lt`: a default value uses up at least one token.
-/

namespace SchemaText

namespace DefaultValue

/-- The value of a keyword: a constant, or a time that is taken when a row is inserted. -/
def ofWord? (token : Token) : Option DefaultValue :=
  match token.keyword? with
  | some .NULL | some .TRUE | some .FALSE => some ⟨token.text, false, false⟩
  | some .CURRENT_TIME | some .CURRENT_DATE | some .CURRENT_TIMESTAMP =>
    some ⟨token.text, true, false⟩
  | _ => none

/-- The default value at the front of the tokens, and the tokens after it. -/
def read : List Token → Except ExprError (DefaultValue × List Token)
  | [] => .error .unexpectedEnd
  | token :: rest =>
    match token.kind with
    | .stringLiteral => .ok (⟨token.text, false, true⟩, rest)
    | .numeric | .blobLiteral => .ok (⟨render [token], false, false⟩, rest)
    | .identifier =>
      match ofWord? token with
      | some value => .ok (value, rest)
      | none => .error (.ofToken token)
    | .sign =>
      match rest with
      | [] => .error .unexpectedEnd
      | number :: after =>
        if number.kind == .numeric then .ok (⟨render [token, number], false, false⟩, after)
        else .error (.ofToken number)
    | .openParen =>
      match Expr.enclosed .parens (Expr.read .nested rest) with
      | .ok (e, after) => .ok (⟨e.sql, true, false⟩, after)
      | .error e => .error e
    | _ => .error (.ofToken token)

/-- Whether the token is a name that stands for its own text. -/
def isNameValue (token : Token) : Bool :=
  match token.kind with
  | .identifier => (ofWord? token).isNone && !token.keyword?.any Keyword.isReserved
  | kind => kind.isQuotedIdentifier || token.isOperatorName

/-- The default value at the front of the tokens of a statement, and the tokens after it. A
name is kept as it is written. -/
def readStored : List Token → Except ExprError (DefaultValue × List Token)
  | [] => .error .unexpectedEnd
  | token :: rest =>
    if isNameValue token then .ok (⟨render [token], false, false⟩, rest)
    else read (token :: rest)

/-- The default value that a whole text is. -/
def parse (text : String) : Except ExprError DefaultValue :=
  match read (tokenize text) with
  | .error e => .error e
  | .ok (value, []) => .ok value
  | .ok (_, extra :: _) => .error (.unexpectedToken extra.text)

/-- Whether a text is a default value. -/
def isValid (text : String) : Bool :=
  (parse text).toOption.isSome

/-- A default value takes a token at least. -/
theorem length_read_lt {tokens after : List Token} {value : DefaultValue}
    (h : read tokens = .ok (value, after)) : after.length < tokens.length := by
  cases tokens with
  | nil => simp [read] at h
  | cons token rest =>
    have enclosed := @Expr.length_enclosed (rest.length + 1) .parens (Expr.read .nested rest)
      fun _ _ h => Nat.lt_succ_of_le (Expr.length_read_le h)
    unfold read at h
    grind

/-- So does a default value as it is stored. -/
theorem length_readStored_lt {tokens after : List Token} {value : DefaultValue}
    (h : readStored tokens = .ok (value, after)) : after.length < tokens.length := by
  cases tokens with
  | nil => simp [readStored] at h
  | cons token rest =>
    have := @length_read_lt (token :: rest) after value
    unfold readStored at h
    grind

end DefaultValue

end SchemaText
