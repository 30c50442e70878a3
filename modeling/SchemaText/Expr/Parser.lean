import SchemaText.Expr.Basic
import SchemaText.Expr.Error

/-!
# The expression parser

Reads an expression from the front of a sequence of tokens: operands with their prefix and
postfix operators, joined by binary operators that all associate to the right. Each
decision looks at most two tokens ahead.

How an expression may end depends on where it stands (`Expr.Level`): with the input, before
a stop word, or before a closing parenthesis.

## Main definitions

* `Expr.Level`: where an expression stands.
* `Expr.lead`: the beginning of an operand.
* `Expr.postfixes`: the postfix operators after an operand.
* `Expr.joint`: the end of an expression, or the operator before its next operand.
* `Expr.castTarget`: the type of a cast.
* `Expr.operand`, `Expr.chain`: operands, and expressions that are not empty.
* `Expr.read`: an expression at a level, with the tokens after it.
* `Expr.parse`: the expression that a whole text is.

## Main results

* `Expr.length_read_le`: reading adds no token.
* `Expr.operand_eq`, `Expr.chain_eq`: one step of the recursion, in terms of the parts.
-/

namespace SchemaText

/-- Whether a query begins with the token. -/
def Token.startsQuery (token : Token) : Bool :=
  match token.keyword? with
  | some .SELECT | some .VALUES | some .WITH => true
  | _ => false

namespace Expr

/-! ### Where an expression stands -/

/-- Where an expression stands, which decides how it may end. -/
inductive Level
  /-- A whole expression, up to the end of the input or a stop word. Only a stop word that
  comes at once leaves it empty. -/
  | top (stops : List String)
  /-- A list of arguments or index terms, up to a closing parenthesis: commas separate the
  items, and there may be none. -/
  | arguments
  /-- Inside parentheses, up to the closing one. -/
  | nested
  /-- Before a stop word that has to come. -/
  | bounded (stops : List String)
  deriving DecidableEq, Repr

/-- Whether an expression at the level ends before the token. -/
def Level.endsBefore (level : Level) (token : Token) : Bool :=
  match level with
  | .top stops | .bounded stops => stops.any token.isSpelled
  | .arguments | .nested => token.kind == .closeParen

/-- Whether an expression at the level may be empty before these tokens. -/
def Level.isEmptyBefore (level : Level) (tokens : List Token) : Bool :=
  match level with
  | .top _ | .arguments => tokens.head?.any level.endsBefore
  | .nested | .bounded _ => false

/-- Whether an expression at the level may end with the input. -/
def Level.endsWithInput : Level → Bool
  | .top _ => true
  | _ => false

/-! ### The beginning of an operand -/

/-- The beginning of an operand. -/
inductive Lead
  /-- All of it. -/
  | whole (operand : Expr)
  /-- Prefix operators; their operand follows. -/
  | ops (operators : List Token)
  /-- An opening parenthesis. -/
  | parens
  /-- A function name and its opening parenthesis. -/
  | call (name : Token)
  /-- `CAST` and its opening parenthesis. -/
  | cast (name : Token)

/-- A word that is a name here: a function name before a parenthesis, else a leaf. The only
argument list that begins with `*` is `(*)`. -/
def namedLead (word : Token) (rest : List Token) : Lead × List Token :=
  let name : Token := ⟨word.text, .identifier⟩
  match rest with
  | [] => (.whole (.leaf name), [])
  | paren :: inner =>
    if paren.kind == .openParen then
      match inner with
      | star :: close :: after =>
        if star == Token.star && close.kind == .closeParen then
          (.whole (.call name (.leaf star)), after)
        else
          (.call name, inner)
      | _ => (.call name, inner)
    else
      (.whole (.leaf name), paren :: inner)

/-- `NOT` before an operand, on its own or with `EXISTS`. -/
def notLead (not : Token) (rest : List Token) : Lead × List Token :=
  match rest with
  | [] => (.ops [not], [])
  | next :: after =>
    if next.is .EXISTS then (.ops [Token.join .prefixOp not next], after)
    else (.ops [not], next :: after)

/-- A prefix operator that is a word. `CAST` is a name unless a parenthesis follows,
`DISTINCT` belongs in front of an argument, and `CASE` takes a `WHEN` along. -/
def wordLead (level : Level) (op : Token) (rest : List Token) :
    Except ExprError (Lead × List Token) :=
  match op.keyword? with
  | some .CAST =>
    match rest with
    | [] => .ok (namedLead op [])
    | paren :: inner =>
      if paren.kind == .openParen then .ok (.cast op, inner)
      else .ok (namedLead op (paren :: inner))
  | some .DISTINCT =>
    if level ≠ .arguments then .error .misplacedDistinct
    else if rest.head?.any (Token.is · .DISTINCT) then .error .repeatedDistinct
    else .ok (.ops [op], rest)
  | some .CASE =>
    match rest with
    | [] => .ok (.ops [op], [])
    | next :: after =>
      if next.is .WHEN then .ok (.ops [op, next], after) else .ok (.ops [op], next :: after)
  | _ => .ok (.ops [op], rest)

/-- The beginning of the operand at the front of the tokens. -/
def lead (level : Level) : List Token → Except ExprError (Lead × List Token)
  | [] => .error .unexpectedEnd
  | token :: rest =>
    if token.startsQuery then .error .subquery
    else
      match token.kind with
      | .quotedIdentifier | .backQuotedIdentifier | .squareIdentifier | .stringLiteral
      | .blobLiteral | .numeric => .ok (.whole (.leaf token), rest)
      | .identifier => .ok (namedLead token rest)
      | .operator | .postfixOp =>
        if token.isOperatorName then .ok (namedLead token rest) else .error (.ofToken token)
      | .prefixOp => wordLead level token rest
      | .not => .ok (notLead token rest)
      | .sign | .symbolPrefix => .ok (.ops [token], rest)
      | .openParen => .ok (.parens, rest)
      | .closeParen | .comma | .symbol | .invalid => .error (.ofToken token)

/-! ### Between operands -/

/-- The operand with the postfix operators that follow it; `NOT NULL` is one of them. -/
def postfixes (operand : Expr) : List Token → Expr × List Token
  | [] => (operand, [])
  | token :: rest =>
    if token.kind == .postfixOp then
      postfixes (.postfixed operand token) rest
    else if token.kind == .not then
      match rest with
      | [] => (operand, [token])
      | next :: after =>
        if next.is .NULL then
          postfixes (.postfixed operand (Token.join .postfixOp token next)) after
        else
          (operand, token :: next :: after)
    else
      (operand, token :: rest)

/-- Whether `NOT` and the token are one binary operator. -/
def followsNot (token : Token) : Bool :=
  match token.keyword? with
  | some .BETWEEN | some .LIKE | some .GLOB | some .MATCH | some .REGEXP | some .IN => true
  | _ => false

/-- The binary operator that begins with the token. `IS NOT` is one operator, and so is
`NOT` with a comparison that it can negate. -/
def binaryOp (token : Token) (rest : List Token) : Except ExprError (Token × List Token) :=
  match token.kind with
  | .symbol | .sign => .ok (token, rest)
  | .operator =>
    if token.is .IS then
      match rest with
      | [] => .ok (token, [])
      | next :: after =>
        if next.kind == .not then .ok (Token.join .operator token next, after)
        else .ok (token, next :: after)
    else
      .ok (token, rest)
  | .not =>
    match rest with
    | [] => .error (.ofToken token)
    | next :: after =>
      if followsNot next then .ok (Token.join .operator token next, after)
      else .error (.ofToken token)
  | _ => .error (.ofToken token)

/-- What follows a complete operand: the end of the expression (`none`) or the operator
before its next operand. -/
def joint (level : Level) : List Token → Except ExprError (Option Token × List Token)
  | [] => if level.endsWithInput then .ok (none, []) else .error .unexpectedEnd
  | token :: rest =>
    if level.endsBefore token then
      .ok (none, token :: rest)
    else if token.kind == .comma && level == .arguments then
      .ok (some token, rest)
    else
      match binaryOp token rest with
      | .ok (op, after) => .ok (some op, after)
      | .error e => .error e

/-- Whether a list in parentheses may follow the operator. -/
def takesList (op : Token) : Bool :=
  op.isSpelled "IN" || op.isSpelled "NOT IN"

/-! ### Closing and casting -/

/-- The tokens after a closing parenthesis. -/
def closing : List Token → Except ExprError (List Token)
  | [] => .error .unexpectedEnd
  | token :: rest => if token.kind == .closeParen then .ok rest else .error (.ofToken token)

/-- A number with an optional sign. -/
def signedNumber : List Token → Except ExprError (List Token × List Token)
  | [] => .error .unexpectedEnd
  | token :: rest =>
    if token.kind == .sign then
      match rest with
      | [] => .error .unexpectedEnd
      | number :: after =>
        if number.kind == .numeric then .ok ([token, number], after)
        else .error (.ofToken number)
    else if token.kind == .numeric then
      .ok ([token], rest)
    else
      .error (.ofToken token)

/-- One or two numbers and the closing parenthesis after them. -/
def typeWidth (tokens : List Token) : Except ExprError (List Token × List Token) :=
  match signedNumber tokens with
  | .error e => .error e
  | .ok (first, rest) =>
    match rest with
    | [] => .error .unexpectedEnd
    | token :: after =>
      if token.kind == .comma then
        match signedNumber after with
        | .error e => .error e
        | .ok (second, rest) =>
          match rest with
          | [] => .error .unexpectedEnd
          | close :: after =>
            if close.kind == .closeParen then
              .ok (first ++ token :: second ++ [close], after)
            else
              .error (.ofToken close)
      else if token.kind == .closeParen then
        .ok (first ++ [token], after)
      else
        .error (.ofToken token)

/-- The type of a cast: at least one word, and a width or none. -/
def castType (tokens : List Token) : Except ExprError (List Token × List Token) :=
  let words := tokens.takeWhile (·.kind == .identifier)
  if words.isEmpty then .error .missingCastType
  else
    match tokens.dropWhile (·.kind == .identifier) with
    | [] => .ok (words, [])
    | token :: rest =>
      if token.kind == .openParen then
        match typeWidth rest with
        | .error e => .error e
        | .ok (width, after) => .ok (words ++ token :: width, after)
      else
        .ok (words, token :: rest)

/-- The stop word of a cast with the type after it as one token, up to the closing
parenthesis. -/
def castTarget : List Token → Except ExprError ((Token × Token) × List Token)
  | [] => .error .unexpectedEnd
  | stop :: rest =>
    match castType rest with
    | .error e => .error e
    | .ok (type, after) =>
      match closing after with
      | .error e => .error e
      | .ok final => .ok ((stop, ⟨render type, .identifier⟩), final)

/-! ### The parts use up tokens -/

/-- A name takes at most the parentheses of `(*)` along. -/
theorem length_namedLead_le (word : Token) (rest : List Token) :
    (namedLead word rest).2.length ≤ rest.length := by
  unfold namedLead
  grind

/-- `NOT` takes at most one word along. -/
theorem length_notLead_le (not : Token) (rest : List Token) :
    (notLead not rest).2.length ≤ rest.length := by
  unfold notLead
  grind

/-- A prefix operator takes at most the tokens that follow it. -/
theorem length_wordLead_le {level : Level} {op : Token} {rest after : List Token}
    {found : Lead}
    (h : wordLead level op rest = .ok (found, after)) : after.length ≤ rest.length := by
  unfold wordLead at h
  have := length_namedLead_le op rest
  grind

/-- Every operand begins with a token that is consumed; the recursion depends on it. -/
theorem length_lead_lt {level : Level} {tokens after : List Token} {found : Lead}
    (h : lead level tokens = .ok (found, after)) : after.length < tokens.length := by
  cases tokens with
  | nil => simp [lead] at h
  | cons token rest =>
    unfold lead at h
    have named := length_namedLead_le token rest
    have negated := length_notLead_le token rest
    have worded := @length_wordLead_le level token rest
    grind

/-- Postfix operators give no token back. -/
theorem length_postfixes_le (operand : Expr) (tokens : List Token) :
    (postfixes operand tokens).2.length ≤ tokens.length := by
  fun_induction postfixes operand tokens <;> grind

/-- A binary operator takes at most the next token along. -/
theorem length_binaryOp_le {token op : Token} {rest after : List Token}
    (h : binaryOp token rest = .ok (op, after)) : after.length ≤ rest.length := by
  unfold binaryOp at h
  grind

/-- Looking for an operator gives no token back. -/
theorem length_joint_le {level : Level} {tokens after : List Token} {op : Option Token}
    (h : joint level tokens = .ok (op, after)) : after.length ≤ tokens.length := by
  unfold joint at h
  have := @length_binaryOp_le
  grind

/-- A closing parenthesis is consumed. -/
theorem length_closing_lt {tokens after : List Token} (h : closing tokens = .ok after) :
    after.length < tokens.length := by
  unfold closing at h
  grind

/-- A number takes a token at least. -/
theorem length_signedNumber_lt {tokens number after : List Token}
    (h : signedNumber tokens = .ok (number, after)) : after.length < tokens.length := by
  unfold signedNumber at h
  grind

/-- A width takes a number and its parenthesis, hence a token at least. -/
theorem length_typeWidth_lt {tokens width after : List Token}
    (h : typeWidth tokens = .ok (width, after)) : after.length < tokens.length := by
  unfold typeWidth at h
  have := @length_signedNumber_lt
  grind

/-- The words of a type are not given back. -/
theorem length_castType_lt {tokens type after : List Token}
    (h : castType tokens = .ok (type, after)) : after.length ≤ tokens.length := by
  unfold castType at h
  have dropped := (List.dropWhile_suffix (·.kind == .identifier) (l := tokens)).length_le
  have := @length_typeWidth_lt
  grind

/-- The stop word of a cast is consumed. -/
theorem length_castTarget_lt {tokens after : List Token} {target : Token × Token}
    (h : castTarget tokens = .ok (target, after)) : after.length < tokens.length := by
  unfold castTarget at h
  have := @length_castType_lt
  have := @length_closing_lt
  grind

/-! ### Enclosed expressions -/

/-- An inner expression and its closing parenthesis. -/
def enclosed (wrap : Expr → Expr) (inner : Except ExprError (Expr × List Token)) :
    Except ExprError (Expr × List Token) :=
  match inner with
  | .error e => .error e
  | .ok (e, rest) =>
    match closing rest with
    | .error e => .error e
    | .ok after => .ok (wrap e, after)

/-- An inner expression and the type it is cast to. -/
def castCall (name : Token) (inner : Except ExprError (Expr × List Token)) :
    Except ExprError (Expr × List Token) :=
  match inner with
  | .error e => .error e
  | .ok (e, rest) =>
    match castTarget rest with
    | .error e => .error e
    | .ok ((stop, type), after) => .ok (.call name (.binary e stop (.leaf type)), after)

/-- The level of what stands in parentheses, after an operator that takes a list or not. -/
def Level.inParens (list : Bool) : Level :=
  if list then .arguments else .nested

/-- The level of what is cast. -/
def Level.inCast : Level :=
  .bounded ["AS"]

/-! ### The recursion -/

/-- Sequences of fewer than `n` tokens. -/
abbrev Fewer (n : Nat) := { rest : List Token // rest.length < n }

/-- A result together with the proof that fewer than `n` tokens are left. -/
def within {α : Type} (n : Nat) (result : Except ExprError (α × List Token))
    (h : ∀ a rest, result = .ok (a, rest) → rest.length < n) :
    Except ExprError (α × Fewer n) :=
  match result, h with
  | .error e, _ => .error e
  | .ok (a, rest), h => .ok (a, ⟨rest, h a rest rfl⟩)

/-- A result without the proof. -/
def forget {α : Type} {n : Nat} (result : Except ExprError (α × Fewer n)) :
    Except ExprError (α × List Token) :=
  match result with
  | .error e => .error e
  | .ok (a, rest) => .ok (a, rest.1)

/-- To carry the bound along changes no result. -/
@[simp] theorem forget_within {α : Type} {n : Nat} {result : Except ExprError (α × List Token)}
    {h : ∀ a rest, result = .ok (a, rest) → rest.length < n} :
    forget (within n result h) = result := by
  unfold within forget
  grind

/-- What a bounded result leaves is within its bound. -/
theorem length_of_forget {α : Type} {n : Nat} {result : Except ExprError (α × Fewer n)} {a : α}
    {rest : List Token} (h : forget result = .ok (a, rest)) : rest.length < n := by
  unfold forget at h
  grind

/-- An enclosed expression leaves no more than its inner one does. -/
theorem length_enclosed {n : Nat} {wrap : Expr → Expr}
    {inner : Except ExprError (Expr × List Token)}
    (bound : ∀ e rest, inner = .ok (e, rest) → rest.length < n) (e : Expr) (rest : List Token)
    (h : enclosed wrap inner = .ok (e, rest)) : rest.length < n := by
  unfold enclosed at h
  have := @length_closing_lt
  grind

/-- A cast leaves no more than its inner expression does. -/
theorem length_castCall {n : Nat} {name : Token}
    {inner : Except ExprError (Expr × List Token)}
    (bound : ∀ e rest, inner = .ok (e, rest) → rest.length < n) (e : Expr) (rest : List Token)
    (h : castCall name inner = .ok (e, rest)) : rest.length < n := by
  unfold castCall at h
  have := @length_castTarget_lt
  grind

mutual

/-- The operand at the front of the tokens, with a bound on what is left. -/
def operandWithin (level : Level) (list : Bool) (tokens : List Token) :
    Except ExprError (Expr × Fewer tokens.length) :=
  match within tokens.length (lead level tokens) fun _ _ => length_lead_lt with
  | .error e => .error e
  | .ok (.whole operand, rest) => .ok (operand, rest)
  | .ok (.ops operators, rest) =>
    match operandWithin level false rest.1 with
    | .error e => .error e
    | .ok (operand, after) =>
      .ok (prefixAll operators operand, ⟨after.1, Nat.lt_trans after.2 rest.2⟩)
  | .ok (.parens, rest) =>
    let inner := forget (itemsWithin (.inParens list) rest.1)
    within tokens.length (enclosed .parens inner) <| length_enclosed fun _ _ h =>
      Nat.lt_of_lt_of_le (length_of_forget h) rest.2
  | .ok (.call name, rest) =>
    let inner := forget (itemsWithin .arguments rest.1)
    within tokens.length (enclosed (.call name) inner) <| length_enclosed fun _ _ h =>
      Nat.lt_of_lt_of_le (length_of_forget h) rest.2
  | .ok (.cast name, rest) =>
    let inner := forget (itemsWithin .inCast rest.1)
    within tokens.length (castCall name inner) <| length_castCall fun _ _ h =>
      Nat.lt_of_lt_of_le (length_of_forget h) rest.2
termination_by (tokens.length, 0)
decreasing_by all_goals exact Prod.Lex.left _ _ rest.2

/-- Operands joined by binary operators, with a bound on what is left. -/
def chainWithin (level : Level) (list : Bool) (tokens : List Token) :
    Except ExprError (Expr × Fewer tokens.length) :=
  match operandWithin level list tokens with
  | .error e => .error e
  | .ok (first, rest) =>
    let left := postfixes first rest.1
    have fewer : left.2.length < tokens.length :=
      Nat.lt_of_le_of_lt (length_postfixes_le first rest.1) rest.2
    match within tokens.length (joint level left.2) fun _ _ h =>
        Nat.lt_of_le_of_lt (length_joint_le h) fewer with
    | .error e => .error e
    | .ok (none, after) => .ok (left.1, after)
    | .ok (some op, after) =>
      match chainWithin level (takesList op) after.1 with
      | .error e => .error e
      | .ok (right, last) =>
        .ok (.binary left.1 op right, ⟨last.1, Nat.lt_trans last.2 after.2⟩)
termination_by (tokens.length, 1)
decreasing_by
  · exact Prod.Lex.right _ Nat.zero_lt_one
  · exact Prod.Lex.left _ _ after.2

/-- An expression, empty where the level allows that, with a bound on what is left. -/
def itemsWithin (level : Level) (tokens : List Token) :
    Except ExprError (Expr × Fewer (tokens.length + 1)) :=
  if level.isEmptyBefore tokens then
    .ok (.empty, ⟨tokens, Nat.lt_succ_self _⟩)
  else
    match chainWithin level false tokens with
    | .error e => .error e
    | .ok (e, rest) => .ok (e, ⟨rest.1, Nat.lt_succ_of_lt rest.2⟩)
termination_by (tokens.length, 2)
decreasing_by exact Prod.Lex.right _ (Nat.lt_succ_self 1)

end

/-! ### Reading expressions -/

/-- The operand at the front of the tokens, and the tokens after it. With `list`, what
stands in parentheses may be a list. -/
def operand (level : Level) (list : Bool) (tokens : List Token) :
    Except ExprError (Expr × List Token) :=
  forget (operandWithin level list tokens)

/-- The operands at the front of the tokens up to the end that the level sets, joined by
binary operators, and the tokens after them. -/
def chain (level : Level) (list : Bool) (tokens : List Token) :
    Except ExprError (Expr × List Token) :=
  forget (chainWithin level list tokens)

/-- The expression at the front of the tokens, and the tokens after it. -/
def read (level : Level) (tokens : List Token) : Except ExprError (Expr × List Token) :=
  forget (itemsWithin level tokens)

/-- The expression that a whole text is. -/
def parse (text : String) : Except ExprError Expr :=
  match read (.top []) (tokenize text) with
  | .error e => .error e
  | .ok (e, _) => .ok e

/-! ### One step of the recursion -/

/-- The equation of `operand`, free of the bounds that carry its recursion. -/
theorem operand_eq (level : Level) (list : Bool) (tokens : List Token) :
    operand level list tokens =
      match lead level tokens with
      | .error e => .error e
      | .ok (.whole e, rest) => .ok (e, rest)
      | .ok (.ops operators, rest) =>
        match operand level false rest with
        | .error e => .error e
        | .ok (e, after) => .ok (prefixAll operators e, after)
      | .ok (.parens, rest) => enclosed .parens (read (.inParens list) rest)
      | .ok (.call name, rest) => enclosed (.call name) (read .arguments rest)
      | .ok (.cast name, rest) => castCall name (read .inCast rest) := by
  rw [operand, operandWithin]
  conv =>
    rhs
    rw [← @forget_within _ tokens.length (lead level tokens) fun _ _ => length_lead_lt]
  generalize within tokens.length (lead level tokens) _ = found
  match found with
  | .error e => rfl
  | .ok (.whole e, rest) => rfl
  | .ok (.ops operators, rest) =>
    simp only [forget, operand]
    cases operandWithin level false rest.1 <;> rfl
  | .ok (.parens, rest) => simp only [forget_within]; rfl
  | .ok (.call name, rest) => simp only [forget_within]; rfl
  | .ok (.cast name, rest) => simp only [forget_within]; rfl

/-- The equation of `chain`, free of the bounds that carry its recursion. -/
theorem chain_eq (level : Level) (list : Bool) (tokens : List Token) :
    chain level list tokens =
      match operand level list tokens with
      | .error e => .error e
      | .ok (first, rest) =>
        match joint level (postfixes first rest).2 with
        | .error e => .error e
        | .ok (none, after) => .ok ((postfixes first rest).1, after)
        | .ok (some op, after) =>
          match chain level (takesList op) after with
          | .error e => .error e
          | .ok (right, last) => .ok (.binary (postfixes first rest).1 op right, last) := by
  rw [chain, chainWithin, operand]
  match operandWithin level list tokens with
  | .error e => rfl
  | .ok (first, rest) =>
    have fewer : (postfixes first rest.1).2.length < tokens.length :=
      Nat.lt_of_le_of_lt (length_postfixes_le first rest.1) rest.2
    simp only [forget]
    conv =>
      rhs
      rw [← @forget_within _ tokens.length (joint level (postfixes first rest.1).2) fun _ _ h =>
        Nat.lt_of_le_of_lt (length_joint_le h) fewer]
    generalize within tokens.length (joint level (postfixes first rest.1).2) _ = next
    match next with
    | .error e => rfl
    | .ok (none, after) => rfl
    | .ok (some op, after) =>
      simp only [forget, chain]
      cases chainWithin level (takesList op) after.1 <;> rfl

/-- The equation of `read`: an expression is missing, or it is a chain. -/
theorem read_eq (level : Level) (tokens : List Token) :
    read level tokens =
      if level.isEmptyBefore tokens then .ok (.empty, tokens)
      else chain level false tokens := by
  unfold read chain
  rw [itemsWithin]
  split
  · rfl
  · cases chainWithin level false tokens <;> rfl

/-- Reading an expression gives no token back. -/
theorem length_read_le {level : Level} {tokens rest : List Token} {e : Expr}
    (h : read level tokens = .ok (e, rest)) : rest.length ≤ tokens.length :=
  Nat.le_of_lt_succ (length_of_forget h)

end Expr

end SchemaText
