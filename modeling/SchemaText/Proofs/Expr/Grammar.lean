import SchemaText.Expr.Parser
import SchemaText.Proofs.Token.WellSpelled

/-!
# The grammar of expressions

The expression parser reads from left to right and decides by looking one token ahead. This
module writes down, without the parser, which token sequences stand for which trees; the
lookahead shows as conditions on what follows a word.

## Main definitions

* `Expr.Opens`, `Expr.Trails`, `Expr.Joins`: operators before, after and between operands.
* `Expr.IsCastType`: the types of casts.
* `Expr.Part`: the parts that the grammar is made of.
* `Expr.Reads`: **the grammar** — a sequence of tokens is a part, with this tree.

## Main results

* `Expr.Reads.ne_nil`: only a list of arguments is empty.
* `Expr.Reads.beginsOperand`: what an expression begins with.
-/

namespace SchemaText

/-- The kinds of tokens that are an operand on their own, wherever they stand. -/
def TokenKind.isLiteral : TokenKind → Bool
  | .quotedIdentifier | .backQuotedIdentifier | .squareIdentifier | .stringLiteral
  | .blobLiteral | .numeric => true
  | _ => false

/-- The kinds of tokens that an operand can begin with. -/
def TokenKind.beginsOperand : TokenKind → Bool
  | .closeParen | .comma | .symbol | .invalid => false
  | _ => true

namespace Token

/-- Whether the word can name a function. -/
def isCallable (token : Token) : Bool :=
  !token.startsQuery && (token.kind == .identifier
    || (token.kind == .operator || token.kind == .postfixOp) && token.isOperatorName)

/-- Whether the word is `CAST`. -/
def isCast (token : Token) : Bool :=
  token.kind == .prefixOp && token.is .CAST

end Token

namespace Expr

open Token

/-! ### Operators -/

/-- Prefix operators: the tokens in the text, the operators they are, and what follows. -/
inductive Opens (level : Level) : List Token → List Token → List Token → Prop
  | sign {t : Token} {rest : List Token} (kind : t.kind = .sign ∨ t.kind = .symbolPrefix) :
      Opens level [t] [t] rest
  | not {t : Token} {rest : List Token} (kind : t.kind = .not)
      (alone : ∀ n ∈ rest.head?, n.is .EXISTS = false) : Opens level [t] [t] rest
  | notExists {t n : Token} {rest : List Token} (kind : t.kind = .not)
      (exists_ : n.is .EXISTS = true) : Opens level [t, n] [Token.join .prefixOp t n] rest
  | word {t : Token} {rest : List Token} (kind : t.kind = .prefixOp)
      (notCast : t.is .CAST = false) (notDistinct : t.is .DISTINCT = false)
      (notCase : t.is .CASE = false) : Opens level [t] [t] rest
  | distinct {t : Token} {rest : List Token} (kind : t.kind = .prefixOp)
      (distinct : t.is .DISTINCT = true) (place : level = .arguments)
      (once : ∀ n ∈ rest.head?, n.is .DISTINCT = false) : Opens level [t] [t] rest
  | case {t : Token} {rest : List Token} (kind : t.kind = .prefixOp) (case : t.is .CASE = true)
      (alone : ∀ n ∈ rest.head?, n.is .WHEN = false) : Opens level [t] [t] rest
  | caseWhen {t n : Token} {rest : List Token} (kind : t.kind = .prefixOp)
      (case : t.is .CASE = true) (when : n.is .WHEN = true) : Opens level [t, n] [t, n] rest

/-- A postfix operator: the tokens in the text, and the operator they are. -/
inductive Trails : List Token → Token → Prop
  | word {t : Token} (kind : t.kind = .postfixOp) : Trails [t] t
  | notNull {t n : Token} (kind : t.kind = .not) (null : n.is .NULL = true) :
      Trails [t, n] (Token.join .postfixOp t n)

/-- A binary operator: the tokens in the text, the operator they are, and what follows. -/
inductive Joins (level : Level) : List Token → Token → List Token → Prop
  | comma {rest : List Token} (place : level = .arguments) :
      Joins level [comma] comma rest
  | symbol {t : Token} {rest : List Token} (kind : t.kind = .symbol ∨ t.kind = .sign) :
      Joins level [t] t rest
  | word {t : Token} {rest : List Token} (kind : t.kind = .operator)
      (notIs : t.is .IS = false) : Joins level [t] t rest
  | is {t : Token} {rest : List Token} (kind : t.kind = .operator) (is : t.is .IS = true)
      (alone : ∀ n ∈ rest.head?, n.kind ≠ .not) : Joins level [t] t rest
  | isNot {t n : Token} {rest : List Token} (kind : t.kind = .operator)
      (is : t.is .IS = true) (not : n.kind = .not) :
      Joins level [t, n] (Token.join .operator t n) rest
  | not {t n : Token} {rest : List Token} (kind : t.kind = .not)
      (negates : followsNot n = true) : Joins level [t, n] (Token.join .operator t n) rest

/-! ### Types of casts -/

/-- A number with an optional sign. -/
inductive IsSignedNumber : List Token → Prop
  | plain {n : Token} (number : n.kind = .numeric) : IsSignedNumber [n]
  | signed {s n : Token} (sign : s.kind = .sign) (number : n.kind = .numeric) :
      IsSignedNumber [s, n]

/-- One or two numbers and the closing parenthesis. -/
inductive IsTypeWidth : List Token → Prop
  | one {a : List Token} (first : IsSignedNumber a) : IsTypeWidth (a ++ [closeParen])
  | two {a b : List Token} (first : IsSignedNumber a) (second : IsSignedNumber b) :
      IsTypeWidth (a ++ comma :: (b ++ [closeParen]))

/-- The type of a cast: at least one word, and a width or none. -/
inductive IsCastType : List Token → Prop
  | words {words : List Token} (ne : words ≠ []) (all : ∀ t ∈ words, t.kind = .identifier) :
      IsCastType words
  | width {words width : List Token} (ne : words ≠ [])
      (all : ∀ t ∈ words, t.kind = .identifier) (sized : IsTypeWidth width) :
      IsCastType (words ++ openParen :: width)

/-! ### The grammar -/

/-- The parts that the grammar is made of. -/
inductive Part
  /-- An operand with its prefix operators. With `list`, what stands in parentheses may be a
  list. -/
  | operand (level : Level) (list : Bool)
  /-- An operand with its postfix operators. -/
  | phrase (level : Level) (list : Bool)
  /-- Operands joined by binary operators. -/
  | chain (level : Level) (list : Bool)
  /-- An expression, empty where the level allows that. -/
  | items (level : Level)

/-- **The grammar**: a sequence of tokens is a part of an expression, with this tree. -/
inductive Reads : Part → Expr → List Token → Prop
  | literal {level : Level} {list : Bool} {t : Token} (literal : t.kind.isLiteral = true) :
      Reads (.operand level list) (leaf t) [t]
  | name {level : Level} {list : Bool} {t : Token}
      (name : t.isCallable = true ∨ t.isCast = true) :
      Reads (.operand level list) (leaf ⟨t.text, .identifier⟩) [t]
  | count {level : Level} {list : Bool} {t : Token} (name : t.isCallable = true) :
      Reads (.operand level list) (call ⟨t.text, .identifier⟩ (leaf star))
        [t, openParen, star, closeParen]
  | call {level : Level} {list : Bool} {t : Token} {e : Expr} {ts : List Token}
      (name : t.isCallable = true) (arguments : Reads (.items .arguments) e ts) :
      Reads (.operand level list) (call ⟨t.text, .identifier⟩ e)
        (t :: openParen :: (ts ++ [closeParen]))
  | cast {level : Level} {list : Bool} {t stop : Token} {e : Expr} {ts type : List Token}
      (name : t.isCast = true) (inner : Reads (.items .inCast) e ts)
      (plain : stop.kind = .identifier) (as : stop.isSpelled "AS" = true)
      (isType : IsCastType type) :
      Reads (.operand level list) (call t (binary e stop (leaf ⟨render type, .identifier⟩)))
        (t :: openParen :: (ts ++ stop :: (type ++ [closeParen])))
  | parens {level : Level} {list : Bool} {e : Expr} {ts : List Token}
      (inner : Reads (.items (.inParens list)) e ts) :
      Reads (.operand level list) (parens e) (openParen :: (ts ++ [closeParen]))
  | prefixed {level : Level} {list : Bool} {e : Expr} {source ops ts : List Token}
      (noQuery : ∀ t ∈ source.head?, t.startsQuery = false) (opens : Opens level source ops ts)
      (inner : Reads (.operand level false) e ts) :
      Reads (.operand level list) (prefixAll ops e) (source ++ ts)
  | bare {level : Level} {list : Bool} {e : Expr} {ts : List Token}
      (inner : Reads (.operand level list) e ts) : Reads (.phrase level list) e ts
  | trailed {level : Level} {list : Bool} {e : Expr} {op : Token} {ts source : List Token}
      (inner : Reads (.phrase level list) e ts) (trails : Trails source op) :
      Reads (.phrase level list) (postfixed e op) (ts ++ source)
  | last {level : Level} {list : Bool} {e : Expr} {ts : List Token}
      (inner : Reads (.phrase level list) e ts) : Reads (.chain level list) e ts
  | more {level : Level} {list : Bool} {left right : Expr} {op : Token}
      {ts source rs : List Token} (first : Reads (.phrase level list) left ts)
      (goes : ∀ t ∈ source.head?, level.endsBefore t = false)
      (joins : Joins level source op rs)
      (rest : Reads (.chain level (takesList op)) right rs) :
      Reads (.chain level list) (binary left op right) (ts ++ (source ++ rs))
  | empty : Reads (.items .arguments) empty []
  | items {level : Level} {e : Expr} {ts : List Token} (some : level.isEmptyBefore ts = false)
      (inner : Reads (.chain level false) e ts) : Reads (.items level) e ts

/-! ### Tokens of expressions -/

/-- A prefix operator has a token in the text. -/
theorem Opens.ne_nil {level : Level} {source ops rest : List Token}
    (h : Opens level source ops rest) : source ≠ [] := by
  cases h <;> simp

/-- Prefix operators are read as at least one operator. -/
theorem Opens.ops_ne_nil {level : Level} {source ops rest : List Token}
    (h : Opens level source ops rest) : ops ≠ [] := by
  cases h <;> simp

/-- A postfix operator has a token in the text. -/
theorem Trails.ne_nil {source : List Token} {op : Token} (h : Trails source op) :
    source ≠ [] := by
  cases h <;> simp

/-- A binary operator has a token in the text. -/
theorem Joins.ne_nil {level : Level} {source rest : List Token} {op : Token}
    (h : Joins level source op rest) : source ≠ [] := by
  cases h <;> simp

/-- Of what follows a prefix operator only the next token matters. -/
theorem Opens.congr {level : Level} {source ops rest rest' : List Token}
    (h : Opens level source ops rest) (same : rest'.head? = rest.head?) :
    Opens level source ops rest' := by
  cases h with
  | sign kind => exact .sign kind
  | not kind alone => exact .not kind (same ▸ alone)
  | notExists kind exists_ => exact .notExists kind exists_
  | word kind notCast notDistinct notCase => exact .word kind notCast notDistinct notCase
  | distinct kind distinct place once => exact .distinct kind distinct place (same ▸ once)
  | case kind case alone => exact .case kind case (same ▸ alone)
  | caseWhen kind case when => exact .caseWhen kind case when

/-- Of what follows a binary operator only the next token matters. -/
theorem Joins.congr {level : Level} {source rest rest' : List Token} {op : Token}
    (h : Joins level source op rest) (same : rest'.head? = rest.head?) :
    Joins level source op rest' := by
  cases h with
  | comma place => exact .comma place
  | symbol kind => exact .symbol kind
  | word kind notIs => exact .word kind notIs
  | is kind is alone => exact .is kind is (same ▸ alone)
  | isNot kind is not => exact .isNot kind is not
  | not kind negates => exact .not kind negates

/-- Whether the part has at least one token. -/
def Part.isFilled : Part → Bool
  | items _ => false
  | _ => true

/-- Only a list of arguments is empty. -/
theorem Reads.ne_nil {part : Part} {e : Expr} {ts : List Token} (h : Reads part e ts)
    (filled : part.isFilled = true) : ts ≠ [] := by
  induction h with
  | prefixed _ opens _ _ => simp [opens.ne_nil]
  | bare _ ih | last _ ih => exact ih rfl
  | trailed _ trails _ => simp [trails.ne_nil]
  | more _ _ joins _ _ _ => simp [joins.ne_nil]
  | empty | items => exact absurd filled (by simp [Part.isFilled])
  | _ => simp

/-- A literal begins an operand. -/
theorem beginsOperand_of_isLiteral {kind : TokenKind} (h : kind.isLiteral = true) :
    kind.beginsOperand = true := by
  cases kind <;> first | rfl | exact absurd h (by decide)

/-- The name of a function begins an operand. -/
theorem beginsOperand_of_isCallable {t : Token} (h : t.isCallable = true) :
    t.kind.beginsOperand = true := by
  simp only [isCallable, Bool.and_eq_true, Bool.or_eq_true, beq_iff_eq] at h
  rcases h.2 with kind | ⟨kind | kind, -⟩ <;> rw [kind] <;> rfl

/-- `CAST` begins an operand. -/
theorem beginsOperand_of_isCast {t : Token} (h : t.isCast = true) :
    t.kind.beginsOperand = true := by
  rw [isCast, Bool.and_eq_true, beq_iff_eq] at h
  rw [h.1]
  rfl

/-- A prefix operator begins an operand. -/
theorem Opens.beginsOperand {level : Level} {source ops rest : List Token}
    (h : Opens level source ops rest) : ∀ t ∈ source.head?, t.kind.beginsOperand = true := by
  cases h with
  | sign kind =>
      rintro _ ⟨⟩
      rcases kind with kind | kind <;> rw [kind] <;> rfl
  | not kind | notExists kind | word kind | distinct kind | case kind | caseWhen kind =>
      rintro _ ⟨⟩
      rw [kind]
      rfl

/-- What an expression begins with. -/
theorem Reads.beginsOperand {part : Part} {e : Expr} {ts : List Token} (h : Reads part e ts) :
    ∀ t ∈ ts.head?, t.kind.beginsOperand = true := by
  induction h with
  | literal literal =>
      rintro _ ⟨⟩
      exact beginsOperand_of_isLiteral literal
  | name name =>
      rintro _ ⟨⟩
      exact name.elim beginsOperand_of_isCallable beginsOperand_of_isCast
  | count name | call name _ _ =>
      rintro _ ⟨⟩
      exact beginsOperand_of_isCallable name
  | cast name _ _ _ _ _ =>
      rintro _ ⟨⟩
      exact beginsOperand_of_isCast name
  | parens _ _ =>
      rintro _ ⟨⟩
      rfl
  | prefixed _ opens _ _ =>
      rw [List.head?_append_of_ne_nil _ opens.ne_nil]
      exact opens.beginsOperand
  | trailed inner _ ih | more inner _ _ _ ih _ =>
      rw [List.head?_append_of_ne_nil _ (inner.ne_nil rfl)]
      exact ih
  | bare _ ih | last _ ih | items _ _ ih => exact ih
  | empty => simp

end Expr

end SchemaText
