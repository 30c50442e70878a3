import Mathlib
import SchemaText.Proofs.Expr.Terms

/-!
# Expressions and their texts

A text is an expression if and only if its tokens are one of the grammar. An expression keeps
all the tokens that it was read from, so that its own text has the same tokens and is read as
the same expression; only blanks and comments are lost.

## Main results

* `Expr.read_top_iff`: a whole expression is read up to the end of the input.
* `Expr.parse_eq_ok_iff`: **a text is parsed as an expression** just if the grammar reads its
  tokens so.
* `Expr.parse_render`: a sequence of the grammar is read back from its text.
* `Expr.parse_sql_of_parse`: **round trip** — the text of an expression has the tokens that
  the expression was read from.
* `Expr.render_of_read`: **nothing is lost** — what is taken from the front of a sequence is
  the text of the expression, whatever is left.
-/

namespace SchemaText

namespace Expr

open Token

variable {level : Level} {e : Expr} {tokens rest ts : List Token} {text : String}

/-! ### Whole texts -/

/-- The end of the input is the only end of a whole expression. -/
theorem closes_top (h : (Level.top []).Closes rest) : rest = [] := by
  cases rest with
  | nil => rfl
  | cons t rest =>
      have ends := h.1
      rw [joint, if_neg (by simp [Level.endsBefore])] at ends
      split at ends
      · exact absurd ends (by simp)
      · split at ends <;> exact absurd ends (by simp)

/-- A whole expression is read up to the end of the input, and belongs to the grammar. -/
theorem read_top_iff (lexed : ∀ t ∈ ts, t.IsLexed) :
    read (.top []) ts = .ok (e, rest) ↔ rest = [] ∧ Reads (.chain (.top []) false) e ts := by
  constructor
  · intro h
    obtain ⟨ts, rfl, reads, closes⟩ := read_sound (by simp [Level.IsPlain]) lexed h
    obtain rfl := closes_top closes
    rw [List.append_nil]
    cases reads with
    | items _ inner => exact ⟨rfl, inner⟩
  · rintro ⟨rfl, reads⟩
    have items : Reads (.items (.top [])) e ts :=
      .items (isEmptyBefore_of_reads reads (.inr rfl)) reads
    have read := items.read_eq (closes_nil [])
    rwa [List.append_nil] at read

/-- What a whole text is read as belongs to the grammar. -/
theorem reads_of_parse (h : Expr.parse text = .ok e) :
    Reads (.chain (.top []) false) e (tokenize text) := by
  unfold Expr.parse at h
  split at h
  · exact absurd h (by simp)
  · rename_i found left read
    obtain rfl := Except.ok.inj h
    exact ((read_top_iff fun _ member => isLexed_of_mem member).1 read).2

/-- **A text is parsed as an expression** just if the grammar reads its tokens so. -/
theorem parse_eq_ok_iff :
    Expr.parse text = .ok e ↔ Reads (.chain (.top []) false) e (tokenize text) := by
  refine ⟨reads_of_parse, fun h => ?_⟩
  rw [Expr.parse, (read_top_iff fun _ member => isLexed_of_mem member).2 ⟨rfl, h⟩]

/-- What a sequence is read as is read from its text, and no comment is open at its end. -/
theorem parse_render (h : Reads (.chain (.top []) false) e ts) (lexed : ∀ t ∈ ts, t.IsLexed) :
    Expr.parse (render ts) = .ok e ∧ Lexer.endsInComment (render ts).toList = false := by
  have valid := h.isWellSpelled lexed
  constructor
  · rwa [parse_eq_ok_iff, tokenize_render valid]
  · rw [render, String.toList_ofList, endsInComment_renderAfter valid]

/-! ### Round trip -/

/-- **Round trip**: the text of an expression has the tokens that the expression was read
from, and is read as the same expression. -/
theorem parse_sql_of_parse (h : Expr.parse text = .ok e) :
    tokenize e.sql = tokenize text ∧ Expr.parse e.sql = .ok e := by
  have reads := reads_of_parse h
  have same := reads.tokenize_sql fun _ member => isLexed_of_mem member
  exact ⟨same, by rwa [parse_eq_ok_iff, same]⟩

/-- The expression `Cast(a As Int(2)) IS NOT NULL Not Like (b)`, whose operators are made of
several words. -/
def fused : Expr :=
  .binary
    (.call ⟨"Cast", .prefixOp⟩
      (.binary (.leaf ⟨"a", .identifier⟩) ⟨"As", .identifier⟩ (.leaf ⟨"Int(2)", .identifier⟩)))
    ⟨"IS NOT", .operator⟩
    (.binary (.leaf ⟨"NULL", .identifier⟩) ⟨"Not Like", .operator⟩
      (.parens (.leaf ⟨"b", .identifier⟩)))

/-- Words that have become one operator come apart again, and blanks and comments are lost. -/
theorem parse_sql_of_parse_fused :
    Expr.parse "Cast ( a As Int /* type */(2 )) IS\nNOT NULL Not  Like(b)" = .ok fused ∧
      fused.sql = "Cast(a As Int(2))IS NOT NULL Not Like(b)" ∧
      tokenize fused.sql =
        tokenize "Cast ( a As Int /* type */(2 )) IS\nNOT NULL Not  Like(b)" ∧
      Expr.parse fused.sql = .ok fused := by
  have tokens : tokenize "Cast ( a As Int /* type */(2 )) IS\nNOT NULL Not  Like(b)" =
      [⟨"Cast", .prefixOp⟩, openParen, ⟨"a", .identifier⟩, ⟨"As", .identifier⟩,
        ⟨"Int", .identifier⟩, openParen, ⟨"2", .numeric⟩, closeParen, closeParen,
        ⟨"IS", .operator⟩, ⟨"NOT", .not⟩, ⟨"NULL", .identifier⟩, ⟨"Not", .not⟩,
        ⟨"Like", .operator⟩, openParen, ⟨"b", .identifier⟩, closeParen] := by
    rw [← Lexer.tokens_toList]
    cbv
  have name (text : String) (plain : (⟨text, .identifier⟩ : Token).isCallable = true)
      (level : Level) (list : Bool) :
      Reads (.chain level list) (.leaf ⟨text, .identifier⟩) [⟨text, .identifier⟩] :=
    .last (.bare (.name (.inl plain)))
  have a (level : Level) := name "a" (by decide +kernel) level false
  have b (level : Level) := name "b" (by decide +kernel) level false
  have width : IsTypeWidth [⟨"2", .numeric⟩, closeParen] := .one (.plain rfl)
  have word : ∀ t ∈ [(⟨"Int", .identifier⟩ : Token)], t.kind = .identifier := by simp
  have type : IsCastType [⟨"Int", .identifier⟩, openParen, ⟨"2", .numeric⟩, closeParen] :=
    .width (List.cons_ne_nil _ _) word width
  have as : (⟨"As", .identifier⟩ : Token).isSpelled "AS" = true := by decide +kernel
  have cast : Reads (.phrase (.top []) false) (.call ⟨"Cast", .prefixOp⟩ _) _ :=
    .bare (.cast (by decide +kernel) (.items rfl (a .inCast)) rfl as type)
  have parens (list : Bool) :
      Reads (.chain (.top []) list) (.parens (.leaf ⟨"b", .identifier⟩))
      [openParen, ⟨"b", .identifier⟩, closeParen] := by
    have filled : (Level.inParens list).isEmptyBefore [⟨"b", .identifier⟩] = false := by
      cases list <;> rfl
    exact .last (.bare (.parens (.items filled (b _))))
  have isNot : Joins (.top []) [⟨"IS", .operator⟩, ⟨"NOT", .not⟩] _
      [⟨"NULL", .identifier⟩, ⟨"Not", .not⟩, ⟨"Like", .operator⟩, openParen,
        ⟨"b", .identifier⟩, closeParen] :=
    .isNot rfl (by decide +kernel) rfl
  have notLike : Joins (.top []) [⟨"Not", .not⟩, ⟨"Like", .operator⟩] _
      [openParen, ⟨"b", .identifier⟩, closeParen] := .not rfl (by decide +kernel)
  have callable : (⟨"NULL", .identifier⟩ : Token).isCallable = true := by decide +kernel
  have null : Reads (.operand (.top []) false) (.leaf ⟨"NULL", .identifier⟩)
      [⟨"NULL", .identifier⟩] := .name (.inl callable)
  have reads : Reads (.chain (.top []) false) fused _ :=
    .more cast (by decide +kernel) isNot
      (.more (.bare null) (by decide +kernel) notLike (parens _))
  have parsed := parse_eq_ok_iff.2 (by
    rw [tokens]
    exact reads)
  exact ⟨parsed, by decide +kernel, parse_sql_of_parse parsed⟩

/-! ### What is taken -/

/-- **Nothing is lost, doubled or moved.** An expression that is read at any level from the
front of a sequence takes some of its tokens and leaves the rest as it is. The tokens that it
takes are written as the text of the expression, and there is none just if it is empty. -/
theorem render_of_read (lexed : ∀ t ∈ tokens, ∃ text, t ∈ tokenize text)
    (h : read level tokens = .ok (e, rest)) :
    ∃ ts, tokens = ts ++ rest ∧ render ts = e.sql ∧ (ts = [] ↔ e = .empty) := by
  have lexed : ∀ t ∈ tokens, t.IsLexed := fun t member =>
    let ⟨_, source⟩ := lexed t member
    isLexed_of_mem source
  rw [read_eq] at h
  split at h
  · obtain ⟨rfl, rfl⟩ := Prod.mk.inj (Except.ok.inj h)
    exact ⟨[], rfl, rfl, iff_of_true rfl rfl⟩
  · obtain ⟨ts, rfl, reads, -⟩ := (soundAt lexed).chain h
    have alike := reads.spelledAs fun t member => lexed t (List.mem_append_left _ member)
    have filled : e.isEmpty = false := reads.isEmpty_eq (by simp)
    refine ⟨ts, rfl, alike.render_eq.symm, iff_of_false (reads.ne_nil rfl) ?_⟩
    rintro rfl
    exact absurd filled (by simp [isEmpty])

/-- The tokens of `CAST("a" AS INT(2)) NOT NULL Where b`. -/
def stoppedTokens : List Token :=
  [⟨"CAST", .prefixOp⟩, openParen, ⟨"a", .quotedIdentifier⟩, ⟨"AS", .identifier⟩,
    ⟨"INT", .identifier⟩, openParen, ⟨"2", .numeric⟩, closeParen, closeParen, ⟨"NOT", .not⟩,
    ⟨"NULL", .identifier⟩, ⟨"Where", .identifier⟩, ⟨"b", .identifier⟩]

/-- The expression before the stop word. -/
def stopped : Expr :=
  .postfixed (.call ⟨"CAST", .prefixOp⟩
    (.binary (.leaf ⟨"a", .quotedIdentifier⟩) ⟨"AS", .identifier⟩
      (.leaf ⟨"INT(2)", .identifier⟩)))
    ⟨"NOT NULL", .postfixOp⟩

/-- Tokens that have become one in the tree, and others that are left behind. -/
theorem render_of_read_stopped :
    (∀ t ∈ stoppedTokens, ∃ text, t ∈ tokenize text) ∧
      read (.top ["WHERE"]) stoppedTokens = .ok (stopped, stoppedTokens.drop 11) ∧
      ∃ ts, stoppedTokens = ts ++ stoppedTokens.drop 11 ∧ render ts = stopped.sql ∧
        (ts = [] ↔ stopped = .empty) := by
  have lexed : ∀ t ∈ stoppedTokens, ∃ text, t ∈ tokenize text := by
    have tokens : tokenize "CAST(\"a\" AS INT(2)) NOT NULL Where b" = stoppedTokens := by
      rw [← Lexer.tokens_toList]
      cbv
    exact fun t member => ⟨_, tokens ▸ member⟩
  have inner : Reads (.chain .inCast false) (.leaf ⟨"a", .quotedIdentifier⟩)
      [⟨"a", .quotedIdentifier⟩] := .last (.bare (.literal rfl))
  have word : ∀ t ∈ [(⟨"INT", .identifier⟩ : Token)], t.kind = .identifier := by simp
  have type : IsCastType [⟨"INT", .identifier⟩, openParen, ⟨"2", .numeric⟩, closeParen] :=
    .width (List.cons_ne_nil _ _) word (.one (.plain rfl) : IsTypeWidth [_, closeParen])
  have as : (⟨"AS", .identifier⟩ : Token).isSpelled "AS" = true := by decide +kernel
  have isCast : (⟨"CAST", .prefixOp⟩ : Token).isCast = true := by
    rw [Token.isCast, ← isSpelled_spelling]
    decide +kernel
  have null : (⟨"NULL", .identifier⟩ : Token).is .NULL = true := by
    rw [← isSpelled_spelling]
    decide +kernel
  have cast : Reads (.phrase (.top ["WHERE"]) false) (.call ⟨"CAST", .prefixOp⟩ _) _ :=
    .bare (.cast isCast (.items rfl inner) rfl as type)
  have notNull : Trails [⟨"NOT", .not⟩, ⟨"NULL", .identifier⟩] _ := .notNull rfl null
  have items : Reads (.items (.top ["WHERE"])) stopped (stoppedTokens.take 11) :=
    .items (by decide +kernel) (.last (.trailed cast notNull))
  have closes : (Level.top ["WHERE"]).Closes (stoppedTokens.drop 11) :=
    ⟨by decide +kernel, fun e => postfixes_of_other (by decide) (by decide) e _⟩
  have read := items.read_eq closes
  exact ⟨lexed, read, render_of_read lexed read⟩

end Expr

end SchemaText
