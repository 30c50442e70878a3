import Mathlib.Data.List.Forall2
import SchemaText.Proofs.Expr.RoundTrip
import SchemaText.Proofs.Index.RoundTrip

/-!
# Terms that are written one after another

A binary operator has everything after it as its right operand, the commas of the list
included. So the list of terms falls apart where it was put together only as far as no term
has a binary operator at its top; from such a term on, all terms become one.

## Main definitions

* `Expr.chained`: terms with commas between them, as they are read together.

## Main results

* `Expr.Reads.chained`: terms with commas between them are read like this.
* `Expr.splitCommas_chained_iff`: **when the list falls apart into the terms**.
* `Index.parse_termList_iff`: a definition that lists whole expressions is whole.
-/

namespace SchemaText

open Token

namespace Expr

variable {level : Level} {list : Bool} {part : Part} {e r : Expr} {es : List Expr}
  {op t : Token} {source ops ts rs rest : List Token} {tss : List (List Token)}

/-- Terms with commas between them, as they are read together. -/
def chained : List Expr → Expr
  | [] => empty
  | [e] => e
  | e :: es => graft e (chained es)

/-- The list behind an item comes under the last binary operator of that item. -/
theorem chained_cons (e : Expr) (ne : es ≠ []) : chained (e :: es) = graft e (chained es) := by
  cases es with
  | nil => exact absurd rfl ne
  | cons _ _ => rfl

/-! ### Reading a list -/

/-- **Terms with commas between them are read together.** -/
theorem Reads.chained (ne : es ≠ [])
    (h : List.Forall₂ (fun e ts => Reads (.chain .arguments false) e ts) es tss) :
    Reads (.chain .arguments false) (Expr.chained es) (commaList tss) := by
  induction h with
  | nil => exact absurd rfl ne
  | @cons e ts es tss first rest ih =>
      cases rest with
      | nil => exact first
      | cons next rest => exact first.graft (ih (by simp))

/-! ### Taking a list apart -/

/-- A list is split off an item just if the item has no binary operator at the top. -/
theorem splitCommas_graft (single : e.isList = false) (rest : Expr) :
    (e.graft rest).splitCommas =
      if e.isBinary then [e.graft rest] else e :: rest.splitCommas := by
  cases e with
  | binary left op right => exact splitCommas_binary (by simpa [isList] using single)
  | _ => exact splitCommas_binary_comma rfl

/-- **The list falls apart into the terms** just if none but the last has a binary operator at
its top. -/
theorem splitCommas_chained_iff (ne : es ≠ []) (single : ∀ e ∈ es, e.isList = false) :
    (chained es).splitCommas = es ↔ ∀ e ∈ es.dropLast, e.isBinary = false := by
  induction es with
  | nil => exact absurd rfl ne
  | cons e es ih =>
      cases es with
      | nil => simp [chained, splitCommas_of_not_isList (single e (by simp))]
      | cons next es =>
          have rest := ih (by simp) fun e member => single e (by simp [member])
          rw [chained_cons e (by simp), splitCommas_graft (single e (by simp)),
            List.dropLast_cons_cons, List.forall_mem_cons, ← rest]
          by_cases binary : e.isBinary = true
          · simp [binary]
          · simp [binary]

/-! ### Whole expressions as terms -/

/-- Whole expressions as they are read in a list. -/
def Level.inList : Level → Level
  | .top [] => .arguments
  | level => level

/-- The same part in a list. -/
def Part.inList : Part → Part
  | operand level list => operand level.inList list
  | phrase level list => phrase level.inList list
  | chain level list => chain level.inList list
  | items level => items level

/-- The argument list differs from no level but that of a whole text. -/
theorem inList_cases (level : Level) :
    level.inList = level ∨ (level = .top [] ∧ level.inList = .arguments) := by
  unfold Level.inList
  split
  · exact .inr ⟨rfl, rfl⟩
  · exact .inl rfl

/-- Prefix operators are the same in an argument list. -/
theorem Opens.inList (h : Opens level source ops rest) :
    Opens level.inList source ops rest := by
  rcases inList_cases level with same | ⟨rfl, same⟩
  · rwa [same]
  · rw [same]
    cases h with
    | sign kind => exact .sign kind
    | not kind alone => exact .not kind alone
    | notExists kind exists_ => exact .notExists kind exists_
    | word kind notCast notDistinct notCase => exact .word kind notCast notDistinct notCase
    | distinct _ _ place _ => exact absurd place (by simp)
    | case kind case alone => exact .case kind case alone
    | caseWhen kind case when => exact .caseWhen kind case when

/-- Binary operators are the same in an argument list. -/
theorem Joins.inList (h : Joins level source op rest) : Joins level.inList source op rest := by
  rcases inList_cases level with same | ⟨rfl, same⟩
  · rwa [same]
  · rw [same]
    cases h with
    | comma place => exact absurd place (by simp)
    | symbol kind => exact .symbol kind
    | word kind notIs => exact .word kind notIs
    | is kind is alone => exact .is kind is alone
    | isNot kind is not => exact .isNot kind is not
    | not kind negates => exact .not kind negates

/-- No operator is a closing parenthesis. -/
theorem Joins.kind_ne_closeParen (h : Joins level source op rest) :
    ∀ t ∈ source.head?, t.kind ≠ .closeParen := by
  cases h with
  | comma =>
      rintro _ ⟨⟩
      decide
  | symbol kind =>
      rintro _ ⟨⟩
      rcases kind with kind | kind <;> simp [kind]
  | word kind | is kind | isNot kind | not kind =>
      rintro _ ⟨⟩
      simp [kind]

/-- **A whole expression is a term** of a list. -/
theorem Reads.inList (h : Reads part e ts) : Reads part.inList e ts := by
  induction h with
  | literal literal => exact .literal literal
  | name name => exact .name name
  | count name => exact .count name
  | call name arguments _ => exact .call name arguments
  | cast name inner plain as isType _ => exact .cast name inner plain as isType
  | parens inner _ => exact .parens inner
  | prefixed noQuery opens _ ih => exact .prefixed noQuery opens.inList ih
  | bare _ ih => exact .bare ih
  | trailed _ trails ih => exact .trailed ih trails
  | last _ ih => exact .last ih
  | @more level list left right op ts source rs _ goes joins _ ihFirst ihRest =>
      refine .more ihFirst (fun t first => ?_) joins.inList ihRest
      rcases inList_cases level with same | ⟨rfl, same⟩
      · rw [same]
        exact goes t first
      · rw [same]
        exact beq_eq_false_iff_ne.2 (joins.kind_ne_closeParen t first)
  | empty => exact .empty
  | items some inner _ => exact .items some inner

end Expr

/-! ### The text of a list -/

section Text

open Lexer

/-- A token with a closed edge stands alone before any text. -/
theorem tokens_closed {sign : List Char × TokenKind} (member : sign ∈ signs)
    (closed : sign.2.trailingEdge = .closed) (cs : List Char) :
    tokens (sign.1 ++ cs) = ⟨String.ofList sign.1, sign.2⟩ :: tokens cs :=
  tokens_of_first (IsWellSpelled.first_sign member fun d _ =>
    IsWellSpelled.stopsAt_of_closed member closed d)

/-- The tokens of an accepted text, before a comma or a closing parenthesis. -/
theorem tokens_accepted {text : String} {e : Expr} (accepted : Expr.parse text = .ok e)
    (closed : endsInComment text.toList = false) {t : Token} (spelled : t.IsWellSpelled)
    (edge : t.kind.leadingEdge = .closed) (cs : List Char) (bare : skip cs = cs)
    (next : cs.head? = t.spelling.head?) :
    tokens (text.toList ++ cs) = tokenize text ++ tokens cs := by
  have valid := (Expr.reads_of_parse accepted).kind_ne_invalid
  refine tokens_append valid closed bare fun a member d first => ?_
  have ha := isLexed_of_mem member (valid a member)
  rw [next] at first
  exact ha.stopsAt_of_not_needsSpace spelled (needsSpace_of_closed a edge) d first

/-- **The tokens of a list of texts** are those of the texts with commas between them. -/
theorem tokens_intercalate {terms : List (String × Expr)} (ne : terms ≠ [])
    (accepted : ∀ term ∈ terms, Expr.parse term.1 = .ok term.2)
    (closed : ∀ term ∈ terms, endsInComment term.1.toList = false) (after : List Char) :
    tokens ((", ".intercalate (terms.map (·.1))).toList ++ ')' :: after) =
      commaList (terms.map fun term => tokenize term.1) ++ closeParen :: tokens after := by
  induction terms with
  | nil => exact absurd rfl ne
  | cons term terms ih =>
      have ok := accepted term (by simp)
      have noComment := closed term (by simp)
      cases terms with
      | nil =>
          have seam := tokens_accepted ok noComment isWellSpelled_closeParen rfl (')' :: after)
            rfl rfl
          have last := tokens_closed (show ([')'], TokenKind.closeParen) ∈ signs by decide) rfl
            after
          rw [List.map_singleton, String.intercalate_singleton, seam]
          change _ ++ tokens ([')'] ++ after) = _
          rw [last]
          rfl
      | cons next terms =>
          have rest := ih (by simp) (fun term member => accepted term (by simp [member]))
            fun term member => closed term (by simp [member])
          let cs := (", ".intercalate ((next :: terms).map (·.1))).toList ++ ')' :: after
          have seam := tokens_accepted ok noComment isWellSpelled_comma rfl (',' :: ' ' :: cs)
            rfl rfl
          have comma := tokens_closed (show ([','], TokenKind.comma) ∈ signs by decide) rfl
            (' ' :: cs)
          have split : (", ".intercalate ((term :: next :: terms).map (·.1))).toList ++
              ')' :: after = term.1.toList ++ ',' :: ' ' :: cs := by
            simp only [cs, List.map_cons, String.intercalate_cons_cons, String.toList_append,
              List.append_assoc]
            rfl
          have list : commaList ((term :: next :: terms).map fun term => tokenize term.1) =
              tokenize term.1 ++ Token.comma ::
                commaList ((next :: terms).map fun term => tokenize term.1) :=
            commaList_cons _ (by simp)
          rw [split, seam]
          change _ ++ tokens ([','] ++ ' ' :: cs) = _
          rw [comma, tokens_blank, rest, list, List.append_assoc]
          rfl

/-- The tokens of a definition that lists texts as terms. -/
theorem tokenize_termList {terms : List (String × Expr)} (ne : terms ≠ [])
    (accepted : ∀ term ∈ terms, Expr.parse term.1 = .ok term.2)
    (closed : ∀ term ∈ terms, endsInComment term.1.toList = false) :
    tokenize ("CREATE INDEX ix ON t (" ++ ", ".intercalate (terms.map (·.1)) ++ ")") =
      (Index.new "ix" "t").heading.map spoken ++
        openParen :: (commaList (terms.map fun term => tokenize term.1) ++ [closeParen]) := by
  let cs := (", ".intercalate (terms.map (·.1))).toList ++ [')']
  let heading := (Index.new "ix" "t").heading.map spoken
  have valid : ∀ t ∈ heading, t.IsWellSpelled := by
    intro t member
    obtain ⟨a, found, rfl⟩ := List.mem_map.1 member
    exact (Index.arePrinted_heading _ a found).isWellSpelled_spoken
  have split : ("CREATE INDEX ix ON t (" ++ ", ".intercalate (terms.map (·.1)) ++ ")").toList =
      renderAfter none heading ++ (' ' :: '(' :: cs) := by
    have written : "CREATE INDEX ix ON t (".toList = renderAfter none heading ++
        [' ', '('] := by
      decide +kernel
    rw [String.toList_append, String.toList_append, written]
    simp only [cs, List.append_assoc]
    rfl
  have seam : ∀ t ∈ heading.getLast?, ∀ d ∈ (' ' :: '(' :: cs).head?, t.stopsAt d = true := by
    rintro t member _ ⟨⟩
    exact (valid t (List.mem_of_getLast? member)).stopsAt_space
  rw [← tokens_toList, split, tokens_renderAfter_append valid seam, tokens_blank]
  change _ ++ tokens (['('] ++ cs) = _
  rw [tokens_closed (show (['('], TokenKind.openParen) ∈ signs by decide) rfl,
    tokens_intercalate ne accepted closed, tokens_of_first_none (rfl : first [] = none)]
  rfl

end Text

/-! ### Definitions that list terms -/

namespace Index

variable {terms : List (String × Expr)}

/-- **A definition that lists whole expressions is whole**, and its terms are these just if
none of them but the last has a binary operator at its top. -/
theorem parse_termList_iff (ne : terms ≠ [])
    (accepted : ∀ term ∈ terms, Expr.parse term.1 = .ok term.2)
    (closed : ∀ term ∈ terms, Lexer.endsInComment term.1.toList = false) :
    ∃ index, Statement.parse ("CREATE INDEX ix ON t (" ++
          ", ".intercalate (terms.map (·.1)) ++ ")") = .ok (.index index) ∧
      (index.terms = terms.map (·.2) ↔
        ∀ e ∈ (terms.map (·.2)).dropLast, e.isBinary = false) := by
  have reads : List.Forall₂ (fun e ts => Expr.Reads (.chain .arguments false) e ts)
      (terms.map (·.2)) (terms.map fun term => tokenize term.1) := by
    rw [List.forall₂_map_left_iff, List.forall₂_map_right_iff, List.forall₂_same]
    exact fun term member => (Expr.reads_of_parse (accepted term member)).inList
  have chained := Expr.Reads.chained (by simpa using ne) reads
  have items : Expr.Items (Expr.chained (terms.map (·.2))).splitCommas
      (commaList (terms.map fun term => tokenize term.1)) := .inr chained.terms
  have single : ∀ e ∈ terms.map (·.2), e.isList = false := by
    intro e member
    obtain ⟨term, found, rfl⟩ := List.mem_map.1 member
    exact (Expr.reads_of_parse (accepted term found)).isList_chain (by simp)
  have source := tokenize_termList ne accepted closed
  refine ⟨{ new "ix" "t" with terms := (Expr.chained (terms.map (·.2))).splitCommas }, ?_,
    Expr.splitCommas_chained_iff (by simpa using ne) single⟩
  refine parse_of_outcome (fun t member => ?_) ?_
  · rw [source] at member
    rcases List.mem_append.1 member with member | member
    · obtain ⟨a, found, rfl⟩ := List.mem_map.1 member
      exact (arePrinted_heading _ a found).isWellSpelled_spoken.kind_ne_invalid
    · rcases List.mem_cons.1 member with rfl | member
      · decide
      · rcases List.mem_append.1 member with member | member
        · exact chained.kind_ne_invalid t member
        · obtain rfl := List.mem_singleton.1 member
          decide
  · rw [source]
    exact outcome_heading (completes_terms items fun d found => outcome_nil rfl found)

/-- The expression `a COLLATE NOCASE`. -/
def collated : Expr :=
  .binary (.leaf ⟨"a", .identifier⟩) ⟨"COLLATE", .operator⟩ (.leaf ⟨"NOCASE", .identifier⟩)

/-- A collated name is one term. -/
theorem parse_collated : Expr.parse "a COLLATE NOCASE" = .ok collated ∧
    Lexer.endsInComment "a COLLATE NOCASE".toList = false := by
  have a : Token.name "a" = ⟨"a", .identifier⟩ := by decide +kernel
  have nocase : Token.name "NOCASE" = ⟨"NOCASE", .identifier⟩ := by decide +kernel
  have reads : Expr.Reads (.chain (.top []) false) collated
      [⟨"a", .identifier⟩, ⟨"COLLATE", .operator⟩, ⟨"NOCASE", .identifier⟩] := by
    refine .more (.bare (Expr.reads_plainName a)) ?_
      (.word rfl (by decide +kernel) : Expr.Joins _ [⟨"COLLATE", .operator⟩] _ _)
      (.last (.bare (Expr.reads_plainName nocase)))
    rintro _ ⟨⟩
    rfl
  have written : render [⟨"a", .identifier⟩, ⟨"COLLATE", .operator⟩, ⟨"NOCASE", .identifier⟩] =
      "a COLLATE NOCASE" := by decide +kernel
  rw [← written]
  exact Expr.parse_render reads (List.forall_mem_cons.2 ⟨Expr.isLexed_plainName a,
    List.forall_mem_cons.2 ⟨fun _ => isWellSpelled_keyword .COLLATE,
      List.forall_mem_singleton.2 (Expr.isLexed_plainName nocase)⟩⟩)

/-- After a term with a collation the next term is lost: `a COLLATE NOCASE, b` is read as one
term. -/
theorem parse_termList_collated :
    Expr.parse "a COLLATE NOCASE" = .ok collated ∧
      Expr.parse "b" = .ok (.leaf ⟨"b", .identifier⟩) ∧
      ∃ index, Statement.parse "CREATE INDEX ix ON t (a COLLATE NOCASE, b)" =
          .ok (.index index) ∧ index.terms ≠ [collated, .leaf ⟨"b", .identifier⟩] := by
  have b : Token.name "b" = ⟨"b", .identifier⟩ := by decide +kernel
  have first := parse_collated
  have second : Expr.parse "b" = .ok (.leaf ⟨"b", .identifier⟩) ∧
      Lexer.endsInComment "b".toList = false := by
    have written : render [⟨"b", .identifier⟩] = "b" := by decide +kernel
    rw [← written]
    exact Expr.parse_render (.last (.bare (Expr.reads_plainName b)))
      (List.forall_mem_singleton.2 (Expr.isLexed_plainName b))
  obtain ⟨index, parsed, split⟩ := @parse_termList_iff
    [("a COLLATE NOCASE", collated), ("b", .leaf ⟨"b", .identifier⟩)] (by simp)
    (List.forall_mem_cons.2 ⟨first.1, List.forall_mem_singleton.2 second.1⟩)
    (List.forall_mem_cons.2 ⟨first.2, List.forall_mem_singleton.2 second.2⟩)
  refine ⟨first.1, second.1, index, parsed, fun same => ?_⟩
  exact absurd (split.1 same collated (by simp)) (by simp [collated, Expr.isBinary])

end Index

end SchemaText
