import SchemaText.Proofs.Expr.Grammar

/-!
# Expressions are read

The parser reads every sequence of the grammar as the tree that the grammar gives it, up to
the end that the level sets.

## Main definitions

* `Expr.Level.Closes`: an expression at the level ends before the tokens.

## Main results

* `Expr.lead_opens`, `Expr.postfixes_trails`, `Expr.joint_joins`: the operators of the grammar
  are read as such.
* `Expr.Reads.isRead`, `Expr.Reads.read_eq`: **completeness** — what the grammar describes is
  read.
-/

namespace SchemaText

namespace Expr

open Token

variable {level : Level} {source ops ts rest : List Token} {op t : Token} {e : Expr}

/-! ### Ends -/

/-- An expression at the level ends before the tokens, and no postfix operator precedes the
end. -/
def Level.Closes (level : Level) (rest : List Token) : Prop :=
  joint level rest = .ok (none, rest) ∧ ∀ e, postfixes e rest = (e, rest)

/-- What follows a name is not taken for its arguments. -/
def NoCall (rest : List Token) : Prop :=
  ∀ t ∈ rest.head?, t.kind ≠ .openParen

/-- A word is no parenthesis. -/
theorem kind_ne_openParen_of_isWord (h : t.kind.isWord = true) : t.kind ≠ .openParen := by
  rintro paren
  rw [paren] at h
  exact absurd h (by decide)

/-- Only words are compared with a spelling. -/
theorem isWord_of_isSpelled {s : String} (h : t.isSpelled s = true) :
    t.kind.isWord = true := by
  rw [isSpelled, Bool.and_eq_true] at h
  exact h.1

/-- Only words are keywords. -/
theorem isWord_of_is {keyword : Keyword} (h : t.is keyword = true) : t.kind.isWord = true := by
  by_contra other
  rw [is, keyword?, if_neg other] at h
  exact absurd h (by simp)

/-- Where an expression ends no parenthesis opens. -/
theorem kind_ne_openParen_of_endsBefore (h : level.endsBefore t = true) :
    t.kind ≠ .openParen := by
  cases level with
  | top stops | bounded stops =>
      obtain ⟨stop, -, spelled⟩ := List.any_eq_true.1 h
      exact kind_ne_openParen_of_isWord (isWord_of_isSpelled spelled)
  | arguments | nested =>
      rintro paren
      rw [Level.endsBefore, paren] at h
      exact absurd h (by decide)

/-- What an expression ends before: the end of the input, or a token that the level sets. -/
theorem Level.Closes.cases (h : level.Closes rest) :
    (rest = [] ∧ level.endsWithInput = true) ∨
      ∃ t after, rest = t :: after ∧ level.endsBefore t = true := by
  obtain ⟨h, -⟩ := h
  cases rest with
  | nil =>
      rw [joint] at h
      split at h
      · rename_i ends
        exact .inl ⟨rfl, ends⟩
      · simp at h
  | cons token rest =>
      rw [joint] at h
      split at h
      · rename_i ends
        exact .inr ⟨token, rest, rfl, ends⟩
      · split at h
        · simp at h
        · split at h <;> simp at h

/-- No parenthesis comes where an expression ends, so a name before it is no call. -/
theorem Level.Closes.noCall (h : level.Closes rest) : NoCall rest := by
  rcases h.cases with ⟨rfl, -⟩ | ⟨t, after, rfl, ends⟩
  · rintro _ ⟨⟩
  · rintro _ ⟨⟩
    exact kind_ne_openParen_of_endsBefore ends

/-- At the end of the input there is no postfix operator. -/
theorem postfixes_nil (e : Expr) : postfixes e [] = (e, []) := by
  rw [postfixes.eq_def]

/-- No postfix operator begins with the token. -/
theorem postfixes_of_other (word : t.kind ≠ .postfixOp) (not : t.kind ≠ .not) (e : Expr)
    (rest : List Token) : postfixes e (t :: rest) = (e, t :: rest) := by
  rw [postfixes.eq_def]
  simp [word, not]

/-- A closing parenthesis ends what stands in parentheses. -/
theorem closes_closeParen (h : level = .arguments ∨ level = .nested) (rest : List Token) :
    level.Closes (closeParen :: rest) := by
  refine ⟨?_, fun e => postfixes_of_other (by decide) (by decide) e rest⟩
  rcases h with rfl | rfl <;> rfl

/-- The end of the input ends a whole expression. -/
theorem closes_nil (stops : List String) : (Level.top stops).Closes [] :=
  ⟨rfl, postfixes_nil⟩

/-- The word before a type ends what is cast. -/
theorem closes_as (kind : t.kind = .identifier) (as : t.isSpelled "AS" = true)
    (rest : List Token) : Level.inCast.Closes (t :: rest) := by
  refine ⟨?_, fun e => postfixes_of_other (by simp [kind]) (by simp [kind]) e rest⟩
  rw [joint, if_pos]
  simpa [Level.inCast, Level.endsBefore] using as

/-! ### Operators -/

/-- A token is at most one keyword. -/
theorem is_inj {k k' : Keyword} (h : t.is k = true) (ne : k ≠ k') : t.is k' = false := by
  rw [is, beq_iff_eq] at h
  rw [is, h]
  simpa using ne

/-- Only a word begins a query. -/
theorem startsQuery_of_not_isWord (h : t.kind.isWord = false) : t.startsQuery = false := by
  rw [startsQuery, keyword?, h]
  rfl

/-- **Prefix operators are read**, before any operand. -/
theorem lead_opens (h : Opens level source ops ts)
    (noQuery : ∀ t ∈ source.head?, t.startsQuery = false) (ne : ts ≠ []) (rest : List Token) :
    lead level (source ++ (ts ++ rest)) = .ok (.ops ops, ts ++ rest) := by
  obtain ⟨n, ts, rfl⟩ := List.exists_cons_of_ne_nil ne
  cases h with
  | sign kind =>
      have query := noQuery _ rfl
      rcases kind with kind | kind <;> simp [lead, kind, query]
  | not kind alone =>
      have query := noQuery _ rfl
      have single := alone n rfl
      simp [lead, kind, query, notLead, single]
  | notExists kind exists_ =>
      have query := noQuery _ rfl
      simp [lead, kind, query, notLead, exists_]
  | word kind notCast notDistinct notCase =>
      have query := noQuery _ rfl
      simp only [is, beq_eq_false_iff_ne] at notCast notDistinct notCase
      simp [lead, kind, query, wordLead]
  | distinct kind distinct place once =>
      have query := noQuery _ rfl
      have single := once n rfl
      simp [lead, kind, query, wordLead, keyword?_of_is distinct, place, single]
  | case kind case alone =>
      have query := noQuery _ rfl
      have single := alone n rfl
      simp [lead, kind, query, wordLead, keyword?_of_is case, single]
  | caseWhen kind case when =>
      have query := noQuery _ rfl
      simp [lead, kind, query, wordLead, keyword?_of_is case, when]

/-- **Postfix operators are read**, after any operand. -/
theorem postfixes_trails (h : Trails source op) (e : Expr) (rest : List Token) :
    postfixes e (source ++ rest) = postfixes (postfixed e op) rest := by
  cases h with
  | word kind =>
      rw [List.singleton_append, postfixes.eq_def]
      simp [kind]
  | notNull kind null =>
      rw [List.cons_append, List.singleton_append, postfixes.eq_def]
      simp [kind, null]

/-- No binary operator is taken for a postfix operator. -/
theorem postfixes_joins (h : Joins level source op ts) (e : Expr) :
    postfixes e (source ++ (ts ++ rest)) = (e, source ++ (ts ++ rest)) := by
  cases h with
  | comma place => exact postfixes_of_other (by decide) (by decide) e _
  | symbol kind =>
      rcases kind with kind | kind <;>
        exact postfixes_of_other (by simp [kind]) (by simp [kind]) e _
  | word kind | is kind | isNot kind =>
      exact postfixes_of_other (by simp [kind]) (by simp [kind]) e _
  | @not t n _ kind negates =>
      have notNull : n.is .NULL = false := by
        by_contra null
        rw [Bool.not_eq_false] at null
        rw [followsNot, keyword?_of_is null] at negates
        exact absurd negates (by decide)
      rw [List.cons_append, List.singleton_append, postfixes.eq_def]
      simp [kind, notNull]

/-- **Binary operators are read**, before any operand. -/
theorem joint_joins (h : Joins level source op ts) (ne : ts ≠ [])
    (goes : ∀ t ∈ source.head?, level.endsBefore t = false) (rest : List Token) :
    joint level (source ++ (ts ++ rest)) = .ok (some op, ts ++ rest) := by
  obtain ⟨n, ts, rfl⟩ := List.exists_cons_of_ne_nil ne
  cases h with
  | comma place =>
      subst place
      rfl
  | symbol kind =>
      have ends := goes _ rfl
      rcases kind with kind | kind <;> simp [joint, ends, kind, binaryOp]
  | word kind notIs =>
      have ends := goes _ rfl
      simp [joint, ends, kind, binaryOp, notIs]
  | is kind is alone =>
      have ends := goes _ rfl
      have single := alone n rfl
      simp [joint, ends, kind, binaryOp, is, single]
  | isNot kind is not =>
      have ends := goes _ rfl
      simp [joint, ends, kind, binaryOp, is, not]
  | not kind negates =>
      have ends := goes _ rfl
      simp [joint, ends, kind, binaryOp, negates]

/-! ### Casts -/

/-- A signed number is read whatever follows it. -/
theorem signedNumber_append {number : List Token} (h : IsSignedNumber number)
    (rest : List Token) : signedNumber (number ++ rest) = .ok (number, rest) := by
  cases h with
  | plain number => simp [signedNumber, number]
  | signed sign number => simp [signedNumber, sign, number]

/-- A width is read whatever follows its parenthesis. -/
theorem typeWidth_append {width : List Token} (h : IsTypeWidth width) (rest : List Token) :
    typeWidth (width ++ rest) = .ok (width, rest) := by
  cases h with
  | one first =>
      rw [List.append_assoc, typeWidth, signedNumber_append first]
      simp [closeParen]
  | two first second =>
      rw [List.append_assoc, List.cons_append, List.append_assoc, typeWidth,
        signedNumber_append first]
      simp [comma, closeParen, signedNumber_append second]

/-- **The type of a cast is read** up to the closing parenthesis. -/
theorem castType_append {type : List Token} (h : IsCastType type) (rest : List Token) :
    castType (type ++ closeParen :: rest) = .ok (type, closeParen :: rest) := by
  have kinds {ws : List Token} (all : ∀ t ∈ ws, t.kind = .identifier) :
      ∀ t ∈ ws, (t.kind == .identifier) = true := fun t member => beq_iff_eq.2 (all t member)
  cases h with
  | words ne all =>
      have stop : ∀ t ∈ (closeParen :: rest).head?, (t.kind == .identifier) = false := by
        simp [closeParen]
      rw [castType, takeWhile_append_stop (kinds all) stop,
        dropWhile_append_stop (kinds all) stop]
      simp [ne, closeParen]
  | @width ws width ne all sized =>
      have stop : ∀ t ∈ (openParen :: width ++ closeParen :: rest).head?,
          (t.kind == .identifier) = false := by
        simp [openParen]
      rw [List.append_assoc, castType, takeWhile_append_stop (kinds all) stop,
        dropWhile_append_stop (kinds all) stop]
      simp [ne, openParen, typeWidth_append sized]

/-- The stop word and the type of a cast are read up to the parenthesis, whatever follows it. -/
theorem castTarget_append {type : List Token} (h : IsCastType type) (stop : Token)
    (rest : List Token) :
    castTarget (stop :: (type ++ closeParen :: rest)) =
      .ok ((stop, ⟨render type, .identifier⟩), rest) := by
  rw [castTarget, castType_append h]
  rfl

/-! ### Operands -/

/-- A literal is an operand by itself. -/
theorem lead_literal (h : t.kind.isLiteral = true) (rest : List Token) :
    lead level (t :: rest) = .ok (.whole (.leaf t), rest) := by
  have query : t.startsQuery = false := by
    apply startsQuery_of_not_isWord
    generalize t.kind = kind at h
    cases kind <;> first | rfl | exact absurd h (by decide)
  rw [lead, query]
  generalize t.kind = kind at h
  cases kind <;> first | rfl | exact absurd h (by decide)

/-- What a function name leads to is left to `namedLead`. -/
theorem lead_callable (h : t.isCallable = true) (rest : List Token) :
    lead level (t :: rest) = .ok (namedLead t rest) := by
  simp only [isCallable, Bool.and_eq_true, Bool.not_eq_true', Bool.or_eq_true, beq_iff_eq] at h
  obtain ⟨query, kind | ⟨kind | kind, name⟩⟩ := h
  · simp [lead, query, kind]
  · simp [lead, query, kind, name]
  · simp [lead, query, kind, name]

/-- `CAST` is a prefix operator with that keyword. -/
theorem isCast_iff : t.isCast = true ↔ t.kind = .prefixOp ∧ t.keyword? = some .CAST := by
  rw [isCast, Bool.and_eq_true, beq_iff_eq, is, beq_iff_eq]

/-- `CAST` without a parenthesis is a name like any other. -/
theorem lead_cast_leaf (h : t.isCast = true) (noCall : NoCall rest) :
    lead level (t :: rest) = .ok (namedLead t rest) := by
  obtain ⟨kind, cast⟩ := isCast_iff.1 h
  have query : t.startsQuery = false := by rw [startsQuery, cast]
  cases rest with
  | nil => simp [lead, query, kind, wordLead, cast]
  | cons paren inner =>
      have other := noCall paren rfl
      simp [lead, query, kind, wordLead, cast, other]

/-- `CAST` with a parenthesis begins a cast. -/
theorem lead_cast (h : t.isCast = true) (rest : List Token) :
    lead level (t :: openParen :: rest) = .ok (.cast t, rest) := by
  obtain ⟨kind, cast⟩ := isCast_iff.1 h
  have query : t.startsQuery = false := by rw [startsQuery, cast]
  simp [lead, query, kind, wordLead, cast, openParen]

/-- A name that no parenthesis follows is a leaf. -/
theorem namedLead_leaf (noCall : NoCall rest) :
    namedLead t rest = (.whole (.leaf ⟨t.text, .identifier⟩), rest) := by
  cases rest with
  | nil => rfl
  | cons paren inner =>
      have other := noCall paren rfl
      simp [namedLead, other]

/-- The call with a star is one operand. -/
theorem namedLead_count (rest : List Token) :
    namedLead t (openParen :: star :: closeParen :: rest) =
      (.whole (.call ⟨t.text, .identifier⟩ (.leaf star)), rest) := by
  simp [namedLead, openParen, Token.star, closeParen]

/-- A name with any other parenthesis calls a function. -/
theorem namedLead_call {inner : List Token}
    (notCount : ∀ close after, inner = star :: close :: after → close.kind ≠ .closeParen) :
    namedLead t (openParen :: inner) = (.call ⟨t.text, .identifier⟩, inner) := by
  have paren : (openParen.kind == .openParen) = true := rfl
  match inner with
  | [] => simp [namedLead, paren]
  | [only] => simp [namedLead, paren]
  | first :: second :: inner =>
      have other : (first == star && second.kind == .closeParen) = false := by
        rw [Bool.and_eq_false_iff, beq_eq_false_iff_ne, beq_eq_false_iff_ne, ← not_and_or]
        rintro ⟨rfl, closes⟩
        exact notCount second inner rfl closes
      simp [namedLead, paren, other]

/-! ### The grammar is read -/

/-- What it means for a part that the parser reads it. -/
def Part.IsRead : Part → Expr → List Token → Prop
  | operand level list, e, ts =>
    ∀ rest, NoCall rest → Expr.operand level list (ts ++ rest) = .ok (e, rest)
  | phrase level list, e, ts =>
    ∀ rest, NoCall rest →
      ∃ first left, Expr.operand level list (ts ++ rest) = .ok (first, left) ∧
      postfixes first left = postfixes e rest
  | chain level list, e, ts =>
    ∀ rest, level.Closes rest → Expr.chain level list (ts ++ rest) = .ok (e, rest)
  | items level, e, ts =>
    ∀ rest, level.Closes rest → read level (ts ++ rest) = .ok (e, rest)

/-- What is read within a part is read between parentheses as well. -/
theorem enclosed_read {wrap : Expr → Expr} (place : level = .arguments ∨ level = .nested)
    (inner : (Part.items level).IsRead e ts) (rest : List Token) :
    enclosed wrap (read level (ts ++ closeParen :: rest)) = .ok (wrap e, rest) := by
  rw [inner _ (closes_closeParen place rest)]
  rfl

/-- No postfix operator is taken for arguments. -/
theorem noCall_trails (h : Trails source op) (rest : List Token) :
    NoCall (source ++ rest) := by
  cases h with
  | word kind =>
      rintro _ ⟨⟩
      simp [kind]
  | notNull kind =>
      rintro _ ⟨⟩
      simp [kind]

/-- No binary operator is taken for arguments. -/
theorem noCall_joins (h : Joins level source op ts) (rest : List Token) :
    NoCall (source ++ rest) := by
  cases h with
  | comma =>
      rintro _ ⟨⟩
      decide
  | symbol kind =>
      rintro _ ⟨⟩
      rcases kind with kind | kind <;> simp [kind]
  | word kind | is kind | isNot kind | not kind =>
      rintro _ ⟨⟩
      simp [kind]

/-- Whether an expression is empty is seen from the next token. -/
theorem isEmptyBefore_append (ne : ts ≠ []) :
    level.isEmptyBefore (ts ++ rest) = level.isEmptyBefore ts := by
  cases level <;> simp only [Level.isEmptyBefore, List.head?_append_of_ne_nil _ ne]

/-- **Completeness**: the parser reads what the grammar describes. -/
theorem Reads.isRead {part : Part} (h : Reads part e ts) : part.IsRead e ts := by
  induction h with
  | literal literal =>
      intro rest noCall
      rw [operand_eq, List.singleton_append, lead_literal literal]
  | @name level list t name =>
      intro rest noCall
      have lead_eq : lead level (t :: rest) = .ok (namedLead t rest) :=
        name.elim (lead_callable · rest) (lead_cast_leaf · noCall)
      rw [operand_eq, List.singleton_append, lead_eq, namedLead_leaf noCall]
  | count name =>
      intro rest _
      simp only [List.cons_append, List.nil_append]
      rw [operand_eq, lead_callable name, namedLead_count]
  | @call level list t e ts name arguments ih =>
      intro rest _
      have notCount (close : Token) (after : List Token)
          (same : ts ++ closeParen :: rest = star :: close :: after) :
          close.kind ≠ .closeParen := by
        cases ts with
        | nil => exact absurd (List.cons.inj same).1 (by decide)
        | cons first ts =>
            obtain ⟨rfl, -⟩ := List.cons.inj same
            exact absurd (arguments.beginsOperand star rfl) (by decide)
      rw [List.cons_append, List.cons_append, List.append_assoc, operand_eq, lead_callable name,
        List.singleton_append, namedLead_call notCount]
      exact enclosed_read (.inl rfl) ih rest
  | cast name inner plain as isType ih =>
      intro rest _
      simp only [List.cons_append, List.append_assoc, List.nil_append]
      rw [operand_eq, lead_cast name]
      simp only [castCall, ih _ (closes_as plain as _), castTarget_append isType]
  | @parens level list e ts inner ih =>
      intro rest _
      rw [List.cons_append, List.append_assoc, operand_eq]
      refine enclosed_read ?_ ih rest
      cases list
      · exact .inr rfl
      · exact .inl rfl
  | prefixed noQuery opens inner ih =>
      intro rest noCall
      rw [List.append_assoc, operand_eq, lead_opens opens noQuery (inner.ne_nil rfl)]
      simp only [ih rest noCall]
  | bare _ ih =>
      intro rest noCall
      exact ⟨_, rest, ih rest noCall, rfl⟩
  | @trailed level list e op ts source inner trails ih =>
      intro rest _
      obtain ⟨first, left, read, settle⟩ := ih _ (noCall_trails trails rest)
      refine ⟨first, left, by rw [List.append_assoc, read], ?_⟩
      rw [settle, postfixes_trails trails]
  | last inner ih =>
      intro rest closes
      obtain ⟨first, left, read, settle⟩ := ih rest closes.noCall
      rw [chain_eq, read]
      simp only [settle, closes.2, closes.1]
  | @more level list l r op ts source rs inner goes joins right ih ihRight =>
      intro rest closes
      obtain ⟨first, left, read, settle⟩ := ih _ (noCall_joins joins (rs ++ rest))
      rw [List.append_assoc, List.append_assoc, chain_eq, read]
      simp only [settle, postfixes_joins joins, joint_joins joins (right.ne_nil rfl) goes,
        ihRight rest closes]
  | empty =>
      intro rest closes
      rcases closes.cases with ⟨-, ends⟩ | ⟨t, after, rfl, ends⟩
      · exact absurd ends (by decide)
      · rw [List.nil_append, read_eq, if_pos]
        exact ends
  | @items level e ts some inner ih =>
      intro rest closes
      rw [read_eq, isEmptyBefore_append (inner.ne_nil rfl), some]
      exact ih rest closes

/-- **What the grammar describes is read**, up to the end of the expression. -/
theorem Reads.read_eq (h : Reads (.items level) e ts) (closes : level.Closes rest) :
    read level (ts ++ rest) = .ok (e, rest) :=
  h.isRead rest closes

end Expr

end SchemaText
