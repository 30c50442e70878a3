import SchemaText.Proofs.Expr.Completeness

/-!
# What is read is an expression

Whatever the parser accepts is a sequence of the grammar, with the tree that was read. The
tokens are those of a text, hence well spelled as far as they are valid.

## Main results

* `Expr.leadSpec`: what begins an operand.
* `Expr.read_sound`: **soundness** — what is read belongs to the grammar and ends where the
  level says.
* `Expr.read_iff`: the parser reads exactly what the grammar describes.
-/

namespace SchemaText

namespace Expr

open Token

variable {level : Level} {tokens rest rest' : List Token} {found : Lead} {t : Token} {e : Expr}

/-! ### The beginning of an operand -/

/-- What the beginning of an operand is, in terms of the grammar. -/
def LeadSpec (level : Level) (tokens rest : List Token) : Lead → Prop
  | .whole e => ∃ ts, tokens = ts ++ rest ∧ ∀ list, Reads (.operand level list) e ts
  | .ops operators => ∃ source, tokens = source ++ rest ∧ Opens level source operators rest ∧
      ∀ t ∈ source.head?, t.startsQuery = false
  | .parens => tokens = openParen :: rest
  | .call name => ∃ t : Token, tokens = t :: openParen :: rest ∧ t.isCallable = true ∧
      name = ⟨t.text, .identifier⟩
  | .cast name => tokens = name :: openParen :: rest ∧ name.isCast = true

/-- The kinds that `lead` reads as a name are those that can name a function. -/
theorem isCallable_of_kind (query : t.startsQuery = false)
    (name : t.kind = .identifier ∨ (t.kind = .operator ∨ t.kind = .postfixOp) ∧
      t.isOperatorName = true) : t.isCallable = true := by
  simp only [isCallable, query, Bool.not_false, Bool.true_and, Bool.or_eq_true, beq_iff_eq,
    Bool.and_eq_true]
  exact name

/-- What a name leads to agrees with the grammar. -/
theorem leadSpec_namedLead (name : t.isCallable = true)
    (spelled : ∀ t ∈ rest, t.IsLexed) :
    LeadSpec level (t :: rest) (namedLead t rest).2 (namedLead t rest).1 := by
  have leaf : ∀ list, Reads (.operand level list) (.leaf ⟨t.text, .identifier⟩) [t] :=
    fun list => .name (.inl name)
  match rest with
  | [] => exact ⟨[t], rfl, leaf⟩
  | paren :: inner =>
      by_cases isParen : paren.kind = .openParen
      · obtain rfl := (spelled paren (by simp)).eq_punctuation openParen isParen (by simp)
        by_cases count : ∃ close after, inner = star :: close :: after ∧ close.kind =
          .closeParen
        · obtain ⟨close, after, rfl, closes⟩ := count
          obtain rfl := (spelled close (by simp)).eq_punctuation closeParen closes (by simp)
          rw [namedLead_count]
          exact ⟨_, rfl, fun list => .count name⟩
        · rw [namedLead_call fun close after same closes => count ⟨close, after, same, closes⟩]
          exact ⟨t, rfl, name, rfl⟩
      · have noCall : NoCall (paren :: inner) := by
          rintro _ ⟨⟩
          exact isParen
        rw [namedLead_leaf noCall]
        exact ⟨[t], rfl, leaf⟩

/-- What `NOT` leads to agrees with the grammar. -/
theorem leadSpec_notLead (kind : t.kind = .not) (query : t.startsQuery = false) :
    LeadSpec level (t :: rest) (notLead t rest).2 (notLead t rest).1 := by
  unfold notLead
  split
  · exact ⟨[t], rfl, .not kind (by simp), by simpa using query⟩
  · rename_i next after
    split
    · rename_i exists_
      exact ⟨[t, next], rfl, .notExists kind exists_, by simpa using query⟩
    · rename_i other
      exact ⟨[t], rfl, .not kind (by simpa using other), by simpa using query⟩

/-- What a prefix operator leads to agrees with the grammar. -/
theorem leadSpec_wordLead (h : wordLead level t rest = .ok (found, rest'))
    (kind : t.kind = .prefixOp) (query : t.startsQuery = false)
    (spelled : ∀ t ∈ rest, t.IsLexed) : LeadSpec level (t :: rest) rest' found := by
  unfold wordLead at h
  split at h
  · rename_i cast
    have isCast : t.isCast = true := isCast_iff.2 ⟨kind, cast⟩
    have leaf (inner : List Token) (noCall : NoCall inner) :
        LeadSpec level (t :: inner) (namedLead t inner).2 (namedLead t inner).1 := by
      rw [namedLead_leaf noCall]
      exact ⟨[t], rfl, fun list => .name (.inr isCast)⟩
    split at h
    · obtain ⟨rfl, rfl⟩ := Prod.mk.inj (Except.ok.inj h)
      exact leaf [] (by rintro _ ⟨⟩)
    · rename_i paren inner
      split at h
      · rename_i isParen
        obtain ⟨rfl, rfl⟩ := Prod.mk.inj (Except.ok.inj h)
        obtain rfl := (spelled paren (by simp)).eq_punctuation openParen
          (by simpa [openParen] using isParen) (by simp)
        exact ⟨rfl, isCast⟩
      · rename_i other
        have same := Except.ok.inj h
        have spec := leaf (paren :: inner) (by
          rintro _ ⟨⟩
          simpa using other)
        rw [same] at spec
        exact spec
  · rename_i distinct
    split at h
    · simp at h
    · rename_i place
      split at h
      · simp at h
      · rename_i once
        obtain ⟨rfl, rfl⟩ := Prod.mk.inj (Except.ok.inj h)
        refine ⟨[t], rfl, .distinct kind (by simp [is, distinct]) (not_not.1 place) ?_,
          by simpa using query⟩
        intro n member
        by_contra also
        exact once ((Option.any_eq_true ..).2 ⟨n, member, by simpa using also⟩)
  · rename_i case
    have isCase : t.is .CASE = true := by simp [is, case]
    split at h
    · obtain ⟨rfl, rfl⟩ := Prod.mk.inj (Except.ok.inj h)
      exact ⟨[t], rfl, .case kind isCase (by simp), by simpa using query⟩
    · rename_i next after
      split at h
      · rename_i isWhen
        obtain ⟨rfl, rfl⟩ := Prod.mk.inj (Except.ok.inj h)
        exact ⟨[t, next], rfl, .caseWhen kind isCase isWhen, by simpa using query⟩
      · rename_i other
        obtain ⟨rfl, rfl⟩ := Prod.mk.inj (Except.ok.inj h)
        exact ⟨[t], rfl, .case kind isCase (by simpa using other), by simpa using query⟩
  · rename_i notCast notDistinct notCase
    obtain ⟨rfl, rfl⟩ := Prod.mk.inj (Except.ok.inj h)
    have isNot {k : Keyword} (other : t.keyword? = some k → False) : t.is k = false := by
      rw [is, beq_eq_false_iff_ne]
      exact other
    exact ⟨[t], rfl, .word kind (isNot notCast) (isNot notDistinct) (isNot notCase),
      by simpa using query⟩

/-- **The beginning of an operand belongs to the grammar.** -/
theorem leadSpec (h : lead level tokens = .ok (found, rest))
    (spelled : ∀ t ∈ tokens, t.IsLexed) : LeadSpec level tokens rest found := by
  cases tokens with
  | nil => simp [lead] at h
  | cons t after =>
      have spelledAfter : ∀ t ∈ after, t.IsLexed := fun t member =>
        spelled t (List.mem_cons_of_mem _ member)
      have noQuery : t.startsQuery = false := by
        by_contra query
        rw [Bool.not_eq_false] at query
        rw [lead, query] at h
        simp at h
      have named (name : t.isCallable = true) (same : namedLead t after = (found, rest)) :
          LeadSpec level (t :: after) rest found := by
        have spec : LeadSpec level (t :: after) _ _ := leadSpec_namedLead name spelledAfter
        rw [same] at spec
        exact spec
      have single (kind : t.kind.isLiteral = true)
          (same : (Lead.whole (.leaf t), after) = (found, rest)) :
          LeadSpec level (t :: after) rest found := by
        obtain ⟨rfl, rfl⟩ := Prod.mk.inj same
        exact ⟨[t], rfl, fun list => .literal kind⟩
      have signed (kind : t.kind = .sign ∨ t.kind = .symbolPrefix)
          (same : (Lead.ops [t], after) = (found, rest)) :
          LeadSpec level (t :: after) rest found := by
        obtain ⟨rfl, rfl⟩ := Prod.mk.inj same
        exact ⟨[t], rfl, .sign kind, by simpa using noQuery⟩
      have opName (kind : t.kind = .operator ∨ t.kind = .postfixOp)
          (tried : (if t.isOperatorName then Except.ok (namedLead t after)
            else .error (ExprError.ofToken t)) = .ok (found, rest)) :
          LeadSpec level (t :: after) rest found := by
        split at tried
        · rename_i name
          exact named (isCallable_of_kind noQuery (.inr ⟨kind, name⟩)) (Except.ok.inj tried)
        · simp at tried
      rw [lead, noQuery] at h
      cases kind : t.kind with
      | quotedIdentifier | backQuotedIdentifier | squareIdentifier | stringLiteral
      | blobLiteral | numeric =>
          rw [kind] at h
          exact single (by rw [kind]; rfl) (Except.ok.inj h)
      | identifier =>
          rw [kind] at h
          exact named (isCallable_of_kind noQuery (.inl kind)) (Except.ok.inj h)
      | operator =>
          rw [kind] at h
          exact opName (.inl kind) h
      | postfixOp =>
          rw [kind] at h
          exact opName (.inr kind) h
      | prefixOp =>
          rw [kind] at h
          exact leadSpec_wordLead h kind noQuery spelledAfter
      | not =>
          rw [kind] at h
          have spec : LeadSpec level (t :: after) _ _ := leadSpec_notLead kind noQuery
          rw [Except.ok.inj h] at spec
          exact spec
      | sign =>
          rw [kind] at h
          exact signed (.inl kind) (Except.ok.inj h)
      | symbolPrefix =>
          rw [kind] at h
          exact signed (.inr kind) (Except.ok.inj h)
      | openParen =>
          rw [kind] at h
          obtain ⟨rfl, rfl⟩ := Prod.mk.inj (Except.ok.inj h)
          obtain rfl := (spelled t (by simp)).eq_punctuation openParen kind (by simp)
          rfl
      | closeParen | comma | symbol | invalid =>
          rw [kind] at h
          simp at h

/-! ### Between operands -/

/-- **Postfix operators belong to the grammar**, and all of them are taken. -/
theorem postfixes_sound {list : Bool} {ts : List Token} (h : Reads (.phrase level list) e ts) :
    ∃ source, tokens = source ++ (postfixes e tokens).2 ∧
      Reads (.phrase level list) (postfixes e tokens).1 (ts ++ source) ∧
      ∀ x, postfixes x (postfixes e tokens).2 = (x, (postfixes e tokens).2) := by
  fun_induction postfixes e tokens generalizing ts with
  | case1 e => exact ⟨[], rfl, by simpa using h, postfixes_nil⟩
  | case2 e token rest kind ih =>
      obtain ⟨source, split, reads, settled⟩ := ih (.trailed h (.word (beq_iff_eq.1 kind)))
      refine ⟨token :: source, by rw [List.cons_append, ← split], ?_, settled⟩
      rw [List.append_assoc] at reads
      exact reads
  | case3 e token kind not =>
      refine ⟨[], rfl, by simpa using h, fun x => ?_⟩
      rw [postfixes.eq_def]
      simp_all
  | case4 e token kind not next after null ih =>
      obtain ⟨source, split, reads, settled⟩ :=
        ih (.trailed h (.notNull (beq_iff_eq.1 not) null))
      refine ⟨token :: next :: source, by rw [List.cons_append, List.cons_append, ← split], ?_,
        settled⟩
      rw [List.append_assoc] at reads
      exact reads
  | case5 e token kind not next after null =>
      refine ⟨[], rfl, by simpa using h, fun x => ?_⟩
      rw [postfixes.eq_def]
      simp_all
  | case6 e token rest kind not =>
      refine ⟨[], rfl, by simpa using h, fun x => ?_⟩
      exact postfixes_of_other (by simpa using kind) (by simpa using not) x rest

/-- What is left of the tokens at the end of an expression. -/
theorem joint_none (h : joint level tokens = .ok (none, rest)) : rest = tokens := by
  unfold joint at h
  split at h
  · split at h
    · exact (Prod.mk.inj (Except.ok.inj h)).2.symm
    · simp at h
  · split at h
    · exact (Prod.mk.inj (Except.ok.inj h)).2.symm
    · split at h
      · simp at h
      · split at h <;> simp at h

/-- A binary operator that is read is one of the grammar. -/
theorem binaryOp_sound {op : Token} (h : binaryOp t tokens = .ok (op, rest)) :
    ∃ source, t :: tokens = source ++ rest ∧ Joins level source op rest ∧
      source.head? = some t := by
  unfold binaryOp at h
  split at h
  · rename_i kind
    obtain ⟨rfl, rfl⟩ := Prod.mk.inj (Except.ok.inj h)
    exact ⟨[t], rfl, .symbol (.inl kind), rfl⟩
  · rename_i kind
    obtain ⟨rfl, rfl⟩ := Prod.mk.inj (Except.ok.inj h)
    exact ⟨[t], rfl, .symbol (.inr kind), rfl⟩
  · rename_i kind
    split at h
    · rename_i is
      split at h
      · obtain ⟨rfl, rfl⟩ := Prod.mk.inj (Except.ok.inj h)
        exact ⟨[t], rfl, .is kind is (by simp), rfl⟩
      · rename_i next after
        split at h
        · rename_i not
          obtain ⟨rfl, rfl⟩ := Prod.mk.inj (Except.ok.inj h)
          exact ⟨[t, next], rfl, .isNot kind is (beq_iff_eq.1 not), rfl⟩
        · rename_i other
          obtain ⟨rfl, rfl⟩ := Prod.mk.inj (Except.ok.inj h)
          exact ⟨[t], rfl, .is kind is (by simpa using other), rfl⟩
    · rename_i notIs
      obtain ⟨rfl, rfl⟩ := Prod.mk.inj (Except.ok.inj h)
      exact ⟨[t], rfl, .word kind (by simpa using notIs), rfl⟩
  · rename_i kind
    split at h
    · simp at h
    · rename_i next after
      split at h
      · rename_i negates
        obtain ⟨rfl, rfl⟩ := Prod.mk.inj (Except.ok.inj h)
        exact ⟨[t, next], rfl, .not kind negates, rfl⟩
      · simp at h
  · simp at h

/-- **Binary operators belong to the grammar.** -/
theorem joint_some {op : Token} (h : joint level tokens = .ok (some op, rest))
    (spelled : ∀ t ∈ tokens, t.IsLexed) :
    ∃ source, tokens = source ++ rest ∧ Joins level source op rest ∧
      ∀ t ∈ source.head?, level.endsBefore t = false := by
  unfold joint at h
  split at h
  · split at h <;> simp at h
  · rename_i t after
    split at h
    · simp at h
    · rename_i goes
      rw [Bool.not_eq_true] at goes
      split at h
      · rename_i comma
        rw [Bool.and_eq_true, beq_iff_eq, beq_iff_eq] at comma
        obtain ⟨same, rfl⟩ := Prod.mk.inj (Except.ok.inj h)
        obtain rfl := Option.some.inj same
        obtain rfl := (spelled t (by simp)).eq_punctuation Token.comma comma.1 (by simp)
        exact ⟨[Token.comma], rfl, .comma comma.2, by simpa using goes⟩
      · split at h
        · rename_i found
          obtain ⟨same, rfl⟩ := Prod.mk.inj (Except.ok.inj h)
          obtain rfl := Option.some.inj same
          obtain ⟨source, split, joins, head⟩ : ∃ source, _ ∧ Joins level source _ _ ∧ _ :=
            binaryOp_sound found
          refine ⟨source, split, joins, ?_⟩
          rw [head]
          simpa using goes
        · simp at h

/-! ### Casts -/

/-- Only a closing parenthesis closes. -/
theorem closing_sound (h : closing tokens = .ok rest)
    (spelled : ∀ t ∈ tokens, t.IsLexed) : tokens = closeParen :: rest := by
  unfold closing at h
  split at h
  · simp at h
  · rename_i t after
    split at h
    · rename_i kind
      obtain rfl := Except.ok.inj h
      rw [(spelled t (by simp)).eq_punctuation closeParen (beq_iff_eq.1 kind) (by simp)]
    · simp at h

/-- A number that is read is one of the grammar. -/
theorem signedNumber_sound {number : List Token} (h : signedNumber tokens =
    .ok (number, rest)) :
    tokens = number ++ rest ∧ IsSignedNumber number := by
  unfold signedNumber at h
  split at h
  · simp at h
  · split at h
    · rename_i sign
      split at h
      · simp at h
      · split at h
        · rename_i number
          obtain ⟨rfl, rfl⟩ := Prod.mk.inj (Except.ok.inj h)
          exact ⟨rfl, .signed (beq_iff_eq.1 sign) (beq_iff_eq.1 number)⟩
        · simp at h
    · split at h
      · rename_i number
        obtain ⟨rfl, rfl⟩ := Prod.mk.inj (Except.ok.inj h)
        exact ⟨rfl, .plain (beq_iff_eq.1 number)⟩
      · simp at h

/-- A width that is read is one of the grammar. -/
theorem typeWidth_sound {width : List Token} (h : typeWidth tokens = .ok (width, rest))
    (spelled : ∀ t ∈ tokens, t.IsLexed) :
    tokens = width ++ rest ∧ IsTypeWidth width := by
  unfold typeWidth at h
  split at h
  · simp at h
  · rename_i first left found
    obtain ⟨rfl, isFirst⟩ := signedNumber_sound found
    split at h
    · simp at h
    · rename_i t after
      split at h
      · rename_i comma
        obtain rfl := (spelled t (by simp)).eq_punctuation Token.comma (beq_iff_eq.1 comma)
          (by simp)
        split at h
        · simp at h
        · rename_i second left found
          obtain ⟨rfl, isSecond⟩ := signedNumber_sound found
          split at h
          · simp at h
          · rename_i close after _
            split at h
            · rename_i closes
              obtain rfl := (spelled close (by simp)).eq_punctuation closeParen
                (beq_iff_eq.1 closes) (by simp)
              obtain ⟨rfl, rfl⟩ := Prod.mk.inj (Except.ok.inj h)
              have width := IsTypeWidth.two isFirst isSecond
              exact ⟨by simp, by simpa using width⟩
            · simp at h
      · split at h
        · rename_i closes
          obtain rfl := (spelled t (by simp)).eq_punctuation closeParen (beq_iff_eq.1 closes)
            (by simp)
          obtain ⟨rfl, rfl⟩ := Prod.mk.inj (Except.ok.inj h)
          exact ⟨by simp, .one isFirst⟩
        · simp at h

/-- The type of a cast that is read is one of the grammar. -/
theorem castType_sound {type : List Token} (h : castType tokens = .ok (type, rest))
    (spelled : ∀ t ∈ tokens, t.IsLexed) :
    tokens = type ++ rest ∧ IsCastType type := by
  have split := List.takeWhile_append_dropWhile (p := (·.kind == .identifier)) (l := tokens)
  have all : ∀ t ∈ tokens.takeWhile (·.kind == .identifier), t.kind = .identifier :=
    fun t member => beq_iff_eq.1 (all_of_takeWhile_eq rfl t member)
  unfold castType at h
  simp only at h
  generalize tokens.takeWhile (·.kind == .identifier) = words at split all h
  split at h
  · simp at h
  · rename_i ne
    have ne : words ≠ [] := by simpa using ne
    split at h
    · rename_i dropped
      obtain ⟨rfl, rfl⟩ := Prod.mk.inj (Except.ok.inj h)
      rw [dropped] at split
      exact ⟨split.symm, .words ne all⟩
    · rename_i t after dropped
      rw [dropped] at split
      subst split
      split at h
      · rename_i isParen
        obtain rfl := (spelled t (by simp)).eq_punctuation openParen (beq_iff_eq.1 isParen)
          (by simp)
        split at h
        · simp at h
        · rename_i width left found
          obtain ⟨rfl, sized⟩ := typeWidth_sound found fun t member =>
            spelled t (by simp [member])
          obtain ⟨rfl, rfl⟩ := Prod.mk.inj (Except.ok.inj h)
          exact ⟨by simp, .width ne all sized⟩
      · obtain ⟨rfl, rfl⟩ := Prod.mk.inj (Except.ok.inj h)
        exact ⟨rfl, .words ne all⟩

/-- **The target of a cast belongs to the grammar.** -/
theorem castTarget_sound {stop type : Token} (h : castTarget tokens = .ok ((stop, type), rest))
    (spelled : ∀ t ∈ tokens, t.IsLexed) :
    ∃ source, tokens = stop :: (source ++ closeParen :: rest) ∧ IsCastType source ∧
      type = ⟨render source, .identifier⟩ := by
  unfold castTarget at h
  split at h
  · simp at h
  · rename_i first after
    split at h
    · simp at h
    · rename_i source left found
      obtain ⟨rfl, isType⟩ := castType_sound found fun t member => spelled t (by simp [member])
      split at h
      · simp at h
      · rename_i final closed
        obtain rfl := closing_sound closed fun t member => spelled t (by simp [member])
        obtain ⟨same, rfl⟩ := Prod.mk.inj (Except.ok.inj h)
        obtain ⟨rfl, rfl⟩ := Prod.mk.inj same
        exact ⟨source, rfl, isType, rfl⟩

/-! ### What is read -/

/-- The levels at which an expression is empty only between parentheses. -/
def Level.IsPlain (level : Level) : Prop :=
  ∀ stops, level = .top stops → stops = []

/-- What is read from the tokens belongs to the grammar. -/
structure SoundAt (tokens : List Token) : Prop where
  operand : ∀ {level list e rest}, Expr.operand level list tokens = .ok (e, rest) →
    ∃ ts, tokens = ts ++ rest ∧ Reads (.operand level list) e ts
  chain : ∀ {level list e rest}, Expr.chain level list tokens = .ok (e, rest) →
    ∃ ts, tokens = ts ++ rest ∧ Reads (.chain level list) e ts ∧ level.Closes rest
  read : ∀ {level e rest}, level.IsPlain → Expr.read level tokens = .ok (e, rest) →
    ∃ ts, tokens = ts ++ rest ∧ Reads (.items level) e ts ∧ level.Closes rest

/-- Within parentheses no word ends an expression. -/
theorem isPlain_inParens (list : Bool) : (Level.inParens list).IsPlain := by
  cases list <;> exact fun _ same => absurd same (by simp [Level.inParens])

/-- What is read up to a closing parenthesis is a part and that parenthesis. -/
theorem enclosed_sound {wrap : Expr → Expr} (plain : level.IsPlain) (sound : SoundAt tokens)
    (spelled : ∀ t ∈ tokens, t.IsLexed)
    (h : enclosed wrap (read level tokens) = .ok (e, rest)) :
    ∃ inner ts, e = wrap inner ∧ tokens = ts ++ closeParen :: rest ∧
      Reads (.items level) inner ts := by
  unfold enclosed at h
  split at h
  · simp at h
  · rename_i inner left found
    obtain ⟨ts, rfl, reads, -⟩ := sound.read plain found
    split at h
    · simp at h
    · rename_i after closed
      obtain rfl := closing_sound closed fun t member => spelled t (by simp [member])
      obtain ⟨rfl, rfl⟩ := Prod.mk.inj (Except.ok.inj h)
      exact ⟨inner, ts, rfl, rfl, reads⟩

/-- A cast that is read is one of the grammar, provided that what is cast is. -/
theorem castCall_sound {name : Token} (isCast : name.isCast = true) (sound : SoundAt tokens)
    (spelled : ∀ t ∈ tokens, t.IsLexed)
    (h : castCall name (read .inCast tokens) = .ok (e, rest)) (level : Level) (list : Bool) :
    ∃ ts, name :: openParen :: tokens = ts ++ rest ∧ Reads (.operand level list) e ts := by
  unfold castCall at h
  split at h
  · simp at h
  · rename_i inner left found
    obtain ⟨ts, rfl, reads, closes⟩ := sound.read (fun _ same => absurd same (by
      simp [Level.inCast])) found
    split at h
    · simp at h
    · rename_i stop type after target
      obtain ⟨source, rfl, isType, rfl⟩ := castTarget_sound target fun t member =>
        spelled t (by simp [member])
      obtain ⟨rfl, rfl⟩ := Prod.mk.inj (Except.ok.inj h)
      have ends : stop.isSpelled "AS" = true := by
        rcases closes.cases with ⟨nil, -⟩ | ⟨t, rest, same, ends⟩
        · simp at nil
        · obtain ⟨rfl, -⟩ := List.cons.inj same
          simpa [Level.inCast, Level.endsBefore] using ends
      have kind : stop.kind = .identifier := by
        have word : stop.is .AS = true := (isSpelled_spelling stop .AS).symm.trans ends
        exact (spelled stop (by simp)).kind_of_keyword? (keyword?_of_is word)
      exact ⟨name :: openParen :: (ts ++ stop :: (source ++ [closeParen])), by simp,
        .cast isCast reads kind ends isType⟩

variable {list : Bool}

/-- An operand that is read is one of the grammar, if all shorter sequences are read soundly. -/
theorem operand_sound (ih : ∀ shorter : List Token, shorter.length < tokens.length →
      (∀ t ∈ shorter, t.IsLexed) → SoundAt shorter)
    (spelled : ∀ t ∈ tokens, t.IsLexed)
    (h : operand level list tokens = .ok (e, rest)) :
    ∃ ts, tokens = ts ++ rest ∧ Reads (.operand level list) e ts := by
  rw [operand_eq] at h
  split at h
  · simp at h
  · rename_i whole left found
    obtain ⟨rfl, rfl⟩ := Prod.mk.inj (Except.ok.inj h)
    obtain ⟨ts, rfl, reads⟩ := leadSpec found spelled
    exact ⟨ts, rfl, reads list⟩
  · rename_i operators left found
    have shorter := length_lead_lt found
    obtain ⟨source, rfl, opens, noQuery⟩ := leadSpec found spelled
    split at h
    · simp at h
    · rename_i inner after read
      obtain ⟨rfl, rfl⟩ := Prod.mk.inj (Except.ok.inj h)
      obtain ⟨ts, rfl, reads⟩ := (ih left shorter fun t member =>
        spelled t (by simp [member])).operand read
      have next : ts.head? = (ts ++ after).head? :=
        (List.head?_append_of_ne_nil _ (reads.ne_nil rfl)).symm
      exact ⟨source ++ ts, by simp, .prefixed noQuery (opens.congr next) reads⟩
  · rename_i left found
    have shorter := length_lead_lt found
    obtain rfl := leadSpec found spelled
    have spelledLeft : ∀ t ∈ left, t.IsLexed := fun t member =>
      spelled t (by simp [member])
    obtain ⟨inner, ts, rfl, rfl, reads⟩ := enclosed_sound (isPlain_inParens list)
      (ih left shorter spelledLeft) spelledLeft h
    exact ⟨openParen :: (ts ++ [closeParen]), by simp, .parens reads⟩
  · rename_i name left found
    have shorter := length_lead_lt found
    obtain ⟨t, rfl, callable, rfl⟩ := leadSpec found spelled
    have spelledLeft : ∀ t ∈ left, t.IsLexed := fun t member =>
      spelled t (by simp [member])
    obtain ⟨inner, ts, rfl, rfl, reads⟩ := enclosed_sound (fun _ same => absurd same (by simp))
      (ih left shorter spelledLeft) spelledLeft h
    exact ⟨t :: openParen :: (ts ++ [closeParen]), by simp, .call callable reads⟩
  · rename_i name left found
    have shorter := length_lead_lt found
    obtain ⟨rfl, isCast⟩ := leadSpec found spelled
    have spelledLeft : ∀ t ∈ left, t.IsLexed := fun t member =>
      spelled t (by simp [member])
    exact castCall_sound isCast (ih left shorter spelledLeft) spelledLeft h level list

/-- A chain that is read is one of the grammar, if all shorter sequences are read soundly. -/
theorem chain_sound (ih : ∀ shorter : List Token, shorter.length < tokens.length →
      (∀ t ∈ shorter, t.IsLexed) → SoundAt shorter)
    (spelled : ∀ t ∈ tokens, t.IsLexed)
    (h : chain level list tokens = .ok (e, rest)) :
    ∃ ts, tokens = ts ++ rest ∧ Reads (.chain level list) e ts ∧ level.Closes rest := by
  rw [chain_eq] at h
  split at h
  · simp at h
  · rename_i first left found
    obtain ⟨ts, rfl, reads⟩ := operand_sound ih spelled found
    have some := reads.ne_nil rfl
    obtain ⟨source, split, phrase, settled⟩ : ∃ source, left = source ++ _ ∧ _ :=
      postfixes_sound (.bare reads)
    generalize postfixes first left = trailed at h split phrase settled
    obtain ⟨operand, after⟩ := trailed
    simp only at h split phrase settled
    subst split
    split at h
    · simp at h
    · rename_i final ended
      obtain rfl := joint_none ended
      obtain ⟨rfl, rfl⟩ := Prod.mk.inj (Except.ok.inj h)
      exact ⟨ts ++ source, by simp, .last phrase, ended, settled⟩
    · rename_i op next joined
      obtain ⟨source', rfl, joins, goes⟩ := joint_some joined fun t member =>
        spelled t (by simp [member])
      split at h
      · simp at h
      · rename_i right final read
        obtain ⟨rfl, rfl⟩ := Prod.mk.inj (Except.ok.inj h)
        have shorter : next.length < (ts ++ (source ++ (source' ++ next))).length := by
          have := List.length_pos_iff.2 some
          simp only [List.length_append]
          omega
        obtain ⟨rs, rfl, readsRight, closes⟩ := (ih next shorter fun t member =>
          spelled t (by simp [member])).chain read
        have next : rs.head? = (rs ++ final).head? :=
          (List.head?_append_of_ne_nil _ (readsRight.ne_nil rfl)).symm
        exact ⟨ts ++ source ++ (source' ++ rs), by simp,
          .more phrase goes (joins.congr next) readsRight, closes⟩

/-- Where an expression may be missing, the empty one is read. -/
theorem empty_sound (plain : level.IsPlain) (empty : level.isEmptyBefore tokens = true) :
    ∃ ts, tokens = ts ++ tokens ∧ Reads (.items level) .empty ts ∧ level.Closes tokens := by
  cases level with
  | top stops =>
      obtain rfl := plain stops rfl
      obtain ⟨t, -, ends⟩ := (Option.any_eq_true ..).1 empty
      exact absurd ends (by simp [Level.endsBefore])
  | arguments =>
      obtain ⟨t, next, ends⟩ := (Option.any_eq_true ..).1 empty
      obtain ⟨after, rfl⟩ := List.head?_eq_some_iff.1 next
      have kind : t.kind = .closeParen := beq_iff_eq.1 ends
      refine ⟨[], rfl, .empty, ?_, fun e => ?_⟩
      · rw [joint, if_pos ends]
      · exact postfixes_of_other (by simp [kind]) (by simp [kind]) e after
  | nested | bounded => exact absurd empty (by simp [Level.isEmptyBefore])

/-- Every sequence of well-spelled tokens is read soundly. -/
theorem soundAt (spelled : ∀ t ∈ tokens, t.IsLexed) : SoundAt tokens := by
  induction n : tokens.length using Nat.strongRecOn generalizing tokens with
  | _ n ih =>
      subst n
      have shorter : ∀ shorter : List Token, shorter.length < tokens.length →
          (∀ t ∈ shorter, t.IsLexed) → SoundAt shorter :=
        fun other less spelled => ih other.length less spelled rfl
      refine ⟨operand_sound shorter spelled, chain_sound shorter spelled, ?_⟩
      intro level e rest plain h
      rw [read_eq] at h
      split at h
      · rename_i empty
        obtain ⟨rfl, rfl⟩ := Prod.mk.inj (Except.ok.inj h)
        exact empty_sound plain empty
      · rename_i some
        obtain ⟨ts, rfl, reads, closes⟩ := chain_sound shorter spelled h
        rw [isEmptyBefore_append (reads.ne_nil rfl), Bool.not_eq_true] at some
        exact ⟨ts, rfl, .items some reads, closes⟩

/-- **Soundness**: what is read belongs to the grammar and ends where the level says. -/
theorem read_sound (plain : level.IsPlain) (spelled : ∀ t ∈ tokens, t.IsLexed)
    (h : read level tokens = .ok (e, rest)) :
    ∃ ts, tokens = ts ++ rest ∧ Reads (.items level) e ts ∧ level.Closes rest :=
  (soundAt spelled).read plain h

/-- **The parser reads exactly what the grammar describes.** -/
theorem read_iff (plain : level.IsPlain) (spelled : ∀ t ∈ tokens, t.IsLexed) :
    read level tokens = .ok (e, rest) ↔
      ∃ ts, tokens = ts ++ rest ∧ Reads (.items level) e ts ∧ level.Closes rest := by
  constructor
  · exact read_sound plain spelled
  · rintro ⟨ts, rfl, reads, closes⟩
    exact reads.read_eq closes

end Expr

end SchemaText
