import SchemaText.Proofs.Expr.RoundTrip

/-!
# Expressions without lookahead

The grammar `Expr.Reads` follows the parser: its rules look at the token after a word. Here
the same expressions are described the way a manual does it, where a rule only says what a
phrase is made of.

Such a grammar is ambiguous. `a IS NOT b` is `IS` before `NOT b` and `IS NOT` before `b`, and
`NOT EXISTS b` is two operators or one. The parser always takes the longer operator and never
goes back; it refuses nothing for that, as what remains is an operand again.

## Main definitions

* `Expr.Precedes`, `Expr.Follows`, `Expr.Connects`: operators, as they are listed.
* `Expr.Derives`: **the grammar** — a sequence of tokens is a phrase.

## Main results

* `Expr.Reads.isDerived`: what the parser reads derives from the grammar.
* `Expr.Derives.isReadable`: what derives from the grammar can be read greedily.
* `Expr.parse_iff_derives`: **a text is accepted just if it derives** from the grammar.
-/

namespace SchemaText

open Token

namespace Expr

variable {level : Level} {inList listed list : Bool} {e : Expr} {op t n : Token} {k : Keyword}
  {source ops ts rs rest : List Token}

/-! ### Operators -/

/-- A prefix operator and what follows it. `DISTINCT` belongs in lists, and not before
another `DISTINCT`. -/
inductive Precedes (inList : Bool) : List Token → List Token → Prop
  | sign {t : Token} {rest : List Token} (kind : t.kind = .sign ∨ t.kind = .symbolPrefix) :
      Precedes inList [t] rest
  | word {t : Token} {k : Keyword} {rest : List Token}
      (known : k ∈ [Keyword.NOT, .EXISTS, .CASE]) (word : t.is k = true) :
      Precedes inList [t] rest
  | caseWhen {t n : Token} {rest : List Token} (case : t.is .CASE = true)
      (when : n.is .WHEN = true) : Precedes inList [t, n] rest
  | distinct {t : Token} {rest : List Token} (place : inList = true)
      (distinct : t.is .DISTINCT = true) (once : ∀ n ∈ rest.head?, n.is .DISTINCT = false) :
      Precedes inList [t] rest

/-- A postfix operator. -/
inductive Follows : List Token → Prop
  | word {t : Token} {k : Keyword} (known : k ∈ [Keyword.ASC, .DESC, .ISNULL, .NOTNULL, .END])
      (word : t.is k = true) : Follows [t]
  | notNull {t n : Token} (not : t.is .NOT = true) (null : n.is .NULL = true) : Follows [t, n]

/-- A binary operator, and whether a list may stand directly after it. -/
inductive Connects : List Token → Bool → Prop
  | sign {t : Token} (kind : t.kind = .symbol ∨ t.kind = .sign) : Connects [t] false
  | word {t : Token} (kind : t.kind = .operator) : Connects [t] (t.is .IN)
  | isNot {t n : Token} (is : t.is .IS = true) (not : n.is .NOT = true) : Connects [t, n] false
  | not {t n : Token} {k : Keyword} (not : t.is .NOT = true)
      (known : k ∈ [Keyword.BETWEEN, .LIKE, .GLOB, .MATCH, .REGEXP, .IN])
      (word : n.is k = true) : Connects [t, n] (n.is .IN)

/-! ### The grammar -/

/-- Whether a word can name a column or a function. -/
def NamesOperand (t : Token) : Prop :=
  (t.kind = .identifier ∧ t.startsQuery = false) ∨
    ∃ k ∈ [Keyword.ASC, .DESC, .END, .MATCH, .LIKE, .GLOB, .REGEXP], t.is k = true

/-- The phrases of the grammar: inside a list or not, and directly after an operator that a
list may follow or not. -/
inductive Phrase
  /-- Terms with binary operators between them. -/
  | expr (inList listed : Bool)
  /-- An operand with its postfix operators. -/
  | term (inList listed : Bool)
  /-- An operand with its prefix operators. -/
  | operand (inList listed : Bool)
  /-- An operand without operators. -/
  | primary (listed : Bool)
  /-- Expressions with commas between them. -/
  | args

/-- **The grammar**: a sequence of tokens is a phrase. Nothing but the rule for `DISTINCT`
looks at what follows; a name is never followed by a parenthesis, so `CAST` needs no rule of
its own for that. -/
inductive Derives : Phrase → List Token → Prop
  | name {listed : Bool} {t : Token} (name : NamesOperand t ∨ t.is .CAST = true) :
      Derives (.primary listed) [t]
  | count {listed : Bool} {t : Token} (name : NamesOperand t) :
      Derives (.primary listed) [t, openParen, star, closeParen]
  | callEmpty {listed : Bool} {t : Token} (name : NamesOperand t) :
      Derives (.primary listed) [t, openParen, closeParen]
  | call {listed : Bool} {t : Token} {ts : List Token} (name : NamesOperand t)
      (arguments : Derives .args ts) :
      Derives (.primary listed) (t :: openParen :: (ts ++ [closeParen]))
  | literal {listed : Bool} {t : Token} (literal : t.kind.isLiteral = true) :
      Derives (.primary listed) [t]
  | parens {listed : Bool} {ts : List Token} (inner : Derives (.expr false false) ts) :
      Derives (.primary listed) (openParen :: (ts ++ [closeParen]))
  | cast {listed : Bool} {t stop : Token} {ts type : List Token} (name : t.is .CAST = true)
      (inner : Derives (.expr false false) ts) (as : stop.is .AS = true)
      (isType : IsCastType type) :
      Derives (.primary listed) (t :: openParen :: (ts ++ stop :: (type ++ [closeParen])))
  | listEmpty : Derives (.primary true) [openParen, closeParen]
  | list {ts : List Token} (items : Derives .args ts) :
      Derives (.primary true) (openParen :: (ts ++ [closeParen]))
  | primary {inList listed : Bool} {ts : List Token} (inner : Derives (.primary listed) ts) :
      Derives (.operand inList listed) ts
  | prefixed {inList listed : Bool} {source ts : List Token}
      (precedes : Precedes inList source ts) (inner : Derives (.operand inList false) ts) :
      Derives (.operand inList listed) (source ++ ts)
  | operand {inList listed : Bool} {ts : List Token}
      (inner : Derives (.operand inList listed) ts) : Derives (.term inList listed) ts
  | postfixed {inList listed : Bool} {ts source : List Token}
      (inner : Derives (.term inList listed) ts) (follows : Follows source) :
      Derives (.term inList listed) (ts ++ source)
  | term {inList listed : Bool} {ts : List Token} (inner : Derives (.term inList listed) ts) :
      Derives (.expr inList listed) ts
  | binary {inList listed takes : Bool} {ts source rs : List Token}
      (first : Derives (.term inList listed) ts) (connects : Connects source takes)
      (rest : Derives (.expr inList takes) rs) :
      Derives (.expr inList listed) (ts ++ (source ++ rs))
  | last {ts : List Token} (item : Derives (.expr true false) ts) : Derives .args ts
  | more {ts rs : List Token} (item : Derives (.expr true false) ts) (rest : Derives .args rs) :
      Derives .args (ts ++ comma :: rs)

/-! ### Words by their kinds -/

/-- A token of a text that is a keyword has the kind of that keyword. -/
theorem kind_of_is (h : t.IsLexed) (word : t.is k = true) : t.kind = k.kind :=
  h.kind_of_keyword? (keyword?_of_is word)

/-- A word that is no plain name is one of the keywords of its kind. -/
theorem exists_keyword_of_kind {kind : TokenKind} {keywords : List Keyword} (h : t.IsLexed)
    (same : t.kind = kind) (word : kind.isWord = true) (special : kind ≠ .identifier)
    (only : ∀ k : Keyword, k.kind = kind → k ∈ keywords) : ∃ k ∈ keywords, t.is k = true := by
  subst same
  obtain ⟨k, known⟩ := Option.isSome_iff_exists.1 (isSome_of_kind h word special)
  have known : t.keyword? = some k := by rw [keyword?, if_pos word, known]
  exact ⟨k, only k (h.kind_of_keyword? known).symm, is_of_keyword? known⟩

/-- Only `NOT` has its kind. -/
theorem is_not_of_kind (h : t.IsLexed) (kind : t.kind = .not) : t.is .NOT = true := by
  have only (k : Keyword) : k.kind = .not → k ∈ [Keyword.NOT] := by
    cases k <;> simp [Keyword.kind]
  obtain ⟨k, member, word⟩ := exists_keyword_of_kind h kind rfl (by decide) only
  exact List.mem_singleton.1 member ▸ word

/-- The words that are postfix operators. -/
theorem exists_postfix_of_kind (h : t.IsLexed) (kind : t.kind = .postfixOp) :
    ∃ k ∈ [Keyword.ASC, .DESC, .ISNULL, .NOTNULL, .END], t.is k = true :=
  exists_keyword_of_kind h kind rfl (by decide) fun k => by cases k <;> simp [Keyword.kind]

/-- The words that are prefix operators. -/
theorem exists_prefix_of_kind (h : t.IsLexed) (kind : t.kind = .prefixOp) :
    ∃ k ∈ [Keyword.CASE, .CAST, .DISTINCT, .EXISTS], t.is k = true :=
  exists_keyword_of_kind h kind rfl (by decide) fun k => by cases k <;> simp [Keyword.kind]

/-! ### Spellings of keywords -/

/-- A keyword is spelled as usual, up to case. -/
theorem fold_of_is (h : t.is k = true) : Text.fold t.text = Text.fold k.spelling := by
  rw [← isSpelled_spelling, isSpelled, Bool.and_eq_true] at h
  exact Text.same_iff.1 h.2

/-- After a single word a list may stand if the word is `IN`. -/
theorem takesList_word (h : t.IsLexed) (kind : t.kind = .operator) :
    takesList t = t.is .IN := by
  have single : t.isSpelled "NOT IN" = false := by
    by_contra spelled
    rw [Bool.not_eq_false, isSpelled, Bool.and_eq_true] at spelled
    obtain ⟨k, known⟩ := Option.isSome_iff_exists.1
      (isSome_of_kind h spelled.1 (by rw [kind]; decide))
    rw [Keyword.ofText?_congr spelled.2] at known
    have unknown : Keyword.ofText? "NOT IN" = none :=
      Keyword.ofText?_eq_none_of_blank (by decide)
    exact absurd known (by simp [unknown])
  rw [takesList, single, Bool.or_false]
  exact isSpelled_spelling t .IN

/-- After two words a list may stand if together they are `NOT IN`. -/
theorem takesList_join (word : t.is k = true) : takesList (Token.join .operator t n) = true ↔
    Text.fold k.spelling ++ ' ' :: Text.fold n.text = Text.fold "NOT IN" := by
  have spelled (s : String) : (Token.join .operator t n).isSpelled s = true ↔
      Text.fold k.spelling ++ ' ' :: Text.fold n.text = Text.fold s := by
    rw [isSpelled, Bool.and_eq_true, Text.same_iff, fold_join, fold_of_is word]
    exact and_iff_right rfl
  have single : ¬ (Token.join .operator t n).isSpelled "IN" = true := by
    rw [spelled]
    intro same
    have blank : ' ' ∈ Text.fold "IN" := by
      rw [← same]
      simp
    exact absurd blank (by decide)
  rw [takesList, Bool.or_eq_true, or_iff_right single, spelled]

/-- Of the operators that begin with `NOT`, only `NOT IN` takes a list. -/
theorem takesList_not (not : t.is .NOT = true) (word : n.kind.isWord = true) :
    takesList (Token.join .operator t n) = n.is .IN := by
  have split : Text.fold "NOT IN" = Text.fold Keyword.NOT.spelling ++
      ' ' :: Text.fold "IN" := by
    decide +kernel
  rw [Bool.eq_iff_iff, takesList_join not, split, List.append_cancel_left_eq, List.cons.injEq,
    ← isSpelled_spelling, isSpelled, word, Bool.true_and, Text.same_iff]
  exact and_iff_right rfl

/-- `IS NOT` takes no list. -/
theorem takesList_isNot (is : t.is .IS = true) :
    takesList (Token.join .operator t n) = false := by
  rw [← Bool.not_eq_true, takesList_join is]
  intro same
  exact absurd (List.cons.inj same).1 (by decide)

/-! ### What is read derives -/

/-- Whether an expression at the level is a list. -/
def Level.isList (level : Level) : Bool :=
  level == .arguments

/-- Expressions with commas between them, the first after an operator that a list may follow
or not; outside lists there is only one. -/
def DerivesChain (level : Level) (listed : Bool) (ts : List Token) : Prop :=
  Derives (.expr level.isList listed) ts ∨ level = .arguments ∧ ∃ item rest,
    ts = item ++ comma :: rest ∧ Derives (.expr true listed) item ∧ Derives .args rest

/-- The phrase that a part of an expression is. -/
def Part.IsDerived : Part → List Token → Prop
  | operand level list, ts => Derives (.operand level.isList list) ts
  | phrase level list, ts => Derives (.term level.isList list) ts
  | chain level list, ts => DerivesChain level list ts
  | items level, ts => (level = .arguments ∧ ts = []) ∨ DerivesChain level false ts

/-- A chain of an argument list is what arguments are made of. -/
theorem DerivesChain.args (h : DerivesChain .arguments false ts) : Derives .args ts := by
  rcases h with item | ⟨-, item, rest, rfl, first, others⟩
  · exact .last item
  · exact .more first others

/-- Outside an argument list, a chain is an expression. -/
theorem DerivesChain.expr (h : DerivesChain level listed ts) (place : level ≠ .arguments) :
    Derives (.expr false listed) ts := by
  have single : level.isList = false := beq_eq_false_iff_ne.2 place
  rcases h with item | ⟨arguments, -⟩
  · rwa [single] at item
  · exact absurd arguments place

/-- A word can name a function just if the parser takes it for a name. -/
theorem isCallable_iff (h : t.IsLexed) : t.isCallable = true ↔ NamesOperand t := by
  simp only [isCallable, Bool.and_eq_true, Bool.not_eq_true', Bool.or_eq_true, beq_iff_eq,
    NamesOperand]
  constructor
  · rintro ⟨noQuery, kind | ⟨kind, name⟩⟩
    · exact .inl ⟨kind, noQuery⟩
    · have some : (t.keyword?.any Keyword.isFallbackName) = true := by
        rcases kind with kind | kind <;> simpa [isOperatorName, kind] using name
      obtain ⟨k, known, fallback⟩ := (Option.any_eq_true ..).1 some
      have same := h.kind_of_keyword? known
      refine .inr ⟨k, ?_, is_of_keyword? known⟩
      rw [same] at kind
      cases k <;> simp_all [Keyword.isFallbackName, Keyword.kind]
  · rintro (⟨kind, noQuery⟩ | ⟨k, member, word⟩)
    · exact ⟨noQuery, .inl kind⟩
    · have known := keyword?_of_is word
      have kind := kind_of_is h word
      simp only [List.mem_cons, List.not_mem_nil, or_false] at member
      rcases member with rfl | rfl | rfl | rfl | rfl | rfl | rfl <;>
        simp [startsQuery, isOperatorName, known, kind, Keyword.kind, Keyword.isFallbackName]

/-- A prefix operator before an operand makes an operand. -/
theorem Opens.isDerived (h : Opens level source ops ts) (lexed : ∀ t ∈ source, t.IsLexed)
    (inner : Derives (.operand level.isList false) ts) :
    Derives (.operand level.isList list) (source ++ ts) := by
  cases h with
  | sign kind => exact .prefixed (.sign kind) inner
  | @not t _ kind alone =>
      have word := is_not_of_kind (lexed t (by simp)) kind
      exact .prefixed (.word (k := .NOT) (by simp) word) inner
  | @notExists t n _ kind exists_ =>
      have word := is_not_of_kind (lexed t (by simp)) kind
      have operand : Derives (.operand level.isList false) ([n] ++ ts) :=
        .prefixed (.word (k := .EXISTS) (by simp) exists_) inner
      have not : Precedes level.isList [t] ([n] ++ ts) := .word (k := .NOT) (by simp) word
      have whole : Derives (.operand level.isList list) ([t] ++ ([n] ++ ts)) :=
        .prefixed not operand
      exact whole
  | @word t _ kind notCast notDistinct notCase =>
      obtain ⟨k, member, word⟩ := exists_prefix_of_kind (lexed t (by simp)) kind
      simp only [List.mem_cons, List.not_mem_nil, or_false] at member
      rcases member with rfl | rfl | rfl | rfl
      · exact absurd word (by simp [notCase])
      · exact absurd word (by simp [notCast])
      · exact absurd word (by simp [notDistinct])
      · exact .prefixed (.word (k := .EXISTS) (by simp) word) inner
  | distinct kind distinct place once =>
      exact .prefixed (.distinct (by rw [place]; rfl) distinct once) inner
  | case kind case alone => exact .prefixed (.word (k := .CASE) (by simp) case) inner
  | caseWhen kind case when => exact .prefixed (.caseWhen case when) inner

/-- The postfix operators of a text are those of the grammar. -/
theorem Trails.follows (h : Trails source op) (lexed : ∀ t ∈ source, t.IsLexed) :
    Follows source := by
  cases h with
  | word kind =>
      obtain ⟨k, member, word⟩ := exists_postfix_of_kind (lexed op (by simp)) kind
      exact .word member word
  | @notNull t n kind null => exact .notNull (is_not_of_kind (lexed t (by simp)) kind) null

/-- The comparisons that `NOT` can negate. -/
theorem followsNot_iff : followsNot t = true ↔
    ∃ k ∈ [Keyword.BETWEEN, .LIKE, .GLOB, .MATCH, .REGEXP, .IN], t.is k = true := by
  constructor
  · intro negates
    cases known : t.keyword? with
    | none =>
        rw [followsNot, known] at negates
        exact absurd negates (by simp)
    | some k =>
        refine ⟨k, ?_, is_of_keyword? known⟩
        rw [followsNot, known] at negates
        cases k <;> simp_all
  · rintro ⟨k, member, word⟩
    rw [followsNot, keyword?_of_is word]
    simp only [List.mem_cons, List.not_mem_nil, or_false] at member
    rcases member with rfl | rfl | rfl | rfl | rfl | rfl <;> rfl

/-- A binary operator other than a comma is one of the grammar. -/
theorem Joins.connects (h : Joins level source op rest) (lexed : ∀ t ∈ source, t.IsLexed) :
    (level = .arguments ∧ source = [Token.comma] ∧ op = Token.comma) ∨
      Connects source (takesList op) := by
  cases h with
  | comma place => exact .inl ⟨place, rfl, rfl⟩
  | symbol kind =>
      have plain : takesList op = false := by
        rcases kind with kind | kind <;> simp [takesList, isSpelled, kind, TokenKind.isWord]
      exact .inr (plain ▸ .sign kind)
  | word kind | is kind =>
      rw [takesList_word (lexed op (by simp)) kind]
      exact .inr (.word kind)
  | @isNot t n _ kind is not =>
      rw [takesList_isNot is]
      exact .inr (.isNot is (is_not_of_kind (lexed n (by simp)) not))
  | @not t n _ kind negates =>
      have not := is_not_of_kind (lexed t (by simp)) kind
      rw [takesList_not not (isWord_of_followsNot negates)]
      obtain ⟨k, member, word⟩ := followsNot_iff.1 negates
      exact .inr (.not not member word)

/-- A term and what follows its operator. -/
theorem DerivesChain.binary {takes : Bool} (first : Derives (.term level.isList listed) ts)
    (connects : Connects source takes) (rest : DerivesChain level takes rs) :
    DerivesChain level listed (ts ++ (source ++ rs)) := by
  rcases rest with expr | ⟨rfl, item, others, rfl, expr, items⟩
  · exact .inl (.binary first connects expr)
  · exact .inr ⟨rfl, ts ++ (source ++ item), others, by simp,
      .binary first connects expr, items⟩

/-- **What is read derives** from the grammar. -/
theorem Reads.isDerived {part : Part} (h : Reads part e ts) (lexed : ∀ t ∈ ts, t.IsLexed) :
    part.IsDerived ts := by
  induction h with
  | literal literal => exact .primary (.literal literal)
  | @name level list t name =>
      refine .primary (.name (name.imp (isCallable_iff (lexed t (by simp))).1 fun cast => ?_))
      rw [isCast, Bool.and_eq_true] at cast
      exact cast.2
  | @count level list t name =>
      exact .primary (.count ((isCallable_iff (lexed t (by simp))).1 name))
  | @call level list t e ts name _ ih =>
      have name := (isCallable_iff (lexed t (by simp))).1 name
      rcases ih fun t member => lexed t (by simp [member]) with ⟨-, rfl⟩ | items
      · exact .primary (.callEmpty name)
      · exact .primary (.call name items.args)
  | cast name _ plain as isType ih =>
      rw [isCast, Bool.and_eq_true] at name
      rcases ih fun t member => lexed t (by simp [member]) with ⟨arguments, -⟩ | inner
      · exact absurd arguments (by simp [Level.inCast])
      · exact .primary (.cast name.2 (inner.expr (by simp [Level.inCast]))
          ((isSpelled_spelling _ .AS).symm.trans as) isType)
  | @parens level list e ts _ ih =>
      have inner := ih fun t member => lexed t (by simp [member])
      cases list with
      | false =>
          rcases inner with ⟨arguments, -⟩ | inner
          · exact absurd arguments (by simp [Level.inParens])
          · exact .primary (.parens (inner.expr (by simp [Level.inParens])))
      | true =>
          rcases inner with ⟨-, rfl⟩ | items
          · exact .primary .listEmpty
          · exact .primary (.list items.args)
  | prefixed _ opens _ ih =>
      exact opens.isDerived (fun t member => lexed t (by simp [member]))
        (ih fun t member => lexed t (by simp [member]))
  | bare _ ih => exact .operand (ih lexed)
  | trailed _ trails ih =>
      exact .postfixed (ih fun t member => lexed t (by simp [member]))
        (trails.follows fun t member => lexed t (by simp [member]))
  | last _ ih => exact .inl (.term (ih lexed))
  | @more level list left right op ts source rs _ _ joins _ ih ihRight =>
      have first := ih fun t member => lexed t (by simp [member])
      have rest := ihRight fun t member => lexed t (by simp [member])
      rcases joins.connects fun t member => lexed t (by simp [member]) with
        ⟨rfl, rfl, rfl⟩ | connects
      · exact .inr ⟨rfl, ts, rs, by simp, .term first, rest.args⟩
      · exact rest.binary first connects
  | empty => exact .inl ⟨rfl, rfl⟩
  | items _ _ ih => exact .inr (ih lexed)

/-! ### What derives is read -/

/-- The levels of whole expressions, and of what stands between parentheses. -/
def Level.IsGrammatical (level : Level) : Prop :=
  level = .top [] ∨ level = .arguments ∨ level = .nested ∨ level = .inCast

/-- Whether an operand without prefix operators can begin with the token. -/
def StartsPrimary (t : Token) : Prop :=
  t.kind.isLiteral = true ∨ t.isCallable = true ∨ t.isCast = true ∨ t.kind = .openParen

/-- How an operand begins: with its own first token or with a prefix operator. -/
theorem Reads.operand_cases (h : Reads (.operand level list) e ts) :
    (∃ t rest, ts = t :: rest ∧ StartsPrimary t) ∨ ∃ source ops inner e',
      ts = source ++ inner ∧ Opens level source ops inner ∧
        Reads (.operand level false) e' inner := by
  cases h with
  | literal literal => exact .inl ⟨_, _, rfl, .inl literal⟩
  | name name => exact .inl ⟨_, _, rfl, .inr (name.imp_right .inl)⟩
  | count name | call name => exact .inl ⟨_, _, rfl, .inr (.inl name)⟩
  | cast name => exact .inl ⟨_, _, rfl, .inr (.inr (.inl name))⟩
  | parens => exact .inl ⟨_, _, rfl, .inr (.inr (.inr rfl))⟩
  | prefixed _ opens inner => exact .inr ⟨_, _, _, _, rfl, opens, inner⟩

/-- A keyword that begins an operand on its own is read as a name. -/
theorem StartsPrimary.isName (h : StartsPrimary t) (lexed : t.IsLexed) (word : t.is k = true) :
    k.kind = .identifier ∨ k.isFallbackName = true := by
  have isWord := isWord_of_is word
  have kind := kind_of_is lexed word
  rcases h with literal | callable | cast | paren
  · generalize t.kind = kd at literal isWord
    cases kd <;> simp [TokenKind.isLiteral, TokenKind.isWord] at literal isWord
  · obtain ⟨plain, -⟩ | ⟨k', member, word'⟩ := (isCallable_iff lexed).1 callable
    · exact .inl (kind.symm.trans plain)
    · obtain rfl : k = k' := by
        rw [is, beq_iff_eq] at word word'
        exact Option.some.inj (word.symm.trans word')
      right
      simp only [List.mem_cons, List.not_mem_nil, or_false] at member
      rcases member with rfl | rfl | rfl | rfl | rfl | rfl | rfl <;> rfl
  · obtain ⟨-, known⟩ := isCast_iff.1 cast
    rw [is, known, beq_iff_eq] at word
    obtain rfl := Option.some.inj word
    exact .inr rfl
  · rw [paren] at isWord
    exact absurd isWord (by decide)

/-- No prefix operator begins with a binary one. -/
theorem Opens.kind_ne_operator (h : Opens level source ops rest) :
    ∀ t ∈ source.head?, t.kind ≠ .operator := by
  cases h with
  | sign kind =>
      rintro _ ⟨⟩
      rcases kind with kind | kind <;> simp [kind]
  | not kind | notExists kind | word kind | distinct kind | case kind | caseWhen kind =>
      rintro _ ⟨⟩
      simp [kind]

/-- No operand begins with `WHEN`. -/
theorem Reads.ne_when (h : Reads (.operand level list) e ts) (lexed : ∀ t ∈ ts, t.IsLexed) :
    ∀ t ∈ ts.head?, t.is .WHEN = false := by
  intro t first
  have isLexed := lexed t (List.mem_of_mem_head? first)
  by_contra word
  rw [Bool.not_eq_false] at word
  rcases h.operand_cases with ⟨t', rest, rfl, starts⟩ | ⟨source, ops, inner, e', rfl, opens, -⟩
  · obtain rfl := Option.some.inj first
    exact absurd (starts.isName isLexed word) (by decide)
  · rw [List.head?_append_of_ne_nil _ opens.ne_nil] at first
    exact opens.kind_ne_operator t first (kind_of_is isLexed word)

/-- What remains of an operand without its first operator, `NOT` or `EXISTS`, is an operand. -/
theorem Reads.afterOperator (h : Reads (.operand level list) e (t :: ts))
    (known : k = .NOT ∨ k = .EXISTS) (word : t.is k = true)
    (lexed : ∀ n ∈ t :: ts, n.IsLexed) :
    ∃ e, Reads (.operand level false) e ts := by
  have isLexed := lexed t (by simp)
  have kind := kind_of_is isLexed word
  rcases h.operand_cases with
    ⟨t', rest, same, starts⟩ | ⟨source, ops, inner, e', same, opens, reads⟩
  · obtain ⟨rfl, -⟩ := List.cons.inj same
    rcases known with rfl | rfl <;> exact absurd (starts.isName isLexed word) (by decide)
  · cases opens with
    | not | word =>
        obtain ⟨rfl, rfl⟩ := List.cons.inj same
        exact ⟨e', reads⟩
    | @notExists _ n _ _ exists_ =>
        obtain ⟨rfl, rfl⟩ := List.cons.inj same
        have isPrefix : n.kind = .prefixOp := kind_of_is (lexed n (by simp)) exists_
        have apart {k' : Keyword} (ne : Keyword.EXISTS ≠ k') : n.is k' = false :=
          is_inj exists_ ne
        have opens : Opens level [n] [n] inner :=
          .word isPrefix (apart (by decide)) (apart (by decide)) (apart (by decide))
        have noQuery : n.startsQuery = false := by rw [startsQuery, keyword?_of_is exists_]
        exact ⟨_, .prefixed (by simpa using noQuery) opens reads⟩
    | sign other =>
        obtain ⟨rfl, -⟩ := List.cons.inj same
        rcases known with rfl | rfl <;> rcases other with other | other <;>
          exact absurd (kind.symm.trans other) (by decide)
    | distinct _ other | case _ other | caseWhen _ other =>
        obtain ⟨rfl, -⟩ := List.cons.inj same
        rcases known with rfl | rfl <;> exact absurd other (by simp [is_inj word])

/-- What remains of a phrase without its first operator `NOT` is a phrase. -/
theorem Reads.phrase_afterNot (h : Reads (.phrase level false) e (t :: ts))
    (not : t.is .NOT = true) (lexed : ∀ n ∈ t :: ts, n.IsLexed) :
    ∃ e, Reads (.phrase level false) e ts := by
  generalize same : Part.phrase level false = part at h
  generalize whole : t :: ts = us at h lexed
  induction h generalizing ts with
  | bare inner =>
      obtain ⟨rfl, rfl⟩ := Part.phrase.inj same
      subst whole
      obtain ⟨e, reads⟩ := inner.afterOperator (.inl rfl) not lexed
      exact ⟨e, .bare reads⟩
  | trailed inner trails ih =>
      obtain ⟨rfl, rfl⟩ := Part.phrase.inj same
      obtain ⟨a, us, rfl⟩ := List.exists_cons_of_ne_nil (inner.ne_nil rfl)
      obtain ⟨rfl, rfl⟩ := List.cons.inj whole
      obtain ⟨e, reads⟩ := ih rfl rfl fun n member => lexed n (List.mem_append_left _ member)
      exact ⟨_, .trailed reads trails⟩
  | _ => exact absurd same (by simp)

/-- What remains of a chain of operands without its first operator `NOT` is such a chain. -/
theorem Reads.chain_afterNot (h : Reads (.chain level false) e (t :: ts))
    (not : t.is .NOT = true) (lexed : ∀ n ∈ t :: ts, n.IsLexed) :
    ∃ e, Reads (.chain level false) e ts := by
  generalize whole : t :: ts = us at h lexed
  cases h with
  | last inner =>
      subst whole
      obtain ⟨e, reads⟩ := inner.phrase_afterNot not lexed
      exact ⟨e, .last reads⟩
  | more first goes joins rest =>
      obtain ⟨a, us, rfl⟩ := List.exists_cons_of_ne_nil (first.ne_nil rfl)
      obtain ⟨rfl, rfl⟩ := List.cons.inj whole
      obtain ⟨e, reads⟩ := first.phrase_afterNot not fun n member =>
        lexed n (List.mem_append_left _ member)
      exact ⟨_, .more reads goes joins rest⟩

/-- What a phrase of the grammar can be read as, at every level that suits it. -/
def Phrase.IsReadable : Phrase → List Token → Prop
  | expr inList listed, ts => ∀ level : Level, level.IsGrammatical →
      (inList = true → level = .arguments) → ∃ e, Reads (.chain level listed) e ts
  | term inList listed, ts => ∀ level : Level,
      (inList = true → level = .arguments) → ∃ e, Reads (.phrase level listed) e ts
  | operand inList listed, ts => ∀ level : Level,
      (inList = true → level = .arguments) → ∃ e, Reads (.operand level listed) e ts
  | primary listed, ts => ∀ level : Level, ∃ e, Reads (.operand level listed) e ts
  | args, ts => ∃ e, Reads (.chain .arguments false) e ts

/-- A keyword that begins no query is refused nowhere for that reason. -/
theorem startsQuery_of_is (word : t.is k = true)
    (plain : k ∉ [Keyword.SELECT, .VALUES, .WITH]) : t.startsQuery = false := by
  rw [startsQuery, keyword?_of_is word]
  cases k <;> simp_all

/-- `NOT` before an operand is read with it, and with the `EXISTS` that the operand begins
with. -/
theorem Reads.precedeNot (inner : Reads (.operand level false) e ts) (not : t.is .NOT = true)
    (lexed : ∀ n ∈ t :: ts, n.IsLexed) : ∃ e, Reads (.operand level list) e ([t] ++ ts) := by
  have kind : t.kind = .not := kind_of_is (lexed t (by simp)) not
  have noQuery := startsQuery_of_is not (by decide)
  by_cases exists_ : ∃ n us, ts = n :: us ∧ n.is .EXISTS = true
  · -- The operand gives its `EXISTS` to the operator; what remains is an operand.
    obtain ⟨n, us, rfl, word⟩ := exists_
    obtain ⟨e, reads⟩ := inner.afterOperator (.inr rfl) word fun n member =>
      lexed n (List.mem_cons_of_mem _ member)
    have both : Reads (.operand level list) _ ([t, n] ++ us) :=
      .prefixed (by simpa using noQuery) (.notExists kind word) reads
    exact ⟨_, both⟩
  · refine ⟨_, .prefixed (by simpa using noQuery) (.not kind fun n first => ?_) inner⟩
    obtain ⟨us, rfl⟩ := List.head?_eq_some_iff.1 first
    by_contra word
    exact exists_ ⟨n, us, rfl, by simpa using word⟩

/-- **A prefix operator of the grammar is read** with the operand that follows. -/
theorem Reads.precede (inner : Reads (.operand level false) e ts)
    (precedes : Precedes inList source ts) (suits : inList = true → level = .arguments)
    (lexed : ∀ t ∈ source ++ ts, t.IsLexed) :
    ∃ e, Reads (.operand level list) e (source ++ ts) := by
  cases precedes with
  | sign kind =>
      have noQuery := startsQuery_of_not_isWord (by
        rcases kind with kind | kind <;> rw [kind] <;> rfl)
      exact ⟨_, .prefixed (by simpa using noQuery) (.sign kind) inner⟩
  | @word t k _ known word =>
      have kind := kind_of_is (lexed t (by simp)) word
      simp only [List.mem_cons, List.not_mem_nil, or_false] at known
      rcases known with rfl | rfl | rfl
      · exact inner.precedeNot word lexed
      · have noQuery := startsQuery_of_is word (by decide)
        refine ⟨_, .prefixed (by simpa using noQuery) (.word kind ?_ ?_ ?_) inner⟩ <;>
          exact is_inj word (by decide)
      · have noQuery := startsQuery_of_is word (by decide)
        have alone := inner.ne_when fun n member => lexed n (by simp [member])
        exact ⟨_, .prefixed (by simpa using noQuery) (.case kind word alone) inner⟩
  | @caseWhen t n _ case when =>
      have noQuery := startsQuery_of_is case (by decide)
      have kind := kind_of_is (lexed t (by simp)) case
      exact ⟨_, .prefixed (by simpa using noQuery) (.caseWhen kind case when) inner⟩
  | @distinct t _ place distinct once =>
      have noQuery := startsQuery_of_is distinct (by decide)
      have kind := kind_of_is (lexed t (by simp)) distinct
      exact ⟨_, .prefixed (by simpa using noQuery) (.distinct kind distinct (suits place) once)
        inner⟩

/-- A postfix operator of the grammar is one that the parser reads. -/
theorem Follows.trails (h : Follows source) (lexed : ∀ t ∈ source, t.IsLexed) :
    ∃ op, Trails source op := by
  cases h with
  | @word t k known word =>
      have kind := kind_of_is (lexed t (by simp)) word
      refine ⟨t, .word ?_⟩
      simp only [List.mem_cons, List.not_mem_nil, or_false] at known
      rcases known with rfl | rfl | rfl | rfl | rfl <;> exact kind
  | @notNull t n not null => exact ⟨_, .notNull (kind_of_is (lexed t (by simp)) not) null⟩

/-- No binary operator ends an expression of the grammar. -/
theorem Level.IsGrammatical.endsBefore (h : level.IsGrammatical) (paren : t.kind ≠ .closeParen)
    (as : t.is .AS = false) : level.endsBefore t = false := by
  rcases h with rfl | rfl | rfl | rfl
  · rfl
  · exact beq_eq_false_iff_ne.2 paren
  · exact beq_eq_false_iff_ne.2 paren
  · have spelled : t.isSpelled "AS" = t.is .AS := isSpelled_spelling t .AS
    simp [Level.inCast, Level.endsBefore, spelled, as]

/-- A word between two expressions is read as an operator, `IS` together with the `NOT` that
the second one begins with. -/
theorem Reads.connectWord {left right : Expr} (grammatical : level.IsGrammatical)
    (first : Reads (.phrase level listed) left ts) (kind : t.kind = .operator)
    (rest : Reads (.chain level (t.is .IN)) right rs) (lexed : ∀ n ∈ t :: rs, n.IsLexed) :
    ∃ e, Reads (.chain level listed) e (ts ++ ([t] ++ rs)) := by
  have isLexed := lexed t (by simp)
  have notAs : t.is .AS = false := by
    by_contra as
    have other := kind_of_is isLexed (Bool.not_eq_false _ ▸ as)
    exact absurd (kind.symm.trans other) (by decide)
  have goes : level.endsBefore t = false := grammatical.endsBefore (by simp [kind]) notAs
  have takes := takesList_word isLexed kind
  by_cases is : t.is .IS = true
  · have notIn : t.is .IN = false := is_inj is (by decide)
    by_cases not : ∃ n us, rs = n :: us ∧ n.kind = .not
    · -- The second expression gives its `NOT` to the operator; what remains is an expression.
      obtain ⟨n, us, rfl, not⟩ := not
      rw [notIn] at rest
      have word := is_not_of_kind (lexed n (by simp)) not
      obtain ⟨e, reads⟩ := rest.chain_afterNot word fun n member =>
        lexed n (List.mem_cons_of_mem _ member)
      rw [← takesList_isNot (n := n) is] at reads
      have both : Reads (.chain level listed) _ (ts ++ ([t, n] ++ us)) :=
        .more first (by simpa using goes) (.isNot kind is not) reads
      exact ⟨_, both⟩
    · rw [← takes] at rest
      refine ⟨_, .more first (by simpa using goes) (.is kind is fun n head same => ?_) rest⟩
      obtain ⟨us, rfl⟩ := List.head?_eq_some_iff.1 head
      exact not ⟨n, us, rfl, same⟩
  · rw [← takes] at rest
    exact ⟨_, .more first (by simpa using goes) (.word kind (Bool.not_eq_true _ ▸ is)) rest⟩

/-- **A binary operator of the grammar is read** between two expressions. -/
theorem Reads.connect {left right : Expr} {takes : Bool} (grammatical : level.IsGrammatical)
    (first : Reads (.phrase level listed) left ts) (connects : Connects source takes)
    (rest : Reads (.chain level takes) right rs) (lexed : ∀ t ∈ source ++ rs, t.IsLexed) :
    ∃ e, Reads (.chain level listed) e (ts ++ (source ++ rs)) := by
  cases connects with
  | @sign t kind =>
      have goes : level.endsBefore t = false := by
        refine grammatical.endsBefore ?_ ?_ <;>
          rcases kind with kind | kind <;> simp [kind, is, keyword?, TokenKind.isWord]
      have plain : takesList t = false := by
        rcases kind with kind | kind <;> simp [takesList, isSpelled, kind, TokenKind.isWord]
      rw [← plain] at rest
      exact ⟨_, .more first (by simpa using goes) (.symbol kind) rest⟩
  | word kind => exact first.connectWord grammatical kind rest lexed
  | @isNot t n is not =>
      have kind := kind_of_is (lexed t (by simp)) is
      have goes : level.endsBefore t = false :=
        grammatical.endsBefore (by simp [kind, Keyword.kind]) (is_inj is (by decide))
      rw [← takesList_isNot (n := n) is] at rest
      exact ⟨_, .more first (by simpa using goes)
        (.isNot kind is (kind_of_is (lexed n (by simp)) not)) rest⟩
  | @not t n k not known word =>
      have kind := kind_of_is (lexed t (by simp)) not
      have goes : level.endsBefore t = false :=
        grammatical.endsBefore (by simp [kind, Keyword.kind]) (is_inj not (by decide))
      rw [← takesList_not not (isWord_of_is word)] at rest
      exact ⟨_, .more first (by simpa using goes) (.not kind (followsNot_iff.2 ⟨k, known, word⟩))
        rest⟩

/-- **What derives from the grammar can be read.** -/
theorem Derives.isReadable {phrase : Phrase} (h : Derives phrase ts)
    (lexed : ∀ t ∈ ts, t.IsLexed) :
    phrase.IsReadable ts := by
  induction h with
  | @name listed t name =>
      intro level
      refine ⟨_, .name (name.imp (isCallable_iff (lexed t (by simp))).2 fun cast => ?_)⟩
      have kind : t.kind = .prefixOp := kind_of_is (lexed t (by simp)) cast
      rw [isCast, cast, kind]
      rfl
  | @count listed t name =>
      exact fun level => ⟨_, .count ((isCallable_iff (lexed t (by simp))).2 name)⟩
  | @callEmpty listed t name =>
      have nothing : Reads (.items .arguments) .empty [] := .empty
      exact fun level => ⟨_, .call ((isCallable_iff (lexed t (by simp))).2 name) nothing⟩
  | @call listed t ts name _ ih =>
      intro level
      obtain ⟨e, reads⟩ := ih fun t member => lexed t (by simp [member])
      exact ⟨_, .call ((isCallable_iff (lexed t (by simp))).2 name)
        (.items (isEmptyBefore_of_reads reads (.inl rfl)) reads)⟩
  | literal literal => exact fun level => ⟨_, .literal literal⟩
  | @parens listed ts _ ih =>
      intro level
      have inner := ih fun t member => lexed t (by simp [member])
      cases listed with
      | false =>
          obtain ⟨e, reads⟩ := inner .nested (.inr (.inr (.inl rfl))) (by simp)
          exact ⟨_, .parens (.items rfl reads)⟩
      | true =>
          -- After `IN` the parentheses hold a list, here of one item.
          obtain ⟨e, reads⟩ := inner .arguments (.inr (.inl rfl)) (by simp)
          exact ⟨_, .parens (.items (isEmptyBefore_of_reads reads (.inl rfl)) reads)⟩
  | @cast listed t stop ts type name _ as isType ih =>
      intro level
      obtain ⟨e, reads⟩ := ih (fun t member => lexed t (by simp [member])) .inCast
        (.inr (.inr (.inr rfl))) (by simp)
      have kind : t.kind = .prefixOp := kind_of_is (lexed t (by simp)) name
      have isCast : t.isCast = true := by rw [isCast, name, kind]; rfl
      exact ⟨_, .cast isCast (.items rfl reads) (kind_of_is (lexed stop (by simp)) as)
        ((isSpelled_spelling stop .AS).trans as) isType⟩
  | listEmpty =>
      have nothing : Reads (.items (.inParens true)) .empty [] := .empty
      exact fun level => ⟨_, .parens nothing⟩
  | list _ ih =>
      intro level
      obtain ⟨e, reads⟩ := ih fun t member => lexed t (by simp [member])
      exact ⟨_, .parens (.items (isEmptyBefore_of_reads reads (.inl rfl)) reads)⟩
  | primary _ ih => exact fun level _ => ih lexed level
  | prefixed precedes _ ih =>
      intro level suits
      obtain ⟨e, reads⟩ := ih (fun t member => lexed t (by simp [member])) level suits
      exact reads.precede precedes suits lexed
  | operand _ ih =>
      intro level suits
      obtain ⟨e, reads⟩ := ih lexed level suits
      exact ⟨e, .bare reads⟩
  | postfixed _ follows ih =>
      intro level suits
      obtain ⟨e, reads⟩ := ih (fun t member => lexed t (by simp [member])) level suits
      obtain ⟨op, trails⟩ := follows.trails fun t member => lexed t (by simp [member])
      exact ⟨_, .trailed reads trails⟩
  | term _ ih =>
      intro level _ suits
      obtain ⟨e, reads⟩ := ih lexed level suits
      exact ⟨e, .last reads⟩
  | binary _ connects _ ih ihRest =>
      intro level grammatical suits
      obtain ⟨left, first⟩ := ih (fun t member => lexed t (by simp [member])) level suits
      obtain ⟨right, rest⟩ :=
        ihRest (fun t member => lexed t (by simp [member])) level grammatical
        suits
      exact first.connect grammatical connects rest fun t member => lexed t
        (List.mem_append_right _ member)
  | last _ ih => exact ih lexed .arguments (.inr (.inl rfl)) fun _ => rfl
  | more _ _ ih ihRest =>
      obtain ⟨e, item⟩ := ih (fun t member => lexed t (by simp [member])) .arguments
        (.inr (.inl rfl)) fun _ => rfl
      obtain ⟨r, rest⟩ := ihRest fun t member => lexed t (by simp [member])
      exact ⟨_, item.graft rest⟩

/-! ### The grammar of the parser -/

/-- **Both grammars describe the same expressions**, where no list stands. -/
theorem exists_reads_iff_derives (grammatical : level.IsGrammatical)
    (place : level ≠ .arguments)
    (lexed : ∀ t ∈ ts, t.IsLexed) :
    (∃ e, Reads (.chain level listed) e ts) ↔ Derives (.expr false listed) ts :=
  ⟨fun ⟨_, reads⟩ => DerivesChain.expr (reads.isDerived lexed) place,
    fun derives => derives.isReadable lexed level grammatical (by simp)⟩

/-- **A text is accepted just if it derives from the grammar.** -/
theorem parse_iff_derives (text : String) :
    (∃ e, Expr.parse text = .ok e) ↔ Derives (.expr false false) (tokenize text) := by
  simp only [parse_eq_ok_iff]
  exact exists_reads_iff_derives (.inl rfl) (by simp) fun _ member => isLexed_of_mem member

end Expr

end SchemaText
