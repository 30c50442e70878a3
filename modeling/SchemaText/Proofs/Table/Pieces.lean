import SchemaText.Proofs.Table.Arrangement

/-!
# Reading pieces of tables

Types, bodies and the clauses of references are read from the tokens that were gathered for
them, up to the state in which they were left.

## Main definitions

* `Table.withColumn`: a table with one more column.

## Main results

* `outcome_type`, `outcome_body`, `outcome_clauses`: **what was gathered is read**, whatever
  follows.
-/

namespace SchemaText

open Token Move

variable {table : Table} {column : Column} {draft : Draft} {token : Token}
  {ts rest : List Token} {statement : Statement}

/-! ### The last column -/

/-- The table with one more column. -/
def Table.withColumn (table : Table) (column : Column) : Table :=
  { table with columns := table.columns ++ [column] }

/-- A change of the last column changes the one that was added. -/
@[simp] theorem Table.modifyColumn_withColumn (f : Column → Column) :
    (table.withColumn column).modifyColumn ((table.withColumn column).columns.length - 1) f =
      table.withColumn (f column) :=
  congrArg (fun columns => { table with columns := columns }) (modify_last f table.columns column)

/-- With one more column the table has columns. -/
theorem Table.columns_withColumn_ne_nil : (table.withColumn column).columns ≠ [] := by
  simp [withColumn]

/-- The column that is being defined is the last one. -/
theorem changeColumn_withColumn {f : Column → Column}
    (found : draft.statement = some (.table (table.withColumn column))) :
    draft.changeColumn f =
      some { draft with statement := some (.table (table.withColumn (f column))) } := by
  rw [Draft.changeColumn, found]
  dsimp only
  rw [if_neg (by simp [Table.withColumn]), Table.modifyColumn_withColumn]

/-! ### Types -/

/-- A token of a type is taken. -/
theorem TypeStep.move {tokens : List Token} {s target : ColumnState}
    (h : TypeStep tokens token s target) (typed : draft.typeTokens = tokens)
    (next : Option Token) :
    Move.ofState (.column s) draft token next = extendType draft token target := by
  change Move.column s draft token = _
  cases h with
  | word word => rw [Move.column, if_pos word]
  | width kind ne =>
      have noWord : Move.isTypeWord token = false := by
        simp [Move.isTypeWord, kind, TokenKind.isQuotedIdentifier]
      simp [Move.column, noWord, kind, typed, ne]
  | sign kind => simp only [Move.column, typeWidth, kind]
  | number kind start =>
      rcases start with rfl | rfl <;> simp only [Move.column, typeWidth, kind]
  | comma kind => simp [Move.column, typeWidth, kind]
  | close kind => simp only [Move.column, typeWidth, kind]

/-- The type of the last column goes on. -/
theorem extendType_withColumn {tokens : List Token} {s : ColumnState}
    (found : draft.statement = some (.table (table.withColumn column)))
    (typed : draft.typeTokens = tokens) :
    extendType draft token s = .next (.column s)
      { draft with
        typeTokens := tokens ++ [token]
        statement := some (.table (table.withColumn
          { column with type := render (tokens ++ [token]) })) } := by
  have found : ({ draft with typeTokens := tokens ++ [token] } : Draft).statement =
      some (.table (table.withColumn column)) := found
  rw [extendType, typed, changeColumn_withColumn found]
  rfl

/-- **A type is read** from its tokens. -/
theorem outcome_type {s : ColumnState} (path : TypePath s ts)
    (found : draft.statement = some (.table (table.withColumn column)))
    (fresh : draft.typeTokens = []) (untyped : column.type = "") (rest : List Token) :
    outcome (.column .type) draft (ts ++ rest) = outcome (.column s)
      { draft with
        typeTokens := ts
        statement := some (.table (table.withColumn { column with type := render ts })) } rest := by
  induction path generalizing rest with
  | nil =>
      have same : { column with type := "" } = column := by rw [← untyped]
      have fresh : ({ draft with typeTokens := [] } : Draft) = draft := by rw [← fresh]
      rw [List.nil_append, render_nil, same, ← found]
      exact congrArg (fun d => outcome (.column .type) d rest) fresh.symm
  | snoc path step ih =>
      rw [List.append_assoc, ih]
      refine outcome_move ((step.move rfl _).trans ?_)
      exact @extendType_withColumn table { column with type := render _ } _ _ _ _ rfl rfl

/-! ### Conditions and rules -/

/-- A stored text as it is stored once it was written and read. -/
def respace (text : String) : String :=
  render (tokenize text)

/-- A text that was written from tokens is spaced as it would be again. -/
theorem respace_render (valid : ∀ t ∈ ts, t.IsWellSpelled) :
    respace (render ts) = render ts := by
  rw [respace, tokenize_render valid]

/-- A token inside a body is taken. -/
theorem BodyStep.takeBody {depth : Nat} (h : BodyStep token draft.depth depth) :
    draft.takeBody token =
      ({ draft with body := draft.body ++ [token], depth := depth }, none) := by
  generalize before : draft.depth = start at h
  cases h with
  | «open» kind => simp only [Draft.takeBody, kind, before]
  | close kind => simp [Draft.takeBody, kind, before]
  | other notOpen notClose =>
      rw [Draft.takeBody, ← before]
      split
      · rename_i kind
        exact absurd kind notOpen
      · rename_i kind
        exact absurd kind notClose
      · rfl

/-- Inside a body, tokens are gathered. -/
theorem move_body {state : State} {after : Draft} (body : state.isBody = true)
    (taken : draft.takeBody token = (after, none)) (next : Option Token) :
    Move.ofState state draft token next = .next state after := by
  rcases State.eq_of_isBody body with rfl | rfl | rfl
  · simp only [Move.ofState, Move.column, taken]
  · simp only [Move.ofState, Move.column, taken]
  · simp only [Move.ofState, Move.constraint, taken]

/-- **A condition or rule is read** from its tokens. -/
theorem outcome_body {state : State} {depth : Nat} (body : state.isBody = true)
    (path : BodyPath depth ts) (draft : Draft) (rest : List Token) :
    outcome state draft.openBody (ts ++ rest) =
      outcome state { draft with body := ts, depth := depth } rest := by
  induction path generalizing rest with
  | nil => rfl
  | snoc path step ih =>
      rw [List.append_assoc, ih]
      refine outcome_move (move_body body (BodyStep.takeBody ?_) _)
      exact step

/-- At its closing parenthesis a body is over. -/
theorem takeBody_closeParen {text : List Token} (depth : draft.depth = 1)
    (body : draft.body = text) :
    draft.takeBody closeParen = ({ draft with body := [], depth := 0 }, some (render text)) := by
  simp [Draft.takeBody, closeParen, depth, body]

/-! ### Clauses of references -/

/-- `NOT` in a clause is followed by `DEFERRABLE`. -/
def AwaitsDeferrable (state : ReferenceState) (next : Option Token) : Prop :=
  state = .not → next.any (Token.is · .DEFERRABLE) = true

/-- The states in which a clause can begin take its first word alike. -/
theorem move_settled {s : ReferenceState} {k : Keyword} (settled : s.isSettled = true)
    (word : token.is k = true) (other : k ≠ .INITIALLY) (next : Option Token) :
    Move.ofState (.reference s) draft token next = referenceClause draft token next := by
  have known := keyword?_of_is word
  have noParen : (token.kind == .openParen) = false := by
    rw [beq_eq_false_iff_ne]
    intro kind
    simp [keyword?, kind, TokenKind.isWord] at known
  change Move.reference s draft token next = _
  cases s with
  | table => simp [Move.reference, noParen]
  | clauses => rfl
  | deferrable => simp [Move.reference, Token.is, known, other]
  | _ => exact absurd settled Bool.false_ne_true

/-- A token of a clause is taken. -/
theorem ClauseStep.move {s target : ReferenceState} (h : ClauseStep token s target)
    {next : Option Token} (waits : AwaitsDeferrable target next) :
    Move.ofState (.reference s) draft token next = takeClause draft token target := by
  cases h with
  | matching settled word | on settled word | deferrable settled word =>
      rw [move_settled settled word (by decide), referenceClause, keyword?_of_is word]
  | not settled word =>
      rw [move_settled settled word (by decide), referenceClause, keyword?_of_is word]
      exact if_pos (waits rfl)
  | matched name => simp [Move.ofState, Move.reference, takeClauseIf, name]
  | event word | value word | time word =>
      rcases word with word | word <;> simp [Move.ofState, Move.reference, takeClauseIf, word]
  | set word | no word =>
      simp [Move.ofState, Move.reference, keyword?_of_is word]
  | action word =>
      rcases word with word | word <;> simp [Move.ofState, Move.reference, keyword?_of_is word]
  | noAction word | notDeferrable word | initially word =>
      simp [Move.ofState, Move.reference, takeClauseIf, word]

/-- A step after `NOT` reads the word that is awaited there. -/
theorem ClauseStep.awaits {s target : ReferenceState} (step : ClauseStep token s target)
    (rest : List Token) : AwaitsDeferrable s (token :: rest).head? := by
  rintro rfl
  cases step with
  | notDeferrable word => exact word
  | matching settled | on settled | deferrable settled | not settled =>
      exact absurd settled Bool.false_ne_true

/-- **The clauses of a reference are read** from their tokens. -/
theorem outcome_clauses {s : ReferenceState} (path : ClausePath s ts)
    (none : draft.clauses = [])
    (rest : List Token) (waits : AwaitsDeferrable s rest.head?) :
    outcome (.reference .clauses) draft (ts ++ rest) =
      outcome (.reference s) { draft with clauses := ts } rest := by
  induction path generalizing rest with
  | nil =>
      have same : ({ draft with clauses := [] } : Draft) = draft := by rw [← none]
      rw [List.nil_append, same]
  | @snoc s target ts token path step ih =>
      rw [List.append_assoc, List.singleton_append, ih _ (step.awaits rest)]
      exact outcome_move (step.move waits)

end SchemaText
