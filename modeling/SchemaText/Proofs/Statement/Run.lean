import Mathlib.Data.List.TakeWhile
import SchemaText.Proofs.Table.Default
import SchemaText.Statement.Parser

/-!
# Runs of the statement parser

Two ways to follow a run. Backwards: a property that every step keeps holds at the end of a
whole statement. Forwards: a run that takes a token is the run from where the step leads.

## Main definitions

* `Step.Leads`, `Move.Leads`: a step or a move, if taken, leads to a property.
* `outcome`: the statement that a run ends with.
* `runWithin`: a run of so many steps at most, which can be evaluated.
* `Completes`: a run ends with a statement, whatever else the draft holds.
* `Embedding.Reads`: what is read of an embedded expression and what it changes.

## Main results

* `step_suffix`: a step leaves an end of the tokens.
* `parse_invariant`: **what every step keeps holds at the end** of a whole statement.
* `outcome_next`: a run after its first step.
* `runWithin_eq_run`: a run of as many steps as there are tokens is the whole run.
-/

namespace SchemaText

variable {state target : State} {draft after : Draft} {token : Token}
  {tokens rest : List Token} {statement : Statement}

/-! ### Steps -/

/-- Where a step leads, if it is taken, the property holds. -/
def Step.Leads (P : State → Draft → Prop) : Step → Prop
  | .next state draft _ => P state draft
  | .refuse _ _ => True

/-- Where a move leads, if it is taken, one of the properties holds. -/
def Move.Leads (P : State → Draft → Prop) (Q : Embedding → Draft → Prop) : Move → Prop
  | .next state draft => P state draft
  | .embed place draft => Q place draft
  | .refuse _ _ => True

/-- A step that changes a part leads where it is meant to. -/
theorem go_eq_next {changed : Option Draft}
    (h : Step.go draft state changed tokens = .next target after rest) :
    changed = some after ∧ target = state ∧ rest = tokens := by
  cases changed with
  | none => exact absurd h (by simp [Step.go])
  | some d =>
      obtain ⟨rfl, rfl, rfl⟩ := Step.next.inj h
      exact ⟨rfl, rfl, rfl⟩

/-- An expression that is embedded at the front of the tokens is read, and put where it
belongs. -/
inductive Embedding.Reads (draft : Draft) (tokens : List Token) :
    Embedding → State → Draft → List Token → Prop
  | default {value : DefaultValue} {after : Draft} {rest : List Token}
      (found : DefaultValue.readStored tokens = .ok (value, rest))
      (changed : draft.changeColumn (fun column => { column with default := some value }) =
        some after) : Reads draft tokens .default (.column .constraints) after rest
  | terms {list : Expr} {after : Draft} {rest : List Token}
      (found : Expr.read .arguments tokens = .ok (list, rest))
      (changed : draft.changeIndex (fun index => { index with terms := list.splitCommas }) =
        some after) : Reads draft tokens .terms (.term .terms) after rest
  | predicate {condition : Expr} {after : Draft} {rest : List Token}
      (found : Expr.read (.top []) tokens = .ok (condition, rest))
      (ne : condition.isEmpty = false)
      (changed : draft.changeIndex (fun index => { index with predicate := some condition }) =
        some after) : Reads draft tokens .predicate (.term .predicate) after rest

/-- An embedded expression that is taken has been read and put in its place. -/
theorem Embedding.reads {place : Embedding}
    (h : place.read draft tokens = .next target after rest) :
    place.Reads draft tokens target after rest := by
  unfold Embedding.read at h
  split at h
  · split at h
    · rename_i value left found
      obtain ⟨changed, rfl, rfl⟩ := go_eq_next h
      exact .default found changed
    · exact absurd h (by simp)
  · split at h
    · rename_i list left found
      obtain ⟨changed, rfl, rfl⟩ := go_eq_next h
      exact .terms found changed
    · exact absurd h (by simp)
  · split at h
    · rename_i condition left found
      split at h
      · exact absurd h (by simp)
      · rename_i ne
        obtain ⟨changed, rfl, rfl⟩ := go_eq_next h
        exact .predicate found (by simpa using ne) changed
    · exact absurd h (by simp)

/-- What is read of an embedded expression is a piece at the front of the tokens. -/
theorem embedding_suffix {place : Embedding} (lexed : ∀ t ∈ tokens, t.IsLexed)
    (h : place.read draft tokens = .next target after rest) : rest <:+ tokens := by
  have expr {level : Expr.Level} {e : Expr} {left : List Token} (plain : level.IsPlain)
      (found : Expr.read level tokens = .ok (e, left)) : left <:+ tokens := by
    obtain ⟨ts, rfl, -, -⟩ := Expr.read_sound plain lexed found
    exact List.suffix_append ts left
  cases Embedding.reads h with
  | default found =>
      obtain ⟨rfl, -⟩ := DefaultValue.readStored_sound lexed found
      exact List.suffix_append _ rest
  | terms found | predicate found => exact expr (by simp [Expr.Level.IsPlain]) found

/-- **A step leaves an end of the tokens.** -/
theorem step_suffix (lexed : ∀ t ∈ tokens, t.IsLexed)
    (h : step state draft token tokens = .next target after rest) : rest <:+ tokens := by
  unfold step at h
  split at h
  · obtain ⟨-, -, rfl⟩ := Step.next.inj h
    exact List.suffix_rfl
  · exact embedding_suffix lexed h
  · exact absurd h (by simp)

/-! ### Invariants -/

/-- What every step keeps holds at the end of a run. -/
theorem run_invariant {P : List Transition → State → Draft → Prop}
    (keeps : ∀ past state draft token tokens, P past state draft → token.IsLexed →
      (∀ t ∈ tokens, t.IsLexed) → (step state draft token tokens).Leads fun target after =>
        P (past ++ [⟨state, target, token⟩]) target after)
    (lexed : ∀ t ∈ tokens, t.IsLexed) {past : List Transition} (start : P past state draft)
    (h : (run state draft tokens).complete = .ok statement) :
    ∃ target after, P (past ++ (run state draft tokens).transitions) target after ∧
      target.isAccepting = true ∧ after.statement = some statement := by
  induction n : tokens.length using Nat.strongRecOn generalizing state draft tokens past with
  | _ n ih =>
      subst n
      cases tokens with
      | nil =>
          rw [run_nil] at h ⊢
          unfold Transcript.atEnd Transcript.complete at h
          refine ⟨state, draft, by simpa [Transcript.atEnd] using start, ?_⟩
          cases found : draft.statement with
          | none => exact absurd h (by simp [found])
          | some s =>
              by_cases accepting : state.isAccepting = true
              · refine ⟨accepting, ?_⟩
                simpa [found, accepting] using h
              · exact absurd h (by simp [found, accepting])
      | cons token tokens =>
          have lexedRest : ∀ t ∈ tokens, t.IsLexed :=
            fun t member => lexed t (by simp [member])
          have kept := keeps past state draft token tokens start (lexed token (by simp)) lexedRest
          rw [run_cons] at h ⊢
          cases taken : step state draft token tokens with
          | refuse why after =>
              rw [taken] at h
              cases found : after.statement <;> simp [Transcript.complete, found] at h
          | next target after left =>
              rw [taken] at h kept
              have suffix := step_suffix lexedRest taken
              obtain ⟨last, final, holds, accepting, found⟩ := ih left.length
                (Nat.lt_succ_of_le suffix.length_le)
                (fun t member => lexedRest t (suffix.subset member)) kept h rfl
              exact ⟨last, final, by simpa [Transcript.cons] using holds, accepting, found⟩

/-- Trimming adds no token. -/
theorem mem_trim (h : token ∈ Statement.trim tokens) : token ∈ tokens := by
  unfold Statement.trim at h
  exact List.mem_reverse.1 (List.dropWhile_sublist _ |>.subset (List.mem_reverse.1 h))

/-- **What every step keeps holds at the end** of a whole statement. -/
theorem parse_invariant {P : List Transition → State → Draft → Prop} {text : String}
    (keeps : ∀ past state draft token tokens, P past state draft → token.IsLexed →
      (∀ t ∈ tokens, t.IsLexed) → (step state draft token tokens).Leads fun target after =>
        P (past ++ [⟨state, target, token⟩]) target after)
    (start : P [] (.opening .start) {}) (h : Statement.parse text = .ok statement) :
    ∃ target after, P (Statement.read text).transitions target after ∧
      target.isAccepting = true ∧ after.statement = some statement :=
  run_invariant keeps (fun _ member => Token.isLexed_of_mem (mem_trim member)) start h

/-! ### Reading on -/

/-- The statement that a run ends with. -/
def outcome (state : State) (draft : Draft) (tokens : List Token) :
    Except ParseError Statement :=
  (run state draft tokens).complete

/-- **A run after its first step** ends like the run from where the step leads. -/
theorem outcome_next (h : step state draft token tokens = .next target after rest) :
    outcome state draft (token :: tokens) = outcome target after rest := by
  rw [outcome, run_cons, h]
  rfl

/-- A run after its first move ends like the run from where the move leads. -/
theorem outcome_move (h : Move.ofState state draft token tokens.head? = .next target after) :
    outcome state draft (token :: tokens) = outcome target after tokens :=
  outcome_next (by rw [step, h])

/-- At the end of the tokens the run ends with what is in the draft. -/
theorem outcome_nil (accepting : state.isAccepting = true)
    (found : draft.statement = some statement) : outcome state draft [] = .ok statement := by
  rw [outcome, run_nil, Transcript.atEnd, if_pos accepting, found]
  rfl

/-- A state that does the same with the next token reads on alike. -/
theorem outcome_congr {state' : State} {draft' : Draft}
    (same : Move.ofState state draft token tokens.head? =
      Move.ofState state' draft' token tokens.head?)
    (h : outcome state' draft' (token :: tokens) = .ok statement) :
    outcome state draft (token :: tokens) = .ok statement := by
  have step_eq : step state draft token tokens = step state' draft' token tokens := by
    rw [step, same, step]
  rw [outcome, run_cons] at h ⊢
  rw [step_eq]
  cases taken : step state' draft' token tokens with
  | next target after left =>
      rw [taken] at h
      exact h
  | refuse why after =>
      rw [taken] at h
      cases found : after.statement <;> simp [Transcript.complete, found] at h

/-- With this statement in the draft, the tokens are read to the end. -/
def Completes (part : Statement) (state : State) (tokens : List Token)
    (statement : Statement) : Prop :=
  ∀ draft : Draft, draft.statement = some part → outcome state draft tokens = .ok statement

section Completes

variable {part : Statement} {table : Table} {index : Index}

/-- A token is taken and nothing is changed. -/
theorem Completes.silent (target : State)
    (move : ∀ d, Move.ofState state d token rest.head? = .next target d)
    (h : Completes part target rest statement) :
    Completes part state (token :: rest) statement := by
  intro d found
  rw [outcome_move (move d)]
  exact h d found

/-- A token is taken and the table is changed. -/
theorem Completes.changeTable (target : State) (f : Table → Table)
    (move : ∀ d, Move.ofState state d token rest.head? = d.go target (d.changeTable f))
    (h : Completes (.table (f table)) target rest statement) :
    Completes (.table table) state (token :: rest) statement := by
  intro d found
  have changed : d.changeTable f = some { d with statement := some (.table (f table)) } := by
    rw [Draft.changeTable, found]
  rw [outcome_move ((move d).trans (by rw [changed]; rfl))]
  exact h _ rfl

/-- A token is taken and the index is changed. -/
theorem Completes.changeIndex (target : State) (f : Index → Index)
    (move : ∀ d, Move.ofState state d token rest.head? = d.go target (d.changeIndex f))
    (h : Completes (.index (f index)) target rest statement) :
    Completes (.index index) state (token :: rest) statement := by
  intro d found
  have changed : d.changeIndex f = some { d with statement := some (.index (f index)) } := by
    rw [Draft.changeIndex, found]
  rw [outcome_move ((move d).trans (by rw [changed]; rfl))]
  exact h _ rfl

/-- A token is taken and the column that is being defined is changed. -/
theorem Completes.changeColumn (target : State) (f : Column → Column)
    (ne : table.columns ≠ [])
    (move : ∀ d, Move.ofState state d token rest.head? = d.go target (d.changeColumn f))
    (h : Completes (.table (table.modifyColumn (table.columns.length - 1) f)) target rest
      statement) :
    Completes (.table table) state (token :: rest) statement := by
  intro d found
  have changed : d.changeColumn f = some { d with
      statement := some (.table (table.modifyColumn (table.columns.length - 1) f)) } := by
    rw [Draft.changeColumn, found]
    simp [ne]
  rw [outcome_move ((move d).trans (by rw [changed]; rfl))]
  exact h _ rfl

end Completes

/-! ### Whole texts -/

/-- Nothing is trimmed from tokens that can be spelled. -/
theorem trim_of_valid (h : ∀ t ∈ tokens, t.kind ≠ .invalid) :
    Statement.trim tokens = tokens := by
  unfold Statement.trim
  rw [List.dropWhile_eq_self_iff.2, List.reverse_reverse]
  intro some
  have member : tokens.reverse[0] ∈ tokens := List.mem_reverse.1 (List.getElem_mem some)
  intro semicolon
  rw [Token.isSemicolon, beq_iff_eq] at semicolon
  rw [semicolon] at member
  exact h _ member rfl

/-- A text whose tokens are read to the end is a whole statement. -/
theorem parse_of_outcome {text : String} (valid : ∀ t ∈ tokenize text, t.kind ≠ .invalid)
    (h : outcome (.opening .start) {} (tokenize text) = .ok statement) :
    Statement.parse text = .ok statement := by
  rw [Statement.parse, Statement.read, Statement.readTokens, trim_of_valid valid]
  exact h

/-! ### Runs that can be evaluated -/

/-- A run of so many steps at most. It is `run` by recursion on the steps, not on the tokens
that a step leaves. -/
def runWithin : Nat → State → Draft → List Token → Transcript
  | _, state, draft, [] => .atEnd state draft
  | 0, state, draft, _ :: _ => .atEnd state draft
  | n + 1, state, draft, token :: rest =>
    match step state draft token rest with
    | .next target after left => (runWithin n target after left).cons ⟨state, target, token⟩
    | .refuse why after => ⟨[], after.statement, some ⟨state, some token, why⟩⟩

/-- As many steps as there are tokens are enough. -/
theorem runWithin_eq_run {n : Nat} (enough : tokens.length ≤ n) :
    runWithin n state draft tokens = run state draft tokens := by
  induction n generalizing state draft tokens with
  | zero =>
      obtain rfl := List.length_eq_zero_iff.1 (Nat.le_zero.1 enough)
      rw [run_nil, runWithin]
  | succ n ih =>
      cases tokens with
      | nil => rw [run_nil, runWithin]
      | cons token rest =>
          rw [run_cons, runWithin]
          cases taken : step state draft token rest with
          | refuse why after => rfl
          | next target after left =>
              have left_le : left.length ≤ n :=
                (length_step_le taken).trans (Nat.le_of_succ_le_succ enough)
              dsimp only
              rw [ih left_le]

/-- How a text of known tokens is read. -/
theorem read_of_tokenize {text : String} (same : tokenize text = tokens)
    (valid : ∀ t ∈ tokens, t.kind ≠ .invalid) :
    Statement.read text = runWithin tokens.length (.opening .start) {} tokens := by
  rw [Statement.read, same, Statement.readTokens, trim_of_valid valid,
    runWithin_eq_run (Nat.le_refl _)]

end SchemaText
