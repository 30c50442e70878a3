import SchemaText.Proofs.Statement.Transition

/-!
# Pieces that are being read

Types, conditions, rules and the clauses of references are gathered token by token. What has
been gathered in a state is a path through the states of its kind, so that the same tokens are
gathered when they are read again.

## Main definitions

* `TypePath`, `BodyPath`, `ClausePath`: what has been gathered of a type, of a condition or
  rule, and of the clauses of a reference.
* `Draft.IsPending`: what the draft has gathered belongs to the state.

## Main results

* `Settles.isPending`, `Takes.isPending`: every step keeps what has been gathered in order.
-/

namespace SchemaText

open Token Move

/-! ### Paths -/

/-- The tokens of a type up to a state. -/
inductive TypePath : ColumnState → List Token → Prop
  | nil : TypePath .type []
  | snoc {s target : ColumnState} {ts : List Token} {token : Token} (path : TypePath s ts)
      (step : TypeStep ts token s target) : TypePath target (ts ++ [token])

/-- The tokens of a condition or rule, with this many open parentheses. -/
inductive BodyPath : Nat → List Token → Prop
  | nil : BodyPath 1 []
  | snoc {depth after : Nat} {ts : List Token} {token : Token} (path : BodyPath depth ts)
      (step : BodyStep token depth after) : BodyPath after (ts ++ [token])

/-- The tokens of the clauses of a reference up to a state. -/
inductive ClausePath : ReferenceState → List Token → Prop
  | nil : ClausePath .clauses []
  | snoc {s target : ReferenceState} {ts : List Token} {token : Token} (path : ClausePath s ts)
      (step : ClauseStep token s target) : ClausePath target (ts ++ [token])

/-- At least the parenthesis of the body itself is open. -/
theorem BodyPath.pos {depth : Nat} {ts : List Token} (h : BodyPath depth ts) : 0 < depth := by
  induction h with
  | nil => exact Nat.one_pos
  | snoc _ step ih =>
      cases step with
      | «open» => omega
      | close => omega
      | other => exact ih

variable {token : Token} {ts : List Token}

/-- A token of a type is valid. -/
theorem TypeStep.kind_ne_invalid {s target : ColumnState} (h : TypeStep ts token s target) :
    token.kind ≠ .invalid := by
  intro invalid
  cases h with
  | word word => simp [Move.isTypeWord, invalid, TokenKind.isQuotedIdentifier] at word
  | width kind | sign kind | number kind | comma kind | close kind =>
      rw [kind] at invalid
      exact absurd invalid (by simp)

/-- A keyword is valid. -/
theorem kind_ne_invalid_of_is {k : Keyword} (h : token.is k = true) :
    token.kind ≠ .invalid := by
  intro invalid
  simp [is, keyword?, invalid, TokenKind.isWord] at h

/-- A name is valid. -/
theorem kind_ne_invalid_of_isName (h : token.isName = true) : token.kind ≠ .invalid := by
  intro invalid
  simp [isName, isOperatorName, invalid, TokenKind.isQuotedIdentifier] at h

/-- A token of a clause is valid. -/
theorem ClauseStep.kind_ne_invalid {s target : ReferenceState}
    (h : ClauseStep token s target) :
    token.kind ≠ .invalid := by
  cases h with
  | matched name => exact kind_ne_invalid_of_isName name
  | matching _ word | on _ word | deferrable _ word | not _ word | set word | no word
  | noAction word | notDeferrable word | initially word => exact kind_ne_invalid_of_is word
  | event word | action word | value word | time word =>
      exact word.elim kind_ne_invalid_of_is kind_ne_invalid_of_is

/-- No parent column list is open any more once clauses can be read. -/
theorem ClauseStep.of_table {target : ReferenceState} (h : ClauseStep token .table target) :
    ClauseStep token .clauses target := by
  cases h with
  | matching settled word => exact .matching rfl word
  | on settled word => exact .on rfl word
  | deferrable settled word => exact .deferrable rfl word
  | not settled word => exact .not rfl word

/-- The states before the clauses of a reference. -/
def ReferenceState.isBeforeClauses : ReferenceState → Bool
  | .begun | .table | .column | .columnName => true
  | _ => false

/-- Clauses follow the parent table or another clause. -/
theorem ClauseStep.isBeforeClauses {s target : ReferenceState}
    (h : ClauseStep token s target) :
    (s = .table ∨ s.isBeforeClauses = false) ∧ target.isBeforeClauses = false := by
  cases h with
  | matching settled | on settled | deferrable settled | not settled =>
      cases s <;> first
        | exact ⟨.inl rfl, rfl⟩
        | exact ⟨.inr rfl, rfl⟩
        | exact absurd settled Bool.false_ne_true
  | _ => exact ⟨.inr rfl, rfl⟩

/-! ### What belongs to a state -/

/-- The owner of a reference is a column or at least one child column. -/
def ReferenceOwner.IsNamed : ReferenceOwner → Prop
  | .column => True
  | .table columns => columns ≠ []

/-- The pieces that are being read have been gathered up to the state: a condition or rule is
a path of proper tokens and so are the clauses of a reference, which come after its columns; a
key list and a list of child columns have a column once one was named. -/
def Draft.IsPending (proper : Token → Prop) (state : State) (draft : Draft) : Prop :=
  match state with
  | .column .checkBody | .column .generatedBody | .constraint .checkBody =>
    BodyPath draft.depth draft.body ∧ ∀ t ∈ draft.body, proper t
  | .reference .begun | .reference .table | .reference .column | .reference .columnName =>
    draft.owner.IsNamed ∧ draft.clauses = []
  | .reference s =>
    draft.owner.IsNamed ∧ ClausePath s draft.clauses ∧ ∀ t ∈ draft.clauses, t.IsWellSpelled
  | .constraint .keyColumnName | .constraint .keyCollate | .constraint .keyCollated
  | .constraint .keyOrdered | .constraint .keyEnd | .constraint .keyOn
  | .constraint .keyConflict => draft.key.columns ≠ []
  | .constraint .foreignColumnName | .constraint .foreignReferences => draft.owner.IsNamed
  | _ => True

section Steps

variable {proper : Token → Prop} {state target : State} {draft after : Draft}
  {rest : List Token}

/-- Nothing is pending after a constraint. -/
theorem Settles.isPending (h : Settles state draft target after)
    (holds : draft.IsPending proper state) : after.IsPending proper target := by
  cases h with
  | refl => exact holds
  | _ => trivial

/-- What is pending in a body: its tokens, with as many parentheses open as are counted. -/
theorem isPending_body (body : state.isBody = true) :
    draft.IsPending proper state ↔
      BodyPath draft.depth draft.body ∧ ∀ t ∈ draft.body, proper t := by
  rcases State.eq_of_isBody body with rfl | rfl | rfl <;> exact .rfl

/-- Changing an element empties no list. -/
theorem modify_ne_nil {α : Type} {l : List α} {i : Nat} {f : α → α} (ne : l ≠ []) :
    l.modify i f ≠ [] := by
  rwa [ne_eq, ← List.length_eq_zero_iff, List.length_modify, List.length_eq_zero_iff]

/-- What is pending among the clauses: their tokens, and whose reference it is. -/
theorem isPending_clauses {s : ReferenceState} (later : s.isBeforeClauses = false) :
    draft.IsPending proper (.reference s) ↔ draft.owner.IsNamed ∧ ClausePath s draft.clauses ∧
      ∀ t ∈ draft.clauses, t.IsWellSpelled := by
  cases s <;> first | exact .rfl | exact absurd later (by decide)

/-- A clause is gathered token by token. -/
theorem ClauseStep.isPending {s t : ReferenceState} (h : ClauseStep token s t)
    (lexed : token.IsLexed) (holds : draft.IsPending proper (.reference s)) :
    ({ draft with clauses := draft.clauses ++ [token] } : Draft).IsPending proper
      (.reference t) := by
  have last := List.forall_mem_singleton.2 (lexed h.kind_ne_invalid)
  rw [isPending_clauses h.isBeforeClauses.2]
  rcases h.isBeforeClauses.1 with rfl | later
  · have none : draft.clauses = [] := holds.2
    rw [none]
    exact ⟨holds.1, .snoc .nil h.of_table, last⟩
  · obtain ⟨named, path, valid⟩ := (isPending_clauses later).1 holds
    exact ⟨named, .snoc path h, List.forall_mem_append.2 ⟨valid, last⟩⟩

/-- What is pending stays so where nothing is gathered. -/
theorem isPending_passes (passes : state.passes target = true)
    (holds : draft.IsPending proper state) : draft.IsPending proper target := by
  revert passes
  fun_cases State.passes state target <;> intro passes <;> first
    | exact trivial
    | exact holds
    | exact absurd passes Bool.false_ne_true
    | exact ⟨holds.1, holds.2 ▸ .nil, by simp [holds.2]⟩

/-- **What has been gathered stays in order** with every token. -/
theorem Takes.isPending (h : Takes token rest state draft target after) (lexed : token.IsLexed)
    (valid : state.isBody = true → proper token) (holds : draft.IsPending proper state) :
    after.IsPending proper target := by
  cases h with
  | pass passes => exact isPending_passes passes holds
  | openBody opens =>
      cases opens <;> exact ⟨.nil, by simp [Draft.openBody]⟩
  | body isBody taken =>
      obtain ⟨depth, step, rfl⟩ := takeBody_eq_none taken
      obtain ⟨path, spelled⟩ := (isPending_body isBody).1 holds
      refine (isPending_body isBody).2 ⟨.snoc path step, ?_⟩
      exact List.forall_mem_append.2
        ⟨spelled, List.forall_mem_singleton.2 (valid isBody)⟩
  | openReference => exact ⟨trivial, rfl⟩
  | openForeign => exact ⟨holds, rfl⟩
  | parent | parentColumn => exact holds
  | clause taken => exact taken.isPending lexed holds
  | keyColumn => exact List.append_ne_nil_of_right_ne_nil _ (by simp)
  | keyCollate _ changed =>
      obtain ⟨ne, rfl⟩ := changeLastPart_eq_some changed
      exact modify_ne_nil ne
  | keyOrder place changed =>
      obtain ⟨ne, rfl⟩ := changeLastPart_eq_some changed
      exact modify_ne_nil ne
  | @keyAutoincrement s draft place =>
      rcases place with place | rfl
      · rcases ConstraintState.eq_of_isBeforeOrder place with rfl | rfl <;> exact holds
      · exact holds
  | child name owner => exact List.append_ne_nil_of_right_ne_nil _ (by simp)
  | check closes => cases closes <;> trivial
  | extendType taken => cases taken <;> trivial
  | _ => trivial

end Steps

end SchemaText
