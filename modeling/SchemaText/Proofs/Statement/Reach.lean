import SchemaText.Proofs.Statement.Transition

/-!
# States that are reached

Reading a text goes through states, each with what has been gathered so far, the steps that
led there and the tokens that are left. `Reaches` is this relation. What holds of every state
that is reached holds at any token of any text, also where the statement never becomes whole.

## Main definitions

* `Reaches`: reading a text gets to a state.
* `Step.draft`: what has been gathered after a step, taken or not.
* `Transcript.EndsAt`: a transcript ends in a state, for want of tokens or at a token that is
  refused.
* `walk`: so many steps, which can be evaluated.

## Main results

* `Reaches.invariant`: **what every step keeps holds in every state that is reached**.
* `Reaches.read_eq`: the transcript of a text is what was read and the run over what is left.
* `exists_endsAt`: reading a text ends in a state that is reached.
* `exists_reaches_of_walk`: a state that a walk leads to is reached.
-/

namespace SchemaText

/-- What has been gathered after a step, taken or not. -/
def Step.draft : Step → Draft
  | .next _ draft _ => draft
  | .refuse _ draft => draft

variable {text : String} {past : List Transition} {state target : State} {draft after : Draft}
  {token : Token} {tokens rest left : List Token}

/-- Reading the text gets to a state: the steps so far, the state, what has been gathered and
the tokens that are left. -/
inductive Reaches (text : String) : List Transition → State → Draft → List Token → Prop
  | start : Reaches text [] (.opening .start) {} (Statement.trim (tokenize text))
  | next {past : List Transition} {state target : State} {draft after : Draft} {token : Token}
      {rest left : List Token} (before : Reaches text past state draft (token :: rest))
      (taken : step state draft token rest = .next target after left) :
      Reaches text (past ++ [⟨state, target, token⟩]) target after left

namespace Reaches

/-- The tokens that are left come from the text. -/
theorem lexed (h : Reaches text past state draft tokens) : ∀ t ∈ tokens, t.IsLexed := by
  induction h with
  | start => exact fun _ member => Token.isLexed_of_mem (mem_trim member)
  | next _ taken ih =>
      obtain ⟨-, lexed⟩ := List.forall_mem_cons.1 ih
      exact fun t member => lexed t ((step_suffix lexed taken).subset member)

/-- **What every step keeps holds in every state that is reached.** Of a step it is known how
it settles and how it takes its token. -/
theorem invariant {P : List Transition → State → Draft → Prop}
    (h : Reaches text past state draft tokens) (start : P [] (.opening .start) {})
    (steps : ∀ {past source before state draft token rest target after}, P past source before →
      Settles source before state draft → token.IsLexed → (∀ t ∈ rest, t.IsLexed) →
      Takes token rest state draft target after →
      P (past ++ [⟨source, target, token⟩]) target after) : P past state draft := by
  induction h with
  | start => exact start
  | next before taken ih =>
      obtain ⟨first, lexed⟩ := List.forall_mem_cons.1 before.lexed
      obtain ⟨middle, settled, settles, takes⟩ := step_cases taken
      exact steps ih settles first lexed takes

/-- **The transcript of a text** is what was read and the run over what is left. -/
theorem read_eq (h : Reaches text past state draft tokens) :
    Statement.read text = { run state draft tokens with
      transitions := past ++ (run state draft tokens).transitions } := by
  induction h with
  | start => rfl
  | next before taken ih =>
      rw [ih, run_cons, taken]
      simp [Transcript.cons]

end Reaches

/-! ### Ends -/

/-- The transcript ends in a state: no token is left, or the next one is refused. -/
inductive Transcript.EndsAt (past : List Transition) (state : State) (draft : Draft) :
    List Token → Transcript → Prop
  | input : EndsAt past state draft [] { Transcript.atEnd state draft with transitions := past }
  | refusal {token : Token} {rest : List Token} {why : Refusal} {after : Draft}
      (refused : step state draft token rest = .refuse why after) :
      EndsAt past state draft (token :: rest)
        ⟨past, after.statement, some ⟨state, some token, why⟩⟩

/-- From every state that is reached, the reading goes on to its end. -/
theorem Reaches.exists_endsAt (h : Reaches text past state draft tokens) :
    ∃ past state draft tokens, Reaches text past state draft tokens ∧
      (Statement.read text).EndsAt past state draft tokens := by
  induction n : tokens.length using Nat.strongRecOn generalizing past state draft tokens with
  | _ n ih =>
      subst n
      have read := h.read_eq
      cases tokens with
      | nil =>
          refine ⟨past, state, draft, [], h, ?_⟩
          rw [read, run_nil]
          simpa [Transcript.atEnd] using Transcript.EndsAt.input
      | cons token rest =>
          cases taken : step state draft token rest with
          | next target after left =>
              exact ih left.length (Nat.lt_succ_of_le (length_step_le taken)) (h.next taken) rfl
          | refuse why after =>
              refine ⟨past, state, draft, token :: rest, h, ?_⟩
              rw [read, run_cons, taken]
              simpa using Transcript.EndsAt.refusal taken

/-- **Reading a text ends in a state that is reached.** -/
theorem exists_endsAt (text : String) : ∃ past state draft tokens,
    Reaches text past state draft tokens ∧
      (Statement.read text).EndsAt past state draft tokens :=
  Reaches.start.exists_endsAt

/-! ### Walks -/

/-- So many steps from a state. -/
def walk : Nat → List Transition → State → Draft → List Token →
    Option (List Transition × State × Draft × List Token)
  | 0, past, state, draft, tokens => some (past, state, draft, tokens)
  | _ + 1, _, _, _, [] => none
  | n + 1, past, state, draft, token :: rest =>
    match step state draft token rest with
    | .next target after left => walk n (past ++ [⟨state, target, token⟩]) target after left
    | .refuse _ _ => none

/-- A walk from a place that is reached leads to one. -/
theorem Reaches.walk {n : Nat} {later : List Transition} {last : State} {final : Draft}
    (h : Reaches text past state draft tokens)
    (walked : SchemaText.walk n past state draft tokens = some (later, last, final, left)) :
    Reaches text later last final left := by
  induction n generalizing past state draft tokens with
  | zero =>
      obtain ⟨rfl, rfl, rfl, rfl⟩ : past = later ∧ state = last ∧ draft = final ∧
        tokens = left := by simpa [SchemaText.walk] using walked
      exact h
  | succ n ih =>
      cases tokens with
      | nil => exact absurd walked (by simp [SchemaText.walk])
      | cons token rest =>
          rw [SchemaText.walk] at walked
          cases taken : step state draft token rest with
          | next target after left =>
              rw [taken] at walked
              exact ih (h.next taken) walked
          | refuse why after =>
              rw [taken] at walked
              exact absurd walked (by simp)

/-- A state that a walk over the known tokens of a text leads to is reached. -/
theorem exists_reaches_of_walk {n : Nat} {P : Draft → Prop} [DecidablePred P]
    (same : tokenize text = tokens) (valid : ∀ t ∈ tokens, t.kind ≠ .invalid)
    (walked : (walk n [] (.opening .start) {} tokens).any fun (_, last, final, rest) =>
      last = state ∧ rest = left ∧ P final) :
    ∃ past draft, Reaches text past state draft left ∧ P draft := by
  have first := @Reaches.start text
  rw [same, trim_of_valid valid] at first
  cases found : walk n [] (.opening .start) {} tokens with
  | none => exact absurd walked (by simp [found])
  | some reached =>
      obtain ⟨past, last, final, rest⟩ := reached
      obtain ⟨rfl, rfl, holds⟩ : last = state ∧ rest = left ∧ P final := by
        simpa [found] using walked
      exact ⟨past, final, first.walk found, holds⟩

end SchemaText
