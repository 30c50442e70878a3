import Mathlib.Data.List.Induction
import SchemaText.Proofs.Statement.Parts

/-!
# Steps do not look behind what they take

A step of the statement parser takes its token, and behind `DEFAULT` the default value. It
takes the same in front of any other tokens, with one exception: `NOT` after a reference is a
word of the reference before `DEFERRABLE` and the beginning of a constraint before anything
else. So a place that reading gets to in a definition of a table can be followed by other
tokens, which are then read from there.

## Main definitions

* `State.awaits`: the states after a `NOT` that was read for the sake of the next token.
* `ReadsOn`: reading goes on from one place to a later one.

## Main results

* `step_local`: **a step is taken before any other tokens** as well.
* `Reaches.kind_ne_index`: in a definition of a table no index is defined on the way.
* `Reaches.unique`, `Reaches.between`: the steps so far determine the place in the text, so
  that reading goes on from every place to every later one.
* `Reaches.prefix_or_prefix`: of two places of a text one is reached on the way to the other.
* `ReadsOn.exists_before`: **a place that is reached is reached before any other tokens**.
-/

namespace SchemaText

open Token Move

variable {state target : State} {draft after : Draft} {token : Token}
  {tokens rest left : List Token} {text : String} {past : List Transition} {table : Table}

/-! ### One step -/

/-- The states after a `NOT` that was read for the sake of the next token. -/
def State.awaits : State → Bool
  | .column .not | .reference .not => true
  | _ => false

/-- Only what is done with `NOT` depends on the next token. -/
theorem ofState_congr {next other : Option Token}
    (same : token.is .NOT = true → next = other) :
    Move.ofState state draft token next = Move.ofState state draft token other := by
  have clause : referenceClause draft token next = referenceClause draft token other := by
    unfold referenceClause
    split
    · rfl
    · rfl
    · rfl
    · rename_i known
      rw [same (by rw [is, known, beq_self_eq_true])]
    · rfl
  cases state with
  | reference s =>
      cases s with
      | table | deferrable => simp only [Move.ofState, Move.reference, clause]
      | clauses => exact clause
      | _ => rfl
  | _ => rfl

/-- After a `NOT` in a reference, the next token is awaited. -/
theorem awaits_of_not {s : ReferenceState} {next : Option Token} (word : token.is .NOT = true)
    (lexed : token.IsLexed) :
    (Move.reference s draft token next).Leads (fun target _ => target.awaits = true)
      fun _ _ => False := by
  have known := keyword?_of_is word
  have kind : token.kind = .not := lexed.kind_of_keyword? known
  have notName : token.isName = false := by
    simp [isName, isOperatorName, kind, TokenKind.isQuotedIdentifier]
  have ends : (afterReference draft token).Leads (fun target _ => target.awaits = true)
      fun _ _ => False := by
    unfold afterReference
    split
    · split
      · rw [columnBoundary, kind]
        dsimp only
        rw [columnKeyword, known]
        exact rfl
      · rw [constraintBoundary, kind]
        dsimp only
        rw [constraintStart, if_neg (by simp [is, known]), constraintKeyword, known]
        trivial
    · trivial
  have clause : (referenceClause draft token next).Leads (fun target _ => target.awaits = true)
      fun _ _ => False := by
    rw [referenceClause, known]
    dsimp only
    split
    · exact rfl
    · exact ends
  cases s with
  | table =>
      rw [Move.reference, if_neg (by simp [kind])]
      exact clause
  | clauses => exact clause
  | deferrable =>
      rw [Move.reference, if_neg (by simp [is, known])]
      exact clause
  | _ => simp [Move.reference, takeClauseIf, notName, kind, known, is, Leads]

/-- Where a token is taken, it is taken before any other token, unless the next one is
awaited. -/
theorem ofState_eq_next {next other : Option Token} (first : token.IsLexed)
    (move : Move.ofState state draft token next = .next target after)
    (awaited : target.awaits = true → other = next) :
    Move.ofState state draft token other = .next target after := by
  cases state with
  | reference s =>
      rw [← move]
      refine ofState_congr fun word => awaited ?_
      have leads : (Move.ofState (.reference s) draft token next).Leads _ _ :=
        awaits_of_not word first
      rwa [move] at leads
  | _ => exact move

/-- Where an expression is embedded, it is embedded before any other token. -/
theorem ofState_eq_embed {next : Option Token} {place : Embedding} (first : token.IsLexed)
    (move : Move.ofState state draft token next = .embed place after) (other : Option Token) :
    Move.ofState state draft token other = .embed place after := by
  cases state with
  | reference s =>
      rw [← move]
      refine ofState_congr fun word => ?_
      have leads : (Move.ofState (.reference s) draft token next).Leads _ _ :=
        awaits_of_not word first
      rw [move] at leads
      exact leads.elim
  | _ => exact move

/-- What settles stays in a statement of its kind. -/
theorem Settles.kind_eq {middle : State} {settled : Draft}
    (h : Settles state draft middle settled) : middle.kind = state.kind := by
  cases h <;> rfl

/-- The states after the name of an index are reached in the definition of an index. -/
theorem Takes.kind_of_term {s : TermState} (h : Takes token rest state draft (.term s) after) :
    state.kind = .index := by
  cases h with
  | pass passes => exact (@passes_parts _ _ draft passes).1.symm
  | body isBody => exact absurd isBody Bool.false_ne_true
  | openBody opens => nomatch opens
  | check closes => nomatch closes
  | indexTable | terms | predicate => rfl

/-- A default value leads back to the column, every other expression into an index. -/
theorem embedding_target {place : Embedding}
    (read : place.read draft rest = .next target after left) :
    place = .default ∧ target = .column .constraints ∨ ∃ s, target = .term s := by
  cases Embedding.reads read with
  | default => exact .inl ⟨rfl, rfl⟩
  | terms | predicate => exact .inr ⟨_, rfl⟩

/-- What is embedded in a definition of a table is a default value. -/
theorem embedding_eq_default {place : Embedding} (known : state.kind ≠ .index)
    (move : Move.ofState state draft token rest.head? = .embed place after)
    {final : Draft} (read : place.read after rest = .next target final left) :
    place = .default := by
  have taken : step state draft token rest = .next target final left := by
    rw [step, move]
    exact read
  obtain ⟨rfl, -⟩ | ⟨s, rfl⟩ := embedding_target read
  · rfl
  · obtain ⟨middle, settled, settles, takes⟩ := step_cases taken
    exact absurd (settles.kind_eq ▸ takes.kind_of_term) known

/-- **A step is taken before any other tokens** as well, unless the next token is awaited. -/
theorem step_local (first : token.IsLexed) (lexed : ∀ t ∈ rest, t.IsLexed)
    (known : state.kind ≠ .index)
    (taken : step state draft token rest = .next target after left) :
    ∃ value, rest = value ++ left ∧ ∀ other : List Token,
      (target.awaits = true → other.head? = left.head?) →
        step state draft token (value ++ other) = .next target after other := by
  cases move : Move.ofState state draft token rest.head? with
  | refuse why d => simp [step, move] at taken
  | next t d =>
      obtain ⟨rfl, rfl, rfl⟩ : t = target ∧ d = after ∧ rest = left := by
        simpa [step, move] using taken
      refine ⟨[], rfl, fun other awaited => ?_⟩
      rw [List.nil_append, step, ofState_eq_next first move awaited]
  | embed place d =>
      have read : place.read d rest = .next target after left := by
        rw [step, move] at taken
        exact taken
      obtain rfl := embedding_eq_default known move read
      cases Embedding.reads read with
      | @default value _ _ found changed =>
          obtain ⟨rfl, readBack⟩ := DefaultValue.readStored_sound lexed found
          refine ⟨value.tokens, rfl, fun other _ => ?_⟩
          rw [step, ofState_eq_embed first move]
          simp only [Embedding.read, readBack.reads other, changed, Step.go]

/-! ### The kind of a statement -/

/-- An index stays an index. -/
theorem Takes.kind_eq_index (h : Takes token rest state draft target after)
    (index : state.kind = .index) : target.kind = .index := by
  cases h with
  | pass passes => exact (@passes_parts _ _ draft passes).1.trans index
  | body => exact index
  | openBody opens => cases opens <;> exact StatementKind.noConfusion index
  | check closes => cases closes <;> exact StatementKind.noConfusion index
  | _ => first
    | rfl
    | exact StatementKind.noConfusion index

/-- In the definition of an index, every step stays in it. -/
theorem step_kind_eq_index (index : state.kind = .index)
    (taken : step state draft token rest = .next target after left) :
    target.kind = .index := by
  obtain ⟨middle, settled, settles, takes⟩ := step_cases taken
  exact takes.kind_eq_index (settles.kind_eq.trans index)

/-- **In a definition of a table no index is defined** on the way. -/
theorem Reaches.kind_ne_index (h : Reaches text past state draft tokens)
    (whole : Statement.parse text = .ok (.table table)) : state.kind ≠ .index := by
  intro index
  have complete : (run state draft tokens).complete = .ok (.table table) := by
    rw [Statement.parse, h.read_eq] at whole
    exact whole
  have keeps (s : State) (d : Draft) (t : Token) (ts : List Token)
      (holds : s.kind = .index ∧ d.HasParts s) : (step s d t ts).Leads fun target after =>
        target.kind = .index ∧ after.HasParts target := by
    cases taken : step s d t ts with
    | refuse why after => trivial
    | next target after left =>
        obtain ⟨middle, settled, settles, takes⟩ := step_cases taken
        exact ⟨step_kind_eq_index holds.1 taken, takes.hasParts (settles.hasParts holds.2)⟩
  obtain ⟨last, final, ⟨kind, parts⟩, -, found⟩ := @run_invariant _ _ _ _
    (fun _ s d => s.kind = .index ∧ d.HasParts s)
    (fun _ s d t ts holds _ _ => keeps s d t ts holds) h.lexed past ⟨index, h.hasParts⟩ complete
  obtain ⟨_, other⟩ := parts.index kind
  exact absurd (found.symm.trans other) (by simp)

/-! ### Reading on -/

/-- Reading goes on from one place to a later one, by these steps. -/
inductive ReadsOn (state : State) (draft : Draft) (tokens : List Token) :
    List Transition → State → Draft → List Token → Prop
  | refl : ReadsOn state draft tokens [] state draft tokens
  | next {past : List Transition} {last target : State} {final after : Draft} {token : Token}
      {rest left : List Token}
      (before : ReadsOn state draft tokens past last final (token :: rest))
      (taken : step last final token rest = .next target after left) :
      ReadsOn state draft tokens (past ++ [⟨last, target, token⟩]) target after left

section ReadsOn

variable {last : State} {final : Draft} {later : List Transition}

/-- Every place that is reached is read to from the beginning of the text. -/
theorem Reaches.readsOn (h : Reaches text past state draft tokens) :
    ReadsOn (.opening .start) {} (Statement.trim (tokenize text)) past state draft tokens := by
  induction h with
  | start => exact .refl
  | next before taken ih => exact ih.next taken

/-- A place that is read to from a reached one is reached. -/
theorem Reaches.append (h : Reaches text past state draft tokens)
    (on : ReadsOn state draft tokens later last final left) :
    Reaches text (past ++ later) last final left := by
  induction on with
  | refl => rwa [List.append_nil]
  | next before taken ih =>
      rw [← List.append_assoc]
      exact ih.next taken

/-- **The steps so far determine the place** in the text. -/
theorem Reaches.unique (h : Reaches text past state draft tokens)
    (other : Reaches text past last final left) :
    state = last ∧ draft = final ∧ tokens = left := by
  induction h generalizing last final left with
  | start =>
      generalize same : [] = steps at other
      cases other with
      | start => exact ⟨rfl, rfl, rfl⟩
      | next => exact absurd same.symm (by simp)
  | @next past _ _ _ _ _ _ _ before taken ih =>
      generalize same : past ++ _ = steps at other
      cases other with
      | start => exact absurd same (by simp)
      | next before' taken' =>
          obtain ⟨rfl, -⟩ := List.append_inj' same rfl
          obtain ⟨rfl, rfl, tokens⟩ := ih before'
          obtain ⟨rfl, rfl⟩ := List.cons.inj tokens
          rw [taken] at taken'
          obtain ⟨rfl, rfl, rfl⟩ := Step.next.inj taken'
          exact ⟨rfl, rfl, rfl⟩

/-- Between two places of a text, reading goes on from the first to the second. -/
theorem Reaches.between (h : Reaches text past state draft tokens)
    (other : Reaches text (past ++ later) last final left) :
    ReadsOn state draft tokens later last final left := by
  induction later using List.reverseRecOn generalizing last final left with
  | nil =>
      rw [List.append_nil] at other
      obtain ⟨rfl, rfl, rfl⟩ := h.unique other
      exact .refl
  | append_singleton later step ih =>
      rw [← List.append_assoc] at other
      generalize same : past ++ later ++ [step] = steps at other
      cases other with
      | start => exact absurd same (by simp)
      | next before taken =>
          obtain ⟨rfl, one⟩ := List.append_inj' same rfl
          obtain rfl := List.singleton_inj.1 one
          exact (ih before).next taken

/-- Without a step reading stays where it is. -/
theorem ReadsOn.eq_of_nil (h : ReadsOn state draft tokens [] last final left) :
    state = last ∧ draft = final ∧ tokens = left := by
  generalize none : [] = steps at h
  cases h with
  | refl => exact ⟨rfl, rfl, rfl⟩
  | next => exact absurd none (by simp)

/-- Reading on takes a first step. -/
theorem ReadsOn.head {transition : Transition}
    (h : ReadsOn state draft tokens (transition :: later) last final left) :
    ∃ token rest target after between, tokens = token :: rest ∧
      transition = ⟨state, target, token⟩ ∧
      step state draft token rest = .next target after between ∧
      ReadsOn target after between later last final left := by
  generalize same : transition :: later = steps at h
  induction h generalizing later with
  | refl => exact absurd same (by simp)
  | @next past last target final after token rest left before taken ih =>
      cases past with
      | nil =>
          obtain ⟨rfl, rfl⟩ := List.cons.inj same
          obtain ⟨rfl, rfl, rfl⟩ := before.eq_of_nil
          exact ⟨token, rest, target, after, left, rfl, rfl, taken, .refl⟩
      | cons first past =>
          obtain ⟨rfl, rfl⟩ := List.cons.inj same
          obtain ⟨t, r, s, d, between, rfl, rfl, first, on⟩ := ih rfl
          exact ⟨t, r, s, d, between, rfl, rfl, first, on.next taken⟩

/-- **Of two places of a text** one is reached on the way to the other. -/
theorem Reaches.prefix_or_prefix {past' : List Transition}
    (h : Reaches text past state draft tokens) (other : Reaches text past' last final left) :
    past <+: past' ∨ past' <+: past := by
  induction h with
  | start => exact .inl (List.nil_prefix)
  | @next past state target draft after token rest left before taken ih =>
      obtain ⟨later, rfl⟩ | earlier := ih
      · cases later with
        | nil => exact .inr (by simp)
        | cons transition later =>
            obtain ⟨t, r, s, d, between, same, rfl, first, -⟩ := (before.between other).head
            obtain ⟨rfl, rfl⟩ := List.cons.inj same
            rw [taken] at first
            obtain ⟨rfl, -, -⟩ := Step.next.inj first
            exact .inl ⟨later, by simp⟩
      · exact .inr (earlier.trans (List.prefix_append _ _))

/-- A run is the run from any place that it reads to. -/
theorem ReadsOn.outcome_eq (h : ReadsOn state draft tokens later last final left) :
    outcome state draft tokens = outcome last final left := by
  induction h with
  | refl => rfl
  | next _ taken ih => exact ih.trans (outcome_next taken)

/-- **A place that is reached is reached before any other tokens** as well, unless the next
token is awaited. -/
theorem ReadsOn.exists_before (h : ReadsOn state draft tokens later last final left)
    (lexed : ∀ t ∈ tokens, t.IsLexed) (known : last.kind ≠ .index) :
    ∃ before, tokens = before ++ left ∧ ∀ other : List Token,
      (last.awaits = true → other.head? = left.head?) →
        ReadsOn state draft (before ++ other) later last final other := by
  induction h with
  | refl => exact ⟨[], rfl, fun _ _ => .refl⟩
  | @next _ last target final after token rest left before taken ih =>
      obtain ⟨front, rfl, reads⟩ := ih fun index => known (step_kind_eq_index index taken)
      obtain ⟨first, lexed⟩ := List.forall_mem_cons.1 (List.forall_mem_append.1 lexed).2
      obtain ⟨value, rfl, same⟩ := step_local first lexed
        (fun index => known (step_kind_eq_index index taken)) taken
      refine ⟨front ++ token :: value, by simp, fun other awaited => ?_⟩
      rw [List.append_assoc, List.cons_append]
      exact (reads (token :: (value ++ other)) fun _ => rfl).next (same other awaited)

end ReadsOn

end SchemaText
