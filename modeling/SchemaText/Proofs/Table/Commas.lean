import Mathlib
import SchemaText.Proofs.Statement.Locality
import SchemaText.Proofs.Token.Spoken

/-!
# Commas between constraints of a table

The comma after a constraint of a table separates it from the next one, and the next one may
also follow without a comma. Whether a constraint is complete shows only at what follows in
most cases: a key list may have a conflict clause, a reference may have one more clause. At a
comma and at the first word of a constraint it is put in its place in the same way, so that
reading with the comma and without it go on from the same draft.

## Main definitions

* `Draft.endsConstraint`: the states where a constraint of the table can be complete.
* `Repunctuates`: some commas that follow a constraint are left out, and some are added between
  two constraints that follow each other without one.

## Main results

* `endsConstraint_of_step`: the commas between constraints follow complete constraints.
* `exists_boundary`: **at the end of a constraint** the comma and the next constraint leave the
  same draft.
* `parse_of_repunctuates`: **commas between constraints do not matter**.
-/

namespace SchemaText

open Token Move

variable {state target : State} {draft after : Draft} {token : Token}
  {tokens rest left : List Token} {text : String} {past : List Transition} {table : Table}

/-! ### The end of a constraint -/

/-- The states where a constraint of the table can be complete: after a key list, after a
condition or a conflict clause, and where a reference of the table can end. -/
def Draft.endsConstraint (draft : Draft) : State → Bool
  | .constraint .keyEnd | .constraint .done => true
  | .reference s => s.isSettled && draft.owner != .column
  | _ => false

/-- The draft once the constraint is put in its place: what a comma leaves, and what the next
constraint begins with. -/
structure Boundary (state : State) (draft settled : Draft) : Prop where
  /-- The comma is taken. -/
  comma : ∀ next, Move.ofState state draft comma next = .next (.constraint .begun) settled
  /-- The next constraint begins. -/
  start : ∀ {token} next, startsConstraint token = true →
    Move.ofState state draft token next = constraintStart settled token

/-- A constraint begins with a word that does not go on with what comes before it. -/
theorem startsConstraint_cases (start : startsConstraint token = true) :
    token.kind.isWord = true ∧ token.is .ON = false ∧ token.is .INITIALLY = false ∧
      ∀ (d : Draft) next, referenceClause d token next = afterReference d token := by
  have word : token.kind.isWord = true := by
    by_contra other
    simp [startsConstraint, keyword?, other] at start
  unfold startsConstraint at start
  split at start <;> first
    | exact absurd start Bool.false_ne_true
    | rename_i known
      simp [word, is, known, referenceClause]

/-- Between two constraints the comma may be missing. -/
theorem constraintBoundary_of_startsConstraint (start : startsConstraint token = true) :
    constraintBoundary draft token = constraintStart draft token := by
  obtain ⟨word, -⟩ := startsConstraint_cases start
  unfold constraintBoundary
  split
  · rename_i kind
    simp [kind, TokenKind.isWord] at word
  · rename_i kind
    simp [kind, TokenKind.isWord] at word
  · rfl

/-- The beginning of a constraint is taken. -/
theorem exists_constraintStart (start : startsConstraint token = true) (draft : Draft) :
    ∃ target after, constraintStart draft token = .next target after := by
  unfold startsConstraint at start
  split at start <;> first
    | exact absurd start Bool.false_ne_true
    | rename_i known
      simp [constraintStart, constraintKeyword, is, known]

/-- At a constraint that can be complete, a comma or the next constraint ends a reference. -/
theorem move_reference_ends {s : ReferenceState} (settled : s.isSettled = true)
    (fits : token = comma ∨ startsConstraint token = true) (next : Option Token) :
    Move.ofState (.reference s) draft token next = afterReference draft token := by
  change Move.reference s draft token next = _
  rcases fits with rfl | start
  · cases s <;> first
      | rfl
      | exact absurd settled Bool.false_ne_true
  · obtain ⟨word, -, notInitially, ends⟩ := startsConstraint_cases start
    have noParen : (token.kind == .openParen) = false := by
      rw [beq_eq_false_iff_ne]
      intro kind
      simp [kind, TokenKind.isWord] at word
    cases s with
    | table => rw [Move.reference, noParen, if_neg Bool.false_ne_true, ends]
    | clauses => rw [Move.reference, ends]
    | deferrable => rw [Move.reference, notInitially, if_neg Bool.false_ne_true, ends]
    | _ => exact absurd settled Bool.false_ne_true

/-- **At the end of a constraint**, where the comma or the next constraint is taken at all,
both leave the same draft. -/
theorem exists_boundary (ends : draft.endsConstraint state = true)
    (fits : token = comma ∨ startsConstraint token = true)
    (taken : step state draft token rest = .next target after left) :
    ∃ settled, Boundary state draft settled := by
  unfold Draft.endsConstraint at ends
  split at ends
  · -- A key list is entered into the table.
    have notOn {t : Token} (fits : t = comma ∨ startsConstraint t = true) :
        t.is .ON = false := by
      rcases fits with rfl | start
      · rfl
      · exact (startsConstraint_cases start).2.1
    rcases finished : draft.finishKey with ⟨settled, why⟩
    cases why with
    | some why => simp [step, Move.ofState, Move.constraint, notOn fits, finished] at taken
    | none =>
        have boundary {t : Token} (fits : t = comma ∨ startsConstraint t = true) :
            Move.constraint .keyEnd draft t = constraintBoundary settled t := by
          rw [Move.constraint, notOn fits, if_neg Bool.false_ne_true, finished]
        refine ⟨settled, fun _ => boundary (.inl rfl), fun _ start => ?_⟩
        rw [← constraintBoundary_of_startsConstraint start]
        exact boundary (.inr start)
  · exact ⟨draft, fun _ => rfl, fun _ start => constraintBoundary_of_startsConstraint start⟩
  · -- A reference is given to the table.
    obtain ⟨complete, owner⟩ := Bool.and_eq_true_iff.1 ends
    cases finished : draft.finishReference with
    | none => simp [step, move_reference_ends complete fits, afterReference, finished] at taken
    | some settled =>
        have boundary (t : Token) : afterReference draft t = constraintBoundary settled t := by
          rw [afterReference, finished]
          dsimp only
          split
          · rename_i column
            simp [column] at owner
          · rfl
        refine ⟨settled, fun next => ?_, fun next start => ?_⟩
        · rw [move_reference_ends complete (.inl rfl), boundary]
          rfl
        · rw [move_reference_ends complete (.inr start), boundary,
            constraintBoundary_of_startsConstraint start]
  · exact absurd ends Bool.false_ne_true

/-- A constraint does not begin with the comma before it. -/
theorem constraintKeyword_ne_begun :
    constraintKeyword draft token ≠ .next (.constraint .begun) after := by
  unfold constraintKeyword
  split <;> simp

/-- The beginning of a constraint leads into it. -/
theorem constraintStart_ne_begun :
    constraintStart draft token ≠ .next (.constraint .begun) after := by
  unfold constraintStart
  split
  · simp
  · exact constraintKeyword_ne_begun

/-- What leads to a constraint embeds no expression. -/
theorem ofState_of_step_constraint {s : ConstraintState}
    (taken : step state draft token rest = .next (.constraint s) after left) :
    Move.ofState state draft token rest.head? = .next (.constraint s) after := by
  unfold step at taken
  split at taken
  · rename_i move
    obtain ⟨rfl, rfl, -⟩ := Step.next.inj taken
    exact move
  · obtain ⟨-, other⟩ | ⟨_, other⟩ := embedding_target taken <;> exact State.noConfusion other
  · exact absurd taken (by simp)

/-- **The commas between constraints follow complete constraints**: what stands before a comma
after which a constraint has to begin is the end of one. -/
theorem endsConstraint_of_step
    (taken : step state draft token rest = .next (.constraint .begun) after left) :
    draft.endsConstraint state = true := by
  have move := ofState_of_step_constraint taken
  obtain ⟨middle, settled, settles, takes⟩ := step_cases taken
  have middle_eq : middle = .constraint .done := by
    generalize place : State.constraint .begun = begun at takes
    cases takes with
    | pass passes =>
        subst place
        rcases middle with s | s | s | s | s | s | s | s <;> cases s <;> first
          | rfl
          | exact absurd passes Bool.false_ne_true
    | body isBody => subst place; exact absurd isBody Bool.false_ne_true
    | openBody opens => cases opens <;> exact absurd place (by simp)
    | check closes => cases closes <;> exact absurd place (by simp)
    | _ => exact absurd place (by simp)
  subst middle_eq
  cases settles with
  | refl | key => rfl
  | constraint start =>
      rcases start with rfl | rfl
      · exact absurd move constraintStart_ne_begun
      · exact absurd move constraintKeyword_ne_begun
  | firstConstraint =>
      rw [Move.ofState, Move.column] at move
      split at move
      · exact absurd move constraintStart_ne_begun
      · split at move
        · unfold Draft.go at move
          split at move <;> exact absurd move (by simp)
        · exact absurd move (by simp)
  | tableReference complete owner => simp [Draft.endsConstraint, complete, owner]

/-! ### Texts with other commas -/

/-- From a place in the text, some commas that follow a constraint are left out and some are
added between two constraints that follow each other without one: the tokens that are left,
and those that come in their place. -/
inductive Repunctuates : State → Draft → List Token → List Token → Prop
  /-- What is left stays as it is. -/
  | same {state : State} {draft : Draft} (tokens : List Token) :
      Repunctuates state draft tokens tokens
  /-- What the next step takes stays as it is. -/
  | keep {state target : State} {draft after : Draft} {token : Token}
      {value left other : List Token}
      (taken : step state draft token (value ++ left) = .next target after left)
      (on : Repunctuates target after left other) :
      Repunctuates state draft (token :: (value ++ left)) (token :: (value ++ other))
  /-- The comma after a constraint is left out. -/
  | drop {state target : State} {draft after : Draft} {left other : List Token}
      (ends : draft.endsConstraint state = true)
      (taken : step state draft comma left = .next target after left)
      (on : Repunctuates target after left other) :
      Repunctuates state draft (comma :: left) other
  /-- A comma is added before a constraint that follows another one. -/
  | add {state target : State} {draft after : Draft} {token : Token} {left other : List Token}
      (ends : draft.endsConstraint state = true) (start : startsConstraint token = true)
      (taken : step state draft token left = .next target after left)
      (on : Repunctuates target after left other) :
      Repunctuates state draft (token :: left) (comma :: token :: other)

/-- A single token stays as it is. -/
theorem Repunctuates.take {other : List Token}
    (taken : step state draft token left = .next target after left)
    (on : Repunctuates target after left other) :
    Repunctuates state draft (token :: left) (token :: other) :=
  @Repunctuates.keep _ _ _ _ _ [] _ _ taken on

/-- Apart from the end of a constraint, the next token stays as it is. -/
theorem Repunctuates.head?_eq {other : List Token} (h : Repunctuates state draft tokens other)
    (ends : draft.endsConstraint state = false) : other.head? = tokens.head? := by
  cases h with
  | same | keep => rfl
  | drop end_ | add end_ => exact absurd (ends.symm.trans end_) Bool.false_ne_true

/-- In a state that awaits the next token, no constraint is complete. -/
theorem endsConstraint_of_awaits (h : state.awaits = true) :
    draft.endsConstraint state = false := by
  unfold State.awaits at h
  split at h
  · rfl
  · rfl
  · exact absurd h Bool.false_ne_true

/-- Where the next constraint is read to the end of the statement, it begins like one. -/
theorem startsConstraint_of_outcome {statement : Statement}
    (h : outcome (.constraint .begun) draft tokens = .ok statement) :
    ∃ token rest, tokens = token :: rest ∧ startsConstraint token = true := by
  cases tokens with
  | nil =>
      rw [outcome, run_nil, Transcript.atEnd] at h
      cases found : draft.statement <;>
        simp [Transcript.complete, State.isAccepting, found] at h
  | cons token rest =>
      refine ⟨token, rest, rfl, ?_⟩
      by_contra other
      have refused :
          step (.constraint .begun) draft token rest = .refuse .unexpected draft := by
        unfold startsConstraint at other
        simp only [step, Move.ofState, Move.constraint, constraintStart, is, constraintKeyword]
        split at other <;> simp_all
      rw [outcome, run_cons, refused] at h
      cases found : draft.statement <;> simp [Transcript.complete, found] at h

/-- From every place that is reached, the tokens with other commas are read alike. -/
theorem Reaches.outcome_repunctuated {other : List Token}
    (reached : Reaches text past state draft tokens)
    (whole : Statement.parse text = .ok (.table table))
    (commas : Repunctuates state draft tokens other) :
    outcome state draft other = .ok (.table table) := by
  induction commas generalizing past with
  | same tokens =>
      rw [Statement.parse, reached.read_eq] at whole
      exact whole
  | @keep state target draft after token value left other taken on ih =>
      have read := ih (reached.next taken)
      obtain ⟨first, lexed⟩ := List.forall_mem_cons.1 reached.lexed
      obtain ⟨_, same, reads⟩ := step_local first lexed (reached.kind_ne_index whole) taken
      obtain rfl := List.append_cancel_right same
      rw [outcome_next (reads other fun awaits => on.head?_eq (endsConstraint_of_awaits awaits))]
      exact read
  | @drop state target draft after left other ends taken on ih =>
      have read := ih (reached.next taken)
      obtain ⟨settled, boundary⟩ := exists_boundary ends (.inl rfl) taken
      obtain ⟨rfl, rfl⟩ : .constraint .begun = target ∧ settled = after := by
        simpa [step, boundary.comma] using taken
      obtain ⟨token, rest, rfl, start⟩ := startsConstraint_of_outcome read
      exact outcome_congr (boundary.start _ start) read
  | @add state target draft after token left other ends start taken on ih =>
      have read := ih (reached.next taken)
      obtain ⟨settled, boundary⟩ := exists_boundary ends (.inr start) taken
      rw [outcome_move (boundary.comma _)]
      rw [step, boundary.start _ start] at taken
      obtain ⟨target', after', move⟩ := exists_constraintStart start settled
      obtain ⟨rfl, rfl⟩ : target' = target ∧ after' = after := by simpa [move] using taken
      rw [outcome_move (show Move.ofState (.constraint .begun) settled token _ = _ from move)]
      exact read

/-- **Commas between constraints do not matter.** With some commas after constraints left
out, and some added between constraints that follow each other without one, a definition of a
table is read as the same table. -/
theorem parse_of_repunctuates (whole : Statement.parse text = .ok (.table table))
    (commas : Repunctuates (.opening .start) {} (Statement.trim (tokenize text))
      (Statement.trim tokens)) :
    (Statement.readTokens tokens).complete = .ok (.table table) :=
  Reaches.start.outcome_repunctuated whole commas

/-- A text with a comma between its first two constraints and none between the last two. -/
def Table.unevenText : String :=
  "CREATE TABLE t (a, UNIQUE (a), FOREIGN KEY (a) REFERENCES p CHECK (a))"

/-- The tokens of the text up to the end of its first constraint. -/
def Table.unevenHead : List Token :=
  [keyword .CREATE, keyword .TABLE, Token.name "t", openParen, Token.name "a", comma,
    keyword .UNIQUE, openParen, Token.name "a", closeParen]

/-- The second constraint. -/
def Table.unevenMiddle : List Token :=
  [keyword .FOREIGN, keyword .KEY, openParen, Token.name "a", closeParen, keyword .REFERENCES,
    Token.name "p"]

/-- The third constraint and the end. -/
def Table.unevenTail : List Token :=
  [keyword .CHECK, openParen, Token.name "a", closeParen, closeParen]

/-- The table of the text. -/
def Table.uneven : Table where
  name := "t"
  columns := [{ Column.new "a" with unique := true, references := some ⟨"p", [], ""⟩ }]
  checks := ["a"]

/-- The first two constraints lose their comma and the last two get one. -/
theorem Table.parse_repunctuated_uneven :
    Statement.parse unevenText = .ok (.table uneven) ∧
      tokenize unevenText = unevenHead ++ comma :: (unevenMiddle ++ unevenTail) ∧
      (Statement.readTokens (unevenHead ++ (unevenMiddle ++ comma :: unevenTail))).complete =
        .ok (.table uneven) := by
  have same : tokenize unevenText = unevenHead ++ comma :: (unevenMiddle ++ unevenTail) := by
    rw [← Lexer.tokens_toList]
    cbv
  have valid : ∀ t ∈ unevenHead ++ comma :: (unevenMiddle ++ unevenTail),
      t.kind ≠ .invalid := by decide +kernel
  have whole : Statement.parse unevenText = .ok (.table uneven) := by
    rw [Statement.parse, read_of_tokenize same valid]
    decide +kernel
  refine ⟨whole, same, parse_of_repunctuates whole ?_⟩
  rw [same, trim_of_valid valid, trim_of_valid (by decide +kernel)]
  iterate 10 refine .take rfl ?_
  refine .drop rfl rfl ?_
  iterate 7 refine .take rfl ?_
  exact .add rfl rfl rfl (.same _)

end SchemaText
