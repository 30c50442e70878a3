import SchemaText.Statement.Move.Column
import SchemaText.Statement.Move.Constraint
import SchemaText.Statement.Move.Opening
import SchemaText.Statement.Move.Reference
import SchemaText.Table.Default

/-!
# The statement parser

Reads `CREATE TABLE` and `CREATE INDEX` statements with a state machine that takes one token
at a time. Default values, index terms and index conditions are read by the parsers of
those.

Reading never fails. Where a token does not fit, the parser stops and keeps what it has
gathered; `Statement.parse` is for callers that want whole statements only.

## Main definitions

* `Move.ofState`: what is done with a token in a state.
* `Embedding.read`: reads an expression that is embedded in a statement.
* `Step`, `step`: one step of the state machine.
* `Transcript`, `run`: all steps, and how they end.
* `Statement.readTokens`, `Statement.read`: read tokens or a text as far as they are a
  statement.
* `Statement.parse`: the statement that a whole text is.

## Main results

* `length_step_le`: a step adds no token.
* `run_nil`, `run_cons`: a run is its first step and the run after it.
-/

namespace SchemaText

/-! ### One step -/

/-- What is done with a token in a state, before the token `next`. -/
def Move.ofState (state : State) (draft : Draft) (token : Token)
    (next : Option Token) : Move :=
  match state with
  | .opening s => Move.opening s draft token
  | .tableName s => Move.tableName s draft token
  | .column s => Move.column s draft token
  | .reference s => Move.reference s draft token next
  | .constraint s => Move.constraint s draft token
  | .option s => Move.option s draft token
  | .indexName s => Move.indexName s draft token
  | .term s => Move.term s draft token

/-- One step of the state machine: on to a state with what is left of the tokens, or the end. -/
inductive Step
  | next (state : State) (draft : Draft) (rest : List Token)
  | refuse (why : Refusal) (draft : Draft)

/-- On to a state with a changed draft; the end if the part to change is missing. -/
def Step.go (draft : Draft) (state : State) (changed : Option Draft) (rest : List Token) :
    Step :=
  match changed with
  | some after => .next state after rest
  | none => .refuse .missingPart draft

/-- Reads the expression that is embedded at the front of the tokens. -/
def Embedding.read (place : Embedding) (draft : Draft) (tokens : List Token) : Step :=
  match place with
  | .default =>
    match DefaultValue.readStored tokens with
    | .ok (value, rest) =>
      Step.go draft (.column .constraints)
        (draft.changeColumn fun column => { column with default := some value }) rest
    | .error error => .refuse (.invalidDefault error) draft
  | .terms =>
    match Expr.read .arguments tokens with
    | .ok (list, rest) =>
      Step.go draft (.term .terms)
        (draft.changeIndex fun index => { index with terms := list.splitCommas }) rest
    | .error error => .refuse (.invalidTerms error) draft
  | .predicate =>
    match Expr.read (.top []) tokens with
    | .ok (condition, rest) =>
      if condition.isEmpty then .refuse .unexpected draft
      else
        Step.go draft (.term .predicate)
          (draft.changeIndex fun index => { index with predicate := some condition }) rest
    | .error error => .refuse (.invalidPredicate error) draft

/-- One step of the state machine, on a token that others follow. -/
def step (state : State) (draft : Draft) (token : Token) (rest : List Token) : Step :=
  match Move.ofState state draft token rest.head? with
  | .next target after => .next target after rest
  | .embed place after => place.read after rest
  | .refuse why after => .refuse why after

/-- An embedded expression gives no token back. -/
theorem length_embedding_le {place : Embedding} {draft after : Draft} {state : State}
    {tokens rest : List Token} (h : place.read draft tokens = .next state after rest) :
    rest.length ≤ tokens.length := by
  have value := @DefaultValue.length_readStored_lt tokens
  have expr := @Expr.length_read_le
  unfold Embedding.read Step.go at h
  grind

/-- No step gives a token back, so the parser comes to an end. -/
theorem length_step_le {state target : State} {draft after : Draft} {token : Token}
    {tokens rest : List Token} (h : step state draft token tokens = .next target after rest) :
    rest.length ≤ tokens.length := by
  unfold step at h
  have := @length_embedding_le
  grind

/-! ### All steps -/

/-- A step that took a token. -/
structure Transition where
  /-- The state before. -/
  source : State
  /-- The state after. -/
  target : State
  /-- The token. -/
  token : Token
  deriving DecidableEq, Repr

/-- Where the parser stopped before the end of a statement. -/
structure Stop where
  /-- The state that could not go on. -/
  state : State
  /-- The token it could not take; none at the end of the input. -/
  token : Option Token
  /-- The reason. -/
  why : Refusal
  deriving DecidableEq, Repr

/-- The steps of the parser on a text, and what came of them. -/
structure Transcript where
  /-- The steps, in order. -/
  transitions : List Transition
  /-- The statement as far as it was read; none if it is not known what is defined. -/
  statement : Option Statement
  /-- Where the parser stopped; none if the statement is whole. -/
  stop : Option Stop
  deriving DecidableEq, Repr

/-- Whether the transcript ends with a whole statement. -/
def Transcript.isComplete (transcript : Transcript) : Bool :=
  transcript.statement.isSome && transcript.stop.isNone

/-- The end of the input in a state. -/
def Transcript.atEnd (state : State) (draft : Draft) : Transcript :=
  ⟨[], draft.statement, if state.isAccepting then none else some ⟨state, none, .unexpected⟩⟩

/-- A transcript after one more step at its beginning. -/
def Transcript.cons (transition : Transition) (transcript : Transcript) : Transcript :=
  { transcript with transitions := transition :: transcript.transitions }

/-- Runs the state machine on all tokens. -/
def run (state : State) (draft : Draft) (tokens : List Token) : Transcript :=
  match tokens with
  | [] => Transcript.atEnd state draft
  | token :: rest =>
    match h : step state draft token rest with
    | .next target after left =>
      have := length_step_le h
      (run target after left).cons ⟨state, target, token⟩
    | .refuse why after => ⟨[], after.statement, some ⟨state, some token, why⟩⟩
termination_by tokens.length

/-- At the end of the input only the state decides. -/
@[simp] theorem run_nil (state : State) (draft : Draft) :
    run state draft [] = Transcript.atEnd state draft := by
  rw [run]

/-- The equation of `run`: one step, and the run from where it leads. -/
theorem run_cons (state : State) (draft : Draft) (token : Token) (rest : List Token) :
    run state draft (token :: rest) =
      match step state draft token rest with
      | .next target after left => (run target after left).cons ⟨state, target, token⟩
      | .refuse why after => ⟨[], after.statement, some ⟨state, some token, why⟩⟩ := by
  rw [run]
  split <;> rename_i h <;> simp only [h]

/-! ### Texts -/

/-- Whether the token is a semicolon, which ends a statement. -/
def Token.isSemicolon (token : Token) : Bool :=
  token == ⟨";", .invalid⟩

namespace Statement

/-- The tokens of a statement without the semicolons at its end. -/
def trim (tokens : List Token) : List Token :=
  (tokens.reverse.dropWhile Token.isSemicolon).reverse

/-- Reads tokens as far as they are a statement. -/
def readTokens (tokens : List Token) : Transcript :=
  run (.opening .start) {} (trim tokens)

/-- Reads a text as far as it is a statement. -/
def read (text : String) : Transcript :=
  readTokens (tokenize text)

end Statement

/-- Why a text is no statement. -/
inductive ParseError
  /-- It does not begin like a definition of a table or an index. -/
  | notDefinition
  /-- The definition is not whole: where the parser stopped, and at which token. -/
  | incomplete (state : State) (token : Option String)
  deriving DecidableEq, Repr

/-- The reason in words. -/
def ParseError.message : ParseError → String
  | notDefinition => "Not a CREATE TABLE or CREATE INDEX statement"
  | incomplete state token =>
    "Statement parsing stopped in state " ++ state.name ++ " at " ++ Text.quotedOption token

/-- The statement of a transcript that ends with a whole one. -/
def Transcript.complete (transcript : Transcript) : Except ParseError Statement :=
  match transcript.statement, transcript.stop with
  | none, _ => .error .notDefinition
  | some _, some stop => .error (.incomplete stop.state (stop.token.map (·.text)))
  | some statement, none => .ok statement

/-- The statement that a whole text is. -/
def Statement.parse (text : String) : Except ParseError Statement :=
  (Statement.read text).complete

end SchemaText
