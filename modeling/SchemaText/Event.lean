import SchemaText.Rename.Retarget
import SchemaText.Statement.Parser

/-!
# Events

What the lexer and the parsers report while they work, for whoever watches. An event is
told by level, topic, message and named fields. Events do not influence any result: they
are read off the tokens, the transcript or the fault.

## Main definitions

* `Event`: the events, with `Event.level`, `Event.topic`, `Event.message`, `Event.fields`.
* `Event.ofTokens`, `Event.ofText`: the invalid tokens.
* `Transcript.events`, `Statement.readEvents`: a run of the statement parser.
* `DefaultValue.parseEvents`: reading a default value.
* `Substituted.events`: renaming columns.
* `Statement.writeEvents`: writing a statement.
-/

namespace SchemaText

/-- Something worth reporting. -/
inductive Event
  /-- The lexer met a piece of text that is no token. -/
  | invalidToken (text : String)
  /-- The statement parser took a token. -/
  | transition (source target : State) (text : String)
  /-- The statement parser stopped. -/
  | stopped (state : State) (text : Option String)
  /-- A primary key names a column that is not defined. -/
  | unknownKeyColumn (name : String)
  /-- A statement gives something that is no default value. -/
  | invalidDefault (error : ExprError)
  /-- A statement gives something that is no list of index terms. -/
  | invalidTerms (error : ExprError)
  /-- A statement gives something that is no condition. -/
  | invalidPredicate (error : ExprError)
  /-- A text is no default value. -/
  | rejectedDefault (text : String) (error : ExprError)
  /-- An expression refers to a dropped column. -/
  | droppedColumn (name : String)
  deriving DecidableEq, Repr

/-- How much attention an event asks for. -/
inductive Level
  | trace
  | debug
  deriving DecidableEq, Repr

/-- What reports an event. -/
inductive Topic
  | lexer
  | parser
  | default
  | rename
  deriving DecidableEq, Repr

namespace Event

/-- How much attention an event asks for. -/
def level : Event → Level
  | invalidToken _ | transition .. | rejectedDefault .. => .trace
  | stopped .. | unknownKeyColumn _ | invalidDefault _ | invalidTerms _ | invalidPredicate _
  | droppedColumn _ => .debug

/-- What reports an event. -/
def topic : Event → Topic
  | invalidToken _ => .lexer
  | transition .. | stopped .. | unknownKeyColumn _ | invalidDefault _ | invalidTerms _
  | invalidPredicate _ => .parser
  | rejectedDefault .. => .default
  | droppedColumn _ => .rename

/-- The event in words; a transition has none. -/
def message : Event → Option String
  | invalidToken _ => some "invalid token"
  | transition .. => none
  | stopped .. => some "statement parser stopped early"
  | unknownKeyColumn _ => some "primary key names an unknown column"
  | invalidDefault _ => some "invalid column default"
  | invalidTerms _ => some "invalid index column list"
  | invalidPredicate _ => some "invalid index predicate"
  | rejectedDefault .. => some "rejected default"
  | droppedColumn _ => some "expression references dropped column"

/-- The particulars of an event. -/
def fields : Event → List (String × String)
  | invalidToken text => [("token", text)]
  | transition source target text =>
    [("from", source.name), ("to", target.name), ("token", text)]
  | stopped state text => [("state", state.name), ("token", Text.quotedOption text)]
  | unknownKeyColumn name => [("column", name)]
  | invalidDefault error | invalidTerms error | invalidPredicate error =>
    [("error", error.message)]
  | rejectedDefault text error => [("input", text), ("error", error.message)]
  | droppedColumn name => [("column", name)]

/-! ### Tokens -/

/-- The invalid tokens of a sequence. -/
def ofTokens (tokens : List Token) : List Event :=
  (tokens.filter (·.kind == .invalid)).map fun token => .invalidToken token.text

/-- The invalid tokens of a text. -/
def ofText (text : String) : List Event :=
  ofTokens (tokenize text)

end Event

/-! ### Statements -/

/-- The reason for a stop, where it has an event of its own. -/
def Refusal.events : Refusal → List Event
  | .unknownKeyColumn name => [.unknownKeyColumn name]
  | .invalidDefault error => [.invalidDefault error]
  | .invalidTerms error => [.invalidTerms error]
  | .invalidPredicate error => [.invalidPredicate error]
  | .unexpected | .missingPart => []

/-- The events of a stop. -/
def Stop.events (stop : Stop) : List Event :=
  stop.why.events ++ [.stopped stop.state (stop.token.map (·.text))]

/-- The events of a run of the statement parser. -/
def Transcript.events (transcript : Transcript) : List Event :=
  (transcript.transitions.map fun step => .transition step.source step.target step.token.text)
    ++ transcript.stop.elim [] Stop.events

/-- The events of reading a statement. -/
def Statement.readEvents (text : String) : List Event :=
  Event.ofText text ++ (Statement.read text).events

/-- The events of writing a statement: a table keeps some of its parts as text, which is
split into tokens again. -/
def Statement.writeEvents : Statement → List Event
  | .table definition => Event.ofTokens definition.tokens
  | .index _ => []

/-! ### Default values and renaming -/

/-- The events of reading a default value. -/
def DefaultValue.parseEvents (text : String) : List Event :=
  Event.ofText text ++
    match DefaultValue.parse text with
    | .ok _ => []
    | .error error => [.rejectedDefault text error]

/-- The events of a visit. -/
def Substituted.events {α : Type} (result : Substituted α) : List Event :=
  result.fault.elim [] fun fault => [.droppedColumn fault.column]

end SchemaText
