import SchemaText.Proofs.Statement.Run
import SchemaText.Proofs.Table.Printed

/-!
# Reading the beginning of a definition

A definition begins with `CREATE` and says next what is created. Tables and indexes are then
named alike: with `IF NOT EXISTS` or without it, by a name that may have a schema before it.
The states in which a name is read are the same for both, and so is what they do to the
definition.

## Main definitions

* `ReadsName`: what the states of a name do to a definition.

## Main results

* `ReadsName.completes`: **a written name is read**.
* `readsName_table`, `readsName_index`: tables and indexes are named in this way.
* `outcome_createTable`, `outcome_createIndex`: a text whose definition is read from its name
  on is read from its first word on.
-/

namespace SchemaText

open Token Move

variable {guard asked : Bool} {schema named : Option String} {name old text : String}
  {rest : List Token} {statement : Statement}

/-- What the states of a name do to a definition with this guard, schema and name. The token
`last` follows the name and leads to the state `target`. -/
structure ReadsName (define : Bool → Option String → String → Statement)
    (place : NameState → State) (last : Token) (target : State) : Prop where
  /-- `IF NOT EXISTS` before the name. -/
  guarded {schema : Option String} {name : String} {rest : List Token} {statement : Statement}
    (h : Completes (define true schema name) (place .guardExists) rest statement) :
    ∀ guard, Completes (define guard schema name) (place .begun)
      (keyword .IF :: keyword .NOT :: keyword .EXISTS :: rest) statement
  /-- The first name. -/
  first {guard : Bool} {schema : Option String} {text : String} {rest : List Token}
    {statement : Statement} {s : NameState} (plain : s = .begun ∨ s = .guardExists)
    (h : Completes (define guard schema text) (place .named) rest statement) :
    ∀ old, Completes (define guard schema old) (place s) (Token.name text :: rest) statement
  /-- The dot after a schema and the name after it. -/
  second {guard : Bool} {schema : String} {text : String} {rest : List Token}
    {statement : Statement}
    (h : Completes (define guard (some schema) text) (place .qualified) rest statement) :
    ∀ old, Completes (define guard old schema) (place .named) (dot :: Token.name text :: rest)
      statement
  /-- The token after the name. -/
  leave {guard : Bool} {schema : Option String} {name : String} {rest : List Token}
    {statement : Statement} {s : NameState} (whole : s = .named ∨ s = .qualified)
    (h : Completes (define guard schema name) target rest statement) :
    Completes (define guard schema name) (place s) (last :: rest) statement

namespace ReadsName

variable {define : Bool → Option String → String → Statement} {place : NameState → State}
  {last : Token} {target : State}

/-- A name, after its schema if it has one, and the token after it. -/
theorem completes_qualified (reads : ReadsName define place last target) {s : NameState}
    (plain : s = .begun ∨ s = .guardExists)
    (h : Completes (define guard (schema.or named) name) target rest statement) :
    Completes (define guard named old) (place s)
      ((qualified schema name).map spoken ++ last :: rest) statement := by
  cases schema with
  | none =>
      rw [qualified, List.map_singleton, spoken_name]
      exact reads.first plain (reads.leave (.inl rfl) h) old
  | some schema =>
      simp only [qualified, List.map_cons, List.map_nil, spoken_name, spoken_dot]
      exact reads.first plain (reads.second (reads.leave (.inr rfl) h) named) old

/-- **A written name is read**, with its schema and with `IF NOT EXISTS` if they are written. -/
theorem completes (reads : ReadsName define place last target)
    (h : Completes (define (asked || guard) (schema.or named) name) target rest statement) :
    Completes (define guard named old) (place .begun)
      ((existsGuard asked).map spoken ++ ((qualified schema name).map spoken ++ last :: rest))
      statement := by
  cases asked with
  | false => exact reads.completes_qualified (.inl rfl) h
  | true => exact reads.guarded (reads.completes_qualified (.inr rfl) h) guard

end ReadsName

/-- **Tables** are named in this way, up to the parenthesis. -/
theorem readsName_table (table : Table) :
    ReadsName (fun guard schema name =>
        .table { table with ifNotExists := guard, schema := schema, name := name })
      .tableName openParen (.column .begun) where
  guarded := by
    intro schema name rest statement h guard
    refine .silent (.tableName .guardIf) (fun d => ?_) ?_
    · simp [Move.ofState, Move.tableName]
    refine .silent (.tableName .guardNot) (fun d => ?_) ?_
    · simp [Move.ofState, Move.tableName, Draft.goIf]
    refine .changeTable _ (fun table => { table with ifNotExists := true }) (fun d => ?_) h
    simp [Move.ofState, Move.tableName]
  first := by
    intro guard schema text rest statement s plain h old
    refine .changeTable _ (fun table => { table with name := text }) (fun d => ?_) h
    have notIf : (Token.name text).is .IF = false := is_name text rfl
    rcases plain with rfl | rfl <;> simp [Move.ofState, Move.tableName, Move.nameTable, notIf]
  second := by
    intro guard schema text rest statement h old
    refine .changeTable (.tableName .dotted) _ (fun d => rfl) ?_
    refine .changeTable _ (fun table => { table with name := text }) (fun d => ?_) h
    simp [Move.ofState, Move.tableName, Move.nameTable]
  leave := by
    rintro guard schema name rest statement s (rfl | rfl) h
    · exact .silent _ (fun d => rfl) h
    · exact .silent _ (fun d => rfl) h

/-- **Indexes** are named in this way, up to `ON`. -/
theorem readsName_index (index : Index) :
    ReadsName (fun guard schema name =>
        .index { index with ifNotExists := guard, schema := schema, name := name })
      .indexName (keyword .ON) (.term .on) where
  guarded := by
    intro schema name rest statement h guard
    refine .silent (.indexName .guardIf) (fun d => ?_) ?_
    · simp [Move.ofState, Move.indexName]
    refine .silent (.indexName .guardNot) (fun d => ?_) ?_
    · simp [Move.ofState, Move.indexName, Draft.goIf]
    refine .changeIndex _ (fun index => { index with ifNotExists := true }) (fun d => ?_) h
    simp [Move.ofState, Move.indexName]
  first := by
    intro guard schema text rest statement s plain h old
    refine .changeIndex _ (fun index => { index with name := text }) (fun d => ?_) h
    have notIf : (Token.name text).is .IF = false := is_name text rfl
    rcases plain with rfl | rfl <;> simp [Move.ofState, Move.indexName, Move.nameIndex, notIf]
  second := by
    intro guard schema text rest statement h old
    refine .changeIndex (.indexName .dotted) _ (fun d => rfl) ?_
    refine .changeIndex _ (fun index => { index with name := text }) (fun d => ?_) h
    simp [Move.ofState, Move.indexName, Move.nameIndex]
  leave := by
    rintro guard schema name rest statement s whole h
    refine .silent _ (fun d => ?_) h
    rcases whole with rfl | rfl <;>
      simp [Move.ofState, Move.indexName, Draft.goIf, keyword_ne_dot]

/-! ### What is created -/

/-- Every definition begins with `CREATE`. -/
theorem outcome_create (tokens : List Token) :
    outcome (.opening .start) {} (keyword .CREATE :: tokens) =
      outcome (.opening .create) {} tokens :=
  outcome_move (by simp [Move.ofState, Move.opening])

/-- **A definition of a table** begins with `CREATE` and `TABLE`, with `TEMP` between them if
the table is temporary. -/
theorem outcome_createTable (temporary : Bool)
    (h : Completes (.table { Table.new "" with isTemporary := temporary }) (.tableName .begun)
      rest statement) :
    outcome (.opening .start) {} (keyword .CREATE ::
      ((if temporary then [keyword .TEMP] else []) ++ keyword .TABLE :: rest)) =
        .ok statement := by
  have begun {s : OpeningState} (first : s = .create ∨ s = .createTemp) :
      outcome (.opening s) { temporary := temporary } (keyword .TABLE :: rest) =
        .ok statement := by
    refine (outcome_move ?_).trans (h { temporary := temporary, statement := some _ } rfl)
    rcases first with rfl | rfl <;> simp [Move.ofState, Move.opening, Move.beginTable]
  rw [outcome_create]
  cases temporary with
  | false => exact begun (.inl rfl)
  | true =>
      refine (outcome_move ?_).trans (begun (.inr rfl))
      simp [Move.ofState, Move.opening]

/-- **A definition of an index** begins with `CREATE` and `INDEX`, with `UNIQUE` between them
if the index is unique. -/
theorem outcome_createIndex (unique : Bool)
    (h : Completes (.index { Index.new "" "" with unique := unique }) (.indexName .begun)
      rest statement) :
    outcome (.opening .start) {} (keyword .CREATE ::
      ((if unique then [keyword .UNIQUE] else []) ++ keyword .INDEX :: rest)) =
        .ok statement := by
  have begun {s : OpeningState} (first : s = if unique then .createUnique else .create) :
      outcome (.opening s) {} (keyword .INDEX :: rest) = .ok statement := by
    refine (outcome_move ?_).trans (h { statement := some _ } rfl)
    cases unique <;> subst first <;> simp [Move.ofState, Move.opening, Move.beginIndex]
  rw [outcome_create]
  cases unique with
  | false => exact begun rfl
  | true =>
      refine (outcome_move ?_).trans (begun rfl)
      simp [Move.ofState, Move.opening]

end SchemaText
