import Mathlib
import SchemaText.Proofs.Statement.Parts
import SchemaText.Proofs.Token.Spoken

/-!
# Tokens that are refused

Why the statement parser stops at a token, and what it keeps then. As a step that is taken, a
step that is refused first puts in its place what was complete before the token. Then the
token does not fit, or what follows it is not the expression that has to be there, or a
complete key list turns out to name a column that is not defined. Parts that are missing are
no reason in any state that is reached.

## Main definitions

* `Refusal.isOfToken`: the reasons that lie in the token and what follows it.
* `Refuses`: a token is refused for a reason, and what is kept then.

## Main results

* `step_refuses`: **every refusal has one of these reasons**.
* `Statement.parts_of_reaches`: in every state that is reached the parts that it relies on are
  there, so that nothing stops for want of a part and a whole statement is there at the end.
-/

namespace SchemaText

open Move Token

/-- The reasons that lie in the token and in what follows it. -/
def Refusal.isOfToken : Refusal → Bool
  | .unexpected | .invalidDefault _ | .invalidTerms _ | .invalidPredicate _ => true
  | .unknownKeyColumn _ | .missingPart => false

/-- The key list is complete in the state: it is not followed by a conflict clause, or it is,
with this key as a result. -/
inductive Closes (draft : Draft) : State → PendingKey → Prop
  | plain : Closes draft (.constraint .keyEnd) draft.key
  | resolved (action : ConflictAction) :
      Closes draft (.constraint .keyConflict) { draft.key with conflict := some action }

/-- A token is refused in a state, with what is kept then. -/
inductive Refuses (state : State) (draft : Draft) : Refusal → Draft → Prop
  /-- What is complete is in its place, a key list in any case, and the token does not fit. -/
  | token {middle : State} {after : Draft} {why : Refusal}
      (settles : Settles state draft middle after) (done : middle ≠ .constraint .keyEnd)
      (reason : why.isOfToken = true) : Refuses state draft why after
  /-- A complete key list names a column that is not defined. -/
  | unknown {key : PendingKey} {after : Draft} {name : String} (closes : Closes draft state key)
      (finished : { draft with key := key }.finishKey = (after, some (.unknownKeyColumn name))) :
      Refuses state draft (.unknownKeyColumn name) after
  /-- A part that the state relies on is missing. -/
  | missing {after : Draft} (lacks : ¬draft.HasParts state) :
      Refuses state draft .missingPart after

section Moves

variable {state target middle : State} {draft after settled : Draft} {token : Token}
  {rest tokens : List Token} {why : Refusal}

/-! ### Parts that are there -/

/-- A table can be changed where there is one. -/
theorem changeTable_ne_none {f : Table → Table}
    (h : ∃ table, draft.statement = some (.table table)) : draft.changeTable f ≠ none := by
  obtain ⟨table, found⟩ := h
  simp [Draft.changeTable, found]

/-- An index can be changed where there is one. -/
theorem changeIndex_ne_none {f : Index → Index}
    (h : ∃ index, draft.statement = some (.index index)) : draft.changeIndex f ≠ none := by
  obtain ⟨index, found⟩ := h
  simp [Draft.changeIndex, found]

/-- A column can be changed where the table has one. -/
theorem changeColumn_ne_none {f : Column → Column}
    (h : ∃ table, draft.statement = some (.table table) ∧ table.columns ≠ []) :
    draft.changeColumn f ≠ none := by
  obtain ⟨table, found, ne⟩ := h
  simp [Draft.changeColumn, found, ne]

/-- The last column of a key list can be changed where the list has one. -/
theorem changeLastPart_ne_none {f : KeyPart → KeyPart} (h : draft.key.columns ≠ []) :
    changeLastPart draft f ≠ none := by
  simp [changeLastPart, h]

/-- A reference can be finished where its owner is there. -/
theorem finishReference_ne_none
    (column : draft.owner = .column → ∃ table, draft.statement = some (.table table) ∧
      table.columns ≠ []) (table : ∃ table, draft.statement = some (.table table)) :
    draft.finishReference ≠ none := by
  unfold Draft.finishReference
  cases owner : draft.owner with
  | column => exact changeColumn_ne_none (column owner)
  | table columns => exact changeTable_ne_none table

/-- A step that changes a part is refused only for want of it. -/
theorem go_eq_refuse {changed : Option Draft}
    (h : Step.go draft state changed tokens = .refuse why after) :
    changed = none ∧ why = .missingPart := by
  cases changed with
  | none =>
      obtain ⟨rfl, -⟩ := Step.refuse.inj h
      exact ⟨rfl, rfl⟩
  | some changed => exact absurd h (by simp [Step.go])

/-! ### Reasons -/

/-- If the move is refused, or the expression that it embeds, there is a reason. -/
def Move.IsJustified (rest : List Token) (state : State) (draft : Draft) : Move → Prop
  | .next _ _ => True
  | .embed place after =>
    ∀ why final, place.read after rest = .refuse why final → Refuses state draft why final
  | .refuse why after => Refuses state draft why after

/-- A move that changes a part is refused only if the part is missing. -/
theorem go_isJustified {changed : Option Draft} {at_ : Draft}
    (there : draft.HasParts state → changed ≠ none) :
    (at_.go target changed).IsJustified rest state draft := by
  cases changed with
  | none => exact .missing fun parts => there parts rfl
  | some after => trivial

/-- A token that does not fit, with everything that is complete in its place. -/
theorem Settles.unexpected (h : Settles state draft middle settled)
    (done : middle ≠ .constraint .keyEnd) :
    (Move.refuse .unexpected settled).IsJustified rest state draft :=
  .token h done rfl

/-- A token that does not fit where nothing is left to be put in place. -/
theorem unexpected_isJustified (done : state ≠ .constraint .keyEnd) :
    (Move.refuse .unexpected draft).IsJustified rest state draft :=
  (Settles.refl state draft).unexpected done

/-- A move that is made only if the token fits. -/
theorem ite_isJustified {fits : Prop} [Decidable fits] {move : Move}
    (done : state ≠ .constraint .keyEnd) (h : move.IsJustified rest state draft) :
    (if fits then move else .refuse .unexpected draft).IsJustified rest state draft := by
  split
  · exact h
  · exact unexpected_isJustified done

/-- A move that depends on its token is refused for that token. -/
theorem goIf_isJustified (done : state ≠ .constraint .keyEnd) {fits : Bool} :
    (draft.goIf fits target).IsJustified rest state draft := by
  cases fits with
  | false => exact unexpected_isJustified done
  | true => trivial

/-- No token of a condition or rule is refused, unless its end is. -/
theorem takeBody_isJustified {ends : Draft → String → Move}
    (done : ∀ {after text}, draft.takeBody token = (after, some text) →
      (ends after text).IsJustified rest state draft) :
    (match draft.takeBody token with
      | (after, some text) => ends after text
      | (after, none) => .next target after).IsJustified rest state draft := by
  split
  · rename_i taken
    exact done taken
  · trivial

/-- An embedded expression is refused for what it is, unless there is nothing to put it into. -/
theorem embed_isJustified {place : Embedding} (h : Settles state draft middle settled)
    (done : middle ≠ .constraint .keyEnd)
    (column : place = .default → draft.HasParts state → ∀ f, settled.changeColumn f ≠ none)
    (index : place ≠ .default → draft.HasParts state → ∀ f, settled.changeIndex f ≠ none) :
    (Move.embed place settled).IsJustified rest state draft := by
  intro why final refused
  unfold Embedding.read at refused
  split at refused
  · split at refused
    · obtain ⟨none, rfl⟩ := go_eq_refuse refused
      exact .missing fun parts => column rfl parts _ none
    · obtain ⟨rfl, rfl⟩ := Step.refuse.inj refused
      exact .token h done rfl
  · split at refused
    · obtain ⟨none, rfl⟩ := go_eq_refuse refused
      exact .missing fun parts => index nofun parts _ none
    · obtain ⟨rfl, rfl⟩ := Step.refuse.inj refused
      exact .token h done rfl
  · split at refused
    · split at refused
      · obtain ⟨rfl, rfl⟩ := Step.refuse.inj refused
        exact .token h done rfl
      · obtain ⟨none, rfl⟩ := go_eq_refuse refused
        exact .missing fun parts => index nofun parts _ none
    · obtain ⟨rfl, rfl⟩ := Step.refuse.inj refused
      exact .token h done rfl

/-! ### Between constraints -/

/-- No constraint of a column begins with the token. -/
theorem columnKeyword_isJustified (h : Settles state draft (.column .constraints) settled) :
    (columnKeyword settled token).IsJustified rest state draft := by
  have there (parts : draft.HasParts state) := (h.hasParts parts).column nofun
  unfold columnKeyword
  split <;> try trivial
  · exact go_isJustified fun parts => changeColumn_ne_none (there parts)
  · exact embed_isJustified h nofun (fun _ parts _ => changeColumn_ne_none (there parts))
      fun other => absurd rfl other
  · exact h.unexpected nofun

/-- Nothing that follows a constraint of a column begins with the token. -/
theorem columnBoundary_isJustified (h : Settles state draft (.column .constraints) settled) :
    (columnBoundary settled token).IsJustified rest state draft := by
  unfold columnBoundary
  split
  · trivial
  · trivial
  · exact columnKeyword_isJustified h

/-- No constraint of the table begins with the token. -/
theorem constraintKeyword_isJustified (h : Settles state draft (.constraint .done) settled) :
    (constraintKeyword settled token).IsJustified rest state draft := by
  unfold constraintKeyword
  split <;> first
    | trivial
    | exact h.unexpected nofun

/-- The token neither names nor begins a constraint of the table. -/
theorem constraintStart_isJustified (h : Settles state draft (.constraint .done) settled) :
    (constraintStart settled token).IsJustified rest state draft := by
  unfold constraintStart
  split
  · trivial
  · exact constraintKeyword_isJustified h

/-- Nothing that follows a constraint of the table begins with the token. -/
theorem constraintBoundary_isJustified (h : Settles state draft (.constraint .done) settled) :
    (constraintBoundary settled token).IsJustified rest state draft := by
  unfold constraintBoundary
  split
  · trivial
  · trivial
  · exact constraintStart_isJustified h

/-! ### Columns -/

/-- A token joins no type only if there is no column. -/
theorem extendType_isJustified {s t : ColumnState} (defines : s ≠ .begun) :
    (extendType draft token t).IsJustified rest (.column s) draft :=
  go_isJustified fun parts => changeColumn_ne_none (parts.column defines)

/-- The token does not fit into a type width. -/
theorem typeWidth_isJustified {second : Bool} {part : WidthState} :
    (typeWidth second part draft token).IsJustified rest (.column (.width second part)) draft := by
  unfold typeWidth
  split
  · exact extendType_isJustified nofun
  · exact extendType_isJustified nofun
  · exact extendType_isJustified nofun
  · split
    · exact unexpected_isJustified nofun
    · exact extendType_isJustified nofun
  · exact extendType_isJustified nofun
  · exact unexpected_isJustified nofun

/-- After the key of a column comes nothing with this token. -/
theorem afterKey_isJustified {s : ColumnState} (place : s.isAfterKey = true) :
    (afterKey draft token).IsJustified rest (.column s) draft := by
  have settled : s.isSettled = true ∧ s ≠ .begun := by
    rcases ColumnState.eq_of_isAfterKey place with rfl | rfl | rfl <;> exact ⟨rfl, nofun⟩
  unfold afterKey
  split
  · exact go_isJustified fun parts => changeColumn_ne_none (parts.column settled.2)
  · exact columnBoundary_isJustified (.column settled.1)

/-- A conflict clause has no column to belong to. -/
theorem resolveConflict_isJustified {owner : ConflictOwner} {action : ConflictAction} :
    (resolveConflict owner action draft).IsJustified rest (.column (.conflictAction owner))
      draft := by
  cases owner with
  | primaryKey => exact go_isJustified fun parts => changeTable_ne_none (parts.table rfl)
  | notNull => exact go_isJustified fun parts => changeColumn_ne_none (parts.column nofun)
  | unique => exact go_isJustified fun parts => changeColumn_ne_none (parts.column nofun)

/-- The name of a column, or the first constraint of the table. -/
theorem columnBegun_isJustified :
    (column .begun draft token).IsJustified rest (.column .begun) draft := by
  dsimp only [column]
  split
  · exact constraintStart_isJustified .firstConstraint
  · exact ite_isJustified nofun <| go_isJustified fun parts =>
      changeTable_ne_none (parts.table rfl)

/-- A token of a type, or what follows a type. -/
theorem columnType_isJustified :
    (column .type draft token).IsJustified rest (.column .type) draft := by
  dsimp only [column]
  split
  · exact extendType_isJustified nofun
  · split
    · exact extendType_isJustified nofun
    · exact columnBoundary_isJustified (.column rfl)

/-- The words `PRIMARY KEY` are refused if there is no column. -/
theorem columnPrimary_isJustified :
    (column .primary draft token).IsJustified rest (.column .primary) draft := by
  refine ite_isJustified nofun <| go_isJustified fun parts => ?_
  obtain ⟨table, found, ne⟩ := parts.column nofun
  rw [found]
  simpa [ne] using changeTable_ne_none ⟨table, found⟩

/-- **Every refusal in the definition of a column** has a reason. -/
theorem column_isJustified (s : ColumnState) :
    (column s draft token).IsJustified rest (.column s) draft := by
  have defined {s : ColumnState} {f : Column → Column} (defines : s ≠ .begun)
      (parts : draft.HasParts (.column s)) : draft.changeColumn f ≠ none :=
    changeColumn_ne_none (parts.column defines)
  cases s with
  | begun => exact columnBegun_isJustified
  | type => exact columnType_isJustified
  | width second part => exact typeWidth_isJustified
  | constraints => exact columnBoundary_isJustified (.column rfl)
  | named => exact columnKeyword_isJustified (.column rfl)
  | primary => exact columnPrimary_isJustified
  | primaryKey =>
      dsimp only [column]
      split
      · exact go_isJustified (defined nofun)
      · exact go_isJustified (defined nofun)
      · trivial
      · exact afterKey_isJustified rfl
  | primaryOrdered =>
      dsimp only [column]
      split
      · trivial
      · exact afterKey_isJustified rfl
  | primaryResolved => exact afterKey_isJustified rfl
  | not | collate => exact ite_isJustified nofun (go_isJustified (defined nofun))
  | notNull | unique =>
      dsimp only [column]
      split
      · trivial
      · exact columnBoundary_isJustified (.column rfl)
  | constraintName | generatedAlways => exact goIf_isJustified (by nofun)
  | conflictOn owner => exact goIf_isJustified (by nofun)
  | conflictAction owner =>
      dsimp only [column]
      split
      · exact resolveConflict_isJustified
      · exact unexpected_isJustified nofun
  | check | generated | generatedAs => exact ite_isJustified nofun trivial
  | checkBody =>
      exact takeBody_isJustified fun taken => go_isJustified fun parts =>
        changeTable_ne_none (takeBody_statement taken ▸ parts.table rfl)
  | generatedBody =>
      exact takeBody_isJustified fun taken => go_isJustified fun parts =>
        changeColumn_ne_none (takeBody_statement taken ▸ parts.column nofun)
  | generatedEnd =>
      dsimp only [column]
      split
      · exact go_isJustified (defined nofun)
      · exact columnBoundary_isJustified (.column rfl)

/-! ### Constraints of the table -/

/-- A complete key list is refused for a column that is not defined. -/
theorem finishKey_isJustified {key : PendingKey} (closes : Closes draft state key)
    (finished : { draft with key := key }.finishKey = (after, some why)) :
    Refuses state draft why after := by
  have finishes := { draft with key := key }.finishesKey
  rw [finished] at finishes
  cases finishes with
  | unknown => exact .unknown closes finished
  | missing none =>
      have kind : state.kind = .table := by cases closes <;> rfl
      refine .missing fun parts => ?_
      obtain ⟨table, found⟩ := parts.table kind
      exact none table found

/-- After a column of a key list comes another one, or the end. -/
theorem keyPartEnd_isJustified {s : ConstraintState} (done : s ≠ .keyEnd) :
    (keyPartEnd draft token).IsJustified rest (.constraint s) draft := by
  unfold keyPartEnd
  split
  · trivial
  · split
    · trivial
    · trivial
    · exact unexpected_isJustified (by simpa using done)

/-- The token is no order, and nothing that comes after one. -/
theorem keyOrder_isJustified {s : ConstraintState} (place : s.isBeforeOrder = true) :
    (keyOrder draft token).IsJustified rest (.constraint s) draft := by
  have names : State.namesKeyColumn (.constraint s) = true := by
    rcases ConstraintState.eq_of_isBeforeOrder place with rfl | rfl <;> rfl
  have done : s ≠ .keyEnd := by
    rintro rfl
    exact absurd place Bool.false_ne_true
  unfold keyOrder
  split
  · exact go_isJustified fun parts => changeLastPart_ne_none (parts.key names)
  · exact go_isJustified fun parts => changeLastPart_ne_none (parts.key names)
  · exact keyPartEnd_isJustified done

/-- **Every refusal in a constraint of the table** has a reason. -/
theorem constraint_isJustified (s : ConstraintState) :
    (constraint s draft token).IsJustified rest (.constraint s) draft := by
  cases s with
  | begun => exact constraintStart_isJustified (.constraint (.inl rfl))
  | named => exact constraintKeyword_isJustified (.constraint (.inr rfl))
  | constraintName | primaryKey | unique | keyOn | foreign =>
      exact goIf_isJustified (by nofun)
  | primary | keyColumn | check | foreignKey | foreignReferences =>
      exact ite_isJustified nofun trivial
  | keyColumnName =>
      unfold constraint
      dsimp only
      split
      · trivial
      · exact keyOrder_isJustified rfl
  | keyCollate =>
      exact ite_isJustified nofun <| go_isJustified fun parts =>
        changeLastPart_ne_none (parts.key rfl)
  | keyCollated => exact keyOrder_isJustified rfl
  | keyOrdered => exact keyPartEnd_isJustified nofun
  | keyEnd =>
      unfold constraint
      dsimp only
      split
      · trivial
      · split
        · rename_i after finished
          exact constraintBoundary_isJustified (.key finished)
        · rename_i after why finished
          exact finishKey_isJustified .plain finished
  | keyConflict =>
      unfold constraint
      dsimp only
      split
      · rename_i action _
        split
        · trivial
        · rename_i after why finished
          exact finishKey_isJustified (.resolved action) finished
      · exact unexpected_isJustified nofun
  | checkBody =>
      exact takeBody_isJustified fun taken => go_isJustified fun parts =>
        changeTable_ne_none (takeBody_statement taken ▸ parts.table rfl)
  | foreignColumn =>
      unfold constraint
      dsimp only
      split
      · exact ite_isJustified nofun trivial
      · rename_i owner
        refine .missing fun parts => ?_
        obtain ⟨columns, children⟩ := parts.children rfl
        exact absurd (owner.symm.trans children) nofun
  | foreignColumnName =>
      unfold constraint
      dsimp only
      split
      · trivial
      · trivial
      · exact unexpected_isJustified nofun
  | done => exact constraintBoundary_isJustified (.refl _ _)

/-! ### References -/

/-- The token does not fit into the clause. -/
theorem takeClauseIf_isJustified {fits : Bool} {s t : ReferenceState} :
    (takeClauseIf fits draft token t).IsJustified rest (.reference s) draft := by
  cases fits with
  | false => exact unexpected_isJustified nofun
  | true => trivial

/-- What follows a reference is refused with the reference in its place. -/
theorem afterReference_isJustified {s : ReferenceState} (settled : s.isSettled = true) :
    (afterReference draft token).IsJustified rest (.reference s) draft := by
  unfold afterReference
  split
  · rename_i after finished
    split
    · rename_i owner
      exact columnBoundary_isJustified (.columnReference settled owner finished)
    · rename_i columns owner
      exact constraintBoundary_isJustified (.tableReference settled owner finished)
  · rename_i none
    exact .missing fun parts => finishReference_ne_none parts.column (parts.table rfl) none

/-- The token begins no clause, and nothing that follows a reference. -/
theorem referenceClause_isJustified {s : ReferenceState} (settled : s.isSettled = true)
    (next : Option Token) :
    (referenceClause draft token next).IsJustified rest (.reference s) draft := by
  unfold referenceClause
  split
  · trivial
  · trivial
  · trivial
  · split
    · trivial
    · exact afterReference_isJustified settled
  · exact afterReference_isJustified settled

/-- **Every refusal in a reference** has a reason. -/
theorem reference_isJustified (s : ReferenceState) (next : Option Token) :
    (reference s draft token next).IsJustified rest (.reference s) draft := by
  cases s with
  | begun | column => exact ite_isJustified nofun trivial
  | table =>
      unfold reference
      dsimp only
      split
      · trivial
      · exact referenceClause_isJustified rfl next
  | columnName =>
      unfold reference
      dsimp only
      split
      · trivial
      · trivial
      · exact unexpected_isJustified nofun
  | clauses => exact referenceClause_isJustified rfl next
  | matching | on | set | no | not | initially => exact takeClauseIf_isJustified
  | action =>
      unfold reference
      dsimp only
      split <;> first
        | trivial
        | exact unexpected_isJustified nofun
  | deferrable =>
      unfold reference
      dsimp only
      split
      · trivial
      · exact referenceClause_isJustified rfl next

/-! ### What is defined -/

/-- A refusal up to `TABLE` or `INDEX` has a reason. -/
theorem opening_isJustified (s : OpeningState) :
    (opening s draft token).IsJustified rest (.opening s) draft := by
  unfold opening
  split <;> first
    | trivial
    | exact unexpected_isJustified nofun

/-- A name of a table is lost only if there is no table. -/
theorem nameTable_isJustified {s t : NameState} :
    (nameTable draft token t).IsJustified rest (.tableName s) draft :=
  ite_isJustified nofun <| go_isJustified fun parts => changeTable_ne_none (parts.table rfl)

/-- A name of an index is lost only if there is no index. -/
theorem nameIndex_isJustified {s t : NameState} :
    (nameIndex draft token t).IsJustified rest (.indexName s) draft :=
  ite_isJustified nofun <| go_isJustified fun parts => changeIndex_ne_none (parts.index rfl)

/-- A refusal in the name of a table has a reason. -/
theorem tableName_isJustified (s : NameState) :
    (tableName s draft token).IsJustified rest (.tableName s) draft := by
  cases s with
  | begun =>
      unfold tableName
      dsimp only
      split
      · trivial
      · exact nameTable_isJustified
  | guardIf | qualified => exact goIf_isJustified (by nofun)
  | guardNot =>
      exact ite_isJustified nofun <| go_isJustified fun parts =>
        changeTable_ne_none (parts.table rfl)
  | guardExists | dotted => exact nameTable_isJustified
  | named =>
      unfold tableName
      dsimp only
      split
      · exact go_isJustified fun parts => changeTable_ne_none (parts.table rfl)
      · exact goIf_isJustified (by nofun)

/-- A refusal in the name of an index has a reason. -/
theorem indexName_isJustified (s : NameState) :
    (indexName s draft token).IsJustified rest (.indexName s) draft := by
  cases s with
  | begun =>
      unfold indexName
      dsimp only
      split
      · trivial
      · exact nameIndex_isJustified
  | guardIf | qualified => exact goIf_isJustified (by nofun)
  | guardNot =>
      exact ite_isJustified nofun <| go_isJustified fun parts =>
        changeIndex_ne_none (parts.index rfl)
  | guardExists | dotted => exact nameIndex_isJustified
  | named =>
      unfold indexName
      dsimp only
      split
      · exact go_isJustified fun parts => changeIndex_ne_none (parts.index rfl)
      · exact goIf_isJustified (by nofun)

/-- A refusal after the closing parenthesis of a table has a reason. -/
theorem option_isJustified (s : OptionState) :
    (option s draft token).IsJustified rest (.option s) draft := by
  have tableOption_isJustified {s : OptionState} :
      (tableOption draft token).IsJustified rest (.option s) draft := by
    unfold tableOption
    split
    · trivial
    · exact go_isJustified fun parts => changeTable_ne_none (parts.table rfl)
    · exact unexpected_isJustified nofun
  cases s with
  | closed | next => exact tableOption_isJustified
  | without =>
      exact ite_isJustified nofun <| go_isJustified fun parts =>
        changeTable_ne_none (parts.table rfl)
  | done => exact goIf_isJustified (by nofun)

/-- A refusal after the name of an index has a reason. -/
theorem term_isJustified (s : TermState) :
    (term s draft token).IsJustified rest (.term s) draft := by
  have index {s : TermState} {f : Index → Index} (parts : draft.HasParts (.term s)) :
      draft.changeIndex f ≠ none := changeIndex_ne_none (parts.index rfl)
  cases s with
  | on => exact ite_isJustified nofun (go_isJustified index)
  | table | closed =>
      exact ite_isJustified nofun <|
        embed_isJustified (.refl _ _) nofun nofun fun _ parts _ => index parts
  | terms => exact goIf_isJustified (by nofun)
  | predicate => exact unexpected_isJustified nofun

/-! ### Every step -/

/-- **Every refused move has a reason**, whatever the state. -/
theorem ofState_isJustified (state : State) (draft : Draft) :
    (Move.ofState state draft token rest.head?).IsJustified rest state draft := by
  cases state with
  | opening s => exact opening_isJustified s
  | tableName s => exact tableName_isJustified s
  | column s => exact column_isJustified s
  | reference s => exact reference_isJustified s rest.head?
  | constraint s => exact constraint_isJustified s
  | option s => exact option_isJustified s
  | indexName s => exact indexName_isJustified s
  | term s => exact term_isJustified s

/-- **Every refusal has a reason.** -/
theorem step_refuses (h : step state draft token rest = .refuse why after) :
    Refuses state draft why after := by
  have justified : (Move.ofState state draft token rest.head?).IsJustified rest state draft :=
    ofState_isJustified state draft
  unfold step at h
  split at h
  · exact absurd h (by simp)
  · rename_i place embedded move
    rw [move] at justified
    exact justified why after h
  · rename_i reason kept move
    rw [move] at justified
    obtain ⟨rfl, rfl⟩ := Step.refuse.inj h
    exact justified

/-- With the parts that the state relies on, no part is missing. -/
theorem Draft.HasParts.refuses (parts : draft.HasParts state)
    (h : Refuses state draft why after) : why ≠ .missingPart := by
  cases h with
  | token _ _ reason =>
      rintro rfl
      exact absurd reason Bool.false_ne_true
  | unknown => nofun
  | missing lacks => exact absurd parts lacks

/-- A closing parenthesis closes one that is open. -/
theorem takeBody_depth (isOpen : 1 ≤ draft.depth) (closes : token.kind = .closeParen) :
    (draft.takeBody token).1.depth + 1 = draft.depth := by
  simp only [Draft.takeBody, closes]
  split <;> exact Nat.sub_add_cancel isOpen

/-- Where a statement can end, there is one. -/
theorem Draft.HasParts.isSome_statement (parts : draft.HasParts state)
    (accepting : state.isAccepting = true) : draft.statement.isSome = true := by
  have kind : state.kind = .table ∨ state.kind = .index := by
    revert accepting
    fun_cases State.isAccepting state <;> simp [State.kind]
  rcases kind with kind | kind
  · obtain ⟨table, found⟩ := parts.table kind
    simp [found]
  · obtain ⟨index, found⟩ := parts.index kind
    simp [found]

end Moves

/-- **In every state that is reached the parts are there** that it relies on. So a closing
parenthesis in a condition or rule closes one that is open, no token is refused for want of a
part, and a text that is read to its end gives a statement. -/
theorem Statement.parts_of_reaches (text : String) :
    (∀ past state draft tokens, Reaches text past state draft tokens →
      draft.HasParts state ∧
        (∀ token : Token, state.isBody = true → token.kind = .closeParen →
          (draft.takeBody token).1.depth + 1 = draft.depth) ∧
        ∀ token rest why after, step state draft token rest = .refuse why after →
          why ≠ .missingPart) ∧
      (∀ stop, (Statement.read text).stop = some stop → stop.why ≠ .missingPart) ∧
      ((Statement.read text).stop = none → (Statement.read text).statement.isSome = true) := by
  refine ⟨fun past state draft tokens reached => ?_, ?_⟩
  · have parts := reached.hasParts
    exact ⟨parts, fun token isBody => takeBody_depth (parts.depth isBody),
      fun token rest why after refused => parts.refuses (step_refuses refused)⟩
  · obtain ⟨past, state, draft, tokens, reached, ends⟩ := exists_endsAt text
    have parts := reached.hasParts
    generalize Statement.read text = transcript at ends
    cases ends with
    | input =>
        unfold Transcript.atEnd
        refine ⟨?_, fun whole => parts.isSome_statement ?_⟩
        · rintro stop found
          split at found
          · exact absurd found nofun
          · rw [← Option.some.inj found]
            nofun
        · by_contra rejected
          exact absurd whole (by simp [rejected])
    | refusal refused =>
        refine ⟨?_, nofun⟩
        rintro _ ⟨⟩
        exact parts.refuses (step_refuses refused)

/-- A text with a condition in parentheses of its own. -/
def Statement.checkingText : String :=
  "CREATE TABLE t (a CHECK ((a)))"

/-- The tokens of the text. -/
def Statement.checkingTokens : List Token :=
  [keyword .CREATE, keyword .TABLE, Token.name "t", openParen, Token.name "a", keyword .CHECK,
    openParen, openParen, Token.name "a", closeParen, closeParen, closeParen]

/-- Where both parentheses of the condition are open. -/
theorem Statement.parts_of_reaches_checkBody : ∃ past draft,
    Reaches checkingText past (.column .checkBody) draft [closeParen, closeParen, closeParen] ∧
      draft.HasParts (.column .checkBody) ∧ draft.depth = 2 ∧
      (draft.takeBody closeParen).1.depth + 1 = draft.depth ∧
      (∀ rest why after, step (.column .checkBody) draft closeParen rest = .refuse why after →
        why ≠ .missingPart) ∧
      (Statement.read checkingText).stop = none ∧
      (Statement.read checkingText).statement.isSome = true := by
  have same : tokenize checkingText = checkingTokens := by
    rw [← Lexer.tokens_toList]
    cbv
  have valid : ∀ t ∈ checkingTokens, t.kind ≠ .invalid := by decide +kernel
  have whole : (Statement.read checkingText).stop = none := by
    rw [read_of_tokenize same valid]
    decide +kernel
  obtain ⟨past, draft, reached, depth⟩ : ∃ past draft,
      Reaches checkingText past (.column .checkBody) draft [closeParen, closeParen, closeParen] ∧
        draft.depth = 2 :=
    exists_reaches_of_walk (n := 9) same valid (by decide +kernel)
  obtain ⟨parts, depths, refusals⟩ :=
    (parts_of_reaches checkingText).1 past _ draft _ reached
  exact ⟨past, draft, reached, parts, depth, depths _ rfl rfl,
    fun rest why after => refusals closeParen rest why after, whole,
    (parts_of_reaches checkingText).2.2 whole⟩

end SchemaText
