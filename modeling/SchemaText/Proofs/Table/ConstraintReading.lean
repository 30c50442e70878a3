import SchemaText.Proofs.Table.ColumnReading

/-!
# Reading the constraints of a table

A written constraint of a table is read up to the comma or the parenthesis after it. Keys that
columns could declare on their own are not written here, so that each constraint is added to
the table as it is.

## Main definitions

* `StartsItem`: the next token is the comma or the parenthesis after a constraint.

## Main results

* `completes_check`, `completes_uniqueKey`, `completes_foreignKey`, `completes_keyList`:
  **constraints are read**.
* `completes_items`: lists of constraints are read.
-/

namespace SchemaText

open Token Move

variable {table : Table} {draft : Draft} {token : Token} {tokens rest : List Token}
  {part statement : Statement}

/-! ### After a constraint -/

/-- The next token is the comma or the parenthesis after a constraint. -/
def StartsItem (tokens : List Token) : Prop :=
  ∃ token rest, tokens = token :: rest ∧ (token = comma ∨ token = closeParen)

/-- What follows a constraint belongs to no piece of it. -/
theorem StartsItem.startsLate (h : StartsItem tokens) : StartsLate tokens := by
  obtain ⟨token, rest, rfl, rfl | rfl⟩ := h
  · exact ⟨_, rest, rfl, .inl rfl, rfl⟩
  · exact ⟨_, rest, rfl, .inr (.inl rfl), rfl⟩

/-- The parser begins a constraint of the table. -/
theorem move_begun (k : Keyword) (unnamed : k ≠ .CONSTRAINT) (next : Option Token) :
    Move.ofState (.constraint .begun) draft (keyword k) next =
      constraintKeyword draft (keyword k) := by
  simp [Move.ofState, Move.constraint, constraintStart, unnamed]

/-! ### Conditions -/

/-- A condition of the table. -/
theorem completes_check {condition : String} (path : BodyPath 1 (tokenize condition))
    (h : Completes (.table { table with checks := table.checks ++ [respace condition] })
      (.constraint .done) rest statement) :
    Completes (.table table) (.constraint .begun)
      ((Table.checkTokens condition).map spoken ++ rest) statement := by
  have tokens : (Table.checkTokens condition).map spoken ++ rest =
      keyword .CHECK :: openParen :: (tokenize condition ++ closeParen :: rest) := by
    simp [Table.checkTokens, inParens, map_spoken_tokenize]
  rw [tokens]
  refine .silent (.constraint .check) (fun d => ?_) fun d found => ?_
  · rw [move_begun _ (by decide)]
    simp [constraintKeyword]
  have opening (tokens : List Token) : outcome (.constraint .check) d (openParen :: tokens) =
      outcome (.constraint .checkBody) d.openBody tokens := outcome_move rfl
  rw [opening, outcome_body rfl path]
  have closing (next : Option Token) : Move.ofState (.constraint .checkBody)
      { d with body := tokenize condition, depth := 1 } closeParen next =
        .next (.constraint .done) { d with
          body := []
          depth := 0
          statement := some (.table { table with
            checks := table.checks ++ [respace condition] }) } := by
    simp only [Move.ofState, Move.constraint]
    rw [takeBody_closeParen rfl rfl]
    dsimp only
    rw [Draft.changeTable, found]
    rfl
  rw [outcome_move (closing _)]
  exact h _ rfl

/-! ### Key lists -/

/-- The draft with one more column in its key list. -/
def Draft.withPart (draft : Draft) (part : KeyPart) : Draft :=
  { draft with key := { draft.key with columns := draft.key.columns ++ [part] } }

/-- The column that was added last is the one that is changed. -/
theorem changeLastPart_withPart {part : KeyPart} {f : KeyPart → KeyPart} :
    changeLastPart (draft.withPart part) f = some (draft.withPart (f part)) := by
  rw [changeLastPart, if_neg (by simp [Draft.withPart])]
  dsimp only [Draft.withPart]
  rw [modify_last]

/-- The tokens after a column of a key list. -/
def Token.EndsKeyPart (token : Token) : Prop :=
  token = comma ∨ token = closeParen ∨ token = keyword .AUTOINCREMENT

/-- After a column of a key list, the parser goes on as after its order. -/
theorem Token.EndsKeyPart.move_eq {s : ConstraintState} (h : token.EndsKeyPart)
    (place : s.isBeforeOrder = true) (next : Option Token) :
    Move.ofState (.constraint s) draft token next =
      Move.ofState (.constraint .keyOrdered) draft token next := by
  have order : Move.keyOrder draft token = keyPartEnd draft token := by
    rcases h with rfl | rfl | rfl
    · rfl
    · rfl
    · simp [Move.keyOrder]
  have notCollate : token.is .COLLATE = false := by
    rcases h with rfl | rfl | rfl
    · rfl
    · rfl
    · simp
  rcases ConstraintState.eq_of_isBeforeOrder place with rfl | rfl <;>
    simp [Move.ofState, Move.constraint, notCollate, order]

/-- The parenthesis at the end of a key list. -/
theorem move_closeKey (draft : Draft) (next : Option Token) :
    Move.ofState (.constraint .keyOrdered) draft closeParen next =
      .next (.constraint .keyEnd) draft := by
  simp [Move.ofState, Move.constraint, keyPartEnd, Token.is, keyword?, closeParen,
    TokenKind.isWord]

/-- The order of a column of a key list, from the states before it. -/
theorem outcome_partOrder {keyPart : KeyPart} {s : ConstraintState}
    (place : s.isBeforeOrder = true) (ends : token.EndsKeyPart)
    (h : outcome (.constraint .keyOrdered) (draft.withPart keyPart) (token :: rest) =
      .ok statement) :
    outcome (.constraint s) (draft.withPart { keyPart with descending := false })
      ((if keyPart.descending then [ofKeyword .DESC] else []).map spoken ++ token :: rest) =
        .ok statement := by
  cases desc : keyPart.descending with
  | false =>
      have same : { keyPart with descending := false } = keyPart := by rw [← desc]
      rw [same]
      exact outcome_congr (ends.move_eq place _) h
  | true =>
      have same : { keyPart with descending := true } = keyPart := by rw [← desc]
      have last : Move.keyOrder (draft.withPart { keyPart with descending := false })
          (keyword .DESC) = .next (.constraint .keyOrdered) (draft.withPart keyPart) := by
        rw [Move.keyOrder, keyword?_keyword]
        dsimp only
        rw [changeLastPart_withPart]
        exact congrArg (fun p => Move.next _ (draft.withPart p)) same
      have taken (next : Option Token) : Move.ofState (.constraint s)
          (draft.withPart { keyPart with descending := false }) (keyword .DESC) next =
            .next (.constraint .keyOrdered) (draft.withPart keyPart) := by
        rcases ConstraintState.eq_of_isBeforeOrder place with rfl | rfl <;>
          simp [Move.ofState, Move.constraint, last]
      exact (outcome_move (taken _)).trans h

/-- A column of a key list is read, however its name is spelled. -/
theorem outcome_namedPart {keyPart : KeyPart} {name : Token} (isName : name.isName = true)
    (text : name.text = keyPart.name) (ends : token.EndsKeyPart)
    (h : outcome (.constraint .keyOrdered) (draft.withPart keyPart) (token :: rest) =
      .ok statement) :
    outcome (.constraint .keyColumn) draft (name :: ((collate keyPart.collation ++
      if keyPart.descending then [ofKeyword .DESC] else []).map spoken ++ token :: rest)) =
        .ok statement := by
  have named (d : Draft) (next : Option Token) :
      Move.ofState (.constraint .keyColumn) d name next =
        .next (.constraint .keyColumnName) (d.withPart ⟨keyPart.name, none, false⟩) := by
    simp [Move.ofState, Move.constraint, Draft.withPart, isName, text]
  cases collation : keyPart.collation with
  | none =>
      have same : { keyPart with descending := false } = ⟨keyPart.name, none, false⟩ := by
        rw [← collation]
      rw [Token.collate, List.nil_append, outcome_move (named _ _), ← same]
      exact outcome_partOrder rfl ends h
  | some name =>
      have same : { keyPart with descending := false } = ⟨keyPart.name, some name, false⟩ := by
        rw [← collation]
      have collate_ (d : Draft) (next : Option Token) :
          Move.ofState (.constraint .keyColumnName) d (keyword .COLLATE) next =
            .next (.constraint .keyCollate) d := by
        simp [Move.ofState, Move.constraint]
      have collated (next : Option Token) :
          Move.ofState (.constraint .keyCollate) (draft.withPart ⟨keyPart.name, none, false⟩)
            (Token.name name) next =
              .next (.constraint .keyCollated)
                (draft.withPart ⟨keyPart.name, some name, false⟩) := by
        simp [Move.ofState, Move.constraint, changeLastPart_withPart, Draft.go]
      rw [Token.collate, List.map_append, List.append_assoc, List.map_cons, List.map_cons,
        List.map_nil, spoken_name, spoken_ofKeyword, List.cons_append, List.cons_append,
        List.nil_append, outcome_move (named _ _), outcome_move (collate_ _ _),
        outcome_move (collated _), ← same]
      exact outcome_partOrder rfl ends h

/-- The draft with more columns in its key list. -/
def Draft.withParts (draft : Draft) (parts : List KeyPart) : Draft :=
  { draft with key := { draft.key with columns := draft.key.columns ++ parts } }

/-- A column of a key list, by the token that names it. -/
def KeyPart.tokensAfter (part : KeyPart) (name : Token) : List Token :=
  name :: (collate part.collation ++ if part.descending then [ofKeyword .DESC] else []).map spoken

/-- The columns of a key list are read, however their names are spelled. -/
theorem outcome_namedParts {parts : List KeyPart} {spelled : KeyPart → Token}
    (isName : ∀ part ∈ parts, (spelled part).isName = true)
    (text : ∀ part ∈ parts, (spelled part).text = part.name) (ne : parts ≠ [])
    (ends : token.EndsKeyPart)
    (h : outcome (.constraint .keyOrdered) (draft.withParts parts) (token :: rest) =
      .ok statement) :
    outcome (.constraint .keyColumn) draft
      (commaList (parts.map fun part => part.tokensAfter (spelled part)) ++ token :: rest) =
        .ok statement := by
  induction parts generalizing draft with
  | nil => exact absurd rfl ne
  | cons part parts ih =>
      cases parts with
      | nil => exact outcome_namedPart (isName part (by simp)) (text part (by simp)) ends h
      | cons next parts =>
          rw [List.map_cons, commaList_cons _ (by simp), List.append_assoc]
          refine outcome_namedPart (isName part (by simp)) (text part (by simp)) (.inl rfl) ?_
          refine (outcome_move (show Move.ofState (.constraint .keyOrdered) (draft.withPart part)
            comma _ = .next (.constraint .keyColumn) (draft.withPart part) from ?_)).trans ?_
          · simp [Move.ofState, Move.constraint, keyPartEnd, Token.is, keyword?, comma,
              TokenKind.isWord]
          refine ih (fun other member => isName other (by simp [member]))
            (fun other member => text other (by simp [member])) (by simp) ?_
          have same : (draft.withPart part).withParts (next :: parts) =
              draft.withParts (part :: next :: parts) := by
            simp [Draft.withPart, Draft.withParts]
          rwa [same]

/-- A list is spoken piece by piece. -/
theorem map_spoken_commaList (pieces : List (List Token)) :
    (commaList pieces).map spoken = commaList (pieces.map (·.map spoken)) := by
  induction pieces with
  | nil => rfl
  | cons piece pieces ih =>
      cases pieces with
      | nil => rfl
      | cons next pieces =>
          rw [commaList_cons _ (by simp), List.map_append, List.map_cons, ih]
          exact (commaList_cons _ (by simp)).symm

/-- The columns of a key list are read. -/
theorem outcome_keyParts {parts : List KeyPart} (ne : parts ≠ []) (ends : token.EndsKeyPart)
    (h : outcome (.constraint .keyOrdered) (draft.withParts parts) (token :: rest) =
      .ok statement) :
    outcome (.constraint .keyColumn) draft
      ((commaList (parts.map KeyPart.tokens)).map spoken ++ token :: rest) = .ok statement := by
  have tokens : (parts.map KeyPart.tokens).map (·.map spoken) =
      parts.map fun part => part.tokensAfter (Token.name part.name) := by
    rw [List.map_map]
    refine List.map_congr_left fun part _ => ?_
    exact congrArg (· :: _) (spoken_name part.name)
  rw [map_spoken_commaList, tokens]
  exact outcome_namedParts (fun part _ => isName_name part.name) (fun part _ => text_name part.name)
    ne ends h

/-- A conflict clause as it is spelled: the words `ON CONFLICT` and its action, if there is
one. -/
inductive SpellsConflict : Option ConflictAction → List Token → Prop
  | absent : SpellsConflict none []
  | action {on conflict word : Token} {action : ConflictAction} (first : on.is .ON = true)
      (second : conflict.is .CONFLICT = true) (third : word.conflictAction? = some action) :
      SpellsConflict (some action) [on, conflict, word]

/-- A conflict clause is printed as it is read. -/
theorem spellsConflict_clause (conflict : Option ConflictAction) :
    SpellsConflict conflict ((ConflictAction.clause conflict).map spoken) := by
  cases conflict with
  | none => exact .absent
  | some action => exact .action (by simp) (by simp) (by simp)

/-- A key list is finished: with its conflict clause, if it has one. -/
theorem outcome_keyEnd {conflict : Option ConflictAction} {ts : List Token} {after : Draft}
    (spells : SpellsConflict conflict ts) (fresh : draft.key.conflict = none)
    (finished : { draft with key := { draft.key with conflict := conflict } }.finishKey =
      (after, none)) (starts : StartsItem rest)
    (h : outcome (.constraint .done) after rest = .ok statement) :
    outcome (.constraint .keyEnd) draft (ts ++ rest) = .ok statement := by
  cases spells with
  | absent =>
      have same : { draft with key := { draft.key with conflict := none } } = draft := by
        rw [← fresh]
      rw [same] at finished
      obtain ⟨token, rest, rfl, ends⟩ := starts
      have notOn : token.is .ON = false := by rcases ends with rfl | rfl <;> rfl
      refine outcome_congr ?_ h
      simp [Move.ofState, Move.constraint, notOn, finished]
  | @action on conflict word action first second third =>
      have opening (next : Option Token) : Move.ofState (.constraint .keyEnd) draft on next =
          .next (.constraint .keyOn) draft := by
        simp [Move.ofState, Move.constraint, first]
      have middle (next : Option Token) :
          Move.ofState (.constraint .keyOn) draft conflict next =
          .next (.constraint .keyConflict) draft := by
        simp [Move.ofState, Move.constraint, Draft.goIf, second]
      have closing (next : Option Token) :
          Move.ofState (.constraint .keyConflict) draft word next =
          .next (.constraint .done) after := by
        simp [Move.ofState, Move.constraint, third, finished]
      rw [List.cons_append, List.cons_append, List.cons_append, List.nil_append,
        outcome_move (opening _), outcome_move (middle _), outcome_move (closing _)]
      exact h

/-- A unique key of the table that is none of a column. -/
theorem completes_uniqueKey {key : UniqueKey} (ne : key.columns ≠ [])
    (apart : Draft.loneColumn? key.columns table = none) (starts : StartsItem rest)
    (h : Completes (.table { table with uniques := table.uniques ++ [key] }) (.constraint .done)
      rest statement) :
    Completes (.table table) (.constraint .begun) (key.tokens.map spoken ++ rest) statement := by
  have tokens : key.tokens.map spoken ++ rest = keyword .UNIQUE :: openParen ::
      ((commaList (key.columns.map KeyPart.tokens)).map spoken ++ closeParen ::
        ((ConflictAction.clause key.onConflict).map spoken ++ rest)) := by
    simp [UniqueKey.tokens, inParens]
  rw [tokens]
  intro d found
  have first (next : Option Token) :
      Move.ofState (.constraint .begun) d (keyword .UNIQUE) next =
      .next (.constraint .unique) { d with key := {} } := by
    rw [move_begun _ (by decide)]
    simp [constraintKeyword]
  have second (d : Draft) (next : Option Token) :
      Move.ofState (.constraint .unique) d openParen
      next = .next (.constraint .keyColumn) d := rfl
  rw [outcome_move (first _), outcome_move (second _ _)]
  refine outcome_keyParts ne (.inr (.inl rfl)) ?_
  rw [outcome_move (move_closeKey _ _)]
  refine outcome_keyEnd (spellsConflict_clause _) rfl ?_ starts (h { d with
    key := {}, statement := some (.table { table with uniques := table.uniques ++ [key] }) } rfl)
  simp [Draft.finishKey, Draft.withParts, found, Draft.enterUnique, apart]

/-- The columns of a written key list. -/
def Column.keyPart (column : Column) : KeyPart :=
  ⟨column.name, none, column.isDescending⟩

/-- A key list of the table, however its columns are spelled. -/
theorem completes_namedKey {parts : List KeyPart} {ts : List Token} {autoincrement : Bool}
    {conflict : Option ConflictAction} {entered : Table}
    (reads : ∀ {d : Draft} {t : Token} {rest : List Token}, t.EndsKeyPart →
      outcome (.constraint .keyOrdered) (d.withParts parts) (t :: rest) = .ok statement →
        outcome (.constraint .keyColumn) d (ts ++ t :: rest) = .ok statement)
    (known : Draft.enterKey autoincrement parts table = (entered, none))
    (starts : StartsItem rest)
    (h : Completes (.table { entered with keyConflict := conflict.or entered.keyConflict })
      (.constraint .done) rest statement) :
    Completes (.table table) (.constraint .begun) (keyword .PRIMARY :: keyword .KEY :: openParen ::
      (ts ++ ((if autoincrement then [keyword .AUTOINCREMENT] else []) ++
        closeParen :: ((ConflictAction.clause conflict).map spoken ++ rest)))) statement := by
  intro d found
  have first (next : Option Token) :
      Move.ofState (.constraint .begun) d (keyword .PRIMARY) next =
      .next (.constraint .primary) d := by
    rw [move_begun _ (by decide)]
    simp [constraintKeyword]
  have second (next : Option Token) :
      Move.ofState (.constraint .primary) d (keyword .KEY) next =
      .next (.constraint .primaryKey) { d with key := { isPrimary := true } } := by
    simp [Move.ofState, Move.constraint]
  have third (d : Draft) (next : Option Token) :
      Move.ofState (.constraint .primaryKey) d openParen
      next = .next (.constraint .keyColumn) d := rfl
  rw [outcome_move (first _), outcome_move (second _), outcome_move (third _ _)]
  have ended := h { d with
    key := {}
    statement := some (.table { entered with keyConflict := conflict.or entered.keyConflict }) } rfl
  cases autoincrement with
  | false =>
      rw [if_neg Bool.false_ne_true, List.nil_append]
      refine reads (.inr (.inl rfl)) ?_
      rw [outcome_move (move_closeKey _ _)]
      refine outcome_keyEnd (spellsConflict_clause _) rfl ?_ starts ended
      simp [Draft.finishKey, Draft.withParts, found, known]
  | true =>
      rw [if_pos rfl, List.cons_append, List.nil_append]
      refine reads (.inr (.inr rfl)) ?_
      have fourth (d : Draft) (primary : d.key.isPrimary = true) (next : Option Token) :
          Move.ofState (.constraint .keyOrdered) d (keyword .AUTOINCREMENT) next =
            .next (.constraint .keyOrdered)
              { d with key := { d.key with autoincrement := true } } := by
        simp [Move.ofState, Move.constraint, keyPartEnd, primary]
      rw [outcome_move (fourth _ rfl _), outcome_move (move_closeKey _ _)]
      refine outcome_keyEnd (spellsConflict_clause _) rfl ?_ starts ended
      simp [Draft.finishKey, Draft.withParts, found, known]

/-- The key list of the table. -/
theorem completes_keyList {members : List Column} {conflict : Option ConflictAction}
    {entered : Table} (ne : members ≠ [])
    (known : Draft.enterKey (members.any (·.autoincrement))
      (members.map Column.keyPart) table = (entered, none)) (starts : StartsItem rest)
    (h : Completes (.table { entered with keyConflict := conflict.or entered.keyConflict })
      (.constraint .done) rest statement) :
    Completes (.table table) (.constraint .begun)
      ((Table.keyListTokens members conflict).map spoken ++ rest) statement := by
  have parts : (members.map fun member =>
      Token.name member.name :: if member.isDescending then [ofKeyword .DESC] else []) =
        (members.map Column.keyPart).map KeyPart.tokens := by
    rw [List.map_map]
    exact List.map_congr_left fun member _ => rfl
  have tokens : (Table.keyListTokens members conflict).map spoken ++ rest =
      keyword .PRIMARY :: keyword .KEY :: openParen ::
        ((commaList ((members.map Column.keyPart).map KeyPart.tokens)).map spoken ++
          ((if members.any (·.autoincrement) then [keyword .AUTOINCREMENT] else []) ++
            closeParen :: ((ConflictAction.clause conflict).map spoken ++ rest))) := by
    rw [Table.keyListTokens, parts]
    cases members.any (·.autoincrement) <;> simp [inParens, words]
  rw [tokens]
  exact completes_namedKey (outcome_keyParts (by simpa using ne)) known starts h

/-! ### Foreign keys -/

/-- One more child column of the foreign key that is being read. -/
def Draft.addChild (draft : Draft) (name : String) : Draft :=
  { draft with
    owner := match draft.owner with
      | .table columns => .table (columns ++ [name])
      | .column => .column }

/-- A child column joins those of its reference. -/
theorem Draft.addChild_owner {columns : List String} (owner : draft.owner = .table columns)
    (name : String) : (draft.addChild name).owner = .table (columns ++ [name]) := by
  simp [addChild, owner]

/-- Child columns join one after the other. -/
theorem Draft.foldl_addChild (names : List String) {columns : List String}
    (owner : draft.owner = .table columns) :
    names.foldl Draft.addChild draft = { draft with owner := .table (columns ++ names) } := by
  induction names generalizing columns draft with
  | nil => rw [List.append_nil, ← owner]; rfl
  | cons n names ih =>
      rw [List.foldl_cons, ih (addChild_owner owner n), List.append_assoc]
      rfl

/-- The child columns of a foreign key are read. -/
theorem outcome_childColumns {names : List String} (ne : names ≠ [])
    (owner : draft.owner = .table []) :
    outcome (.constraint .foreignColumn) draft
        ((commaList (names.map fun n => [Token.name n])).map spoken ++ closeParen :: rest) =
      outcome (.constraint .foreignReferences) { draft with owner := .table names } rest := by
  have all := Draft.foldl_addChild names owner
  rw [List.nil_append] at all
  rw [← all]
  refine @outcome_nameList _ (.constraint .foreignColumnName) _
    (fun d => ∃ columns, d.owner = .table columns) Draft.addChild ?_ (fun _ _ => rfl)
    (fun _ _ => rfl) ?_ _ ne _ ⟨[], owner⟩ rest
  · rintro d n next ⟨columns, owner⟩
    simp [Move.ofState, Move.constraint, Draft.addChild, owner]
  · rintro d n ⟨columns, owner⟩
    exact ⟨columns ++ [n], Draft.addChild_owner owner n⟩

/-- After the reference of a foreign key, the parser goes on as after a constraint. -/
theorem move_foreignReference {s : ReferenceState} {after : Draft} {columns : List String}
    (item : token = comma ∨ token = closeParen) (settled : s.isSettled = true)
    (owner : draft.owner = .table columns) (finished : draft.finishReference = some after)
    (next : Option Token) :
    Move.ofState (.reference s) draft token next =
      Move.ofState (.constraint .done) after token next := by
  have last : afterReference draft token = constraintBoundary after token := by
    rw [afterReference, finished]
    dsimp only
    rw [owner]
  have clause : referenceClause draft token next = afterReference draft token := by
    rcases item with rfl | rfl <;> rfl
  change Move.reference s draft token next = constraintBoundary after token
  rw [← last, ← clause]
  rcases item with rfl | rfl <;> cases s <;> first
    | rfl
    | exact absurd settled Bool.false_ne_true

/-- A foreign key of the table that is none of a column. -/
theorem completes_foreignKey {key : ForeignKey} (ne : key.columns ≠ [])
    (complete : key.references.IsComplete)
    (apart : Draft.loneChild? key.columns table = none) (starts : StartsItem rest)
    (h : Completes (.table { table with foreignKeys := table.foreignKeys ++ [key] })
      (.constraint .done) rest statement) :
    Completes (.table table) (.constraint .begun) (key.tokens.map spoken ++ rest) statement := by
  have tokens :
      key.tokens.map spoken ++ rest = keyword .FOREIGN :: keyword .KEY :: openParen ::
      ((commaList (key.columns.map fun n => [Token.name n])).map spoken ++ closeParen ::
        keyword .REFERENCES :: Token.name key.references.table ::
          (((if key.references.columns.isEmpty then [] else nameList key.references.columns) ++
            tokenize key.references.clauses).map spoken ++ rest)) := by
    simp [ForeignKey.tokens, Reference.tokens, nameList, inParens, words]
  rw [tokens]
  intro d found
  have first (next : Option Token) :
      Move.ofState (.constraint .begun) d (keyword .FOREIGN) next =
      .next (.constraint .foreign) d := by
    rw [move_begun _ (by decide)]
    simp [constraintKeyword]
  have second (next : Option Token) :
      Move.ofState (.constraint .foreign) d (keyword .KEY) next =
      .next (.constraint .foreignKey) d := by
    simp [Move.ofState, Move.constraint, Draft.goIf]
  have third (next : Option Token) : Move.ofState (.constraint .foreignKey) d openParen next =
      .next (.constraint .foreignColumn) { d with owner := .table [] } := rfl
  have fourth (d : Draft) (next : Option Token) :
      Move.ofState (.constraint .foreignReferences) d
      (keyword .REFERENCES) next = .next (.reference .begun) (d.openReference d.owner) := by
    simp [Move.ofState, Move.constraint]
  rw [outcome_move (first _), outcome_move (second _), outcome_move (third _),
    outcome_childColumns ne rfl, outcome_move (fourth _ _)]
  refine outcome_reference complete ⟨rfl, rfl⟩ fun s ts settled same => ?_
  obtain ⟨token, after, rfl, item⟩ := starts
  have finished : Draft.finishReference { d.openReference (.table key.columns) with
        reference := ⟨key.references.table, key.references.columns, ""⟩, clauses := ts } =
      some { d.openReference .column with
        statement := some (.table { table with foreignKeys := table.foreignKeys ++ [key] }) } := by
    change Draft.changeTable (d.openReference .column) _ = _
    rw [Draft.changeTable, show (d.openReference .column).statement = _ from found]
    simp only [Draft.enterForeignKey, apart, same]
  exact outcome_congr (move_foreignReference item settled rfl finished _) (h _ rfl)

/-! ### Lists of constraints -/

/-- Constraints of one kind are read one by one: what each of them enters is put behind what
the ones before it have entered. -/
theorem completes_items {α β : Type} {pieces : α → List Token} {entry : α → β}
    {extend : Table → List β → Table} {P : Table → Prop} {items : List α}
    (nil : ∀ t, extend t [] = t)
    (append : ∀ t bs bs', extend (extend t bs) bs' = extend t (bs ++ bs'))
    (reads : ∀ item ∈ items, ∀ t rest, P t → StartsItem rest →
      Completes (.table (extend t [entry item])) (.constraint .done) rest statement →
        Completes (.table t) (.constraint .begun) ((pieces item).map spoken ++ rest) statement)
    (keeps : ∀ t bs, P t → P (extend t bs)) (holds : P table) (starts : StartsItem rest)
    (h : Completes (.table (extend table (items.map entry))) (.constraint .done) rest
      statement) :
    Completes (.table table) (.constraint .done)
      (((items.map pieces).flatMap (comma :: ·)).map spoken ++ rest) statement ∧
    StartsItem (((items.map pieces).flatMap (comma :: ·)).map spoken ++ rest) := by
  induction items generalizing table with
  | nil =>
      rw [List.map_nil, nil] at h
      exact ⟨h, starts⟩
  | cons item items ih =>
      rw [List.map_cons, ← List.singleton_append, ← append] at h
      obtain ⟨completes, item_⟩ := ih (fun other member => reads other (by simp [member]))
        (keeps table _ holds) h
      rw [List.map_cons, List.flatMap_cons, List.cons_append, List.map_cons, List.map_append,
        List.cons_append, List.append_assoc, spoken_comma]
      refine ⟨.silent (.constraint .begun) (fun _ => rfl) ?_, ⟨_, _, rfl, .inl rfl⟩⟩
      exact reads item (by simp) table _ holds item_ completes

end SchemaText
