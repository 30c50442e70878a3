import SchemaText.Proofs.Table.KeyForm
import SchemaText.Proofs.Table.Pieces
import SchemaText.Proofs.Table.Printed

/-!
# Reading column definitions

A written column definition is read piece by piece. After every piece the parser is in a state
that goes on like the state between constraints, as the next piece, the comma or the closing
parenthesis could not belong to the piece before.

## Main definitions

* `StartsPart`: the next tokens belong to no piece before them.
* `Column.declared`: a column as its own definition declares it.

## Main results

* `completes_column`: **a column definition is read**.
-/

namespace SchemaText

open Token Move

variable {table : Table} {column : Column} {draft : Draft} {token : Token}
  {tokens rest : List Token} {part statement : Statement}

/-! ### Between pieces -/

/-- The words that a piece of a written column begins with. -/
def Keyword.opensPart : Keyword → Bool
  | .PRIMARY | .NOT | .UNIQUE | .DEFAULT | .COLLATE | .REFERENCES | .GENERATED | .AS => true
  | _ => false

/-- A token that belongs to no piece before it. -/
def Token.EndsPart (token : Token) : Prop :=
  token.kind = .comma ∨ token.kind = .closeParen ∨
    ∃ k : Keyword, k.opensPart = true ∧ token.is k = true

/-- The tokens begin with one that belongs to no piece before it. -/
def StartsPart (tokens : List Token) : Prop :=
  ∃ token rest, tokens = token :: rest ∧ token.EndsPart

/-- A token that ends a piece is none of the keywords within pieces. -/
theorem Token.EndsPart.is_eq_false {k : Keyword} (h : token.EndsPart)
    (other : k.opensPart = false) : token.is k = false := by
  rcases h with kind | kind | ⟨k', opens, known⟩
  · simp [is, keyword?, kind, TokenKind.isWord]
  · simp [is, keyword?, kind, TokenKind.isWord]
  · rw [is, keyword?_of_is known, beq_eq_false_iff_ne]
    rintro ⟨⟩
    exact Bool.false_ne_true (other.symm.trans opens)

/-- The same, for the keyword that the token has. -/
theorem Token.EndsPart.keyword?_ne {k : Keyword} (h : token.EndsPart)
    (other : k.opensPart = false) : token.keyword? ≠ some k := by
  intro known
  have := h.is_eq_false other
  rw [is, known, beq_self_eq_true] at this
  exact Bool.false_ne_true this.symm

/-- It continues no type. -/
theorem Token.EndsPart.isTypeWord_eq_false (h : token.EndsPart) :
    Move.isTypeWord token = false := by
  rcases h with kind | kind | ⟨k, opens, known⟩
  · simp [Move.isTypeWord, kind, TokenKind.isQuotedIdentifier]
  · simp [Move.isTypeWord, kind, TokenKind.isQuotedIdentifier]
  · rw [Move.isTypeWord, keyword?_of_is known]
    cases k <;> first
      | exact absurd opens Bool.false_ne_true
      | exact Bool.and_false _

/-- It opens no parenthesis. -/
theorem Token.EndsPart.kind_ne_openParen (h : token.EndsPart) : token.kind ≠ .openParen := by
  intro opened
  rcases h with kind | kind | ⟨k, -, known⟩
  · simp [kind] at opened
  · simp [kind] at opened
  · simp [is, keyword?, opened, TokenKind.isWord] at known

/-- It asks for no storage. -/
theorem Token.EndsPart.storage?_eq_none (h : token.EndsPart) : storage? token = none := by
  unfold storage?
  split
  · rename_i known
    exact absurd known (h.keyword?_ne rfl)
  · rename_i known
    exact absurd known (h.keyword?_ne rfl)
  · rfl

/-- After a piece, the parser goes on as between constraints. -/
theorem Token.EndsPart.move_eq {s : ColumnState} (h : token.EndsPart)
    (settled : s.isSettled = true)
    (unnamed : s ≠ .named) (next : Option Token) :
    Move.ofState (.column s) draft token next =
      Move.ofState (.column .constraints) draft token next := by
  change Move.column s draft token = columnBoundary draft token
  have key : afterKey draft token = columnBoundary draft token := by
    rw [afterKey, h.is_eq_false rfl, if_neg Bool.false_ne_true]
  cases s with
  | type => simp [Move.column, h.isTypeWord_eq_false, h.kind_ne_openParen]
  | constraints => rfl
  | named => exact absurd rfl unnamed
  | primaryKey =>
      rw [← key, Move.column]
      split
      · rename_i known
        exact absurd known (h.keyword?_ne rfl)
      · rename_i known
        exact absurd known (h.keyword?_ne rfl)
      · rename_i known
        exact absurd known (h.keyword?_ne rfl)
      · rfl
  | primaryOrdered => rw [← key, Move.column, h.is_eq_false rfl, if_neg Bool.false_ne_true]
  | primaryResolved => rw [← key, Move.column]
  | notNull | unique => rw [Move.column, h.is_eq_false rfl, if_neg Bool.false_ne_true]
  | generatedEnd => rw [Move.column, h.storage?_eq_none]
  | _ => exact absurd settled Bool.false_ne_true

/-- After a piece, the tokens are read as between constraints. -/
theorem Completes.settle {s : ColumnState} (settled : s.isSettled = true)
    (unnamed : s ≠ .named)
    (starts : StartsPart tokens) (h : Completes part (.column .constraints) tokens statement) :
    Completes part (.column s) tokens statement := by
  obtain ⟨token, rest, rfl, ends⟩ := starts
  exact fun d found => outcome_congr (ends.move_eq settled unnamed _) (h d found)

/-- A token is taken and the last column is changed. -/
theorem Completes.changeLast {state : State} (target : State) (f : Column → Column)
    (move : ∀ d, Move.ofState state d token rest.head? = d.go target (d.changeColumn f))
    (h : Completes (.table (table.withColumn (f column))) target rest statement) :
    Completes (.table (table.withColumn column)) state (token :: rest) statement := by
  refine .changeColumn target f Table.columns_withColumn_ne_nil move ?_
  rwa [Table.modifyColumn_withColumn]

/-! ### Constraints without data -/

/-- The keyword of an action names the action. -/
@[simp] theorem conflictAction?_keyword (action : ConflictAction) :
    (keyword action.keyword).conflictAction? = some action := by
  rw [conflictAction?, keyword?_keyword]
  exact ConflictAction.ofKeyword?_keyword action

/-- A keyword between constraints begins one. -/
@[simp] theorem move_constraints_keyword (k : Keyword) (next : Option Token) :
    Move.ofState (.column .constraints) draft (keyword k) next =
      columnKeyword draft (keyword k) := by
  change columnBoundary draft (keyword k) = _
  rw [columnBoundary, kind_keyword]
  cases k <;> rfl

/-- A conflict clause, up to its action. -/
theorem completes_conflict {o : ConflictOwner} {s : ColumnState} {action : ConflictAction}
    (opens : ∀ d next, Move.ofState (.column s) d (keyword .ON) next =
      .next (.column (.conflictOn o)) d)
    (h : Completes part (.column (.conflictAction o)) (keyword action.keyword :: rest)
      statement) :
    Completes part (.column s) ((ConflictAction.clause (some action)).map spoken ++ rest)
      statement := by
  refine .silent _ (fun d => opens d _) ?_
  refine .silent (.column (.conflictAction o)) (fun d => ?_) h
  simp [Move.ofState, Move.column, Draft.goIf]

/-- A flag with its conflict clause, if it is declared: the tokens `opening` raise it and
lead to the state `flagged`, where a clause may follow. `marked` is the column with the flag
and the action of the clause. -/
theorem completes_flag (marked : Bool → Option ConflictAction → Column) (opening : List Token)
    (flagged : ColumnState) (owner : ConflictOwner) {asked : Bool}
    {conflict : Option ConflictAction} (only : conflict ≠ none → asked = true)
    (fresh : marked false none = column)
    (raises : ∀ {tokens},
      Completes (.table (table.withColumn (marked true none))) (.column flagged) tokens statement →
        Completes (.table (table.withColumn column)) (.column .constraints)
          (opening.map spoken ++ tokens) statement)
    (settled : flagged.isSettled = true) (unnamed : flagged ≠ .named)
    (clause : ∀ d next, Move.ofState (.column flagged) d (keyword .ON) next =
      .next (.column (.conflictOn owner)) d)
    (resolves : ∀ action,
      Completes (.table (table.withColumn (marked true (some action)))) (.column .constraints) rest
          statement →
        Completes (.table (table.withColumn (marked true none)))
          (.column (.conflictAction owner)) (keyword action.keyword :: rest) statement)
    (starts : StartsPart rest)
    (h : Completes (.table (table.withColumn (marked asked conflict))) (.column .constraints) rest
      statement) :
    Completes (.table (table.withColumn column)) (.column .constraints)
      ((if asked then opening ++ ConflictAction.clause conflict else []).map spoken ++ rest)
      statement := by
  cases asked with
  | false =>
      obtain rfl : conflict = none := by
        by_contra some
        exact Bool.false_ne_true (only some)
      rwa [fresh] at h
  | true =>
      rw [if_pos rfl, List.map_append, List.append_assoc]
      refine raises ?_
      cases conflict with
      | none => exact h.settle settled unnamed starts
      | some action => exact completes_conflict clause (resolves action h)

/-- `NOT NULL`, if it is declared. -/
theorem completes_notNull {asked : Bool} {conflict : Option ConflictAction}
    (only : conflict ≠ none → asked = true)
    (fresh : column.notNull = false ∧ column.notNullConflict = none) (starts : StartsPart rest)
    (h : Completes (.table (table.withColumn
        { column with notNull := asked, notNullConflict := conflict }))
      (.column .constraints) rest statement) :
    Completes (.table (table.withColumn column)) (.column .constraints)
      ((if asked then words [.NOT, .NULL] ++ ConflictAction.clause conflict else []).map spoken ++
        rest) statement := by
  obtain ⟨notNull, noConflict⟩ := fresh
  refine completes_flag (fun asked conflict =>
      { column with notNull := asked, notNullConflict := conflict }) (words [.NOT, .NULL])
    .notNull .notNull only (by rw [← notNull, ← noConflict]) (fun h => ?_) rfl (by simp)
    (fun d next => ?_) (fun action h => ?_) starts h
  · refine .silent (.column .not) (fun d => ?_) ?_
    · simp [columnKeyword]
    rw [← noConflict] at h
    refine .changeLast (.column .notNull) (fun c => { c with notNull := true }) (fun d => ?_) h
    simp [Move.ofState, Move.column]
  · simp [Move.ofState, Move.column]
  · refine .changeLast _ (fun c => { c with notNullConflict := some action }) (fun d => ?_) h
    simp [Move.ofState, Move.column, resolveConflict]

/-- `UNIQUE`, if it is declared. -/
theorem completes_unique {asked : Bool} {conflict : Option ConflictAction}
    (only : conflict ≠ none → asked = true)
    (fresh : column.unique = false ∧ column.uniqueConflict = none) (starts : StartsPart rest)
    (h : Completes (.table (table.withColumn
        { column with unique := asked, uniqueConflict := conflict }))
      (.column .constraints) rest statement) :
    Completes (.table (table.withColumn column)) (.column .constraints)
      ((if asked then ofKeyword .UNIQUE :: ConflictAction.clause conflict else []).map spoken ++
        rest) statement := by
  obtain ⟨unique, noConflict⟩ := fresh
  refine completes_flag (fun asked conflict =>
      { column with unique := asked, uniqueConflict := conflict }) [ofKeyword .UNIQUE]
    .unique .unique only (by rw [← unique, ← noConflict]) (fun h => ?_) rfl (by simp)
    (fun d next => ?_) (fun action h => ?_) starts h
  · rw [← noConflict] at h
    refine .changeLast (.column .unique) (fun c => { c with unique := true }) (fun d => ?_) h
    simp [columnKeyword]
  · simp [Move.ofState, Move.column]
  · refine .changeLast _ (fun c => { c with uniqueConflict := some action }) (fun d => ?_) h
    simp [Move.ofState, Move.column, resolveConflict]

/-- The collation, if one is named. -/
theorem completes_collation {collation : Option String} (fresh : column.collation = none)
    (h : Completes (.table (table.withColumn { column with collation := collation }))
      (.column .constraints) rest statement) :
    Completes (.table (table.withColumn column)) (.column .constraints)
      ((collate collation).map spoken ++ rest) statement := by
  cases collation with
  | none => rwa [← fresh] at h
  | some name =>
      refine .silent (.column .collate) (fun d => ?_) ?_
      · simp [columnKeyword]
      refine .changeLast _ (fun c => { c with collation := some name }) (fun d => ?_) h
      simp [Move.ofState, Move.column]

/-! ### The primary key -/

/-- A column enters an empty key. -/
theorem Table.setKeyMember_withColumn (keyless : table.IsKeyless) :
    (table.withColumn column).setKeyMember ((table.withColumn column).columns.length - 1) true =
      { table with primaryKey := [table.columns.length] }.withColumn
        { column with inKey := true, isWholeKey := true } := by
  have unmarked (c : Column) (member : c ∈ table.columns) :
      c.inKey = false ∧ c.isWholeKey = false := by
    have blank := keyless.blank c.notes (List.mem_map_of_mem member)
    exact ⟨congrArg KeyNotes.inKey blank, congrArg KeyNotes.isWholeKey blank⟩
  have last : (table.withColumn column).columns.length - 1 = table.columns.length := by
    simp [withColumn]
  have old : table.columns.length < (table.withColumn column).columns.length := by
    simp [withColumn]
  have count : table.columns.countP (·.inKey) = 0 := by
    rw [List.countP_eq_zero]
    exact fun c member => by simp [(unmarked c member).1]
  have marked : Column.markWhole ((table.withColumn column).columns.modify table.columns.length
      (Column.withKeyMember true)) =
        table.columns ++ [{ column with inKey := true, isWholeKey := true }] := by
    have same : table.columns.map (fun c => { c with isWholeKey := c.inKey && true }) =
        table.columns := by
      refine (List.map_congr_left fun c member => ?_).trans (List.map_id _)
      obtain ⟨inKey, isWholeKey⟩ := unmarked c member
      cases c
      dsimp only at inKey isWholeKey
      subst inKey isWholeKey
      rfl
    rw [withColumn, modify_length_append, Column.markWhole, List.countP_append, count]
    rw [List.map_append]
    refine congrArg₂ _ ?_ ?_
    · exact same
    · rfl
  rw [last, setKeyMember_of_lt old, marked]
  have key : (table.withColumn column).primaryKey = [] := keyless.key
  rw [key]
  rfl

/-- The words `PRIMARY KEY` in a column. -/
theorem completes_primaryKey (keyless : table.IsKeyless)
    (h : Completes (.table ({ table with primaryKey := [table.columns.length] }.withColumn
        { column with inKey := true, isWholeKey := true })) (.column .primaryKey) rest statement) :
    Completes (.table (table.withColumn column)) (.column .constraints)
      (keyword .PRIMARY :: keyword .KEY :: rest) statement := by
  refine .silent (.column .primary) (fun d => ?_) ?_
  · simp [columnKeyword]
  intro d found
  have entered : Move.ofState (.column .primary) d (keyword .KEY) rest.head? =
      .next (.column .primaryKey) { d with
        statement := some (.table ({ table with primaryKey := [table.columns.length] }.withColumn
          { column with inKey := true, isWholeKey := true })) } := by
    rw [← Table.setKeyMember_withColumn keyless]
    simp [Move.ofState, Move.column, found, Draft.changeTable, Draft.go, Table.withColumn]
  rw [outcome_move entered]
  exact h _ rfl

/-- After the conflict clause of a key, `AUTOINCREMENT` if it is declared. -/
theorem completes_autoincrement {asked : Bool} {s : ColumnState} (place : s.isAfterKey = true)
    (fresh : column.autoincrement = false) (starts : StartsPart rest)
    (h : Completes (.table (table.withColumn { column with autoincrement := asked }))
      (.column .constraints) rest statement) :
    Completes (.table (table.withColumn column)) (.column s)
      ((if asked then [ofKeyword .AUTOINCREMENT] else []).map spoken ++ rest) statement := by
  cases asked with
  | false =>
      rw [← fresh] at h
      rcases ColumnState.eq_of_isAfterKey place with rfl | rfl | rfl <;>
        exact Completes.settle rfl (by simp) starts h
  | true =>
      refine .changeLast _ (fun c => { c with autoincrement := true }) (fun d => ?_) h
      rcases ColumnState.eq_of_isAfterKey place with rfl | rfl | rfl <;>
        simp [Move.ofState, Move.column, afterKey]

/-- After the order of a key, its conflict clause and `AUTOINCREMENT`. -/
theorem completes_keyConflict {asked : Bool} {conflict : Option ConflictAction}
    {s : ColumnState}
    (place : s = .primaryKey ∨ s = .primaryOrdered)
    (fresh : column.autoincrement = false) (unresolved : table.keyConflict = none)
    (starts : StartsPart rest)
    (h : Completes (.table ({ table with keyConflict := conflict }.withColumn
        { column with autoincrement := asked })) (.column .constraints) rest statement) :
    Completes (.table (table.withColumn column)) (.column s)
      ((ConflictAction.clause conflict ++
        if asked then [ofKeyword .AUTOINCREMENT] else []).map spoken ++ rest) statement := by
  rw [List.map_append, List.append_assoc]
  cases conflict with
  | none =>
      have same : { table with keyConflict := none } = table := by rw [← unresolved]
      rw [same] at h
      exact completes_autoincrement (by rcases place with rfl | rfl <;> rfl) fresh starts h
  | some action =>
      refine completes_conflict (o := .primaryKey) (fun d next => ?_) ?_
      · rcases place with rfl | rfl <;> simp [Move.ofState, Move.column]
      refine .changeTable (.column .primaryResolved)
        (fun t => { t with keyConflict := some action }) (fun d => ?_) ?_
      · simp [Move.ofState, Move.column, resolveConflict]
      exact @completes_autoincrement { table with keyConflict := some action } column _ _ _ _ rfl
        fresh starts h

/-- A primary key that the column itself declares. -/
theorem completes_key {key : Column} {conflict : Option ConflictAction}
    (keyless : table.IsKeyless) (unresolved : table.keyConflict = none)
    (fresh : column.columnDesc = false ∧ column.autoincrement = false)
    (starts : StartsPart rest)
    (h : Completes (.table ({ table with
          primaryKey := [table.columns.length], keyConflict := conflict }.withColumn
        { column with
          inKey := true, isWholeKey := true, columnDesc := key.isDescending,
          autoincrement := key.autoincrement })) (.column .constraints) rest statement) :
    Completes (.table (table.withColumn column)) (.column .constraints)
      ((key.keyTokens conflict).map spoken ++ rest) statement := by
  unfold Column.keyTokens
  rw [List.append_assoc, List.append_assoc, List.map_append, List.map_append, List.append_assoc,
    List.append_assoc]
  refine completes_primaryKey keyless ?_
  cases desc : key.isDescending with
  | false =>
      rw [desc] at h
      exact completes_keyConflict (.inl rfl) fresh.2 unresolved starts (by rwa [← fresh.1] at h)
  | true =>
      rw [desc] at h
      refine .changeLast (.column .primaryOrdered) (fun c => { c with columnDesc := true })
        (fun d => ?_) ?_
      · simp [Move.ofState, Move.column]
      exact completes_keyConflict (.inr rfl) fresh.2 unresolved starts h

/-! ### Constraints with data -/

/-- Stored tokens are read as they are. -/
theorem map_spoken_of_lexed {ts : List Token} (h : ∀ t ∈ ts, t.IsLexed) : ts.map spoken = ts :=
  (List.map_congr_left fun t member => (h t member).spoken_eq).trans (List.map_id ts)

/-- The tokens of a text are spoken as they are. -/
theorem map_spoken_tokenize (text : String) : (tokenize text).map spoken = tokenize text :=
  map_spoken_of_lexed fun _ member => isLexed_of_mem member

/-- The default value, if there is one. -/
theorem completes_default {default : Option DefaultValue}
    (reads : ∀ value, default = some value → value.IsReadBack) (fresh : column.default = none)
    (h : Completes (.table (table.withColumn { column with default := default }))
      (.column .constraints) rest statement) :
    Completes (.table (table.withColumn column)) (.column .constraints)
      ((default.elim [] (ofKeyword .DEFAULT :: ·.tokens)).map spoken ++ rest) statement := by
  cases default with
  | none => rwa [← fresh] at h
  | some value =>
      have read := reads value rfl
      have same : value.tokens.map spoken = value.tokens :=
        map_spoken_of_lexed fun t member _ => read.valid t member
      intro d found
      have taken : step (.column .constraints) d (keyword .DEFAULT) (value.tokens ++ rest) =
          .next (.column .constraints) { d with
            statement := some (.table (table.withColumn { column with default := some value })) }
            rest := by
        rw [step, move_constraints_keyword]
        simp only [columnKeyword, keyword?_keyword]
        rw [Embedding.read, read.reads]
        dsimp only
        rw [changeColumn_withColumn found]
        rfl
      change outcome _ d (keyword .DEFAULT :: (value.tokens.map spoken ++ rest)) = _
      rw [same, outcome_next taken]
      exact h _ rfl

/-- Names in parentheses are read one by one. -/
theorem outcome_nameList {named after closed : State} {P : Draft → Prop}
    {add : Draft → String → Draft}
    (moves : ∀ d n next, P d →
      Move.ofState named d (Token.name n) next = .next after (add d n))
    (comma : ∀ d next, Move.ofState after d comma next = .next named d)
    (close : ∀ d next, Move.ofState after d closeParen next = .next closed d)
    (keeps : ∀ d n, P d → P (add d n)) {names : List String} (ne : names ≠ []) {d : Draft}
    (holds : P d) (rest : List Token) :
    outcome named d ((commaList (names.map fun n => [Token.name n])).map spoken ++
      closeParen :: rest) = outcome closed (names.foldl add d) rest := by
  induction names generalizing d with
  | nil => exact absurd rfl ne
  | cons n names ih =>
      cases names with
      | nil =>
          simp only [List.map_cons, List.map_nil, commaList_singleton, spoken_name,
            List.cons_append, List.nil_append, List.foldl_cons, List.foldl_nil]
          rw [outcome_move (moves d n _ holds), outcome_move (close _ _)]
      | cons next names =>
          rw [List.map_cons, commaList_cons _ (by simp), List.singleton_append, List.map_cons,
            List.map_cons, spoken_name, spoken_comma, List.cons_append, List.cons_append,
            outcome_move (moves d n _ holds), outcome_move (comma _ _)]
          exact ih (by simp) (keeps d n holds)

/-- The parent columns of a reference are read. -/
theorem outcome_parentColumns {names : List String} (ne : names ≠ []) :
    outcome (.reference .column) draft
        ((commaList (names.map fun n => [Token.name n])).map spoken ++ closeParen :: rest) =
      outcome (.reference .clauses) { draft with
        reference := { draft.reference with columns := draft.reference.columns ++ names } }
        rest := by
  have fold (names : List String) (d : Draft) : names.foldl (fun d n => { d with
        reference := { d.reference with columns := d.reference.columns ++ [n] } }) d =
      { d with reference := { d.reference with columns := d.reference.columns ++ names } } := by
    induction names generalizing d with
    | nil => rw [List.append_nil]; rfl
    | cons n names ih => rw [List.foldl_cons, ih, List.append_assoc]; rfl
  rw [← fold]
  refine @outcome_nameList _ (.reference .columnName) _ (fun _ => True) _ (fun d n next _ => ?_)
    (fun _ _ => rfl) (fun _ _ => rfl) (fun _ _ _ => trivial) _ ne _ trivial rest
  simp [Move.ofState, Move.reference]

/-- No clause begins with a parenthesis. -/
theorem ClausePath.kind_ne_openParen {s : ReferenceState} {ts : List Token}
    (h : ClausePath s ts) :
    ∀ t ∈ ts, t.kind ≠ .openParen := by
  have word {t : Token} {k : Keyword} (is : t.is k = true) : t.kind ≠ .openParen := by
    intro kind
    have known := keyword?_of_is is
    simp [keyword?, kind, TokenKind.isWord] at known
  induction h with
  | nil => simp
  | snoc path step ih =>
      refine List.forall_mem_append.2 ⟨ih, List.forall_mem_singleton.2 ?_⟩
      cases step with
      | matched name =>
          intro kind
          simp [isName, isOperatorName, kind, TokenKind.isQuotedIdentifier] at name
      | matching _ is | on _ is | deferrable _ is | not _ is | set is | no is | noAction is
      | notDeferrable is | initially is => exact word is
      | event is | action is | value is | time is => exact is.elim word word

/-- **A reference is read** up to the end of its clauses. -/
theorem outcome_reference {reference : Reference} {d : Draft} (complete : reference.IsComplete)
    (opened : d.reference = ⟨"", [], ""⟩ ∧ d.clauses = [])
    (h : ∀ s ts, s.isSettled = true → render ts = reference.clauses →
      outcome (.reference s) { d with
        reference := ⟨reference.table, reference.columns, ""⟩, clauses := ts } rest =
          .ok statement) :
    outcome (.reference .begun) d (Token.name reference.table ::
      (((if reference.columns.isEmpty then [] else nameList reference.columns) ++
        tokenize reference.clauses).map spoken ++ rest)) = .ok statement := by
  obtain ⟨s, ts, settled, clauses, path, valid⟩ := complete
  have stored : tokenize reference.clauses = ts := by rw [clauses, tokenize_render valid]
  have spelled : ts.map spoken = ts := map_spoken_of_lexed fun t member _ => valid t member
  have waits : AwaitsDeferrable s rest.head? := by
    rintro rfl
    exact absurd settled Bool.false_ne_true
  -- Without parent columns the first clause follows the table.
  have plain (none : reference.columns = []) : outcome (.reference .table)
      { d with reference := ⟨reference.table, [], ""⟩ } (ts ++ rest) = .ok statement := by
    cases ts with
    | nil =>
        have last := h .table [] rfl clauses.symm
        rwa [none, ← opened.2] at last
    | cons t ts =>
        have last := h s (t :: ts) settled clauses.symm
        rw [none] at last
        have noParen := beq_eq_false_iff_ne.2 (path.kind_ne_openParen t (by simp))
        have same (d : Draft) (next : Option Token) :
            Move.ofState (.reference .table) d t next =
            Move.ofState (.reference .clauses) d t next := by
          simp [Move.ofState, Move.reference, noParen]
        refine outcome_congr (same _ _) ((outcome_clauses path ?_ rest waits).trans last)
        exact opened.2
  have named (next : Option Token) :
      Move.ofState (.reference .begun) d (Token.name reference.table) next =
        .next (.reference .table) { d with reference := ⟨reference.table, [], ""⟩ } := by
    simp [Move.ofState, Move.reference, opened.1]
  rw [outcome_move (named _), stored, List.map_append, spelled]
  cases columns : reference.columns with
  | nil => exact plain columns
  | cons column others =>
      have last := h s ts settled clauses.symm
      rw [columns] at last
      rw [List.isEmpty_cons, if_neg Bool.false_ne_true, nameList, inParens, List.map_append,
        List.append_assoc, List.append_assoc]
      have opening (d : Draft) (tokens : List Token) :
          outcome (.reference .table) d (openParen :: tokens) =
            outcome (.reference .column) d tokens := outcome_move rfl
      refine (opening _ _).trans ((outcome_parentColumns (by simp)).trans ?_)
      refine (outcome_clauses path ?_ rest waits).trans last
      exact opened.2

/-- After a reference, the parser goes on as between constraints, with the reference given to
the column. -/
theorem Token.EndsPart.move_reference {s : ReferenceState} {after : Draft} (h : token.EndsPart)
    (notNot : token.is .NOT = false) (settled : s.isSettled = true)
    (owner : draft.owner = .column)
    (finished : draft.finishReference = some after) (next : Option Token) :
    Move.ofState (.reference s) draft token next =
      Move.ofState (.column .constraints) after token next := by
  have clause : referenceClause draft token next = columnBoundary after token := by
    have last : afterReference draft token = columnBoundary after token := by
      rw [afterReference, finished]
      dsimp only
      rw [owner]
    unfold referenceClause
    split
    · rename_i known
      exact absurd known (h.keyword?_ne rfl)
    · rename_i known
      exact absurd known (h.keyword?_ne rfl)
    · rename_i known
      exact absurd known (h.keyword?_ne rfl)
    · rename_i known
      rw [is, known, beq_self_eq_true] at notNot
      exact absurd notNot.symm Bool.false_ne_true
    · exact last
  change Move.reference s draft token next = columnBoundary after token
  cases s with
  | table => simp [Move.reference, h.kind_ne_openParen, clause]
  | clauses => exact clause
  | deferrable => simp [Move.reference, h.is_eq_false (k := .INITIALLY) rfl, clause]
  | _ => exact absurd settled Bool.false_ne_true

/-- The next tokens belong to no piece before them and are not `NOT`. -/
def StartsLate (tokens : List Token) : Prop :=
  ∃ token rest, tokens = token :: rest ∧ token.EndsPart ∧ token.is .NOT = false

/-- The reference, if there is one. -/
theorem completes_references {references : Option Reference}
    (complete : ∀ reference, references = some reference → reference.IsComplete)
    (fresh : column.references = none) (starts : StartsLate rest)
    (h : Completes (.table (table.withColumn { column with references := references }))
      (.column .constraints) rest statement) :
    Completes (.table (table.withColumn column)) (.column .constraints)
      ((references.elim [] Reference.tokens).map spoken ++ rest) statement := by
  cases references with
  | none => rwa [← fresh] at h
  | some reference =>
      intro d found
      have opening (tokens : List Token) :
          outcome (.column .constraints) d (keyword .REFERENCES :: tokens) =
            outcome (.reference .begun) (d.openReference .column) tokens :=
        outcome_move (by simp [columnKeyword])
      have tokens : reference.tokens = ofKeyword .REFERENCES :: Token.name reference.table ::
          ((if reference.columns.isEmpty then [] else nameList reference.columns) ++
            tokenize reference.clauses) := by
        rw [Reference.tokens, List.append_assoc]
        rfl
      rw [Option.elim_some, tokens, List.map_cons, List.map_cons, spoken_ofKeyword, spoken_name,
        List.cons_append, List.cons_append, opening]
      refine outcome_reference (complete reference rfl) ⟨rfl, rfl⟩ fun s ts settled same => ?_
      obtain ⟨token, after, rfl, ends, notNot⟩ := starts
      have finished : Draft.finishReference { d.openReference .column with
            reference := ⟨reference.table, reference.columns, ""⟩, clauses := ts } =
          some { d.openReference .column with
            statement := some (.table (table.withColumn
              { column with references := some reference })) } := by
        change Draft.changeColumn (d.openReference .column) _ = _
        rw [changeColumn_withColumn (show (d.openReference .column).statement = _ from found)]
        simp only [same]
      exact outcome_congr (ends.move_reference notNot settled rfl finished _) (h _ rfl)

/-- The rule of a column as it is read from its text. -/
def Generated.respace (rule : Generated) : Generated :=
  { rule with expression := SchemaText.respace rule.expression }

/-- The storage that a rule asks for. -/
def Storage.clause : Option Storage → List Token
  | some .stored => [ofKeyword .STORED]
  | some .virtual => [ofKeyword .VIRTUAL]
  | none => []

/-- The tokens of a rule, part by part. -/
theorem Generated.tokens_eq (rule : Generated) :
    rule.tokens = (if rule.always then words [.GENERATED, .ALWAYS] else []) ++
      ofKeyword .AS :: inParens (tokenize rule.expression) ++ Storage.clause rule.storage := by
  unfold Generated.tokens
  rcases rule.storage with _ | (_ | _) <;> rfl

/-- The rule of a generated column after `AS`. -/
theorem completes_rule {rule : Generated} (path : BodyPath 1 (tokenize rule.expression))
    (starts : StartsPart rest)
    (h : Completes (.table (table.withColumn { column with generated := some rule.respace }))
      (.column .constraints) rest statement) {d : Draft}
    (found : d.statement = some (.table (table.withColumn column)))
    (always : d.generatedAlways = rule.always) :
    outcome (.column .generatedAs) d (openParen :: (tokenize rule.expression ++ closeParen ::
      ((Storage.clause rule.storage).map spoken ++ rest))) = .ok statement := by
  have opening (tokens : List Token) : outcome (.column .generatedAs) d (openParen :: tokens) =
      outcome (.column .generatedBody) d.openBody tokens := outcome_move rfl
  rw [opening, outcome_body rfl path]
  have closing (next : Option Token) : Move.ofState (.column .generatedBody)
      { d with body := tokenize rule.expression, depth := 1 } closeParen next =
        .next (.column .generatedEnd) { d with
          body := []
          depth := 0
          statement := some (.table (table.withColumn
            { column with generated := some { rule.respace with storage := none } })) } := by
    simp only [Move.ofState, Move.column]
    rw [takeBody_closeParen rfl rfl]
    dsimp only
    rw [changeColumn_withColumn (by exact found), always]
    rfl
  rw [outcome_move (closing _)]
  have stored (storage : Storage) (k : Keyword) (same : rule.storage = some storage)
      (word : storage? (keyword k) = some storage) :
      Completes (.table (table.withColumn
        { column with generated := some { rule.respace with storage := none } }))
        (.column .generatedEnd) (keyword k :: rest) statement := by
    refine .changeLast (.column .constraints) (fun c => { c with
      generated := c.generated.map fun rule => { rule with storage := some storage } })
      (fun d => ?_) ?_
    · simp [Move.ofState, Move.column, word]
    · rwa [Option.map_some, ← same]
  have ended : Completes (.table (table.withColumn
      { column with generated := some { rule.respace with storage := none } }))
      (.column .generatedEnd) ((Storage.clause rule.storage).map spoken ++ rest) statement := by
    cases same : rule.storage with
    | none =>
        have whole : { rule.respace with storage := none } = rule.respace := by
          rw [← same]
          rfl
        rw [whole]
        exact Completes.settle rfl (by decide) starts h
    | some storage =>
        cases storage with
        | stored => exact stored .stored .STORED same (by simp [storage?])
        | virtual => exact stored .virtual .VIRTUAL same (by simp [storage?])
  exact ended _ rfl

/-- The rule of a generated column, if there is one. -/
theorem completes_generated {generated : Option Generated}
    (path : ∀ rule, generated = some rule → BodyPath 1 (tokenize rule.expression))
    (fresh : column.generated = none) (starts : StartsPart rest)
    (h : Completes (.table (table.withColumn
        { column with generated := generated.map Generated.respace }))
      (.column .constraints) rest statement) :
    Completes (.table (table.withColumn column)) (.column .constraints)
      ((generated.elim [] Generated.tokens).map spoken ++ rest) statement := by
  cases generated with
  | none =>
      rw [Option.map_none, ← fresh] at h
      exact h
  | some rule =>
      have tokens : (Option.elim (some rule) [] Generated.tokens).map spoken ++ rest =
          (if rule.always then [keyword .GENERATED, keyword .ALWAYS] else []) ++
            keyword .AS :: openParen :: (tokenize rule.expression ++ closeParen ::
              ((Storage.clause rule.storage).map spoken ++ rest)) := by
        cases always : rule.always <;>
          simp [Generated.tokens_eq, words, inParens, always, map_spoken_tokenize]
      rw [tokens]
      intro d found
      have read := @completes_rule table column rest statement rule (path rule rfl) starts h
      cases always : rule.always with
      | false =>
          have plain (tokens : List Token) :
              outcome (.column .constraints) d (keyword .AS :: tokens) =
                outcome (.column .generatedAs) { d with generatedAlways := false } tokens :=
            outcome_move (by simp [columnKeyword])
          rw [if_neg Bool.false_ne_true, List.nil_append, plain]
          exact read found always.symm
      | true =>
          have spelled (tokens : List Token) : outcome (.column .constraints) d
              (keyword .GENERATED :: keyword .ALWAYS :: keyword .AS :: tokens) =
                outcome (.column .generatedAs) { d with generatedAlways := true } tokens := by
            have first (next : Option Token) : Move.ofState (.column .constraints) d
                (keyword .GENERATED) next = .next (.column .generated) d := by
              simp [columnKeyword]
            have second (next : Option Token) : Move.ofState (.column .generated) d
                (keyword .ALWAYS) next =
                  .next (.column .generatedAlways) { d with generatedAlways := true } := by
              simp [Move.ofState, Move.column]
            have third (d : Draft) (next : Option Token) :
                Move.ofState (.column .generatedAlways) d
                (keyword .AS) next = .next (.column .generatedAs) d := by
              simp [Move.ofState, Move.column, Draft.goIf]
            rw [outcome_move (first _), outcome_move (second _), outcome_move (third _ _)]
          rw [if_pos rfl, List.cons_append, List.cons_append, List.nil_append, spelled]
          exact read found always.symm

/-! ### Whole columns -/

/-- The column as its own definition declares it: as a member of the key only where it declares
the key itself, and with its rule as it is read from its text. -/
def Column.declared (column : Column) (key : Option (Option ConflictAction)) : Column :=
  let plain := { column.unkeyed with generated := column.generated.map Generated.respace }
  match key with
  | none => plain
  | some _ =>
    { plain with
      inKey := true, isWholeKey := true, columnDesc := column.isDescending,
      autoincrement := column.autoincrement }

/-- The table with one more column definition, which declares the key or does not. -/
def Table.declare (table : Table) (key : Option (Option ConflictAction)) (column : Column) :
    Table :=
  match key with
  | none => table.withColumn (column.declared none)
  | some conflict =>
    { table with primaryKey := [table.columns.length], keyConflict := conflict }.withColumn
      (column.declared (some conflict))

/-- What a column contains can be read from its text. -/
structure Column.IsReadable (column : Column) : Prop where
  /-- The type is whole. -/
  type : IsType column.type
  /-- The default value is read back. -/
  default : ∀ value, column.default = some value → value.IsReadBack
  /-- The reference is whole. -/
  references : ∀ reference, column.references = some reference → reference.IsComplete
  /-- The rule is whole. -/
  generated : ∀ rule, column.generated = some rule → BodyPath 1 (tokenize rule.expression)
  /-- A conflict clause belongs to `NOT NULL`. -/
  notNull : column.notNullConflict ≠ none → column.notNull = true
  /-- A conflict clause belongs to `UNIQUE`. -/
  unique : column.uniqueConflict ≠ none → column.unique = true

/-- A keyword that opens a piece belongs to none before it. -/
theorem StartsPart.cons {k : Keyword} (opens : k.opensPart = true) :
    StartsPart (keyword k :: tokens) :=
  ⟨_, _, rfl, .inr (.inr ⟨k, opens, by simp⟩)⟩

/-- To be no `NOT` is one condition more. -/
theorem StartsLate.startsPart (h : StartsLate tokens) : StartsPart tokens := by
  obtain ⟨token, rest, same, ends, -⟩ := h
  exact ⟨token, rest, same, ends⟩

/-- Every keyword but `NOT` that opens a piece will do. -/
theorem StartsLate.cons (k : Keyword) (opens : k.opensPart = true) (other : k ≠ .NOT) :
    StartsLate (keyword k :: tokens) :=
  ⟨_, _, rfl, .inr (.inr ⟨k, opens, by simp⟩), by simpa using other⟩

/-- A rule begins with `GENERATED` or `AS`. -/
theorem StartsLate.generated (h : StartsLate rest) (generated : Option Generated) :
    StartsLate ((generated.elim [] Generated.tokens).map spoken ++ rest) := by
  cases generated with
  | none => exact h
  | some rule =>
      rw [Option.elim_some, Generated.tokens_eq]
      cases rule.always with
      | false => exact StartsLate.cons .AS rfl (by decide)
      | true => exact StartsLate.cons .GENERATED rfl (by decide)

/-- A column is named and its type is read. -/
theorem outcome_namedColumn {d : Draft} {name : Token} {s : ColumnState} {ts : List Token}
    (isName : name.isName = true) (plain : startsConstraint name = false)
    (settled : s = .type ∨ s = .constraints) (path : TypePath s ts)
    (found : d.statement = some (.table table)) (starts : StartsPart rest)
    (h : Completes (.table (table.withColumn { Column.new name.text with type := render ts }))
      (.column .constraints) rest statement) :
    outcome (.column .begun) d (name :: (ts ++ rest)) = .ok statement := by
  have begun (next : Option Token) : Move.ofState (.column .begun) d name next =
      .next (.column .type) { d with
        typeTokens := []
        statement := some (.table (table.withColumn (Column.new name.text))) } := by
    simp [Move.ofState, Move.column, plain, isName, Draft.changeTable, found, Draft.go]
    rfl
  rw [outcome_move (begun _)]
  refine (outcome_type path rfl rfl rfl rest).trans ?_
  rcases settled with rfl | rfl
  · exact Completes.settle rfl (by decide) starts h _ rfl
  · exact h _ rfl

/-- A written name begins no constraint. -/
theorem startsConstraint_name (name : String) :
    startsConstraint (Token.name name) = false := by
  unfold startsConstraint
  split <;> first
    | rfl
    | rename_i known
      exact absurd (beq_iff_eq.2 known) (by simpa [is] using is_name name rfl)

/-- The type of a column is read. -/
theorem outcome_columnType {d : Draft} {name type : String} (whole : IsType type)
    (found : d.statement = some (.table table)) (starts : StartsPart rest)
    (h : Completes (.table (table.withColumn { Column.new name with type := type }))
      (.column .constraints) rest statement) :
    outcome (.column .begun) d ((Token.name name :: tokenize type).map spoken ++ rest) =
      .ok statement := by
  obtain ⟨s, ts, settled, rfl, path, valid⟩ := whole
  rw [List.map_cons, spoken_name, map_spoken_tokenize, tokenize_render valid, List.cons_append]
  refine outcome_namedColumn (isName_name name) (startsConstraint_name name) settled path found
    starts ?_
  rwa [text_name]

/-- A piece that begins with a keyword belongs to no piece before it. -/
theorem StartsPart.append (h : StartsPart rest) (k : Keyword) (piece : List Token)
    (opens : k.opensPart = true) (shape : piece = [] ∨ ∃ more, piece = ofKeyword k :: more) :
    StartsPart (piece.map spoken ++ rest) := by
  rcases shape with rfl | ⟨more, rfl⟩
  · exact h
  · exact .cons opens

/-- The constraints of a column after those that are flags. -/
def Column.dataTokens (column : Column) : List Token :=
  column.default.elim [] (ofKeyword .DEFAULT :: ·.tokens) ++ (collate column.collation ++
    (column.references.elim [] Reference.tokens ++ column.generated.elim [] Generated.tokens))

/-- The flags of a column and their conflict clauses. -/
def Column.flagTokens (column : Column) : List Token :=
  (if column.notNull then
      words [.NOT, .NULL] ++ ConflictAction.clause column.notNullConflict else []) ++
    if column.unique then ofKeyword .UNIQUE :: ConflictAction.clause column.uniqueConflict else []

/-- The tokens of a column in the order in which they are read: name and type, key, flags and
what has a value. -/
theorem Column.tokens_eq (column : Column) (key : Option (Option ConflictAction)) :
    column.tokens key = (Token.name column.name :: tokenize column.type) ++
      (key.elim [] column.keyTokens ++ (column.flagTokens ++ column.dataTokens)) := by
  simp only [tokens, flagTokens, dataTokens, List.append_assoc]

/-- What has a value begins a piece of its own, if there is any of it. -/
theorem StartsLate.dataTokens (h : StartsLate rest) (column : Column) :
    StartsPart (column.dataTokens.map spoken ++ rest) := by
  simp only [Column.dataTokens, List.map_append, List.append_assoc]
  refine (((h.generated _).startsPart.append .REFERENCES _ rfl ?_).append .COLLATE _ rfl
    ?_).append .DEFAULT _ rfl ?_
  · cases column.references <;> simp [Reference.tokens]
  · cases column.collation <;> simp [collate]
  · cases column.default <;> simp

/-- The flags begin a piece of their own, if there are any. -/
theorem StartsPart.flagTokens (h : StartsPart rest) (column : Column) :
    StartsPart (column.flagTokens.map spoken ++ rest) := by
  simp only [Column.flagTokens, List.map_append, List.append_assoc]
  refine (h.append .UNIQUE _ rfl ?_).append .NOT _ rfl ?_
  · cases column.unique <;> simp
  · cases column.notNull <;> simp [words]

/-- The constraints of a column that carry data. -/
theorem completes_dataTokens {data : Column} (readable : data.IsReadable)
    (fresh : column.default = none ∧ column.collation = none ∧ column.references = none ∧
      column.generated = none) (starts : StartsLate rest)
    (h : Completes (.table (table.withColumn { column with
        default := data.default, collation := data.collation, references := data.references
        generated := data.generated.map Generated.respace })) (.column .constraints) rest
      statement) :
    Completes (.table (table.withColumn column)) (.column .constraints)
      (data.dataTokens.map spoken ++ rest) statement := by
  simp only [Column.dataTokens, List.map_append, List.append_assoc]
  refine completes_default readable.default fresh.1 ?_
  refine completes_collation fresh.2.1 ?_
  refine completes_references readable.references fresh.2.2.1 (starts.generated _) ?_
  exact completes_generated readable.generated fresh.2.2.2 starts.startsPart h

/-- The constraints of a column other than its key. -/
theorem completes_constraints {data : Column} (readable : data.IsReadable)
    (fresh : column.notNull = false ∧ column.notNullConflict = none ∧ column.unique = false ∧
      column.uniqueConflict = none ∧ column.default = none ∧ column.collation = none ∧
      column.references = none ∧ column.generated = none) (starts : StartsLate rest)
    (h : Completes (.table (table.withColumn { column with
        notNull := data.notNull, notNullConflict := data.notNullConflict, unique := data.unique
        uniqueConflict := data.uniqueConflict, default := data.default
        collation := data.collation, references := data.references
        generated := data.generated.map Generated.respace })) (.column .constraints) rest
      statement) :
    Completes (.table (table.withColumn column)) (.column .constraints)
      ((data.flagTokens ++ data.dataTokens).map spoken ++ rest) statement := by
  obtain ⟨notNull, notNullConflict, unique, uniqueConflict, fresh⟩ := fresh
  have last := starts.dataTokens data
  simp only [Column.flagTokens, List.map_append, List.append_assoc]
  refine completes_notNull readable.notNull ⟨notNull, notNullConflict⟩ ?_ ?_
  · refine last.append .UNIQUE _ rfl ?_
    cases data.unique <;> simp
  refine completes_unique readable.unique ⟨unique, uniqueConflict⟩ last ?_
  exact completes_dataTokens readable fresh starts h

/-- **A column definition is read**, up to the comma or the parenthesis after it. -/
theorem completes_column {key : Option (Option ConflictAction)} (readable : column.IsReadable)
    (keyless : key ≠ none → table.IsKeyless ∧ table.keyConflict = none)
    (starts : StartsLate rest)
    (h : Completes (.table (table.declare key column)) (.column .constraints) rest statement) :
    Completes (.table table) (.column .begun) ((column.tokens key).map spoken ++ rest)
      statement := by
  have constraints :
      StartsPart ((column.flagTokens ++ column.dataTokens).map spoken ++ rest) := by
    rw [List.map_append, List.append_assoc]
    exact (starts.dataTokens column).flagTokens column
  have declared : StartsPart ((key.elim [] column.keyTokens).map spoken ++
      ((column.flagTokens ++ column.dataTokens).map spoken ++ rest)) := by
    refine constraints.append .PRIMARY _ rfl ?_
    cases key <;> simp [Column.keyTokens, words]
  intro d found
  rw [Column.tokens_eq, List.map_append, List.append_assoc, List.map_append,
    List.append_assoc]
  refine outcome_columnType readable.type found declared ?_
  cases key with
  | none =>
      exact completes_constraints readable ⟨rfl, rfl, rfl, rfl, rfl, rfl, rfl, rfl⟩ starts h
  | some conflict =>
      obtain ⟨keyless, unresolved⟩ := keyless (by simp)
      refine completes_key keyless unresolved ⟨rfl, rfl⟩ constraints ?_
      exact completes_constraints readable ⟨rfl, rfl, rfl, rfl, rfl, rfl, rfl, rfl⟩ starts h

end SchemaText
