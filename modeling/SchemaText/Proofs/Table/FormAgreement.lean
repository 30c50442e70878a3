import Mathlib
import SchemaText.Proofs.Table.ColumnSpans
import SchemaText.Proofs.Table.ConstraintForms
import SchemaText.Proofs.Table.KeyReading
import SchemaText.Proofs.Token.Spoken

/-!
# Both forms make the same table

A constraint of a single column can be written at the end of the definition of the column, or
as the first constraint of the table. What is read between these two places is read with the
constraint noted and without it, and what follows the second place meets the same draft.

## Main definitions

* `Addition.IsNew`: the column has nothing of the kind yet, and the table has no other key.

## Main results

* `ColumnEnd.outcome_between`: **what is read between two columns** is read with an addition.
* `ColumnEnd.exists_outcome`: **what is read after the columns** is read with an addition.
* `parse_constraintForms`: **both forms of a constraint make the same table**.
-/

namespace SchemaText

open Token Move

variable {state target last : State} {draft after final : Draft} {token : Token}
  {rest left tokens : List Token} {text : String} {past later : List Transition}
  {table other : Table} {column : Column} {i : Nat} {addition : Addition}

/-! ### Constraints and the names of columns -/

/-- Where the names are the same, a key list finds its columns alike. -/
theorem enterKey_congr (same : other.columnNames = table.columnNames) (autoincrement : Bool)
    (parts : List KeyPart) : (Draft.enterKey autoincrement parts other).2 =
      (Draft.enterKey autoincrement parts table).2 := by
  induction parts generalizing table other with
  | nil => rfl
  | cons part parts ih =>
      rw [Draft.enterKey_cons, Draft.enterKey_cons, columnIndex?_congr same]
      cases table.columnIndex? part.name with
      | none => rfl
      | some i =>
          exact ih (Table.columnNames_enterPart.trans (same.trans Table.columnNames_enterPart.symm))

/-- What leaves the names leaves the same names. -/
theorem columnNames_congr {f : Table → Table}
    (kept : ∀ t : Table, (f t).columnNames = t.columnNames)
    (same : other.columnNames = table.columnNames) :
    (f other).columnNames = (f table).columnNames :=
  (kept other).trans (same.trans (kept table).symm)

/-- **Constraints of the table** look at nothing but the names of the columns. -/
theorem keptByConstraints_names :
    KeptByConstraints fun table other => other.columnNames = table.columnNames where
  key := by
    intro table other entered same autoincrement parts conflict entering
    have entered' : (Draft.enterKey autoincrement parts table).2 = none := by rw [entering]
    refine ⟨(Draft.enterKey autoincrement parts other).1,
      Prod.ext rfl ((enterKey_congr same autoincrement parts).trans entered'), ?_⟩
    obtain rfl : (Draft.enterKey autoincrement parts table).1 = entered :=
      congrArg Prod.fst entering
    exact columnNames_congr (columnNames_enterKey autoincrement parts) same
  unique same key := columnNames_congr (columnNames_enterUnique key) same
  foreignKey same columns reference :=
    columnNames_congr (columnNames_enterForeignKey columns reference) same
  check same _ := same
  strict same := same
  withoutRowid same := same

/-- A key that a column declares leaves the names. -/
theorem keptByKeys_names :
    KeptByKeys fun table other => other.columnNames = table.columnNames where
  declare same :=
    columnNames_congr (fun t => columnNames_setKeyMember t (t.columns.length - 1) true) same
  resolve same _ := same

/-! ### Keys -/

/-- **What is gathered on the way** is in order, and the key has its form. -/
theorem Reaches.isSound (h : Reaches text past state draft tokens) :
    draft.IsPending (fun _ => True) state ∧ draft.HasContents (fun _ => True) state ∧
      draft.HasKeyForm (keyClauses past) state := by
  refine h.invariant (P := fun past state draft => draft.IsPending (fun _ => True) state ∧
    draft.HasContents (fun _ => True) state ∧ draft.HasKeyForm (keyClauses past) state) ?_ ?_
  · exact ⟨trivial, by rintro _ ⟨⟩, fun _ => ⟨rfl, rfl⟩, by rintro _ _ ⟨⟩, by rintro _ _ _ ⟨⟩,
      by rintro _ _ _ ⟨⟩, by rintro _ _ _ ⟨⟩⟩
  · intro past source before state draft token rest target after holds settles first lexed takes
    obtain ⟨pending, contents, form⟩ := holds
    have settled := settles.contents pending contents
    have formed := takes.keyForm (fun table found => (settled table found).1.keys)
      (settles.keyForm form)
    refine ⟨takes.isPending first (fun _ => trivial) (settles.isPending pending),
      takes.contents lexed (settles.isPending pending) settled, ?_⟩
    rwa [keyClauses, List.countP_append, List.countP_singleton]

/-- The word `PRIMARY` in a column is followed by `KEY`. -/
theorem target_of_primary
    (taken : step (.column .primary) draft token rest = .next target after left) :
    target = .column .primaryKey := by
  obtain ⟨middle, settled, settles, takes⟩ := step_cases taken
  cases settles with
  | refl =>
      generalize place : State.column .primary = s at takes
      cases takes with
      | beginKey => rfl
      | pass passes =>
          subst place
          cases target <;> exact absurd passes Bool.false_ne_true
      | body isBody =>
          subst place
          exact absurd isBody Bool.false_ne_true
      | extendType type =>
          obtain rfl := State.column.inj place
          cases type
      | autoincrement after =>
          obtain rfl := State.column.inj place
          exact absurd after Bool.false_ne_true
      | openBody opens => cases opens <;> exact absurd place (by simp)
      | check closes => cases closes <;> exact absurd place (by simp)
      | _ => exact absurd place (by simp)
  | column place => exact absurd place Bool.false_ne_true

/-- Where no key is declared, no step reads one in a column. -/
theorem Reaches.source_of_keyless (h : Reaches text past state draft tokens)
    (none : keyClauses past = 0) : ∀ transition ∈ past,
      ¬(transition.source = .column .primary ∨
        transition.source = .column (.conflictAction .primaryKey)) := by
  induction h with
  | start => simp
  | @next past state target draft after token rest left before taken ih =>
      rw [keyClauses, List.countP_append, Nat.add_eq_zero_iff] at none
      refine List.forall_mem_append.2 ⟨ih none.1, List.forall_mem_singleton.2 ?_⟩
      rintro (rfl | rfl)
      · -- The words `PRIMARY KEY` would be counted.
        rw [target_of_primary taken] at none
        exact absurd none.2 (by simp [State.opensKey])
      · exact absurd (before.isSound.2.2.unread none.1).2 (by simp [State.isAfterKey])

/-- Of a text without a key, no part declares one. -/
theorem Reaches.keyClauses_eq_zero (h : Reaches text past state draft tokens)
    (none : keyClauses (Statement.read text).transitions = 0) : keyClauses past = 0 := by
  rw [h.read_eq, keyClauses, List.countP_append, Nat.add_eq_zero_iff] at none
  exact none.1

/-! ### What follows a column -/

/-- **After the columns** only their names matter. -/
theorem Reaches.exists_outcome (h : Reaches text past state draft tokens)
    (on : ReadsOn state draft tokens later last final []) (accepting : last.isAccepting = true)
    (phase : draft.phase state = 2) (found : draft.statement = some (.table table))
    (same : other.columnNames = table.columnNames) :
    ∃ model, outcome state (draft.withTable other) tokens = .ok (.table model) := by
  have ends : final.phase last = draft.phase state :=
    Nat.le_antisymm (phase ▸ final.phase_le_two last) (on.phase_le h)
  obtain ⟨-, model, -, -, reads⟩ := h.withTable on ends (by simp [phase]) (by simp [phase])
    (fun _ => keptByConstraints_names) (fun _ _ _ => keptByKeys_names) found same
  exact ⟨model, reads.outcome_eq.trans (outcome_nil accepting rfl)⟩

namespace ColumnEnd

/-- **What is read between two columns** is read with an addition to the first one. -/
theorem outcome_between {first later : ColumnEnd text} {steps : List Transition}
    (on : ReadsOn first.target first.settled first.left steps later.state later.draft
      (later.token :: later.left)) (last : i + 1 ≤ first.table.columns.length)
    (fits : ∀ column, first.table.columns[i]? = some column → addition.Fits column)
    (keyless : addition.isKey = true → keyClauses (Statement.read text).transitions = 0) :
    addition.Earlier i later.table (addition.apply i later.table) ∧
      outcome first.target (first.settled.withTable (addition.apply i first.table)) first.left =
        outcome later.target (later.settled.withTable (addition.apply i later.table))
          later.left := by
  have reached := first.reached_next.append on
  obtain ⟨token, rest, past, steps', begun, left, plain, isName, rfl, added, on⟩ :=
    exists_addColumn on
  have keys : ∀ transition ∈ steps', transition.source = .column .primary ∨
      transition.source = .column (.conflictAction .primaryKey) →
        KeptByKeys (addition.Earlier i) := by
    intro transition member key
    cases kind : addition.isKey with
    | false => exact Addition.keptByKeys kind
    | true =>
        have none := reached.keyClauses_eq_zero (keyless kind)
        exact absurd key (reached.source_of_keyless none transition
          (List.mem_append_right _ (List.mem_cons_of_mem _ member)))
  obtain ⟨table, other, found, related, reads⟩ := added.withTable on later.phase_eq
    (by simp [Draft.phase]) (fun _ => Addition.keptByColumns) (by simp [Draft.phase]) keys rfl
    (Addition.earlier_addColumn last fits (Column.new token.text))
  -- The token after the column is taken with the addition as well.
  have unkeyed : ¬(later.state = .column .primary ∨
      later.state = .column (.conflictAction .primaryKey)) := by
    have complete := later.leaves.complete
    rintro (key | key) <;>
      exact absurd complete (by simp [key, Draft.settledColumn?, ColumnState.isSettled])
  obtain ⟨new, newOther, foundNew, relatedNew, leaves⟩ := step_withTable later.reached.hasParts
    (later.leaves.step later.left) (by simp [later.phase_eq]) (fun _ => Addition.keptByColumns)
    (by simp [later.phase_eq]) (fun key => absurd key unkeyed) found related
  obtain rfl := table_unique foundNew later.found
  obtain rfl := relatedNew.added
  refine ⟨relatedNew, ?_⟩
  rw [begun, left, outcome_next (step_addColumn plain isName _), ← outcome_next leaves]
  exact reads.outcome_eq

/-- **What is read after the columns** is read with another table of the same columns, after
the last column as well as after a constraint in this place. -/
theorem exists_outcome (place : ColumnEnd text) {steps : List Transition}
    (on : ReadsOn place.target place.settled place.left steps last final [])
    (accepting : last.isAccepting = true) (found : final.statement = some (.table table))
    (all : place.table.columns.length = table.columns.length)
    (same : other.columnNames = place.table.columnNames) : ∃ model,
      outcome place.target (place.settled.withTable other) place.left = .ok (.table model) ∧
        outcome (.constraint .done) (place.settled.withTable other) (place.token :: place.left) =
          .ok (.table model) := by
  obtain ⟨kind, begun⟩ | ⟨kind, closed⟩ := place.leaves.eq
  · obtain ⟨token, rest, s, after, past, steps', left, starts, constraint, reached, on⟩ :=
      place.exists_constraint begun on accepting found all
    have corresponds := @constraintStart_corresponds
      (fun table other => other.columnNames = table.columnNames) _ _ _ token place.found same
    rw [constraint] at corresponds
    obtain ⟨table', other', found', same', start⟩ := corresponds
    obtain ⟨model, read⟩ := reached.exists_outcome on accepting rfl found' same'
    have separated (next : Option Token) :
        Move.ofState (.constraint .done) (place.settled.withTable other) place.token next =
          .next (.constraint .begun) (place.settled.withTable other) := by
      rw [Move.ofState, Move.constraint, constraintBoundary, kind]
    have first (next : Option Token) :
        Move.ofState (.column .begun) (place.settled.withTable other) token next =
          .next (.constraint s) (after.withTable other') := by
      rw [Move.ofState, Move.column, if_pos starts, start]
    have second (next : Option Token) :
        Move.ofState (.constraint .begun) (place.settled.withTable other) token next =
          .next (.constraint s) (after.withTable other') := start
    rw [outcome_move (separated _), begun, left]
    exact ⟨model, (outcome_move (first _)).trans read, (outcome_move (second _)).trans read⟩
  · have ended (next : Option Token) :
        Move.ofState (.constraint .done) (place.settled.withTable other) place.token next =
          .next (.option .closed) (place.settled.withTable other) := by
      rw [Move.ofState, Move.constraint, constraintBoundary, kind]
    have reached := place.reached_next
    rw [closed] at on reached ⊢
    obtain ⟨model, read⟩ := reached.exists_outcome on accepting rfl place.found same
    exact ⟨model, read, (outcome_move (ended _)).trans read⟩

end ColumnEnd

/-! ### Both forms -/

/-- The column has nothing of the kind yet, and a table that gets a key has no other. -/
def Addition.IsNew (transitions : List Transition) (column : Column) : Addition → Prop
  | reference _ => column.references = none
  | unique _ => column.unique = false
  | key _ _ => keyClauses transitions = 0

/-- A new key is the only one. -/
theorem Addition.IsNew.keyClauses_eq_zero {transitions : List Transition}
    (new : addition.IsNew transitions column) (key : addition.isKey = true) :
    keyClauses transitions = 0 := by
  cases addition with
  | reference | unique => exact absurd key Bool.false_ne_true
  | key => exact new

/-- A column is found by its name in any case. -/
theorem columnIndex?_of_same {name other : String} (same : Text.same name other = true) :
    table.columnIndex? other = table.columnIndex? name := by
  have alike (column : Column) : column.isNamed other = column.isNamed name := by
    rw [Column.isNamed, Column.isNamed, Text.same, Text.same, Text.same_iff.1 same]
  exact congrArg (table.columns.findIdx? ·) (funext alike)

namespace ColumnEnd

variable (place : ColumnEnd text)

/-- A text without a key clause gives no column a place in the key. -/
theorem isKeyless (none : keyClauses (Statement.read text).transitions = 0) :
    place.table.IsKeyless :=
  place.reached_next.isSound.2.2.keyless (place.reached_next.keyClauses_eq_zero none) _ place.found

/-- The column that ends here can get what it does not have. -/
theorem fits (position : place.table.columns[i]? = some column)
    (new : addition.IsNew (Statement.read text).transitions column) :
    ∀ column, place.table.columns[i]? = some column → addition.Fits column := by
  intro other again
  obtain rfl := Option.some.inj (position.symm.trans again)
  cases addition with
  | reference => exact new
  | key => trivial
  | unique conflict =>
      have sound := (place.reached_next.isSound.2.1 _ place.found).1.columns column
        (List.mem_of_getElem? position)
      by_contra clause
      exact Bool.false_ne_true (Eq.trans (Eq.symm new) (sound.unique clause))

/-- A column ends before a comma or a parenthesis. -/
theorem startsItem : StartsItem (place.token :: place.left) := by
  have lexed := (List.forall_mem_cons.1 place.reached.lexed).1
  refine ⟨_, _, rfl, ?_⟩
  rcases place.leaves.kind with kind | kind
  · exact .inl (lexed.eq_punctuation comma kind (by simp))
  · exact .inr (lexed.eq_punctuation closeParen kind (by simp))

/-- The names of the columns up to here are the first ones of the table. -/
theorem names_prefix (reached : Reaches text past state draft [])
    (found : draft.statement = some (.table table)) :
    place.table.columnNames <+: table.columnNames := by
  obtain ⟨steps, on⟩ := place.exists_readsOn reached
  obtain ⟨new, again, names⟩ := place.reached_next.names_prefix on place.found
  obtain rfl := table_unique found again
  exact names

/-- At the end of the last column every column is found by its name. -/
theorem columnIndex?_eq {first later : ColumnEnd text} (distinct : table.HasDistinctNames)
    (reached : Reaches text past state draft [])
    (found : draft.statement = some (.table table))
    (all : later.table.columns.length = table.columns.length)
    (position : first.table.columns[i]? = some column) {name : String}
    (same : Text.same column.name name = true) : later.table.columnIndex? name = some i := by
  have names : later.table.columnNames = table.columnNames :=
    (later.names_prefix reached found).eq_of_length (by simp [Table.columnNames, all])
  obtain ⟨more, split⟩ := first.names_prefix reached found
  obtain ⟨bound, rfl⟩ := List.getElem?_eq_some_iff.1 position
  have here : table.columnNames[i]? = some first.table.columns[i].name := by
    rw [← split, List.getElem?_append_left (by rwa [Table.columnNames, List.length_map])]
    simp [Table.columnNames, bound]
  obtain ⟨c, found, name⟩ : ∃ c, table.columns[i]? = some c ∧
      c.name = first.table.columns[i].name := by simpa [Table.columnNames] using here
  rw [columnIndex?_congr names, columnIndex?_of_same same, ← name]
  exact distinct.columnIndex? found

/-- What follows is read with an addition to a column: from the end of its definition, and from
the end of the last column after a constraint in this place. -/
theorem exists_both {first later : ColumnEnd text} (here : i + 1 = first.table.columns.length)
    (position : first.table.columns[i]? = some column)
    (new : addition.IsNew (Statement.read text).transitions column)
    (reached : Reaches text past last final []) (accepting : last.isAccepting = true)
    (found : final.statement = some (.table table))
    (all : later.table.columns.length = table.columns.length) :
    (∀ column, later.table.columns[i]? = some column → addition.Fits column) ∧ ∃ model,
      outcome first.target (first.settled.withTable (addition.apply i first.table)) first.left =
          .ok (.table model) ∧
        outcome (.constraint .done) (later.settled.withTable (addition.apply i later.table))
          (later.token :: later.left) = .ok (.table model) := by
  have fits := first.fits position new
  have count : first.table.columns.length ≤ later.table.columns.length := by
    have names := (first.names_prefix reached found).length_le
    rw [Table.columnNames, Table.columnNames, List.length_map, List.length_map] at names
    rwa [all]
  obtain ⟨steps, after⟩ := later.exists_readsOn reached
  obtain ⟨model, atColumn, atTable⟩ := later.exists_outcome after accepting found all
    (Addition.columnNames_apply addition later.table)
  obtain rfl | ⟨steps, on⟩ := eq_or_readsOn count
  · exact ⟨fits, model, atColumn, atTable⟩
  · have keyless (key : addition.isKey = true) :
        keyClauses (Statement.read text).transitions = 0 := by
      cases addition with
      | reference | unique => exact absurd key Bool.false_ne_true
      | key => exact new
    obtain ⟨earlier, same⟩ := outcome_between on here.le fits keyless
    exact ⟨earlier.fits, model, same.trans atColumn, atTable⟩

end ColumnEnd

/-- The first token of a constraint of a column ends what comes before it. -/
theorem ConstraintForms.head {name : String} {form form' : List Token}
    (h : ConstraintForms name addition form form') :
    ∃ token rest, form = token :: rest ∧ token.EndsPart ∧ token.is .NOT = false := by
  have head {token : Token} {k : Keyword} (word : token.is k = true) (opens : k.opensPart = true)
      (other : k ≠ .NOT) : token.EndsPart ∧ token.is .NOT = false := by
    refine ⟨.inr (.inr ⟨k, opens, word⟩), ?_⟩
    simp [Token.is, keyword?_of_is word, other]
  cases h with
  | reference opens | unique opens | key opens =>
      exact ⟨_, _, rfl, head opens rfl (by simp)⟩

/-- **Both forms of a constraint make the same table.** In a text whose columns have different
names, every column has a place where its definition ends. A constraint that is new to a column
can be written there, or as the first constraint of the table in front of what follows the last
column. Both texts are read to the end, and their tables are equal. -/
theorem parse_constraintForms (whole : Statement.parse text = .ok (.table table))
    (distinct : table.HasDistinctNames) :
    (∀ k < table.columns.length, ∃ place : ColumnEnd text,
      place.table.columns.length = k + 1) ∧
    ∀ (first last : ColumnEnd text) {column : Column} {addition : Addition}
      {form form' : List Token} {columnText tableText : String},
      first.table.columns.getLast? = some column →
      last.table.columns.length = table.columns.length →
      addition.IsNew (Statement.read text).transitions column →
      ConstraintForms column.name addition form form' →
      Statement.trim (tokenize columnText) =
        first.before ++ (form ++ first.token :: first.left) →
      Statement.trim (tokenize tableText) =
        last.before ++ comma :: (form' ++ last.token :: last.left) →
      ∃ model, Statement.parse columnText = .ok (.table model) ∧
        Statement.parse tableText = .ok (.table model) := by
  obtain ⟨past, state, draft, reached, accepting, found⟩ := exists_final whole
  refine ⟨fun k inside => ?_, ?_⟩
  · obtain ⟨place, count, -⟩ := reached.exists_columnEnd found inside fun _ defines => by
      cases state <;> first
        | exact defines
        | exact Bool.false_ne_true accepting
    exact ⟨place, count⟩
  · intro first last column addition form form' columnText tableText here all new forms columnTokens
      tableTokens
    have position := List.getLast?_eq_getElem?.symm.trans here
    have count : first.table.columns.length - 1 + 1 = first.table.columns.length :=
      Nat.succ_pred_eq_of_pos (List.length_pos_of_mem (List.mem_of_getLast? here))
    obtain ⟨fits, model, atColumn, atTable⟩ :=
      ColumnEnd.exists_both count position new reached accepting found all
    refine ⟨model, ?_, ?_⟩
    · -- At the end of the definition of the column.
      obtain ⟨token, ts, rfl, ends, notNot⟩ := forms.head
      refine first.parse_eq_ok columnTokens ends notNot ?_
      refine outcome_columnForm first.found count (first.leaves.kind.imp_right .inl) forms
        first.isBlank (is_eq_false_of_kind first.leaves.kind .NOT) (first.fits position new)
        (fun key => first.isKeyless (new.keyClauses_eq_zero key)) ?_
      exact (outcome_move (first.leaves.move_eq _ _)).trans atColumn
    · -- As the first constraint of the table.
      refine last.parse_eq_ok tableTokens (.inl rfl) rfl ((outcome_move rfl).trans ?_)
      exact outcome_tableForm last.found last.isBlank
        (fun _ same => ColumnEnd.columnIndex?_eq distinct reached found all position same)
        last.startsItem forms fits (fun key => last.isKeyless (new.keyClauses_eq_zero key)) atTable

/-- A text with two columns and a condition. -/
def Table.pairText : String :=
  "CREATE TABLE t (a, b, CHECK (a))"

/-- The text where the first column refers to another table. -/
def Table.pairColumnText : String :=
  "CREATE TABLE t (a REFERENCES p, b, CHECK (a))"

/-- The text with a foreign key instead. -/
def Table.pairKeyText : String :=
  "CREATE TABLE t (a, b, FOREIGN KEY (a) REFERENCES p, CHECK (a))"

/-- The text where the first column is unique. -/
def Table.pairUniqueText : String :=
  "CREATE TABLE t (a UNIQUE ON CONFLICT IGNORE, b, CHECK (a))"

/-- The text with a unique list instead. -/
def Table.pairUniqueListText : String :=
  "CREATE TABLE t (a, b, UNIQUE (a) ON CONFLICT IGNORE, CHECK (a))"

/-- The text where the first column is the key. -/
def Table.pairPrimaryText : String :=
  "CREATE TABLE t (a PRIMARY KEY ON CONFLICT FAIL AUTOINCREMENT, b, CHECK (a))"

/-- The text with a key list instead. -/
def Table.pairPrimaryListText : String :=
  "CREATE TABLE t (a, b, PRIMARY KEY (a ASC AUTOINCREMENT) ON CONFLICT FAIL, CHECK (a))"

/-- The tokens of the text up to its first column. -/
def Table.pairHead : List Token :=
  [keyword .CREATE, keyword .TABLE, Token.name "t", openParen, Token.name "a"]

/-- The tokens of the text after its last column. -/
def Table.pairTail : List Token :=
  [keyword .CHECK, openParen, Token.name "a", closeParen, closeParen]

/-- The reference of the column. -/
def Table.pairReference : List Token :=
  [keyword .REFERENCES, Token.name "p"]

/-- The foreign key. -/
def Table.pairForeignKey : List Token :=
  [keyword .FOREIGN, keyword .KEY, openParen, Token.name "a", closeParen, keyword .REFERENCES,
    Token.name "p"]

/-- The first column is unique. -/
def Table.pairUnique : List Token :=
  [keyword .UNIQUE, keyword .ON, keyword .CONFLICT, keyword .IGNORE]

/-- The same as a constraint of the table. -/
def Table.pairUniqueList : List Token :=
  [keyword .UNIQUE, openParen, Token.name "a", closeParen, keyword .ON, keyword .CONFLICT,
    keyword .IGNORE]

/-- The first column is the key. -/
def Table.pairPrimary : List Token :=
  [keyword .PRIMARY, keyword .KEY, keyword .ON, keyword .CONFLICT, keyword .FAIL,
    keyword .AUTOINCREMENT]

/-- The same as a constraint of the table. -/
def Table.pairPrimaryList : List Token :=
  [keyword .PRIMARY, keyword .KEY, openParen, Token.name "a", keyword .ASC,
    keyword .AUTOINCREMENT, closeParen, keyword .ON, keyword .CONFLICT, keyword .FAIL]

/-- The table of the text. -/
def Table.pair : Table where
  name := "t"
  columns := [Column.new "a", Column.new "b"]
  checks := ["a"]

/-- The text as it is read: its tokens, and its table. -/
theorem Table.read_pairText :
    tokenize pairText = pairHead ++ comma :: Token.name "b" :: comma :: pairTail ∧
      Statement.parse pairText = .ok (.table pair) ∧
      keyClauses (Statement.read pairText).transitions = 0 := by
  have same : tokenize pairText = pairHead ++
      comma :: Token.name "b" :: comma :: pairTail := by
    rw [← Lexer.tokens_toList]
    cbv
  rw [Statement.parse, read_of_tokenize same (by decide)]
  exact ⟨same, by decide +kernel, by decide +kernel⟩

/-- The tokens of the text with a constraint in its first column. -/
def Table.pairWithin (form : List Token) : List Token :=
  pairHead ++ (form ++ comma :: Token.name "b" :: comma :: pairTail)

/-- The tokens of the text with a constraint after its columns. -/
def Table.pairBehind (form : List Token) : List Token :=
  (pairHead ++ [comma, Token.name "b"]) ++ comma :: (form ++ comma :: pairTail)

/-- The tokens of both texts are valid if those of the constraint are. -/
theorem Table.kind_ne_invalid_pair {form : List Token} (valid : ∀ t ∈ form, t.kind ≠ .invalid) :
    (∀ t ∈ pairWithin form, t.kind ≠ .invalid) ∧ ∀ t ∈ pairBehind form, t.kind ≠ .invalid :=
  ⟨List.forall_mem_append.2 ⟨by decide, List.forall_mem_append.2 ⟨valid, by decide⟩⟩,
    List.forall_mem_append.2 ⟨by decide, List.forall_mem_cons.2
      ⟨by decide, List.forall_mem_append.2 ⟨valid, by decide⟩⟩⟩⟩

/-- Two texts as they are read: the first has a form of a constraint in its first column, the
other has a form after its columns, and the table is that of the first. -/
structure Table.ReadsPair (form form' : List Token) (columnText tableText : String)
    (found : Table) : Prop where
  /-- The tokens of the first text. -/
  columnTokens : tokenize columnText = pairWithin form
  /-- The tokens of the other text. -/
  tableTokens : tokenize tableText = pairBehind form'
  /-- The tokens of the first form are valid. -/
  columnValid : ∀ t ∈ form, t.kind ≠ .invalid
  /-- The tokens of the other form are valid. -/
  tableValid : ∀ t ∈ form', t.kind ≠ .invalid
  /-- The table is found by a run over the tokens of the first text. -/
  run : (runWithin (pairWithin form).length (.opening .start) {} (pairWithin form)).complete =
    .ok (.table found)

/-- The first text is read as the table. -/
theorem Table.ReadsPair.parse {form form' : List Token} {columnText tableText : String}
    {found : Table} (texts : ReadsPair form form' columnText tableText found) :
    Statement.parse columnText = .ok (.table found) := by
  rw [Statement.parse,
    read_of_tokenize texts.columnTokens (kind_ne_invalid_pair texts.columnValid).1]
  exact texts.run

/-- The texts with a reference as they are read. -/
theorem Table.readsPair_reference :
    ReadsPair pairReference pairForeignKey pairColumnText pairKeyText { pair with
      columns := [{ Column.new "a" with references := some ⟨"p", [], ""⟩ },
        Column.new "b"] } where
  columnTokens := by rw [← Lexer.tokens_toList]; cbv
  tableTokens := by rw [← Lexer.tokens_toList]; cbv
  columnValid := by decide
  tableValid := by decide
  run := by decide +kernel

/-- The texts with a unique column as they are read. -/
theorem Table.readsPair_unique :
    ReadsPair pairUnique pairUniqueList pairUniqueText pairUniqueListText { pair with
      columns := [{ Column.new "a" with unique := true, uniqueConflict := some .ignore },
        Column.new "b"] } where
  columnTokens := by rw [← Lexer.tokens_toList]; cbv
  tableTokens := by rw [← Lexer.tokens_toList]; cbv
  columnValid := by decide
  tableValid := by decide
  run := by decide +kernel

/-- The texts with a key as they are read. -/
theorem Table.readsPair_primary :
    ReadsPair pairPrimary pairPrimaryList pairPrimaryText pairPrimaryListText { pair with
      columns := [{ Column.new "a" with
        inKey := true, isWholeKey := true, autoincrement := true }, Column.new "b"]
      primaryKey := [0]
      keyConflict := some .fail } where
  columnTokens := by rw [← Lexer.tokens_toList]; cbv
  tableTokens := by rw [← Lexer.tokens_toList]; cbv
  columnValid := by decide
  tableValid := by decide
  run := by decide +kernel

/-- A reference, a unique column and a key: each is new in the text, and both its forms are
read as one table. -/
theorem Table.parse_pairForms :
    Statement.parse pairText = .ok (.table pair) ∧ pair.HasDistinctNames ∧
      tokenize pairText = pairHead ++ comma :: Token.name "b" :: comma :: pairTail ∧
      (∃ model, Statement.parse pairColumnText = .ok (.table model) ∧
        Statement.parse pairKeyText = .ok (.table model) ∧
        model = { pair with
          columns := [{ Column.new "a" with references := some ⟨"p", [], ""⟩ },
            Column.new "b"] }) ∧
      (∃ model, Statement.parse pairUniqueText = .ok (.table model) ∧
        Statement.parse pairUniqueListText = .ok (.table model) ∧
        model = { pair with
          columns := [{ Column.new "a" with unique := true, uniqueConflict := some .ignore },
            Column.new "b"] }) ∧
      ∃ model, Statement.parse pairPrimaryText = .ok (.table model) ∧
        Statement.parse pairPrimaryListText = .ok (.table model) ∧
        model = { pair with
          columns := [{ Column.new "a" with
            inKey := true, isWholeKey := true, autoincrement := true }, Column.new "b"]
          primaryKey := [0]
          keyConflict := some .fail } := by
  obtain ⟨same, whole, keyless⟩ := read_pairText
  have distinct : pair.HasDistinctNames := by decide +kernel
  have trimmed := (congrArg Statement.trim same).trans (trim_of_valid (by decide))
  have begun := @Reaches.start pairText
  rw [trimmed] at begun
  have afterFirst := ((((begun.next rfl).next rfl).next rfl).next rfl).next rfl
  have afterLast := (afterFirst.next rfl).next rfl
  let first : ColumnEnd pairText :=
    ⟨_, _, _, comma, pairHead, _, _, _, _, afterFirst, .comma rfl rfl, rfl, trimmed⟩
  let last : ColumnEnd pairText :=
    ⟨_, _, _, comma, pairHead ++ [comma, Token.name "b"], _, _, _, _, afterLast,
      .comma rfl rfl, rfl, trimmed⟩
  -- The two texts differ in their forms only, and the model is found by reading the first one.
  have alike {addition : Addition} {form form' : List Token} {columnText tableText : String}
      {found : Table} (texts : ReadsPair form form' columnText tableText found)
      (forms : ConstraintForms "a" addition form form')
      (new : addition.IsNew (Statement.read pairText).transitions (Column.new "a")) :
      ∃ model, Statement.parse columnText = .ok (.table model) ∧
        Statement.parse tableText = .ok (.table model) ∧ model = found := by
    obtain ⟨columnValid, -⟩ := kind_ne_invalid_pair texts.columnValid
    obtain ⟨-, tableValid⟩ := kind_ne_invalid_pair texts.tableValid
    obtain ⟨model, columnRead, tableRead⟩ :=
      (parse_constraintForms whole distinct).2 first last rfl rfl new forms
        ((congrArg Statement.trim texts.columnTokens).trans (trim_of_valid columnValid))
        ((congrArg Statement.trim texts.tableTokens).trans (trim_of_valid tableValid))
    exact ⟨model, columnRead, tableRead, by simpa [columnRead] using texts.parse⟩
  have ignores :
      SpellsConflict (some .ignore) [keyword .ON, keyword .CONFLICT, keyword .IGNORE] :=
    .action rfl rfl rfl
  have fails : SpellsConflict (some .fail) [keyword .ON, keyword .CONFLICT, keyword .FAIL] :=
    .action rfl rfl rfl
  have reference : SpellsReference ⟨"p", [], render []⟩ [Token.name "p"] :=
    .whole (@ReferencePath.parent (Token.name "p") rfl) rfl
  have names : (Token.name "a").Names "a" := ⟨rfl, Text.same_refl _⟩
  refine ⟨whole, distinct, same, ?_, ?_, ?_⟩
  · exact alike readsPair_reference (.reference rfl reference rfl rfl names) rfl
  · exact alike readsPair_unique (.unique rfl ignores rfl names ignores) rfl
  · exact alike readsPair_primary (.key rfl rfl .absent fails (.present rfl) rfl rfl names
      (.present rfl) (.present rfl) fails) keyless

end SchemaText
