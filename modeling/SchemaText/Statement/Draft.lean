import SchemaText.Statement.State
import SchemaText.Expr.Error
import SchemaText.Statement.Basic

/-!
# Drafts of statements

What the statement parser has gathered so far: the statement, as far as it is known, and
the parts of it that are still being read.

Some moves of the parser change a part that has to be there, such as the column that is
being defined. `Draft.changeTable`, `Draft.changeColumn` and `Draft.changeIndex` fail if it
is missing, and the move is then refused for that reason.

## Main definitions

* `Draft`: what has been gathered.
* `Refusal`: why the parser stops at a token.
* `Move`: what the parser does with a token.
* `Draft.finishKey`, `Draft.finishReference`: put a complete key or reference where it
  belongs.

## Main results

* `Draft.finishesKey`: **what becomes of a complete key list**, case by case.
* `Draft.enterUnique_cases`, `Draft.enterForeignKey_cases`: where a unique key and a foreign
  key are put.
-/

namespace SchemaText

/-- A key list of the table that is being read. -/
structure PendingKey where
  /-- Whether it is the primary key. -/
  isPrimary : Bool := false
  /-- The columns read so far. -/
  columns : List KeyPart := []
  /-- Whether `AUTOINCREMENT` was read. -/
  autoincrement : Bool := false
  /-- The conflict clause, once it was read. -/
  conflict : Option ConflictAction := none
  deriving DecidableEq, Repr

/-- Who a reference that is being read belongs to. -/
inductive ReferenceOwner
  /-- The column that is being defined. -/
  | column
  /-- A foreign key of the table over these columns. -/
  | table (columns : List String)
  deriving DecidableEq, Repr

/-- What has been gathered of a statement. -/
structure Draft where
  /-- The statement, once it is known what is defined. -/
  statement : Option Statement := none
  /-- Whether the table will be temporary. -/
  temporary : Bool := false
  /-- The tokens of the type that is being read. -/
  typeTokens : List Token := []
  /-- The tokens of the condition or rule that is being read. -/
  body : List Token := []
  /-- How many parentheses are open in it. -/
  depth : Nat := 0
  /-- Whether the rule that is being read began with `GENERATED ALWAYS`. -/
  generatedAlways : Bool := false
  /-- The key list that is being read. -/
  key : PendingKey := {}
  /-- The reference that is being read. -/
  reference : Reference := ⟨"", [], ""⟩
  /-- Who that reference belongs to. -/
  owner : ReferenceOwner := .column
  /-- The tokens of its clauses. -/
  clauses : List Token := []
  deriving DecidableEq, Repr

/-- Why the statement parser stops. -/
inductive Refusal
  /-- No statement goes on like this. -/
  | unexpected
  /-- A primary key over a column that is not defined. -/
  | unknownKeyColumn (name : String)
  /-- What follows `DEFAULT` is no default value. -/
  | invalidDefault (error : ExprError)
  /-- What follows the table of an index is no list of terms. -/
  | invalidTerms (error : ExprError)
  /-- What follows `WHERE` is no expression. -/
  | invalidPredicate (error : ExprError)
  /-- The part of the draft that a token belongs to is missing. -/
  | missingPart
  deriving DecidableEq, Repr

/-- The places where an expression is embedded in a statement. -/
inductive Embedding
  /-- The default value of a column. -/
  | default
  /-- The terms of an index. -/
  | terms
  /-- The condition of an index. -/
  | predicate
  deriving DecidableEq, Repr

/-- What the statement parser does with a token. -/
inductive Move
  /-- It takes the token and goes on. -/
  | next (state : State) (draft : Draft)
  /-- It takes the token and reads an expression from those that follow. -/
  | embed (place : Embedding) (draft : Draft)
  /-- It refuses the token. -/
  | refuse (why : Refusal) (draft : Draft)

namespace Draft

/-! ### Parts of the statement -/

/-- The draft with its table changed, if it has one. -/
def changeTable (draft : Draft) (f : Table → Table) : Option Draft :=
  match draft.statement with
  | some (.table table) => some { draft with statement := some (.table (f table)) }
  | _ => none

/-- The draft with its index changed, if it has one. -/
def changeIndex (draft : Draft) (f : Index → Index) : Option Draft :=
  match draft.statement with
  | some (.index index) => some { draft with statement := some (.index (f index)) }
  | _ => none

/-- The draft with the column that is being defined changed, if there is one. -/
def changeColumn (draft : Draft) (f : Column → Column) : Option Draft :=
  match draft.statement with
  | some (.table table) =>
    if table.columns.isEmpty then none
    else
      some { draft with
        statement := some (.table (table.modifyColumn (table.columns.length - 1) f)) }
  | _ => none

/-- Goes on to a state with a changed draft; refuses if the part to change is missing. -/
def go (draft : Draft) (state : State) (changed : Option Draft) : Move :=
  match changed with
  | some after => .next state after
  | none => .refuse .missingPart draft

/-- Goes on to a state if the token fits. -/
def goIf (draft : Draft) (fits : Bool) (state : State) : Move :=
  if fits then .next state draft else .refuse .unexpected draft

/-! ### Conditions and rules -/

/-- The draft at the opening parenthesis of a condition or rule. -/
def openBody (draft : Draft) : Draft :=
  { draft with body := [], depth := 1 }

/-- Takes one token of a condition or rule. At its closing parenthesis, gives its text. -/
def takeBody (draft : Draft) (token : Token) : Draft × Option String :=
  match token.kind with
  | .openParen =>
    ({ draft with body := draft.body ++ [token], depth := draft.depth + 1 }, none)
  | .closeParen =>
    if draft.depth - 1 = 0 then
      ({ draft with body := [], depth := draft.depth - 1 }, some (render draft.body))
    else
      ({ draft with body := draft.body ++ [token], depth := draft.depth - 1 }, none)
  | _ => ({ draft with body := draft.body ++ [token] }, none)

/-! ### Keys -/

/-- Puts the columns of a key list into the primary key of the table, one by one, up to the
first one that is not defined; that one is reported. -/
def enterKey (autoincrement : Bool) : List KeyPart → Table → Table × Option String
  | [], table => (table, none)
  | part :: parts, table =>
    match table.columnIndex? part.name with
    | none => (table, some part.name)
    | some index =>
      enterKey autoincrement parts <|
        (table.setKeyMember index true).modifyColumn index fun column =>
          { column with
            tableDesc := part.descending
            autoincrement := column.autoincrement || autoincrement }

/-- The position of the column that a unique key constrains on its own: its only column, if
it is defined and the key says nothing else about it. -/
def loneColumn? (columns : List KeyPart) (table : Table) : Option Nat :=
  match columns with
  | [part] =>
    if part.collation.isNone && !part.descending then table.columnIndex? part.name else none
  | _ => none

/-- Adds a unique key to the table, or to the column it constrains on its own. -/
def enterUnique (key : PendingKey) (table : Table) : Table :=
  match loneColumn? key.columns table with
  | some index =>
    table.modifyColumn index fun column =>
      { column with unique := true, uniqueConflict := key.conflict }
  | none => { table with uniques := table.uniques ++ [⟨key.columns, key.conflict⟩] }

/-- Puts a complete key list into the table. -/
def finishKey (draft : Draft) : Draft × Option Refusal :=
  let rest := { draft with key := {} }
  match draft.statement with
  | some (.table table) =>
    if draft.key.isPrimary then
      match enterKey draft.key.autoincrement draft.key.columns table with
      | (entered, some unknown) =>
        ({ rest with statement := some (.table entered) }, some (.unknownKeyColumn unknown))
      | (entered, none) =>
        let resolved := { entered with
          keyConflict := draft.key.conflict.or entered.keyConflict }
        ({ rest with statement := some (.table resolved) }, none)
    else
      ({ rest with statement := some (.table (enterUnique draft.key table)) }, none)
  | _ => (rest, some .missingPart)

/-- A unique key marks the column that it constrains on its own, or is added to the table. -/
theorem enterUnique_cases (key : PendingKey) (table : Table) :
    (∃ i, loneColumn? key.columns table = some i ∧ enterUnique key table =
      table.modifyColumn i fun column =>
        { column with unique := true, uniqueConflict := key.conflict }) ∨
    (loneColumn? key.columns table = none ∧ enterUnique key table =
      { table with uniques := table.uniques ++ [⟨key.columns, key.conflict⟩] }) := by
  cases lone : loneColumn? key.columns table with
  | some i => exact .inl ⟨i, rfl, by rw [enterUnique, lone]⟩
  | none => exact .inr ⟨rfl, by rw [enterUnique, lone]⟩

/-- What becomes of a complete key list: it needs a table; as the primary key it is entered as
far as its columns are defined; any other list is a unique key. -/
inductive FinishesKey (draft : Draft) : Draft × Option Refusal → Prop
  | missing (none : ∀ table, draft.statement ≠ some (.table table)) :
      FinishesKey draft ({ draft with key := {} }, some .missingPart)
  | unknown {table entered : Table} {name : String}
      (found : draft.statement = some (.table table)) (primary : draft.key.isPrimary = true)
      (entering : enterKey draft.key.autoincrement draft.key.columns table =
        (entered, some name)) :
      FinishesKey draft
        ({ draft with key := {}, statement := some (.table entered) },
          some (.unknownKeyColumn name))
  | primary {table entered : Table}
      (found : draft.statement = some (.table table)) (primary : draft.key.isPrimary = true)
      (entering : enterKey draft.key.autoincrement draft.key.columns table = (entered, none)) :
      FinishesKey draft
        ({ draft with
            key := {}
            statement := some (.table
              { entered with keyConflict := draft.key.conflict.or entered.keyConflict }) },
          none)
  | unique {table : Table} (found : draft.statement = some (.table table))
      (unique : draft.key.isPrimary = false) :
      FinishesKey draft
        ({ draft with key := {}, statement := some (.table (enterUnique draft.key table)) }, none)

/-- Every complete key list is one of the cases: the relation leaves out nothing that
`finishKey` does. -/
theorem finishesKey (draft : Draft) : draft.FinishesKey draft.finishKey := by
  unfold finishKey
  split
  · rename_i table found
    cases primary : draft.key.isPrimary with
    | true =>
        rw [if_pos rfl]
        split
        · rename_i entered name entering
          exact .unknown found primary entering
        · rename_i entered entering
          exact .primary found primary entering
    | false => exact .unique found primary
  · rename_i none
    exact .missing none

/-! ### References -/

/-- The draft at `REFERENCES`. -/
def openReference (draft : Draft) (owner : ReferenceOwner) : Draft :=
  { draft with reference := ⟨"", [], ""⟩, owner := owner, clauses := [] }

/-- The position of the column that a foreign key constrains on its own: its only column, if
it is defined and refers to no table yet. -/
def loneChild? (columns : List String) (table : Table) : Option Nat :=
  match columns with
  | [name] =>
    match table.columnIndex? name with
    | some index =>
      if table.columns[index]?.any (·.references.isNone) then some index else none
    | none => none
  | _ => none

/-- Adds a foreign key to the table, or to the column it constrains on its own. -/
def enterForeignKey (columns : List String) (reference : Reference) (table : Table) : Table :=
  match loneChild? columns table with
  | some index =>
    table.modifyColumn index fun column => { column with references := some reference }
  | none => { table with foreignKeys := table.foreignKeys ++ [⟨columns, reference⟩] }

/-- A foreign key becomes the reference of the column that it constrains on its own, or is
added to the table. -/
theorem enterForeignKey_cases (columns : List String) (reference : Reference) (table : Table) :
    (∃ i, loneChild? columns table = some i ∧ enterForeignKey columns reference table =
      table.modifyColumn i fun column => { column with references := some reference }) ∨
    (loneChild? columns table = none ∧ enterForeignKey columns reference table =
      { table with foreignKeys := table.foreignKeys ++ [⟨columns, reference⟩] }) := by
  cases lone : loneChild? columns table with
  | some i => exact .inl ⟨i, rfl, by rw [enterForeignKey, lone]⟩
  | none => exact .inr ⟨rfl, by rw [enterForeignKey, lone]⟩

/-- Gives a complete reference to its owner, if the owner is there. -/
def finishReference (draft : Draft) : Option Draft :=
  let reference := { draft.reference with clauses := render draft.clauses }
  let rest := draft.openReference .column
  match draft.owner with
  | .column => rest.changeColumn fun column => { column with references := some reference }
  | .table columns => rest.changeTable (enterForeignKey columns reference)

end Draft

end SchemaText
