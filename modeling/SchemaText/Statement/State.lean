/-!
# States of the statement parser

The statement parser reads one token at a time. Its state says what was read last; the
states are grouped by the part of the statement they belong to.

## Main definitions

* `State`: the states, with `State.name` and `State.isAccepting`.
-/

namespace SchemaText

/-- States before it is known what is defined. -/
inductive OpeningState
  /-- Nothing has been read. -/
  | start
  | create
  | createTemp
  | createUnique
  deriving DecidableEq, Repr

/-- States in the name of a table or an index. -/
inductive NameState
  /-- After `TABLE` or `INDEX`. -/
  | begun
  | guardIf
  | guardNot
  | guardExists
  | named
  | dotted
  | qualified
  deriving DecidableEq, Repr

/-- The constraints of a column that can have a conflict clause. -/
inductive ConflictOwner
  | primaryKey
  | notNull
  | unique
  deriving DecidableEq, Repr

/-- States in one number of a type width. -/
inductive WidthState
  | opened
  | signed
  | numbered
  deriving DecidableEq, Repr

/-- States in the definition of a column. -/
inductive ColumnState
  /-- Where a column or the first constraint of the table begins. -/
  | begun
  /-- In the type, which may be empty. -/
  | type
  | width (second : Bool) (part : WidthState)
  /-- Between constraints. -/
  | constraints
  | constraintName
  | named
  | primary
  | primaryKey
  | primaryOrdered
  | primaryResolved
  | not
  | notNull
  | unique
  | conflictOn (owner : ConflictOwner)
  | conflictAction (owner : ConflictOwner)
  | check
  | checkBody
  | collate
  | generated
  | generatedAlways
  | generatedAs
  | generatedBody
  | generatedEnd
  deriving DecidableEq, Repr

/-- States in a reference to a parent table. -/
inductive ReferenceState
  /-- After `REFERENCES`. -/
  | begun
  | table
  | column
  | columnName
  /-- Between clauses. -/
  | clauses
  | matching
  | on
  | action
  | set
  | no
  | not
  | deferrable
  | initially
  deriving DecidableEq, Repr

/-- States in a constraint of the table. -/
inductive ConstraintState
  /-- After the comma that follows a constraint. -/
  | begun
  | constraintName
  | named
  | primary
  | primaryKey
  | unique
  | keyColumn
  | keyColumnName
  | keyCollate
  | keyCollated
  | keyOrdered
  | keyEnd
  | keyOn
  | keyConflict
  | check
  | checkBody
  | foreign
  | foreignKey
  | foreignColumn
  | foreignColumnName
  | foreignReferences
  /-- After a complete constraint. -/
  | done
  deriving DecidableEq, Repr

/-- States after the closing parenthesis of a table. -/
inductive OptionState
  | closed
  | without
  | done
  | next
  deriving DecidableEq, Repr

/-- States after the name of an index. -/
inductive TermState
  | on
  | table
  | terms
  | closed
  | predicate
  deriving DecidableEq, Repr

/-- A state of the statement parser. -/
inductive State
  | opening (state : OpeningState)
  | tableName (state : NameState)
  | column (state : ColumnState)
  | reference (state : ReferenceState)
  | constraint (state : ConstraintState)
  | option (state : OptionState)
  | indexName (state : NameState)
  | term (state : TermState)
  deriving DecidableEq, Repr

namespace State

/-- What the name of a state in an object name ends with. -/
def nameSuffix : NameState → String
  | .begun => ""
  | .guardIf => "If"
  | .guardNot => "IfNot"
  | .guardExists => "IfNotExists"
  | .named => "Name"
  | .dotted => "SchemaDot"
  | .qualified => "Qualified"

/-- What the name of a state in a type width ends with. -/
def widthSuffix : WidthState → String
  | .opened => ""
  | .signed => "Sign"
  | .numbered => "Number"

/-- What a constraint with a conflict clause is called in the name of a state. -/
def ownerName : ConflictOwner → String
  | .primaryKey => "Primary"
  | .notNull => "NotNull"
  | .unique => "Unique"

/-- The name of a state in a column definition, after `Column`. -/
def columnSuffix : ColumnState → String
  | .begun => "Name"
  | .type => "Type"
  | .width second part => "Width" ++ (if second then "Second" else "") ++ widthSuffix part
  | .constraints => "Constraints"
  | .constraintName => "ConstraintName"
  | .named => "NamedConstraint"
  | .primary => "Primary"
  | .primaryKey => "PrimaryKey"
  | .primaryOrdered => "PrimaryOrdered"
  | .primaryResolved => "PrimaryResolved"
  | .not => "Not"
  | .notNull => "NotNull"
  | .unique => "Unique"
  | .conflictOn owner => ownerName owner ++ "On"
  | .conflictAction owner => ownerName owner ++ "Conflict"
  | .check => "Check"
  | .checkBody => "CheckBody"
  | .collate => "Collate"
  | .generated => "Generated"
  | .generatedAlways => "GeneratedAlways"
  | .generatedAs => "GeneratedAs"
  | .generatedBody => "GeneratedBody"
  | .generatedEnd => "GeneratedEnd"

/-- The name of a state in a reference, after `References`. -/
def referenceSuffix : ReferenceState → String
  | .begun => ""
  | .table => "Table"
  | .column => "Column"
  | .columnName => "ColumnName"
  | .clauses => "Clauses"
  | .matching => "Match"
  | .on => "On"
  | .action => "Action"
  | .set => "Set"
  | .no => "No"
  | .not => "Not"
  | .deferrable => "Deferrable"
  | .initially => "Initially"

/-- The name of a state in a constraint of the table, after `Table`. -/
def constraintSuffix : ConstraintState → String
  | .begun => "Constraint"
  | .constraintName => "ConstraintName"
  | .named => "NamedConstraint"
  | .primary => "Primary"
  | .primaryKey => "PrimaryKey"
  | .unique => "Unique"
  | .keyColumn => "KeyColumn"
  | .keyColumnName => "KeyColumnName"
  | .keyCollate => "KeyCollate"
  | .keyCollated => "KeyCollated"
  | .keyOrdered => "KeyOrdered"
  | .keyEnd => "KeyEnd"
  | .keyOn => "KeyOn"
  | .keyConflict => "KeyConflict"
  | .check => "Check"
  | .checkBody => "CheckBody"
  | .foreign => "Foreign"
  | .foreignKey => "ForeignKey"
  | .foreignColumn => "ForeignColumn"
  | .foreignColumnName => "ForeignColumnName"
  | .foreignReferences => "ForeignReferences"
  | .done => "ConstraintEnd"

/-- The name of a state, as it is reported. -/
def name : State → String
  | opening .start => "Start"
  | opening .create => "Create"
  | opening .createTemp => "CreateTemp"
  | opening .createUnique => "CreateUnique"
  | tableName state => "Table" ++ nameSuffix state
  | column state => "Column" ++ columnSuffix state
  | reference state => "References" ++ referenceSuffix state
  | constraint state => "Table" ++ constraintSuffix state
  | option .closed => "TableEnd"
  | option .without => "TableWithout"
  | option .done => "TableOptionEnd"
  | option .next => "TableOption"
  | indexName state => "Index" ++ nameSuffix state
  | term .on => "IndexOn"
  | term .table => "IndexTable"
  | term .terms => "IndexColumnList"
  | term .closed => "IndexColumns"
  | term .predicate => "IndexWhere"

/-- Whether a statement may end in the state. -/
def isAccepting : State → Bool
  | option .closed | option .done | term .closed | term .predicate => true
  | _ => false

end State

end SchemaText
