import SchemaText.Proofs.Sample.Replay
import SchemaText.Proofs.Table.KeyReading
import SchemaText.Proofs.Token.Layout

/-!
# How sample tables are read

The statement of a sample table is read as the table that the sample describes: with the
columns that are written, in order, and the key over the positions of the sample.

## Main definitions

* `SampleType.layout`, `SampleColumn.layout`, `SampleTable.layout`: how a sample is written.
* `SampleDefault.value`, `SampleColumn.column`: what is read.
* `SampleTable.keyPositions`: the columns of the key.

## Main results

* `SampleTable.toList_sql`: the text of a sample is its layout.
* `SampleTable.keyNames_eq`: the names in the key are those at the positions.
* `SampleTable.parse_sql_of_sample`: **the statement is read as the sample describes it**.
-/

namespace SchemaText

open Token Lexer Move Layout

variable {table : Table} {draft : Draft} {rest : List Token} {statement : Statement}

/-! ### Names in double quotes -/

/-- A name in double quotes, as it is read. -/
def Token.quoted (name : String) : Token :=
  ⟨name, .quotedIdentifier⟩

/-- A name in quotes is well spelled. -/
theorem Token.isWellSpelled_quoted (name : String) : (quoted name).IsWellSpelled :=
  .quotedIdentifier name

/-- A quoted name is written as its token. -/
theorem Text.toList_quotedName (name : String) :
    (quotedName name).toList = (Token.quoted name).spelling :=
  toList_enclose _ _

/-! ### Columns -/

/-- The type as it is written. -/
def SampleType.layout : SampleType → Layout
  | untyped => []
  | integer => spaced [Token.name "INTEGER"]
  | text => spaced [Token.name "TEXT"]
  | real => spaced [Token.name "REAL"]
  | blob => spaced [Token.name "BLOB"]
  | varchar width => spaced [Token.name "VARCHAR"] ++ enclosed [some (numeral width)]
  | decimal precision scale =>
    spaced [Token.name "DECIMAL"] ++
      enclosed (listed [[some (numeral precision)], ofInt scale])
  | doublePrecision => spaced [Token.name "DOUBLE", Token.name "PRECISION"]

/-- The tokens of the type. -/
def SampleType.tokens (type : SampleType) : List Token :=
  type.layout.reduceOption

/-- The default value as it is written. -/
def SampleDefault.layout : SampleDefault → Layout
  | null => [some (keyword .NULL)]
  | integer value => ofInt value
  | text content => [some (Token.string content)]
  | sum first second =>
    enclosed (ofInt first ++ (spaced [⟨"+", .sign⟩] ++ none :: ofInt second))
  | currentTimestamp => [some (keyword .CURRENT_TIMESTAMP)]

/-- The default value as it is read. -/
def SampleDefault.value : SampleDefault → DefaultValue
  | null => ⟨"NULL", false, false⟩
  | integer value => ⟨toString value, false, false⟩
  | text content => ⟨content, false, true⟩
  | sum first second => ⟨render (sum first second).layout.reduceOption, true, false⟩
  | currentTimestamp => ⟨"CURRENT_TIMESTAMP", true, false⟩

namespace SampleColumn

/-- The default value that is written, if one is. -/
def written? (column : SampleColumn) : Option SampleDefault :=
  column.default.filter (·.sql?.isSome)

/-- The collation, if one is written. -/
def collation? (column : SampleColumn) : Option String :=
  if column.nocase then some "NOCASE" else none

/-- The column as it is read, apart from the key. -/
def column (column : SampleColumn) : Column :=
  { Column.new column.name with
    type := render column.type.tokens
    notNull := column.notNull
    unique := column.unique
    collation := column.collation?
    default := column.written?.map SampleDefault.value }

/-- The constraints of the column that are flags or a collation. -/
def flags (column : SampleColumn) : List Token :=
  (if column.notNull then [keyword .NOT, keyword .NULL] else []) ++
    ((if column.unique then [keyword .UNIQUE] else []) ++
      if column.nocase then [keyword .COLLATE, Token.name "NOCASE"] else [])

/-- The column as it is written. -/
def layout (column : SampleColumn) : Layout :=
  some (quoted column.name) :: (column.type.layout ++ (spaced column.flags ++
    column.written?.elim [] fun default => spaced [keyword .DEFAULT] ++
      none :: default.layout))

end SampleColumn

/-! ### Tables -/

/-- A column of the key as it is written. -/
def KeyPart.layout (part : KeyPart) : Layout :=
  some (quoted part.name) :: spaced (if part.descending then [keyword .DESC] else [])

namespace SampleTable

/-- The columns of the key list. -/
def keyParts (table : SampleTable) : List KeyPart :=
  match table.keyNames with
  | [] => []
  | first :: others =>
    ⟨first, none, table.descending⟩ :: others.map fun name => ⟨name, none, false⟩

/-- The key list as it is written, if there is a key. -/
def keyLayout (table : SampleTable) : List Layout :=
  if table.keyParts.isEmpty then []
  else
    [some (keyword .PRIMARY) :: (spaced [keyword .KEY] ++
      none :: enclosed (listed (table.keyParts.map KeyPart.layout)))]

/-- The statement as it is written. -/
def layout (table : SampleTable) (name : String) : Layout :=
  some (keyword .CREATE) :: (spaced [keyword .TABLE, quoted name] ++
    (none :: enclosed (listed (table.usableColumns.map SampleColumn.layout ++ table.keyLayout)) ++
      spaced (if table.withoutRowid then [keyword .WITHOUT, keyword .ROWID] else [])))

end SampleTable

/-! ### Words that are no keywords -/

/-- The words of the declared types, and the name of the collation. -/
def sampleWords : List String :=
  ["INTEGER", "TEXT", "REAL", "BLOB", "VARCHAR", "DECIMAL", "DOUBLE", "PRECISION", "NOCASE"]

/-- The words of sample types are no keywords and need no quotes. -/
theorem ofText?_sampleWords : ∀ w ∈ sampleWords,
    Keyword.ofText? w = none ∧ isPlainName w = true := by
  decide +kernel

section Words

variable {w : String} (member : w ∈ sampleWords)

include member

/-- These words need no quotes. -/
theorem name_sampleWord : Token.name w = ⟨w, .identifier⟩ := by
  obtain ⟨unknown, plain⟩ := ofText?_sampleWords w member
  rw [Token.name, unknown, plain]
  rfl

/-- Such a word is written as it is. -/
theorem spelling_sampleWord : (Token.name w).spelling = w.toList := by
  rw [name_sampleWord member]
  rfl

/-- Such a word continues a type. -/
theorem isTypeWord_sampleWord : Move.isTypeWord (Token.name w) = true := by
  obtain ⟨unknown, -⟩ := ofText?_sampleWords w member
  rw [name_sampleWord member]
  simp [Move.isTypeWord, keyword?, unknown]

end Words

/-! ### Texts -/

/-- The type is written as its layout. -/
theorem SampleType.toList_sql (type : SampleType) : type.sql.toList = chars type.layout := by
  cases type with
  | varchar width =>
      have name : " VARCHAR(".toList = ' ' :: ((Token.name "VARCHAR").spelling ++ ['(']) := by
        rw [spelling_sampleWord (by simp [sampleWords])]
        rfl
      simp [sql, layout, chars_enclosed, name]
  | decimal precision scale =>
      have name : " DECIMAL(".toList = ' ' :: ((Token.name "DECIMAL").spelling ++ ['(']) := by
        rw [spelling_sampleWord (by simp [sampleWords])]
        rfl
      simp [sql, layout, chars_enclosed, chars_listed, chars_ofInt, name]
  | untyped => rfl
  | integer | text | real | blob =>
      simp only [sql, layout, chars_spaced_cons, chars_spaced_nil]
      rw [spelling_sampleWord (by simp [sampleWords])]
      rfl
  | doublePrecision =>
      simp only [sql, layout, chars_spaced_cons, chars_spaced_nil]
      rw [spelling_sampleWord (by simp [sampleWords]),
        spelling_sampleWord (by simp [sampleWords])]
      rfl

/-- A default value is written as its layout. -/
theorem SampleDefault.toList_sql {default : SampleDefault} {sql : String}
    (h : default.sql? = some sql) : sql.toList = chars default.layout := by
  cases default with
  | null | currentTimestamp =>
      obtain rfl := Option.some.inj h
      simp [layout, spelling_keyword]
      rfl
  | integer value =>
      obtain rfl := Option.some.inj h
      exact (chars_ofInt value).symm
  | text content =>
      rw [sql?] at h
      split at h
      · exact absurd h (by simp)
      · obtain rfl := Option.some.inj h
        rw [Text.toList_enclose]
        exact (List.append_nil _).symm
  | sum first second =>
      obtain rfl := Option.some.inj h
      simp [layout, chars_enclosed, chars_ofInt]
      rfl

/-- The constraints without a value are written as their words, a blank before each. -/
theorem SampleColumn.toList_flags (column : SampleColumn) :
    ((if column.notNull then " NOT NULL" else "").toList ++
      ((if column.unique then " UNIQUE" else "").toList ++
        (if column.nocase then " COLLATE NOCASE" else "").toList)) =
      chars (spaced column.flags) := by
  unfold flags
  have collate : (Token.name "NOCASE").spelling = "NOCASE".toList :=
    spelling_sampleWord (by simp [sampleWords])
  cases column.notNull <;> cases column.unique <;> cases column.nocase <;>
    simp [spelling_keyword, collate] <;> rfl

/-- The default value is written behind its keyword. -/
theorem SampleColumn.toList_default (column : SampleColumn) :
    ((column.default.bind SampleDefault.sql?).elim "" (" DEFAULT " ++ ·)).toList =
      chars (column.written?.elim [] fun default =>
        spaced [keyword .DEFAULT] ++ none :: default.layout) := by
  unfold written?
  cases column.default with
  | none => rfl
  | some default =>
      cases found : default.sql? with
      | none => simp [Option.filter, found]
      | some sql =>
          have word : " DEFAULT ".toList = ' ' :: ((keyword .DEFAULT).spelling ++ [' ']) := by
            rw [spelling_keyword]
            rfl
          simp [Option.filter, found, word, SampleDefault.toList_sql found]

/-- A column is written as its layout. -/
theorem SampleColumn.toList_sql (column : SampleColumn) :
    column.sql.toList = chars column.layout := by
  simp only [sql, layout, String.toList_append, chars_token, chars_append, List.append_assoc,
    Text.toList_quotedName, SampleType.toList_sql, ← toList_flags, ← toList_default]

/-! ### No blank is missing -/

/-- The tokens of a type are read from its text. -/
theorem SampleType.isLegible_layout (type : SampleType) : IsLegible type.layout := by
  have word (name : String) : IsLegible (spaced [Token.name name]) :=
    isLegible_word (isWellSpelled_name name)
  have number (n : Nat) : IsLegible [some (numeral n)] :=
    isLegible_token (isWellSpelled_numeral n)
  cases type with
  | untyped => exact isLegible_nil
  | varchar width => exact (word _).append (number width).enclosed isLoose_enclosed
  | decimal precision scale =>
      refine (word _).append (isLegible_listed ?_).enclosed isLoose_enclosed
      exact List.forall_mem_cons.2
        ⟨number precision, List.forall_mem_singleton.2 (isLegible_ofInt scale)⟩
  | doublePrecision =>
      exact isLegible_spaced (List.forall_mem_cons.2
        ⟨isWellSpelled_name _, List.forall_mem_singleton.2 (isWellSpelled_name _)⟩)
  | _ => exact word _

/-- The type of a column can stand behind any token. -/
theorem SampleType.isLoose_layout (type : SampleType) : IsLoose type.layout := by
  cases type with
  | untyped => exact isLoose_nil
  | _ => exact isLoose_blank

/-- The tokens of a default value are read from its text. -/
theorem SampleDefault.isLegible_layout (default : SampleDefault) :
    IsLegible default.layout := by
  have plus : (⟨"+", .sign⟩ : Token).IsWellSpelled :=
    .sign (show (['+'], TokenKind.sign) ∈ signs by decide)
  cases default with
  | null | currentTimestamp => exact isLegible_token (isWellSpelled_keyword _)
  | integer value => exact isLegible_ofInt value
  | text content => exact isLegible_token (.stringLiteral content)
  | sum first second =>
      have tail := (isLegible_word plus).append (isLegible_ofInt second).blank isLoose_blank
      exact ((isLegible_ofInt first).append tail isLoose_blank).enclosed

/-- The words of the constraints are well spelled. -/
theorem SampleColumn.isWellSpelled_flags (column : SampleColumn) :
    ∀ t ∈ column.flags, t.IsWellSpelled := by
  unfold flags
  cases column.notNull <;> cases column.unique <;> cases column.nocase <;>
    simp [isWellSpelled_keyword, isWellSpelled_name]

/-- The tokens of a column are read from its text. -/
theorem SampleColumn.isLegible_layout (column : SampleColumn) : IsLegible column.layout := by
  have default : IsLegible (column.written?.elim [] fun default =>
      spaced [keyword .DEFAULT] ++ none :: default.layout) := by
    cases column.written? with
    | none => exact isLegible_nil
    | some default =>
        exact (isLegible_word (isWellSpelled_keyword .DEFAULT)).append
          default.isLegible_layout.blank isLoose_blank
  have loose : IsLoose (column.written?.elim [] fun default =>
      spaced [keyword .DEFAULT] ++ none :: default.layout) := by
    cases column.written? with
    | none => exact isLoose_nil
    | some default => exact isLoose_blank
  have flags := (isLegible_spaced column.isWellSpelled_flags).append default loose
  have all := column.type.isLegible_layout.append flags (isLoose_spaced.append loose)
  exact all.cons (isWellSpelled_quoted _)
    (column.type.isLoose_layout.append (isLoose_spaced.append loose))

/-- The tokens of a key entry are read from its text. -/
theorem KeyPart.isLegible_layout (part : KeyPart) : IsLegible part.layout := by
  refine IsLegible.cons (isLegible_spaced ?_) (isWellSpelled_quoted _) isLoose_spaced
  cases part.descending <;> simp [isWellSpelled_keyword]

namespace SampleTable

variable (sample : SampleTable)

/-- The key list is written as its layout. -/
theorem toList_keySql : sample.keySql.map String.toList = sample.keyLayout.map chars := by
  unfold keySql keyLayout keyParts
  cases sample.keyNames with
  | nil => rfl
  | cons first others =>
      have opening : "PRIMARY KEY (".toList =
          (keyword .PRIMARY).spelling ++ ' ' :: ((keyword .KEY).spelling ++ [' ', '(']) := by
        rw [spelling_keyword, spelling_keyword]
        rfl
      have order : (if sample.descending then " DESC" else "").toList =
          chars (spaced (if sample.descending then [keyword .DESC] else [])) := by
        cases sample.descending <;> simp [spelling_keyword]
        rfl
      have other (name : String) : (Text.quotedName name).toList =
          chars (KeyPart.layout ⟨name, none, false⟩) :=
        (Text.toList_quotedName name).trans (List.append_nil _).symm
      simp only [List.isEmpty_cons, Bool.false_eq_true, if_false, List.map_cons, List.map_nil,
        List.map_map, String.toList_append, String.toList_intercalate, opening, order,
        chars_token, chars_blank, chars_append, chars_listed, chars_enclosed, chars_spaced_cons,
        chars_spaced_nil, KeyPart.layout, Function.comp_def, other, List.append_assoc,
        List.cons_append, List.nil_append]
      rfl

/-- **The text of a sample is its layout.** -/
theorem toList_sql {name sql : String} (h : sample.sql? name = some sql) :
    sql.toList = chars (sample.layout name) := by
  rw [sql?] at h
  split at h
  · exact absurd h (by simp)
  obtain rfl := Option.some.inj h
  have opening : "CREATE TABLE ".toList =
      (keyword .CREATE).spelling ++ ' ' :: ((keyword .TABLE).spelling ++ [' ']) := by
    rw [spelling_keyword, spelling_keyword]
    rfl
  have options : (if sample.withoutRowid then " WITHOUT ROWID" else "").toList =
      chars (spaced (if sample.withoutRowid then [keyword .WITHOUT, keyword .ROWID] else [])) := by
    cases sample.withoutRowid <;> simp [spelling_keyword]
    rfl
  have pieces :
      (sample.usableColumns.map SampleColumn.sql ++ sample.keySql).map String.toList =
      (sample.usableColumns.map SampleColumn.layout ++ sample.keyLayout).map chars := by
    rw [List.map_append, List.map_append, toList_keySql, List.map_map, List.map_map]
    exact congrArg (· ++ _) (List.map_congr_left fun column _ => column.toList_sql)
  simp only [layout, String.toList_append, opening, options, String.toList_intercalate, pieces,
    Text.toList_quotedName, chars_token, chars_blank, chars_append, chars_listed, chars_enclosed,
    chars_spaced_cons, chars_spaced_nil, List.append_assoc, List.cons_append, List.nil_append]
  rfl

/-- The tokens of the statement are read from its text. -/
theorem isLegible_layout (name : String) : IsLegible (sample.layout name) := by
  have options : IsLegible (spaced
      (if sample.withoutRowid then [keyword .WITHOUT, keyword .ROWID] else [])) := by
    refine isLegible_spaced ?_
    cases sample.withoutRowid <;> simp [isWellSpelled_keyword]
  have opening : IsLegible (spaced [keyword .TABLE, quoted name]) :=
    isLegible_spaced (List.forall_mem_cons.2
      ⟨isWellSpelled_keyword _, List.forall_mem_singleton.2 (isWellSpelled_quoted name)⟩)
  have key : ∀ piece ∈ sample.keyLayout, IsLegible piece := by
    unfold keyLayout
    split
    · simp
    · refine List.forall_mem_singleton.2 ?_
      have parts :=
        isLegible_listed (List.forall_mem_map.2 fun part (_ : part ∈ sample.keyParts) =>
        part.isLegible_layout)
      exact ((isLegible_word (isWellSpelled_keyword .KEY)).append parts.enclosed.blank
        isLoose_blank).cons (isWellSpelled_keyword _) isLoose_blank
  have list := isLegible_listed (List.forall_mem_append.2
    ⟨List.forall_mem_map.2 fun column (_ : column ∈ sample.usableColumns) =>
      column.isLegible_layout, key⟩)
  exact (opening.append (list.enclosed.blank.append options isLoose_spaced) isLoose_blank).cons
    (isWellSpelled_keyword _) isLoose_blank

end SampleTable

/-! ### Lists of tokens -/

/-- Every piece but the first has a comma before it. -/
theorem commaList_cons_eq (piece : List Token) (pieces : List (List Token)) :
    commaList (piece :: pieces) = piece ++ pieces.flatMap (comma :: ·) := by
  induction pieces generalizing piece with
  | nil => exact (List.append_nil _).symm
  | cons next pieces ih =>
      rw [commaList_cons _ (by simp), ih next]
      rfl

/-- More pieces are added behind their commas. -/
theorem commaList_append {pieces others : List (List Token)} (ne : pieces ≠ []) :
    commaList (pieces ++ others) = commaList pieces ++ others.flatMap (comma :: ·) := by
  obtain ⟨piece, pieces, rfl⟩ := List.exists_cons_of_ne_nil ne
  rw [List.cons_append, commaList_cons_eq, commaList_cons_eq, List.flatMap_append,
    List.append_assoc]

/-! ### Reading columns -/

/-- A path of states leads through the words and the width of the type. -/
theorem SampleType.exists_path (type : SampleType) :
    ∃ s : ColumnState, (s = .type ∨ s = .constraints) ∧ TypePath s type.tokens := by
  have word {ts : List Token} (path : TypePath .type ts) {name : String}
      (member : name ∈ sampleWords) : TypePath .type (ts ++ [Token.name name]) :=
    path.snoc (.word (isTypeWord_sampleWord member))
  have opened {name : String} (member : name ∈ sampleWords) :
      TypePath (.width false .opened) [Token.name name, openParen] :=
    (word .nil member).snoc (.width rfl (by simp))
  have number {second : Bool} {ts : List Token} (path : TypePath (.width second .opened) ts)
      (n : Nat) : TypePath (.width second .numbered) (ts ++ [numeral n]) :=
    path.snoc (.number rfl (.inl rfl))
  have close {second : Bool} {ts : List Token} (path : TypePath (.width second .numbered) ts) :
      TypePath .constraints (ts ++ [closeParen]) := path.snoc (.close rfl)
  cases type with
  | untyped => exact ⟨_, .inl rfl, .nil⟩
  | varchar width => exact ⟨_, .inr rfl, close (number (opened (by simp [sampleWords])) width)⟩
  | decimal precision scale =>
      have member : "DECIMAL" ∈ sampleWords := by simp [sampleWords]
      have first : TypePath (.width true .opened) _ :=
        (number (opened member) precision).snoc (.comma (rfl : comma.kind = .comma))
      cases scale with
      | ofNat n => exact ⟨_, .inr rfl, close (number first n)⟩
      | negSucc n =>
          have signed : TypePath (.width true .signed) (_ ++ [⟨"-", .sign⟩]) :=
            first.snoc (.sign rfl)
          have last : TypePath (.width true .numbered) (_ ++ [numeral (n + 1)]) :=
            signed.snoc (.number rfl (.inr rfl))
          exact ⟨_, .inr rfl, close last⟩
  | doublePrecision =>
      have first : "DOUBLE" ∈ sampleWords := by simp [sampleWords]
      exact ⟨_, .inl rfl, word (word .nil first) (by simp [sampleWords])⟩
  | _ => exact ⟨_, .inl rfl, word .nil (by simp [sampleWords])⟩

/-! ### Default values -/

namespace SampleDefault

/-- A number is an operand, with its sign if it is negative. -/
theorem reads_ofInt (level : Expr.Level) (list : Bool) (value : Int) :
    ∃ e, Expr.Reads (.operand level list) e (ofInt value).reduceOption := by
  cases value with
  | ofNat n => exact ⟨_, .literal rfl⟩
  | negSucc n =>
      have opens : Expr.Opens level [⟨"-", .sign⟩] [⟨"-", .sign⟩] [numeral (n + 1)] :=
        .sign (.inl rfl)
      refine ⟨_, .prefixed ?_ opens (.literal rfl)⟩
      rintro _ ⟨⟩
      rfl

/-- The tokens of a number are written without a gap. -/
theorem render_ofInt (value : Int) : render (ofInt value).reduceOption = toString value := by
  have chars : (toString value).toList = renderAfter none (ofInt value).reduceOption := by
    rw [← chars_ofInt]
    cases value <;> rfl
  rw [render, ← chars, String.ofList_toList]

/-- **What is written spells the value.** -/
theorem spells {default : SampleDefault} (written : default.sql?.isSome = true) :
    DefaultValue.Spells DefaultValue.IsNested default.layout.reduceOption default.value := by
  cases default with
  | null =>
      have word : (keyword .NULL).is .NULL = true := by simp
      exact .word (by decide) word
  | integer value =>
      have same : (integer value).value = ⟨render (ofInt value).reduceOption, false, false⟩ := by
        rw [render_ofInt]
        rfl
      rw [same]
      cases value with
      | ofNat n => exact .literal (.inl rfl)
      | negSucc n => exact .signed rfl rfl
  | text content => exact .string rfl
  | sum first second =>
      obtain ⟨left, reads⟩ := reads_ofInt .nested false first
      obtain ⟨right, reads'⟩ := reads_ofInt .nested _ second
      have whole : Expr.Reads (.chain .nested false) _ _ :=
        .more (.bare reads) (by rintro _ ⟨⟩; rfl)
          (.symbol (t := ⟨"+", .sign⟩) (.inr rfl)) (.last (.bare reads'))
      have tokens : (sum first second).layout.reduceOption =
          openParen :: (((ofInt first).reduceOption ++
            ([⟨"+", .sign⟩] ++ (ofInt second).reduceOption)) ++ [closeParen]) := by
        rw [layout, reduceOption_enclosed, List.reduceOption_append]
        rfl
      rw [value, tokens, render_parens]
      exact .parens ⟨_, .items (by cases first <;> rfl) whole⟩
  | currentTimestamp =>
      have word : (keyword .CURRENT_TIMESTAMP).is .CURRENT_TIMESTAMP = true := by simp
      exact .word (by decide) word

end SampleDefault

namespace SampleColumn

variable {sample : SampleColumn}

/-- The tokens of a column, part by part. -/
theorem reduceOption_layout (sample : SampleColumn) : sample.layout.reduceOption =
    quoted sample.name :: (sample.type.tokens ++ (sample.flags ++
      sample.written?.elim [] fun default => keyword .DEFAULT :: default.layout.reduceOption)) := by
  rw [layout, List.reduceOption_cons_of_some, List.reduceOption_append, List.reduceOption_append,
    reduceOption_spaced]
  cases sample.written? with
  | none => rfl
  | some default => rfl

/-- The default value of a sample, if one is written. -/
theorem completes_written {column : Column} (fresh : column.default = none)
    (h : Completes (.table (table.withColumn
        { column with default := sample.written?.map SampleDefault.value }))
      (.column .constraints) rest statement) :
    Completes (.table (table.withColumn column)) (.column .constraints)
      (sample.written?.elim [] (fun default => keyword .DEFAULT :: default.layout.reduceOption) ++
        rest) statement := by
  cases found : sample.written? with
  | none =>
      rw [found, Option.map_none, ← fresh] at h
      exact h
  | some default =>
      rw [found] at h
      have written : default.sql?.isSome = true := by
        rw [written?, Option.filter_eq_some_iff] at found
        exact found.2
      have lexed : ∀ t ∈ default.layout.reduceOption, t.IsLexed := fun t member _ =>
        default.isLegible_layout.spelled t member
      have spells := SampleDefault.spells written
      have read := @completes_default table column rest statement (some default.value)
        (by rintro _ ⟨⟩; exact spells.isReadBack lexed) fresh h
      rw [Option.elim_some, List.map_cons, spells.tokens_eq lexed,
        map_spoken_of_lexed lexed] at read
      exact read

/-- The flags are the constraints that a table column is printed with. -/
theorem flags_eq (sample : SampleColumn) : sample.flags =
    (if sample.notNull then words [.NOT, .NULL] ++ ConflictAction.clause none else []).map spoken ++
      ((if sample.unique then ofKeyword .UNIQUE :: ConflictAction.clause none else []).map spoken ++
        (collate sample.collation?).map spoken) := by
  unfold flags collation?
  cases sample.notNull <;> cases sample.unique <;> cases sample.nocase <;> rfl

/-- **A column of a sample is read.** -/
theorem completes (starts : StartsLate rest)
    (h : Completes (.table (table.withColumn sample.column)) (.column .constraints) rest
      statement) :
    Completes (.table table) (.column .begun) (sample.layout.reduceOption ++ rest) statement := by
  obtain ⟨s, settled, path⟩ := sample.type.exists_path
  have default : StartsPart (sample.written?.elim []
      (fun default => keyword .DEFAULT :: default.layout.reduceOption) ++ rest) := by
    cases sample.written? with
    | none => exact starts.startsPart
    | some default => exact .cons rfl
  have collation := default.append .COLLATE (collate sample.collation?) rfl (by
    cases sample.collation? <;> simp [collate])
  have unique := collation.append .UNIQUE
    (if sample.unique then ofKeyword .UNIQUE :: ConflictAction.clause none else []) rfl (by
      cases sample.unique <;> simp)
  have notNull := unique.append .NOT
    (if sample.notNull then words [.NOT, .NULL] ++ ConflictAction.clause none else []) rfl (by
      cases sample.notNull <;> simp [words])
  rw [reduceOption_layout, flags_eq]
  simp only [List.cons_append, List.append_assoc]
  intro d found
  refine outcome_namedColumn rfl rfl settled path found notNull ?_
  refine completes_notNull (by simp) ⟨rfl, rfl⟩ unique ?_
  refine completes_unique (by simp) ⟨rfl, rfl⟩ collation ?_
  exact completes_collation rfl (completes_written rfl h)

end SampleColumn

/-- **All columns of a sample are read.** -/
theorem completes_sampleColumns {columns : List SampleColumn} (ne : columns ≠ [])
    (starts : StartsLate rest)
    (h : Completes
      (.table { table with columns := table.columns ++ columns.map SampleColumn.column })
      (.column .constraints) rest statement) :
    Completes (.table table) (.column .begun)
      (commaList (columns.map (·.layout.reduceOption)) ++ rest) statement := by
  induction columns generalizing table with
  | nil => exact absurd rfl ne
  | cons column columns ih =>
      cases columns with
      | nil => exact SampleColumn.completes starts h
      | cons next columns =>
          rw [List.map_cons, commaList_cons _ (by simp), List.append_assoc]
          refine SampleColumn.completes ⟨comma, _, rfl, .inl rfl, rfl⟩ ?_
          refine .silent (.column .begun) (fun _ => rfl) (ih (by simp) ?_)
          rw [List.map_cons] at h
          simpa [Table.withColumn] using h

/-! ### Reading the key -/

/-- The columns of a key list are read with their names in double quotes. -/
theorem outcome_quotedParts {parts : List KeyPart} {t : Token}
    (plain : ∀ part ∈ parts, part.collation = none) (ne : parts ≠ []) (ends : t.EndsKeyPart)
    (h : outcome (.constraint .keyOrdered) (draft.withParts parts) (t :: rest) = .ok statement) :
    outcome (.constraint .keyColumn) draft
      (commaList (parts.map (·.layout.reduceOption)) ++ t :: rest) = .ok statement := by
  have tokens : parts.map (·.layout.reduceOption) =
      parts.map fun part => part.tokensAfter (quoted part.name) := by
    refine List.map_congr_left fun part member => ?_
    rw [KeyPart.layout, List.reduceOption_cons_of_some, reduceOption_spaced, KeyPart.tokensAfter,
      plain part member]
    cases part.descending <;> rfl
  rw [tokens]
  exact outcome_namedParts (fun _ _ => rfl) (fun _ _ => rfl) ne ends h

namespace SampleTable

variable {sample : SampleTable}

/-- No key entry has a collation. -/
theorem collation_keyParts : ∀ part ∈ sample.keyParts, part.collation = none := by
  unfold keyParts
  split
  · simp
  · exact List.forall_mem_cons.2 ⟨rfl, List.forall_mem_map.2 fun _ _ => rfl⟩

/-- The tokens of the key list, if there is a key. -/
theorem reduceOption_keyLayout : sample.keyLayout.map List.reduceOption =
    if sample.keyParts.isEmpty then [] else
      [keyword .PRIMARY :: keyword .KEY :: openParen ::
        (commaList (sample.keyParts.map (·.layout.reduceOption)) ++ [closeParen])] := by
  unfold keyLayout
  split
  · rfl
  · rw [List.map_singleton, List.reduceOption_cons_of_some, List.reduceOption_append,
      List.reduceOption_cons_of_none, reduceOption_enclosed, reduceOption_listed, List.map_map]
    rfl

/-- The key list of a sample is read, if there is a key. -/
theorem completes_key {entered : Table}
    (known : Draft.enterKey false sample.keyParts table = (entered, none))
    (h : Completes (.table entered) (.constraint .done) (closeParen :: rest) statement) :
    Completes (.table table) (.column .constraints)
      ((sample.keyLayout.map List.reduceOption).flatMap (comma :: ·) ++ closeParen :: rest)
      statement := by
  rw [reduceOption_keyLayout]
  cases empty : sample.keyParts.isEmpty with
  | true =>
      rw [List.isEmpty_iff] at empty
      rw [empty] at known
      obtain rfl : table = entered := congrArg Prod.fst known
      exact @completes_firstConstraint rest statement (.table table) [] (by simp) h
  | false =>
      have ne : sample.keyParts ≠ [] := by simpa using empty
      have key := @completes_namedKey _ (closeParen :: rest) statement sample.keyParts _ false none
        entered (outcome_quotedParts collation_keyParts ne) known ⟨closeParen, rest, rfl, .inr rfl⟩
        h
      rw [if_neg Bool.false_ne_true, List.flatMap_singleton, List.cons_append, List.cons_append,
        List.cons_append, List.cons_append, List.append_assoc]
      exact completes_commaKeyword rfl key

/-! ### Positions -/

/-- The positions of the key columns: those of the sample modulo the number of columns, each
where it comes first. -/
def keyPositions (sample : SampleTable) : List Nat :=
  (sample.primaryKey.map (· % sample.usableColumns.length)).eraseDups

end SampleTable

section EraseDups

variable {α : Type} [DecidableEq α]

/-- A last element is kept just if it is new. -/
theorem eraseDups_concat (l : List α) (a : α) :
    (l ++ [a]).eraseDups = if a ∈ l then l.eraseDups else l.eraseDups ++ [a] := by
  rw [List.eraseDups_append]
  split
  · rename_i member
    simp [List.removeAll, member]
  · rename_i new
    simp [List.removeAll, new, List.eraseDups_cons]

/-- What is left without repetitions has none. -/
theorem nodup_eraseDups (l : List α) : l.eraseDups.Nodup := by
  induction l using List.reverseRecOn with
  | nil => exact .nil
  | append_singleton l a ih =>
      rw [eraseDups_concat]
      split
      · exact ih
      · rename_i new
        rw [List.nodup_append]
        refine ⟨ih, by simp, ?_⟩
        rintro b member _ last rfl
        rw [List.mem_singleton] at last
        exact new (last ▸ List.mem_eraseDups.1 member)

end EraseDups

namespace SampleTable

variable {sample : SampleTable}

/-- Key positions are those of columns. -/
theorem lt_of_mem_keyPositions (ne : sample.usableColumns ≠ []) {i : Nat}
    (member : i ∈ sample.keyPositions) : i < sample.usableColumns.length := by
  obtain ⟨position, -, rfl⟩ := List.mem_map.1 (List.mem_eraseDups.1 member)
  exact Nat.mod_lt _ (List.length_pos_iff.2 ne)

/-- The name of the column at a position. -/
def nameAt (sample : SampleTable) (i : Nat) : String :=
  (sample.usableColumns.map (·.name))[i]?.getD ""

/-- Columns are known by their names. -/
theorem nameAt_inj {i j : Nat} (first : i < sample.usableColumns.length)
    (second : j < sample.usableColumns.length) (same : sample.nameAt i = sample.nameAt j) :
    i = j := by
  have nodup : (sample.usableColumns.map (·.name)).Nodup := by
    refine List.Pairwise.map _ (fun a b apart same => ?_)
      (SampleReplay.pairwise_usableColumns sample)
    rw [same, Text.same_refl] at apart
    exact Bool.false_ne_true apart.symm
  have first : i < (sample.usableColumns.map (·.name)).length := by simpa using first
  have second : j < (sample.usableColumns.map (·.name)).length := by simpa using second
  rw [nameAt, nameAt, List.getElem?_eq_getElem first, List.getElem?_eq_getElem second] at same
  exact (List.Nodup.getElem_inj_iff nodup).1 same

/-- **The names in the key** are those at the positions of the key. -/
theorem keyNames_eq (ne : sample.usableColumns ≠ []) :
    sample.keyNames = sample.keyPositions.map sample.nameAt := by
  have range (position : Nat) : position % sample.usableColumns.length <
      sample.usableColumns.length := Nat.mod_lt _ (List.length_pos_iff.2 ne)
  unfold keyNames keyPositions
  induction sample.primaryKey using List.reverseRecOn with
  | nil => rfl
  | append_singleton positions position ih =>
      let i := position % sample.usableColumns.length
      have found : (sample.usableColumns.map (·.name))[position %
          (sample.usableColumns.map (·.name)).length]? = some (sample.nameAt i) := by
        rw [List.length_map, nameAt, List.getElem?_eq_getElem (by simpa using range position)]
        rfl
      have listed : sample.nameAt i ∈
          (positions.map (· % sample.usableColumns.length)).eraseDups.map sample.nameAt ↔
            i ∈ positions.map (· % sample.usableColumns.length) := by
        rw [List.mem_map]
        constructor
        · rintro ⟨j, member, same⟩
          obtain ⟨other, listed, rfl⟩ := List.mem_map.1 (List.mem_eraseDups.1 member)
          exact List.mem_map.2 ⟨other, listed, nameAt_inj (range other) (range position) same⟩
        · exact fun member => ⟨i, List.mem_eraseDups.2 member, rfl⟩
      rw [List.foldl_append, ih, List.map_append, List.map_singleton, eraseDups_concat,
        List.foldl_cons, List.foldl_nil, addKeyName, found]
      dsimp only
      simp only [List.contains_iff_mem, listed]
      split
      · rfl
      · rw [List.map_append]
        rfl

/-! ### The table -/

/-- The table without its key, as its columns define it. -/
def unkeyed (sample : SampleTable) (name : String) : Table :=
  { Table.new name with columns := sample.usableColumns.map SampleColumn.column }

/-- The column of the key list for a position. -/
def partAt (sample : SampleTable) (i : Nat) : KeyPart :=
  ⟨sample.nameAt i, none, sample.descending && sample.keyPositions.head? == some i⟩

/-- The key entries are the columns at the key positions. -/
theorem keyParts_eq (ne : sample.usableColumns ≠ []) :
    sample.keyParts = sample.keyPositions.map sample.partAt := by
  have nodup := nodup_eraseDups (sample.primaryKey.map (· % sample.usableColumns.length))
  change sample.keyPositions.Nodup at nodup
  unfold keyParts
  rw [keyNames_eq ne]
  unfold partAt
  cases positions : sample.keyPositions with
  | nil => rfl
  | cons first others =>
      rw [positions] at nodup
      simp only [List.map_cons, List.head?_cons, beq_self_eq_true, Bool.and_true, List.map_map]
      refine congrArg (_ :: ·) (List.map_congr_left fun i member => ?_)
      have other : first ≠ i := by
        rintro rfl
        exact (List.nodup_cons.1 nodup).1 member
      simp [other]

/-- A column is found by its name. -/
theorem columnIndex?_unkeyed {name : String} {i : Nat}
    (bound : i < sample.usableColumns.length) :
    (sample.unkeyed name).columnIndex? (sample.nameAt i) = some i := by
  have distinct : (sample.unkeyed name).HasDistinctNames :=
    List.pairwise_map.2 (SampleReplay.pairwise_usableColumns sample)
  have found : (sample.unkeyed name).columns[i]? = some sample.usableColumns[i].column := by
    simp [unkeyed, bound]
  have named : sample.usableColumns[i].column.name = sample.nameAt i := by
    simp [nameAt, bound, SampleColumn.column, Column.new]
  rw [← named]
  exact distinct.columnIndex? found

/-- The tokens of the statement. -/
theorem reduceOption_layout {name : String} (ne : sample.usableColumns ≠ []) :
    (sample.layout name).reduceOption = keyword .CREATE :: keyword .TABLE :: quoted name ::
      openParen :: (commaList (sample.usableColumns.map (·.layout.reduceOption)) ++
        ((sample.keyLayout.map List.reduceOption).flatMap (comma :: ·) ++ closeParen ::
          if sample.withoutRowid then [keyword .WITHOUT, keyword .ROWID] else [])) := by
  have columns :
      (sample.usableColumns.map SampleColumn.layout).map List.reduceOption ≠ [] := by
    simpa using ne
  rw [layout, List.reduceOption_cons_of_some, List.reduceOption_append, reduceOption_spaced,
    List.reduceOption_append, reduceOption_spaced, List.reduceOption_cons_of_none,
    reduceOption_enclosed, reduceOption_listed, List.map_append, commaList_append columns,
    List.map_map]
  simp only [List.cons_append, List.nil_append, List.append_assoc]
  rfl

/-- **The tokens of the statement are read.** -/
theorem outcome_layout {name : String} (ne : sample.usableColumns ≠ []) :
    outcome (.opening .start) {} (sample.layout name).reduceOption = .ok (.table
      { (Draft.enterKey false sample.keyParts (sample.unkeyed name)).1 with
        hasRowid := !sample.withoutRowid }) := by
  let entered := (Draft.enterKey false sample.keyParts (sample.unkeyed name)).1
  let read : Table := { entered with hasRowid := !sample.withoutRowid }
  obtain ⟨columns, key, frame⟩ :=
    Draft.enterKey_frame false sample.keyParts (sample.unkeyed name)
  have known : Draft.enterKey false sample.keyParts (sample.unkeyed name) = (entered, none) := by
    refine Prod.ext rfl (Draft.enterKey_of_known fun part member => ?_)
    rw [keyParts_eq ne] at member
    obtain ⟨i, listed, rfl⟩ := List.mem_map.1 member
    exact Option.isSome_of_eq_some (columnIndex?_unkeyed (lt_of_mem_keyPositions ne listed))
  have options : Completes (.table entered) (.option .closed)
      (if sample.withoutRowid then [keyword .WITHOUT, keyword .ROWID] else []) (.table read) := by
    have completes := completes_options read
    have same : { read with hasRowid := true, isStrict := false } = entered := by
      simp only [read, entered, frame]
      rfl
    have tokens : read.optionTokens.map spoken =
        if sample.withoutRowid then [keyword .WITHOUT, keyword .ROWID] else [] := by
      have strict : read.isStrict = false := by
        simp only [read, entered, frame]
        rfl
      have rowid : read.hasRowid = !sample.withoutRowid := rfl
      rw [Table.optionTokens, strict, rowid]
      cases sample.withoutRowid <;> rfl
    rwa [same, tokens] at completes
  have constraints := completes_key known (.silent (.option .closed) (fun _ => rfl) options)
  have starts : StartsLate ((sample.keyLayout.map List.reduceOption).flatMap (comma :: ·) ++
      closeParen :: if sample.withoutRowid then [keyword .WITHOUT, keyword .ROWID] else []) := by
    rw [reduceOption_keyLayout]
    split
    · exact ⟨closeParen, _, rfl, .inr (.inl rfl), rfl⟩
    · exact ⟨comma, _, rfl, .inl rfl, rfl⟩
  have columns : Completes (.table (Table.new name)) (.column .begun) _ _ :=
    completes_sampleColumns ne starts constraints
  have named : Completes (.table (Table.new "")) (.tableName .begun)
      (quoted name :: openParen :: _) _ :=
    .changeTable (.tableName .named) (fun table => { table with name := name }) (fun _ => rfl)
      (.silent _ (fun _ => rfl) columns)
  rw [reduceOption_layout ne]
  exact outcome_createTable false named

/-- **The statement of a sample is read as the sample describes it.** -/
theorem parse_sql_of_sample {name sql : String} (h : sample.sql? name = some sql) :
    ∃ read : Table, Statement.parse sql = .ok (.table read) ∧ read.name = name ∧
      read.columns.map Column.unkeyed = sample.usableColumns.map SampleColumn.column ∧
      read.primaryKey = sample.keyPositions ∧
      (∀ i column, read.columns[i]? = some column →
        (column.tableDesc = true ↔
          sample.descending = true ∧ sample.keyPositions.head? = some i)) ∧
      read.hasRowid = !sample.withoutRowid ∧
      read.checks = [] ∧ read.foreignKeys = [] ∧ read.uniques = [] := by
  have ne : sample.usableColumns ≠ [] := by
    rintro empty
    rw [sql?, empty] at h
    exact absurd h (by simp)
  let entered := (Draft.enterKey false sample.keyParts (sample.unkeyed name)).1
  obtain ⟨columns, key, frame⟩ :=
    Draft.enterKey_frame false sample.keyParts (sample.unkeyed name)
  have legible := sample.isLegible_layout name
  have tokens : tokenize sql = (sample.layout name).reduceOption := by
    rw [← tokens_toList, toList_sql sample h, legible.tokens_chars]
  have range (i : Nat) (member : i ∈ sample.keyPositions) := lt_of_mem_keyPositions ne member
  have positions := @Table.enterKey_positions (sample.unkeyed name) false sample.partAt
    sample.keyPositions (fun i member => columnIndex?_unkeyed (range i member))
    (nodup_eraseDups _) (by simp [unkeyed, Table.new])
  rw [← keyParts_eq ne] at positions
  refine ⟨{ entered with hasRowid := !sample.withoutRowid }, ?_, ?_, ?_,
    positions.1, ?_, rfl, ?_⟩
  · refine parse_of_outcome (fun t member => ?_) (tokens ▸ outcome_layout ne)
    rw [tokens] at member
    exact (legible.spelled t member).kind_ne_invalid
  · exact congrArg Table.name frame
  · refine (Draft.map_unkeyed_enterKey false sample.keyParts (sample.unkeyed name)).trans ?_
    rw [unkeyed, List.map_map]
    rfl
  · intro i column found
    have order := positions.2 i
    rw [found] at order
    obtain ⟨old, first, same⟩ := Option.map_eq_some_iff.1 order.symm
    have plain : old.tableDesc = false := by
      obtain ⟨written, -, rfl⟩ := List.mem_map.1 (List.mem_of_getElem? first)
      rfl
    replace same : (if i ∈ sample.keyPositions then (sample.partAt i).descending else
      old.tableDesc) = column.tableDesc := same
    rw [← same, plain, partAt]
    have member : sample.keyPositions.head? = some i → i ∈ sample.keyPositions :=
      List.mem_of_mem_head?
    split <;> simp_all
  · exact ⟨congrArg Table.checks frame, congrArg Table.foreignKeys frame,
      congrArg Table.uniques frame⟩

/-- A sample with two columns that are not written, and with positions that repeat. -/
def odd : SampleTable where
  columns :=
    [⟨"a\x22b", .decimal 5 (-2), true, true, false, some (.sum (-1) 2)⟩,
      ⟨"", .integer, false, false, false, none⟩,
      ⟨"A\x22B", .text, false, false, false, none⟩,
      ⟨"NULL", .varchar 9, false, false, true, some (.text "it's")⟩]
  primaryKey := [3, 1, 0]
  descending := true
  withoutRowid := true

/-- Two columns are read, and a key of both of them. -/
theorem parse_sql_of_sample_odd : ∃ sql read, odd.sql? "" = some sql ∧
    Statement.parse sql = .ok (.table read) ∧ read.name = "" ∧
    read.columns.map Column.unkeyed =
      [{ name := "a\x22b", type := "DECIMAL(5,-2)", notNull := true, unique := true,
          default := some ⟨"(-1+2)", true, false⟩ },
        { name := "NULL", type := "VARCHAR(9)", collation := some "NOCASE",
          default := some ⟨"it's", false, true⟩ }] ∧
    read.primaryKey = [1, 0] ∧
    (∀ i column, read.columns[i]? = some column → (column.tableDesc = true ↔ i = 1)) ∧
    read.hasRowid = false ∧ read.checks = [] ∧ read.foreignKeys = [] ∧ read.uniques = [] := by
  obtain ⟨sql, written⟩ : ∃ sql, odd.sql? "" = some sql :=
    Option.isSome_iff_exists.1 (by decide +kernel)
  obtain ⟨read, parsed, name, columns, key, order, rowid, rest⟩ := parse_sql_of_sample written
  have positions : odd.keyPositions = [1, 0] := by decide +kernel
  refine ⟨sql, read, written, parsed, name, ?_, key.trans positions, fun i column found => ?_,
    rowid, rest⟩
  · rw [columns]
    decide +kernel
  · rw [order i column found, positions]
    simp [odd, eq_comm]

end SampleTable

end SchemaText
