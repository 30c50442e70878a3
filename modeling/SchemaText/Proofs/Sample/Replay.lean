import SchemaText.Proofs.Index.TermList
import SchemaText.Sample.Replay

/-!
# Which sample replays fail

The index of a sample replay is read from its text, with one term for each key. It cannot be
moved to the rebuilt table if a key or the condition is on the dropped column; nor if there
is a condition and the dropped column has the name `NULL`, as the `NULL` of `IS NOT NULL` is
read as the name of a column.

## Main definitions

* `SampleReplay.index`: the index that the text defines.

## Main results

* `SampleReplay.parse_indexSql`: the text is read as this index.
* `SampleReplay.lookup_renames_iff`: which names are those of dropped columns.
* `SampleReplay.retarget_indexSql_iff`: **when the index cannot be moved**.
-/

namespace SchemaText

open Token Lexer

/-! ### Texts with blanks -/

namespace Lexer

/-- Well-spelled tokens are read from their text up to a blank, whatever follows it. -/
theorem tokens_before_blank {ts : List Token} (h : ∀ t ∈ ts, t.IsWellSpelled)
    (cs : List Char) :
    tokens (renderAfter none ts ++ ' ' :: cs) = ts ++ tokens cs := by
  rw [tokens_renderAfter_append h, tokens_blank]
  rintro t member _ ⟨⟩
  exact (h t (List.mem_of_getLast? member)).stopsAt_space

end Lexer

/-! ### Faults -/

section Faults

variable {map : RenameMap}

/-- A leaf that can name a column is at fault if the column is dropped. -/
theorem Expr.fault_leaf {place : Place} {token : Token}
    (admits : place.admits token.kind = true) :
    (Expr.substituteLeaf map place token).fault.isSome = true ↔
      map.lookup token.text = some .dropped := by
  rw [Expr.substituteLeaf, if_pos admits]
  cases found : map.lookup token.text with
  | none => simp
  | some fate => cases fate <;> simp

/-- An index cannot be moved if a term or the condition uses a dropped column. -/
theorem Index.isSome_fault_retarget {index : Index} {table : String} :
    (index.retarget table map).fault.isSome = true ↔
      (∃ e ∈ index.terms, (e.substitute map .indexTerm).fault.isSome = true) ∨
        ∃ e ∈ index.predicate, (e.substitute map .predicate).fault.isSome = true := by
  rw [fault_retarget, Option.isSome_or, Bool.or_eq_true, List.isSome_findSome?,
    List.any_eq_true]
  refine or_congr_right ?_
  cases index.predicate <;> simp

end Faults

/-! ### Maps -/

/-- Of the columns that are entered one by one, the first of the name says what becomes of
it. -/
theorem RenameMap.lookup_foldl {map : RenameMap} {fate : String × Nat → Fate}
    {columns : List (String × Nat)} (name : String)
    (distinct : columns.Pairwise fun a b => Text.same a.1 b.1 = false) :
    (columns.foldl (fun map column => map.insert column.1 (fate column)) map).lookup name =
      ((columns.find? fun column => Text.same column.1 name).map fate).or (map.lookup name) := by
  induction columns generalizing map with
  | nil => rfl
  | cons column columns ih =>
      obtain ⟨first, rest⟩ := List.pairwise_cons.1 distinct
      rw [List.foldl_cons, ih rest, RenameMap.lookup_insert, List.find?_cons]
      cases same : Text.same column.1 name with
      | false => rw [if_neg Bool.false_ne_true]
      | true =>
          have none : columns.find? (fun other => Text.same other.1 name) = none := by
            rw [List.find?_eq_none]
            intro other member
            have apart := first other member
            intro also
            rw [Text.same_comm] at also
            exact absurd (Text.same_trans same also) (by simp [apart])
          rw [none, if_pos rfl]
          rfl

namespace SampleReplay

variable {replay : SampleReplay} {map : RenameMap}

/-! ### The index that is read -/

/-- The column that a position picks, as it is read. -/
def column (replay : SampleReplay) (position : Nat) : Token :=
  ⟨replay.names[replay.pick position]?.getD "", .quotedIdentifier⟩

/-- The term of a key. -/
def term (replay : SampleReplay) (key : Nat × Bool) : Expr :=
  if key.2 then .call ⟨"lower", .identifier⟩ (.leaf (replay.column key.1))
  else .leaf (replay.column key.1)

/-- The operator of the condition. -/
def isNot : Token :=
  Token.join .operator (keyword .IS) (keyword .NOT)

/-- The condition on the column that a position picks. -/
def condition (replay : SampleReplay) (position : Nat) : Expr :=
  .binary (.leaf (replay.column position)) isNot (.leaf ⟨"NULL", .identifier⟩)

/-- The index that the text defines. -/
def index (replay : SampleReplay) : Index where
  name := "fuzzed_index"
  table := "fuzzed"
  terms := replay.keys.map replay.term
  predicate := replay.predicate.map replay.condition

/-! ### The text of the index -/

/-- The name of a column is well spelled. -/
theorem isWellSpelled_column (position : Nat) : (replay.column position).IsWellSpelled :=
  .quotedIdentifier _

/-- A picked name is written as one token. -/
theorem toList_pickedName (position : Nat) :
    (replay.pickedName position).toList = renderAfter none [replay.column position] := by
  rw [pickedName, Text.quotedName, Text.toList_enclose, renderAfter_cons,
    (isWellSpelled_column position).written_eq, renderAfter_nil, List.append_nil]
  rfl

/-- The text of a key is the text of an expression. -/
theorem parse_keySql (key : Nat × Bool) :
    Expr.parse (replay.keySql key) = .ok (replay.term key) ∧
      endsInComment (replay.keySql key).toList = false := by
  have column : Expr.Reads (.operand (.top []) false) (.leaf (replay.column key.1))
      [replay.column key.1] := .literal rfl
  obtain ⟨position, small⟩ := key
  cases small with
  | false =>
      have written : replay.keySql (position, false) = render [replay.column position] := by
        rw [render, ← toList_pickedName, String.ofList_toList]
        rfl
      rw [written]
      exact Expr.parse_render (.last (.bare column))
        (List.forall_mem_singleton.2 fun _ => isWellSpelled_column position)
  | true =>
      have name : Token.name "lower" = ⟨"lower", .identifier⟩ := by decide +kernel
      have written : replay.keySql (position, true) =
          render [⟨"lower", .identifier⟩, openParen, replay.column position, closeParen] := by
        refine String.ext ?_
        rw [keySql, if_pos rfl, String.toList_append, String.toList_append, toList_pickedName,
          render, String.toList_ofList]
        simp [renderAfter_cons, written, spelling, gap, needsSpace, SampleReplay.column, openParen,
          closeParen, dot, TokenKind.leadingEdge, TokenKind.trailingEdge, Edge.runsInto]
      have callable : (⟨"lower", .identifier⟩ : Token).isCallable = true := by decide +kernel
      rw [written]
      refine Expr.parse_render (.last (.bare (.call callable
        (.items rfl (.last (.bare (.literal rfl))))))) ?_
      exact List.forall_mem_cons.2 ⟨Expr.isLexed_plainName name,
        List.forall_mem_cons.2 ⟨fun _ => isWellSpelled_openParen, List.forall_mem_cons.2
          ⟨fun _ => isWellSpelled_column position, List.forall_mem_singleton.2
            fun _ => isWellSpelled_closeParen⟩⟩⟩

/-- The tokens of the condition. -/
def conditionTokens (replay : SampleReplay) (position : Nat) : List Token :=
  [replay.column position, keyword .IS, keyword .NOT, keyword .NULL]

/-- The condition belongs to the grammar. -/
theorem reads_condition (position : Nat) : Expr.Reads (.items (.top []))
    (replay.condition position) (replay.conditionTokens position) := by
  have null : (keyword .NULL).isCallable = true := by decide +kernel
  refine .items rfl (.more (.bare (.literal rfl)) ?_
    (.isNot (t := keyword .IS) (n := keyword .NOT) rfl (by simp) rfl)
    (.last (.bare (.name (t := keyword .NULL) (.inl null)))))
  rintro _ ⟨⟩
  rfl

/-- What stands before the list of terms. -/
def opening : List Token :=
  [keyword .CREATE, keyword .INDEX, Token.name "fuzzed_index", keyword .ON]

/-- The table as the text names it. -/
def quotedTable : Token :=
  ⟨"fuzzed", .quotedIdentifier⟩

/-- The words at the front are well spelled. -/
theorem isWellSpelled_opening : ∀ t ∈ opening, t.IsWellSpelled :=
  List.forall_mem_cons.2 ⟨isWellSpelled_keyword _, List.forall_mem_cons.2
    ⟨isWellSpelled_keyword _, List.forall_mem_cons.2
      ⟨isWellSpelled_name _, List.forall_mem_singleton.2 (isWellSpelled_keyword _)⟩⟩⟩

/-- The name of the table is well spelled. -/
theorem isWellSpelled_table : quotedTable.IsWellSpelled :=
  .quotedIdentifier "fuzzed"

/-- The condition as it is written after the list of terms. -/
def conditionText (replay : SampleReplay) (position : Nat) : List Char :=
  ' ' :: (renderAfter none [keyword .WHERE] ++
    ' ' :: (renderAfter none [replay.column position] ++
      ' ' :: renderAfter none [keyword .IS, keyword .NOT, keyword .NULL]))

/-- The condition is written as its tokens. -/
theorem toList_condition (position : Nat) :
    (" WHERE " ++ replay.pickedName position ++ " IS NOT NULL").toList =
      replay.conditionText position := by
  have before : " WHERE ".toList = ' ' :: (renderAfter none [keyword .WHERE] ++ [' ']) := by
    decide +kernel
  have behind : " IS NOT NULL".toList =
      ' ' :: renderAfter none [keyword .IS, keyword .NOT, keyword .NULL] := by decide +kernel
  rw [String.toList_append, String.toList_append, toList_pickedName, before, behind, conditionText,
    List.cons_append, List.cons_append, List.append_assoc, List.append_assoc]
  rfl

/-- The condition is read as its tokens, behind `WHERE`. -/
theorem tokens_conditionText (position : Nat) : tokens (replay.conditionText position) =
    keyword .WHERE :: replay.conditionTokens position := by
  have word (k : Keyword) := List.forall_mem_singleton.2 (isWellSpelled_keyword k)
  have last : ∀ t ∈ [keyword .IS, keyword .NOT, keyword .NULL], t.IsWellSpelled :=
    List.forall_mem_cons.2 ⟨isWellSpelled_keyword _, List.forall_mem_cons.2
      ⟨isWellSpelled_keyword _, word _⟩⟩
  rw [conditionText, tokens_blank, tokens_before_blank (word _), tokens_before_blank
    (List.forall_mem_singleton.2 (isWellSpelled_column position)), tokens_renderAfter last]
  rfl

/-- A list between the heading and a condition. -/
theorem toList_listed (list condition : String) :
    ("CREATE INDEX fuzzed_index ON \x22fuzzed\x22 (" ++ list ++ ")" ++ condition).toList =
      renderAfter none opening ++ ' ' :: (renderAfter none [quotedTable] ++ ' ' :: (['('] ++
        (list.toList ++ ')' :: condition.toList))) := by
  have first : "CREATE INDEX fuzzed_index ON \x22fuzzed\x22 (".toList =
      renderAfter none opening ++ ' ' :: (renderAfter none [quotedTable] ++ [' ', '(']) := by
    decide +kernel
  have close : ")".toList = [')'] := rfl
  rw [String.toList_append, String.toList_append, String.toList_append, first, close]
  simp only [List.append_assoc, List.cons_append, List.nil_append]

/-- The statement piece by piece, as its tokens are written. -/
theorem toList_indexSql : replay.indexSql.toList = renderAfter none opening ++ ' ' ::
    (renderAfter none [quotedTable] ++ ' ' :: (['('] ++
      ((", ".intercalate (replay.keys.map replay.keySql)).toList ++
        ')' :: replay.predicate.elim [] replay.conditionText))) := by
  have last : (replay.predicate.elim "" fun position =>
      " WHERE " ++ replay.pickedName position ++ " IS NOT NULL").toList =
        replay.predicate.elim [] replay.conditionText := by
    cases replay.predicate with
    | none => rfl
    | some position => exact toList_condition position
  rw [← last]
  exact toList_listed _ _

/-- **The tokens of the text.** -/
theorem tokenize_indexSql (ne : replay.keys ≠ []) : tokenize replay.indexSql =
    opening ++ quotedTable :: openParen ::
      (commaList (replay.keys.map fun key => tokenize (replay.keySql key)) ++ closeParen ::
        replay.predicate.elim [] fun position =>
          keyword .WHERE :: replay.conditionTokens position) := by
  have terms (cs : List Char) : tokens
      ((", ".intercalate (replay.keys.map replay.keySql)).toList ++ ')' :: cs) =
        commaList (replay.keys.map fun key => tokenize (replay.keySql key)) ++
          closeParen :: tokens cs := by
    have list := @tokens_intercalate
      (replay.keys.map fun key => (replay.keySql key, replay.term key)) (by simpa using ne)
      (List.forall_mem_map.2 fun key _ => (parse_keySql key).1)
      (List.forall_mem_map.2 fun key _ => (parse_keySql key).2) cs
    rw [List.map_map, List.map_map] at list
    exact list
  have last : tokens (replay.predicate.elim [] replay.conditionText) =
      replay.predicate.elim [] fun position =>
        keyword .WHERE :: replay.conditionTokens position := by
    cases replay.predicate with
    | none => exact tokens_of_first_none rfl
    | some position => exact tokens_conditionText position
  rw [← tokens_toList, toList_indexSql, tokens_before_blank isWellSpelled_opening,
    tokens_before_blank (List.forall_mem_singleton.2 isWellSpelled_table),
    tokens_closed (show (['('], TokenKind.openParen) ∈ signs by decide) rfl, terms, last]
  rfl

/-- The statement is read up to the list of terms. -/
theorem outcome_opening {rest : List Token} {statement : Statement}
    (h : Completes (.index (Index.new "fuzzed_index" "fuzzed")) (.term .table) rest statement) :
    outcome (.opening .start) {} (opening ++ quotedTable :: rest) = .ok statement := by
  have named : Completes (.index (Index.new "" "")) (.indexName .begun)
      ((qualified none "fuzzed_index").map spoken ++ keyword .ON :: quotedTable :: rest)
      statement := by
    refine (readsName_index (Index.new "" "")).completes_qualified (.inl rfl) ?_
    exact .changeIndex (.term .table) (fun i => { i with table := "fuzzed" }) (fun d => rfl) h
  rw [qualified, List.map_singleton, spoken_name] at named
  exact outcome_createIndex false named

/-- The terms of the keys are a list: none of them has a binary operator at its top. -/
theorem items_terms (ne : replay.keys ≠ []) : Expr.Items (replay.keys.map replay.term)
    (commaList (replay.keys.map fun key => tokenize (replay.keySql key))) := by
  have some : replay.keys.map replay.term ≠ [] := by simpa using ne
  have reads (key : Nat × Bool) := Expr.reads_of_parse (@parse_keySql replay key).1
  have all : List.Forall₂ (fun e ts => Expr.Reads (.chain .arguments false) e ts)
      (replay.keys.map replay.term)
      (replay.keys.map fun key => tokenize (replay.keySql key)) := by
    rw [List.forall₂_map_left_iff, List.forall₂_map_right_iff, List.forall₂_same]
    exact fun key _ => (reads key).inList
  have plain (key : Nat × Bool) : (replay.term key).isBinary = false := by
    unfold term
    split <;> rfl
  have split : (Expr.chained (replay.keys.map replay.term)).splitCommas =
      replay.keys.map replay.term := by
    refine (Expr.splitCommas_chained_iff some ?_).2 fun e member => ?_
    · exact List.forall_mem_map.2 fun key _ => (reads key).isList_chain (by simp)
    · obtain ⟨key, -, rfl⟩ := List.mem_map.1 (List.dropLast_subset _ member)
      exact plain key
  rw [← split]
  exact .inr (Expr.Reads.chained some all).terms

/-- All tokens of the text are valid. -/
theorem kind_ne_invalid_indexSql (ne : replay.keys ≠ []) :
    ∀ t ∈ tokenize replay.indexSql, t.kind ≠ .invalid := by
  have last : ∀ t ∈ replay.predicate.elim [] fun position =>
      keyword .WHERE :: replay.conditionTokens position, t.kind ≠ .invalid := by
    cases replay.predicate with
    | none => simp
    | some position =>
        exact List.forall_mem_cons.2 ⟨(isWellSpelled_keyword .WHERE).kind_ne_invalid,
          (reads_condition position).kind_ne_invalid⟩
  rw [tokenize_indexSql ne]
  refine List.forall_mem_append.2 ⟨fun t member =>
    (isWellSpelled_opening t member).kind_ne_invalid, ?_⟩
  refine List.forall_mem_cons.2 ⟨by decide, List.forall_mem_cons.2 ⟨by decide, ?_⟩⟩
  exact List.forall_mem_append.2 ⟨(items_terms ne).kind_ne_invalid,
    List.forall_mem_cons.2 ⟨by decide, last⟩⟩

/-- **The text of the index is read.** -/
theorem parse_indexSql (ne : replay.keys ≠ []) :
    Statement.parse replay.indexSql = .ok (.index replay.index) := by
  refine parse_of_outcome (kind_ne_invalid_indexSql ne) ?_
  rw [tokenize_indexSql ne]
  refine outcome_opening (completes_terms (items_terms ne) ?_)
  cases found : replay.predicate with
  | none =>
      intro d same
      refine outcome_nil rfl (same.trans ?_)
      rw [index, found]
      rfl
  | some position =>
      have read := @completes_predicate
        { Index.new "fuzzed_index" "fuzzed" with terms := replay.keys.map replay.term } _ _
        (@reads_condition replay position)
      rw [index, found]
      exact read

/-! ### The rebuilt table -/

/-- No two usable columns have the same name. -/
theorem pairwise_usableColumns (table : SampleTable) :
    table.usableColumns.Pairwise fun a b => Text.same a.name b.name = false := by
  have add {kept : List SampleColumn} (column : SampleColumn)
      (h : kept.Pairwise fun a b => Text.same a.name b.name = false) :
      (SampleTable.addUsable kept column).Pairwise fun a b =>
        Text.same a.name b.name = false := by
    unfold SampleTable.addUsable
    split
    · exact h
    · rename_i usable
      rw [List.pairwise_append]
      refine ⟨h, List.pairwise_singleton _ _, fun other member c last => ?_⟩
      obtain rfl := List.mem_singleton.1 last
      simp only [Bool.or_eq_true, not_or, Bool.not_eq_true, List.any_eq_false] at usable
      simpa using usable.2 other member
  have all (columns kept : List SampleColumn)
      (h : kept.Pairwise fun a b => Text.same a.name b.name = false) :
      (columns.foldl SampleTable.addUsable kept).Pairwise
        fun a b => Text.same a.name b.name = false := by
    induction columns generalizing kept with
    | nil => exact h
    | cons column columns ih => exact ih _ (add column h)
  exact all table.columns [] .nil

/-- No two columns have the same name, in any case. -/
theorem pairwise_names (replay : SampleReplay) :
    replay.names.Pairwise fun a b => Text.same a b = false :=
  List.pairwise_map.2 (pairwise_usableColumns replay.table)

/-- Columns are known by their names. -/
theorem eq_of_same {i j : Nat} {a b : String} (first : replay.names[i]? = some a)
    (second : replay.names[j]? = some b) (same : Text.same a b = true) : i = j := by
  obtain ⟨hi, rfl⟩ := List.getElem?_eq_some_iff.1 first
  obtain ⟨hj, rfl⟩ := List.getElem?_eq_some_iff.1 second
  have apart := List.pairwise_iff_getElem.1 replay.pairwise_names
  rcases Nat.lt_trichotomy i j with less | equal | more
  · exact absurd (same.symm.trans (apart i j hi hj less)) (by simp)
  · exact equal
  · rw [Text.same_comm] at same
    exact absurd (same.symm.trans (apart j i hj hi more)) (by simp)

/-- **What becomes of a name**: it is dropped if it is that of a dropped column. -/
theorem lookup_renames_iff (name : String) : replay.renames.lookup name = some .dropped ↔
    ∃ i other, replay.names[i]? = some other ∧ Text.same other name = true ∧
      replay.drops i = true := by
  have distinct : replay.names.zipIdx.Pairwise fun a b => Text.same a.1 b.1 = false := by
    rw [← List.pairwise_map (f := Prod.fst) (R := fun a b => Text.same a b = false),
      List.zipIdx_map_fst]
    exact replay.pairwise_names
  have looked := @RenameMap.lookup_foldl .empty (fun column =>
    if replay.drops column.2 then .dropped else .renamed (newName column.1)) _ name distinct
  change replay.renames.lookup name = _ at looked
  rw [looked, RenameMap.lookup_empty, Option.or_none, Option.map_eq_some_iff]
  constructor
  · rintro ⟨⟨other, i⟩, found, dropped⟩
    have member := List.mem_zipIdx_iff_getElem?.1 (List.mem_of_find?_eq_some found)
    refine ⟨i, other, member, by simpa using List.find?_some found, ?_⟩
    by_contra kept
    simp [kept] at dropped
  · rintro ⟨i, other, position, same, drops⟩
    have member : (other, i) ∈ replay.names.zipIdx := List.mem_zipIdx_iff_getElem?.2 position
    have some : (replay.names.zipIdx.find? fun column => Text.same column.1 name).isSome =
        true := List.find?_isSome.2 ⟨(other, i), member, same⟩
    obtain ⟨⟨o, j⟩, found⟩ := Option.isSome_iff_exists.1 some
    have position' := List.mem_zipIdx_iff_getElem?.1 (List.mem_of_find?_eq_some found)
    have same' : Text.same o name = true := by simpa using List.find?_some found
    rw [Text.same_comm] at same
    obtain rfl : j = i := eq_of_same position' position (Text.same_trans same' same)
    exact ⟨_, found, by simp [drops]⟩

/-- A picked column is dropped if its position is. -/
theorem lookup_column (ne : replay.names ≠ []) (position : Nat) :
    replay.renames.lookup (replay.column position).text = some .dropped ↔
      replay.drops (replay.pick position) = true := by
  have bound : replay.pick position < replay.names.length :=
    Nat.mod_lt _ (List.length_pos_iff.2 ne)
  have found := List.getElem?_eq_getElem bound
  rw [lookup_renames_iff, SampleReplay.column, found, Option.getD_some]
  constructor
  · rintro ⟨i, other, position, same, drops⟩
    rwa [← eq_of_same position found same]
  · exact fun drops => ⟨_, _, found, Text.same_refl _, drops⟩

/-! ### Terms and conditions that use a dropped column -/

/-- A term refers to a dropped column just if its column is dropped. -/
theorem fault_term (key : Nat × Bool) :
    ((replay.term key).substitute map .indexTerm).fault.isSome = true ↔
      map.lookup (replay.column key.1).text = some .dropped := by
  unfold term
  split
  · exact @Expr.fault_leaf map .nested (replay.column key.1) rfl
  · exact @Expr.fault_leaf map .term (replay.column key.1) rfl

/-- The condition refers to a dropped column just if its column is dropped, or a column named
like its last word. -/
theorem fault_condition (position : Nat) :
    ((replay.condition position).substitute map .predicate).fault.isSome = true ↔
      map.lookup (replay.column position).text = some .dropped ∨
        map.lookup "NULL" = some .dropped := by
  have column := @Expr.fault_leaf map .predicate (replay.column position) rfl
  have null := @Expr.fault_leaf map .predicate ⟨"NULL", .identifier⟩ rfl
  have collate : isNot.is .COLLATE = false := by decide +kernel
  have as : isNot.is .AS = false := by decide +kernel
  rw [← column, ← null]
  simp only [condition, Expr.substitute, Placement.place, Expr.substituteAt, collate, as,
    Bool.false_eq_true, if_false, Place.inner]
  cases found : (Expr.substituteLeaf map .predicate (replay.column position)).fault <;> simp

/-- **When the index of a sample replay cannot be moved**: if a key or the condition is on the
dropped column, or if there is a condition and the dropped column has the name `NULL`. -/
theorem retarget_indexSql_iff (columns : replay.names ≠ []) (keys : replay.keys ≠ []) :
    ∃ index, Statement.parse replay.indexSql = .ok (.index index) ∧
      index.terms.length = replay.keys.length ∧
      ((index.retarget "rebuilt" replay.renames).fault.isSome = true ↔
        replay.usesDropped = true ∨ replay.predicate.isSome = true ∧
          ∃ i name, replay.names[i]? = some name ∧ Text.same name "NULL" = true ∧
            replay.drops i = true) := by
  refine ⟨replay.index, parse_indexSql keys, List.length_map _, ?_⟩
  have terms : (∃ e ∈ replay.index.terms,
      (e.substitute replay.renames .indexTerm).fault.isSome = true) ↔
        replay.keys.any (fun key => replay.drops (replay.pick key.1)) = true := by
    simp only [index, List.mem_map, exists_exists_and_eq_and, fault_term, lookup_column columns,
      List.any_eq_true]
  have condition : (∃ e ∈ replay.index.predicate,
      (e.substitute replay.renames .predicate).fault.isSome = true) ↔
        (replay.predicate.any fun position => replay.drops (replay.pick position)) = true ∨
          replay.predicate.isSome = true ∧ replay.renames.lookup "NULL" = some .dropped := by
    cases found : replay.predicate with
    | none => simp [index, found]
    | some position =>
        simp [index, found, fault_condition, lookup_column columns]
  rw [Index.isSome_fault_retarget, terms, condition, lookup_renames_iff, usesDropped,
    Bool.or_eq_true, or_assoc]

/-- A table with a column `null`, which is dropped; the index is on the other one. -/
def nullColumn : SampleReplay where
  table :=
    { columns := [⟨"a", .untyped, false, false, false, none⟩,
        ⟨"null", .untyped, false, false, false, none⟩]
      primaryKey := [], descending := false, withoutRowid := false }
  keys := [(0, false)]
  predicate := some 0
  dropped := some 1

/-- The index does not use the column `null`, and cannot be moved. -/
theorem retarget_indexSql_nullColumn : nullColumn.names ≠ [] ∧ nullColumn.keys ≠ [] ∧
    nullColumn.keptNames ≠ [] ∧ nullColumn.usesDropped = false ∧
    ∃ index, Statement.parse nullColumn.indexSql = .ok (.index index) ∧
      index.terms.length = 1 ∧
      (index.retarget "rebuilt" nullColumn.renames).fault.isSome = true := by
  have columns : nullColumn.names ≠ [] := by decide +kernel
  have keys : nullColumn.keys ≠ [] := by decide
  obtain ⟨index, parsed, length, fault⟩ := retarget_indexSql_iff columns keys
  refine ⟨columns, keys, by decide +kernel, by decide +kernel, index, parsed, length,
    fault.2 (.inr ⟨rfl, 1, "null", ?_⟩)⟩
  decide +kernel

end SampleReplay

end SchemaText
