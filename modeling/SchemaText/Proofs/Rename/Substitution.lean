import Mathlib.Data.List.Forall2
import SchemaText.Proofs.Expr.Grammar
import SchemaText.Rename.Substitute

/-!
# Renaming keeps expressions expressions

Renaming columns replaces leaves by quoted names. A quoted name is an operand wherever it
stands, and no word next to it is read differently because of it: what was an expression
before is an expression of the same shape afterwards, token by token.

## Main definitions

* `Token.IsRenamed`: a token after renaming, which is the same or a quoted name.

## Main results

* `Expr.Opens.rename`, `Expr.Joins.rename`: no lookahead is upset by a quoted name.
* `Expr.Reads.substituteAt`: **a renamed expression belongs to the grammar** at the same
  place.
-/

namespace SchemaText

namespace Token

/-- What renaming makes of a token: the same token or a quoted name. -/
def IsRenamed (before after : Token) : Prop :=
  after = before ∨ after.kind = .quotedIdentifier

/-- A token may keep its name. -/
theorem IsRenamed.refl (t : Token) : t.IsRenamed t := .inl rfl

/-- A name in quotes is no keyword. -/
theorem is_of_quoted {t : Token} (h : t.kind = .quotedIdentifier) (k : Keyword) :
    t.is k = false := by
  rw [is, keyword?, h]
  rfl

end Token

namespace Expr

open Token

variable {level : Level} {source ops ts ts' : List Token} {op : Token} {e : Expr}
  {map : RenameMap}

/-! ### Lookahead -/

/-- A sequence after renaming. -/
abbrev Renamed (ts ts' : List Token) : Prop :=
  List.Forall₂ Token.IsRenamed ts ts'

/-- A sequence may keep its names. -/
theorem Renamed.refl (ts : List Token) : Renamed ts ts :=
  List.forall₂_same.2 fun t _ => .refl t

/-- A property of the next token that quoted names have is kept. -/
theorem Renamed.head {p : Token → Prop} (h : Renamed ts ts')
    (quoted : ∀ n : Token, n.kind = .quotedIdentifier → p n) (next : ∀ n ∈ ts.head?, p n) :
    ∀ n ∈ ts'.head?, p n := by
  cases h with
  | nil => simp
  | cons same _ =>
      rintro _ ⟨⟩
      rcases same with rfl | kind
      · exact next _ rfl
      · exact quoted _ kind

/-- **No prefix operator is read differently** before a quoted name. -/
theorem Opens.rename (h : Opens level source ops ts) (renamed : Renamed ts ts') :
    Opens level source ops ts' := by
  cases h with
  | sign kind => exact .sign kind
  | not kind alone =>
      exact .not kind (renamed.head (fun n quoted => is_of_quoted quoted _) alone)
  | notExists kind exists_ => exact .notExists kind exists_
  | word kind notCast notDistinct notCase => exact .word kind notCast notDistinct notCase
  | distinct kind distinct place once =>
      exact .distinct kind distinct place
        (renamed.head (fun n quoted => is_of_quoted quoted _) once)
  | case kind case alone =>
      exact .case kind case (renamed.head (fun n quoted => is_of_quoted quoted _) alone)
  | caseWhen kind case when => exact .caseWhen kind case when

/-- **No binary operator is read differently** before a quoted name. -/
theorem Joins.rename (h : Joins level source op ts) (renamed : Renamed ts ts') :
    Joins level source op ts' := by
  cases h with
  | comma place => exact .comma place
  | symbol kind => exact .symbol kind
  | word kind notIs => exact .word kind notIs
  | is kind is alone =>
      exact .is kind is (renamed.head (fun n quoted => by rw [quoted]; decide) alone)
  | isNot kind is not => exact .isNot kind is not
  | not kind negates => exact .not kind negates

/-- No level ends before a quoted name. -/
theorem endsBefore_quoted {t : Token} (h : t.kind = .quotedIdentifier) :
    level.endsBefore t = false := by
  cases level with
  | top stops | bounded stops =>
      refine List.any_eq_false.2 fun stop _ => ?_
      rw [isSpelled, h]
      exact Bool.false_ne_true
  | arguments | nested =>
      rw [Level.endsBefore, h]
      rfl

/-- Renaming makes no expression empty. -/
theorem isEmptyBefore_rename (h : level.isEmptyBefore ts = false) (renamed : Renamed ts ts') :
    level.isEmptyBefore ts' = false := by
  have keep (stays : ts.head?.any level.endsBefore = false) :
      ts'.head?.any level.endsBefore = false := by
    rw [← Bool.not_eq_true, Option.any_eq_true] at stays ⊢
    rintro ⟨n, member, ends⟩
    have := renamed.head (p := fun n => level.endsBefore n = false)
      (fun n quoted => endsBefore_quoted quoted)
      (fun n member => by simpa using fun ends => stays ⟨n, member, ends⟩) n member
    rw [this] at ends
    exact absurd ends (by simp)
  cases level with
  | top | arguments => exact keep h
  | nested | bounded => rfl

/-! ### The visit -/

/-- A leaf is kept or becomes a quoted name. -/
theorem substituteLeaf_cases (map : RenameMap) (place : Place) (t : Token) :
    (substituteLeaf map place t).value = .leaf t ∨
      ∃ name, (substituteLeaf map place t).value = .leaf ⟨name, .quotedIdentifier⟩ := by
  unfold substituteLeaf
  split
  · split
    · exact .inl rfl
    · exact .inr ⟨_, rfl⟩
    · exact .inl rfl
  · exact .inl rfl

/-- A leaf stays as it is or becomes a name in quotes. -/
theorem substituteAt_leaf (map : RenameMap) (place : Place) (collation : Bool) (t : Token) :
    (substituteAt map place collation (.leaf t)).value = .leaf t ∨
      ∃ name, (substituteAt map place collation (.leaf t)).value =
        .leaf ⟨name, .quotedIdentifier⟩ := by
  unfold substituteAt
  split
  · exact .inl rfl
  · exact substituteLeaf_cases map place t

/-- A leaf that no place admits is kept. -/
theorem substituteAt_leaf_of_not_admits {place : Place} {t : Token}
    (h : place.admits t.kind = false) (collation : Bool) :
    substituteAt map place collation (.leaf t) = ⟨.leaf t, none⟩ := by
  unfold substituteAt substituteLeaf
  rw [h]
  split <;> rfl

/-- Prefix operators stay in front of their operand. -/
theorem substituteAt_prefixAll (map : RenameMap) (place : Place) (collation : Bool)
    (ne : ops ≠ []) (e : Expr) :
    ∃ place', (substituteAt map place collation (prefixAll ops e)).value =
        prefixAll ops (substituteAt map place' false e).value ∧
      (substituteAt map place collation (prefixAll ops e)).fault =
        (substituteAt map place' false e).fault := by
  induction ops generalizing place collation with
  | nil => exact absurd rfl ne
  | cons op ops ih =>
      cases ops with
      | nil => exact ⟨place.inner, rfl, rfl⟩
      | cons next ops =>
          obtain ⟨place', value, fault⟩ := ih place.inner false (by simp)
          refine ⟨place', ?_, fault⟩
          exact congrArg (prefixed op) value

/-- The operands of an operator after their visit: the second one stays as it was if the first
has a fault. -/
def joinVisited (op : Token) (right : Expr) (first second : Substituted Expr) :
    Substituted Expr :=
  match first.fault with
  | some fault => ⟨.binary first.value op right, some fault⟩
  | none => ⟨.binary first.value op second.value, second.fault⟩

/-- Both operands are visited if there is no fault. -/
theorem substituteAt_binary {place : Place} {collation : Bool} {left right : Expr}
    (ok : (substituteAt map place collation (.binary left op right)).fault = none) :
    ∃ p c q d, (substituteAt map p c left).fault = none ∧
      (substituteAt map q d right).fault = none ∧
      (substituteAt map place collation (.binary left op right)).value =
        .binary (substituteAt map p c left).value op (substituteAt map q d right).value := by
  have visit (p q : Place) (c d : Bool)
      (same : substituteAt map place collation (.binary left op right) =
        joinVisited op right (substituteAt map p c left) (substituteAt map q d right)) :
      ∃ p c q d, (substituteAt map p c left).fault = none ∧
        (substituteAt map q d right).fault = none ∧
        (substituteAt map place collation (.binary left op right)).value =
          .binary (substituteAt map p c left).value op (substituteAt map q d right).value := by
    rw [same] at ok ⊢
    unfold joinVisited at ok ⊢
    split at ok
    · simp at ok
    · rename_i none
      exact ⟨p, c, q, d, none, ok, rfl⟩
  cases collation with
  | true => exact visit place place true (op.is .COLLATE) rfl
  | false =>
      by_cases collate : op.is .COLLATE = true
      · refine visit (collatedPlace place right) place.inner false true ?_
        rw [substituteAt, collate]
        rfl
      · rw [Bool.not_eq_true] at collate
        refine visit place.inner (if op.is .AS then .typeName else place.inner) false false ?_
        rw [substituteAt, collate]
        rfl

/-- A postfix operator stays, and its operand is renamed in some place. -/
theorem substituteAt_postfixed (map : RenameMap) (place : Place) (collation : Bool) (e : Expr)
    (op : Token) : ∃ p c, substituteAt map place collation (.postfixed e op) =
      ⟨.postfixed (substituteAt map p c e).value op, (substituteAt map p c e).fault⟩ := by
  cases collation with
  | true => exact ⟨place, true, rfl⟩
  | false => exact ⟨orderedPlace place op, false, rfl⟩

/-- The type of a cast is kept. -/
theorem substituteAt_cast (map : RenameMap) (place : Place) {stop : Token} (type : Token)
    (as : stop.is .AS = true) :
    substituteAt map place false (.binary e stop (.leaf type)) =
      ⟨.binary (substituteAt map place.inner false e).value stop (.leaf type),
        (substituteAt map place.inner false e).fault⟩ := by
  have collate : stop.is .COLLATE = false := by
    rw [is, beq_iff_eq] at as
    rw [is, as]
    rfl
  rw [substituteAt, collate, as]
  dsimp only
  simp only [Bool.false_eq_true, if_false, if_true]
  split
  · rename_i fault
    rw [fault]
  · rename_i none
    rw [substituteAt_leaf_of_not_admits rfl, none]

/-! ### The grammar -/

/-- Sequences are renamed one after the other. -/
theorem Renamed.append {us us' : List Token} (h : Renamed ts ts') (rest : Renamed us us') :
    Renamed (ts ++ us) (ts' ++ us') :=
  List.rel_append h rest

/-- **A renamed expression belongs to the grammar** at the same place, and each of its tokens
is the same or a quoted name. -/
theorem Reads.substituteAt {part : Part} (h : Reads part e ts) {place : Place}
    {collation : Bool} (ok : (e.substituteAt map place collation).fault = none) :
    ∃ ts', Reads part (e.substituteAt map place collation).value ts' ∧ Renamed ts ts' := by
  have leaf {level : Level} {list : Bool} {t : Token} (word : Token) {place : Place}
      {collation : Bool} (kept : Reads (.operand level list) (.leaf t) [word]) :
      ∃ ts', Reads (.operand level list) ((Expr.leaf t).substituteAt map place collation).value
        ts' ∧ Renamed [word] ts' := by
    rcases substituteAt_leaf map place collation t with same | ⟨name, same⟩
    · exact ⟨[word], by rw [same]; exact kept, .refl _⟩
    · exact ⟨_, by rw [same]; exact .literal rfl, .cons (.inr rfl) .nil⟩
  induction h generalizing place collation with
  | @literal level list t literal => exact leaf t (.literal literal)
  | @name level list t name => exact leaf t (.name name)
  | count name =>
      refine ⟨_, ?_, .refl _⟩
      rw [Expr.substituteAt, substituteAt_leaf_of_not_admits (by cases place <;> rfl)]
      exact .count name
  | call name arguments ih =>
      obtain ⟨ts', reads, renamed⟩ := @ih place.inner false ok
      exact ⟨_, .call name reads,
        .cons (.refl _) (.cons (.refl _) (renamed.append (.refl [closeParen])))⟩
  | @cast level list t stop e ts type name inner plain as isType ih =>
      have word : stop.is .AS = true := (isSpelled_spelling stop .AS).symm.trans as
      rw [Expr.substituteAt, substituteAt_cast map _ _ word] at ok ⊢
      obtain ⟨ts', reads, renamed⟩ := @ih place.inner.inner false ok
      exact ⟨_, .cast name reads plain as isType,
        .cons (.refl _) (.cons (.refl _) (renamed.append (.refl (stop :: (type ++ _)))))⟩
  | parens inner ih =>
      obtain ⟨ts', reads, renamed⟩ := @ih place.inner false ok
      exact ⟨_, .parens reads, .cons (.refl _) (renamed.append (.refl [closeParen]))⟩
  | prefixed noQuery opens inner ih =>
      obtain ⟨place', value, fault⟩ :=
        substituteAt_prefixAll map place collation opens.ops_ne_nil _
      obtain ⟨ts', reads, renamed⟩ := ih (fault ▸ ok)
      rw [value]
      exact ⟨_, .prefixed noQuery (opens.rename renamed) reads,
        (Renamed.refl _).append renamed⟩
  | bare inner ih =>
      obtain ⟨ts', reads, renamed⟩ := ih ok
      exact ⟨ts', .bare reads, renamed⟩
  | @trailed level list e op ts source inner trails ih =>
      obtain ⟨p, c, same⟩ := substituteAt_postfixed map place collation e op
      rw [same] at ok ⊢
      obtain ⟨ts', reads, renamed⟩ := ih ok
      exact ⟨_, .trailed reads trails, renamed.append (.refl source)⟩
  | last inner ih =>
      obtain ⟨ts', reads, renamed⟩ := ih ok
      exact ⟨ts', .last reads, renamed⟩
  | @more level list left right op ts source rs inner goes joins right ih ihRight =>
      obtain ⟨p, c, q, d, okLeft, okRight, value⟩ := substituteAt_binary ok
      obtain ⟨ts', readsLeft, renamedLeft⟩ := ih okLeft
      obtain ⟨rs', readsRight, renamedRight⟩ := ihRight okRight
      rw [value]
      exact ⟨_, .more readsLeft goes (joins.rename renamedRight) readsRight,
        renamedLeft.append ((Renamed.refl source).append renamedRight)⟩
  | empty => exact ⟨[], .empty, .nil⟩
  | items some inner ih =>
      obtain ⟨ts', reads, renamed⟩ := ih ok
      exact ⟨ts', .items (isEmptyBefore_rename some renamed) reads, renamed⟩

end Expr

end SchemaText
