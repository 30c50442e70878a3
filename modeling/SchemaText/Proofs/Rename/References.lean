import Mathlib.Data.List.Induction
import Mathlib.Data.List.ModifyLast
import SchemaText.Proofs.Expr.RoundTrip
import SchemaText.Proofs.Rename.Substitution

/-!
# Which leaves name columns

Which leaves of an expression are references to columns can be told without visiting the
expression: it depends on the kind of the leaf and on the token directly before it. This
module says which ones they are and what a visit makes of the leaves one after another.

## Main definitions

* `Slot`: a leaf in its surroundings; `Expr.slots`: the leaves of an expression.
* `Expr.leaves`, `Expr.shape`: the tokens of the leaves, and everything else.
* `Expr.IsPlainTerm`: an index term that is a leaf but for its collation and order.
* `Slot.IsCandidate`: **the leaves that name columns**.
* `Slot.fate`, `Slot.renamed`: what a map says of a leaf, and what becomes of it.
* `visited`: what becomes of leaves that are visited one after another.

## Main results

* `Expr.Reads.visits_inside`: what a visit does inside a term or a condition.
* `Expr.substitute_references`: **a visit replaces exactly the references**, up to the first
  one to a dropped column.
-/

namespace SchemaText

open Token

/-! ### Leaves in their surroundings -/

/-- A leaf in its surroundings. -/
structure Slot where
  /-- The leaf. -/
  token : Token
  /-- The token directly before it; none if the expression begins with it. -/
  before : Option Token
  /-- Whether it is the type of a cast. -/
  isType : Bool
  deriving DecidableEq, Repr

namespace Slot

/-- The leaf as the type of a cast. -/
def asType (slot : Slot) : Slot :=
  { slot with isType := true }

/-- Whether the leaf stands directly after `COLLATE`. -/
def isCollation (slot : Slot) : Bool :=
  slot.before.any (·.is .COLLATE)

/-- Whether the leaf is a name, bare or quoted, and neither that of a collation nor that of a
type. -/
def isReference (slot : Slot) : Bool :=
  (slot.token.kind == .identifier || slot.token.kind.isQuotedIdentifier)
    && !slot.isCollation && !slot.isType

end Slot

namespace Expr

/-- The tokens of the leaves, in the order of the text. -/
def leaves : Expr → List Token
  | empty => []
  | leaf token => [token]
  | prefixed _ operand => leaves operand
  | binary left _ right => leaves left ++ leaves right
  | postfixed operand _ => leaves operand
  | parens inner => leaves inner
  | call _ arguments => leaves arguments

/-- The expression with blank leaves: its operators, functions and parentheses. -/
def shape : Expr → Expr
  | empty => empty
  | leaf _ => leaf ⟨"", .invalid⟩
  | prefixed op operand => prefixed op (shape operand)
  | binary left op right => binary (shape left) op (shape right)
  | postfixed operand op => postfixed (shape operand) op
  | parens inner => parens (shape inner)
  | call name arguments => call name (shape arguments)

/-- The leaves in their surroundings, where `before` stands directly before the expression.
The last leaf of the arguments of `CAST` is the type. -/
def slotsAfter (before : Option Token) : Expr → List Slot
  | empty => []
  | leaf token => [⟨token, before, false⟩]
  | prefixed op operand => slotsAfter (some op) operand
  | binary left op right => slotsAfter before left ++ slotsAfter (some op) right
  | postfixed operand _ => slotsAfter before operand
  | parens inner => slotsAfter (some openParen) inner
  | call name arguments =>
    if name.is .CAST then (slotsAfter (some openParen) arguments).modifyLast Slot.asType
    else slotsAfter (some openParen) arguments

/-- The leaves in their surroundings. -/
def slots (e : Expr) : List Slot :=
  e.slotsAfter none

/-- An index term that is a leaf but for its order, or for its collation and the orders after
that. -/
inductive IsPlainTerm : Expr → Prop
  | alone (name : Token) : IsPlainTerm (leaf name)
  | ordered (name : Token) {op : Token} (order : isOrder op = true) :
      IsPlainTerm (postfixed (leaf name) op)
  | collated (name collation : Token) {op : Token} {orders : List Token}
      (collate : op.is .COLLATE = true) (all : ∀ o ∈ orders, isOrder o = true) :
      IsPlainTerm (binary (leaf name) op (orders.foldl postfixed (leaf collation)))

/-- Whether an index term is a leaf but for its collation and order. -/
def isPlainTerm : Expr → Bool
  | leaf _ => true
  | postfixed (leaf _) op => isOrder op
  | binary (leaf _) op right => op.is .COLLATE && right.isCollation
  | _ => false

/-- A collation is a name with orders after it. -/
theorem isCollation_iff {e : Expr} : e.isCollation = true ↔
    ∃ (name : Token) (orders : List Token), (∀ o ∈ orders, isOrder o = true) ∧
      e = orders.foldl postfixed (leaf name) := by
  constructor
  · intro h
    induction e with
    | leaf name => exact ⟨name, [], by simp, rfl⟩
    | postfixed operand op ih =>
        rw [isCollation, Bool.and_eq_true] at h
        obtain ⟨name, orders, all, rfl⟩ := ih h.2
        refine ⟨name, orders ++ [op], ?_, by rw [List.foldl_concat]⟩
        simpa [or_imp, forall_and] using ⟨all, h.1⟩
    | _ => exact absurd h (by simp [isCollation])
  · rintro ⟨name, orders, all, rfl⟩
    induction orders using List.reverseRecOn with
    | nil => rfl
    | append_singleton orders op ih =>
        rw [List.foldl_concat, isCollation, Bool.and_eq_true]
        exact ⟨all op (by simp), ih fun o member => all o (by simp [member])⟩

/-- Whether a term is a plain column can be decided. -/
theorem isPlainTerm_iff {e : Expr} : e.isPlainTerm = true ↔ e.IsPlainTerm := by
  constructor
  · intro h
    unfold isPlainTerm at h
    split at h
    · exact .alone _
    · exact .ordered _ h
    · rw [Bool.and_eq_true, isCollation_iff] at h
      obtain ⟨collate, name, orders, all, rfl⟩ := h
      exact .collated _ name collate all
    · exact absurd h (by simp)
  · rintro (_ | ⟨_, order⟩ | ⟨_, collation, collate, all⟩)
    · rfl
    · exact order
    · rw [isPlainTerm, collate, isCollation_iff.2 ⟨collation, _, all, rfl⟩]
      rfl

instance (e : Expr) : Decidable e.IsPlainTerm :=
  decidable_of_iff _ isPlainTerm_iff

end Expr

/-! ### References -/

namespace Slot

variable {map : RenameMap} {placement : Placement} {e : Expr} {slot : Slot}

/-- **The leaves that name columns**: names that are neither collations nor types, and in an
index term also a text, if the term is this text but for its collation and order. -/
def IsCandidate (placement : Placement) (e : Expr) (slot : Slot) : Prop :=
  slot.isReference = true ∨
    placement = .indexTerm ∧ slot.token.kind = .stringLiteral ∧
      slot.before = none ∧ e.IsPlainTerm

instance : Decidable (slot.IsCandidate placement e) :=
  inferInstanceAs (Decidable (_ ∨ _))

/-- What the map says of the column that the leaf names; none if it names no column. -/
def fate (map : RenameMap) (placement : Placement) (e : Expr) (slot : Slot) : Option Fate :=
  if slot.IsCandidate placement e then map.lookup slot.token.text else none

/-- The leaf under the new name of its column. -/
def renamed (fate : Slot → Option Fate) (slot : Slot) : Token :=
  match fate slot with
  | some (.renamed name) => ⟨name, .quotedIdentifier⟩
  | _ => slot.token

end Slot

/-- What becomes of leaves that are visited one after another, and the fault that ends the
visit. -/
def visited (fate : Slot → Option Fate) : List Slot → List Token × Option DroppedColumn
  | [] => ([], none)
  | slot :: slots =>
    if fate slot = some .dropped then
      ((slot :: slots).map (·.token), some ⟨slot.token.text⟩)
    else
      (slot.renamed fate :: (visited fate slots).1, (visited fate slots).2)

variable {fate fate' : Slot → Option Fate}
  {slots slots' before after : List Slot} {slot : Slot}

/-- Slots that are not dropped are all renamed, and the visit goes on after them. -/
theorem visited_of_kept (kept : ∀ slot ∈ slots, fate slot ≠ some .dropped)
    (after : List Slot) :
    visited fate (slots ++ after) =
      (slots.map (·.renamed fate) ++ (visited fate after).1, (visited fate after).2) := by
  induction slots with
  | nil => rfl
  | cons slot slots ih =>
      rw [List.forall_mem_cons] at kept
      rw [List.cons_append, visited, if_neg kept.1, ih kept.2]
      rfl

/-- A visit depends on no more than the fates of the slots it comes to. -/
theorem visited_congr (same : ∀ slot ∈ slots, fate slot = fate' slot) :
    visited fate slots = visited fate' slots := by
  induction slots with
  | nil => rfl
  | cons slot slots ih =>
      rw [List.forall_mem_cons] at same
      rw [visited, visited, ih same.2, Slot.renamed, Slot.renamed, same.1]

/-- A fault ends the visit. -/
theorem visited_append (fate : Slot → Option Fate) (slots after : List Slot) :
    visited fate (slots ++ after) =
      if (visited fate slots).2 = none then
        ((visited fate slots).1 ++ (visited fate after).1, (visited fate after).2)
      else ((visited fate slots).1 ++ after.map (·.token), (visited fate slots).2) := by
  induction slots with
  | nil => rfl
  | cons slot slots ih =>
      by_cases dropped : fate slot = some .dropped
      · simp [visited, dropped]
      · rw [List.cons_append, visited, visited, if_neg dropped, if_neg dropped, ih]
        split <;> rfl

namespace Expr

/-! ### The visit of a leaf -/

/-- Being the type of a cast changes nothing else about a leaf. -/
theorem map_asType {α : Type} (slots : List Slot) {f : Slot → α}
    (same : ∀ slot : Slot, f slot.asType = f slot) :
    (slots.modifyLast Slot.asType).map f = slots.map f := by
  induction slots using List.reverseRecOn with
  | nil => rfl
  | append_singleton slots slot _ =>
      rw [List.modifyLast_concat, List.map_append, List.map_append, List.map_singleton, same]
      rfl

/-- The tokens of the slots are the leaves. -/
theorem map_token_slotsAfter (e : Expr) (before : Option Token) :
    (e.slotsAfter before).map (·.token) = e.leaves := by
  induction e generalizing before with
  | empty | leaf => rfl
  | prefixed _ _ ih | postfixed _ _ ih | parens _ ih => exact ih _
  | binary _ _ _ left right => rw [slotsAfter, List.map_append, left, right, leaves]
  | call _ _ ih =>
      rw [slotsAfter]
      split
      · rw [map_asType _ fun _ => rfl, ih, leaves]
      · exact ih _

/-- The visit of an expression, leaf after leaf. -/
structure Visits (fate : Slot → Option Fate) (slots : List Slot) (e : Expr)
    (after : Substituted Expr) : Prop where
  /-- Operators, functions and parentheses are kept. -/
  shape : after.value.shape = e.shape
  /-- What becomes of the leaves. -/
  leaves : (after.value.leaves, after.fault) = visited fate slots

variable {map : RenameMap} {place : Place} {s first second : Substituted Expr}
  {left right e : Expr} {op : Token} {level : Level} {source rest : List Token}

/-- An expression is visited alike under fates that agree on its slots. -/
theorem Visits.congr (h : Visits fate slots e s)
    (same : ∀ slot ∈ slots, fate slot = fate' slot) :
    Visits fate' slots e s :=
  ⟨h.shape, h.leaves.trans (visited_congr same)⟩

/-- A leaf whose fate is none is kept. -/
theorem Visits.kept (slot : Slot) (none : fate slot = none) :
    Visits fate [slot] (leaf slot.token) ⟨leaf slot.token, .none⟩ := by
  refine ⟨rfl, ?_⟩
  rw [visited, if_neg (by rw [none]; simp), Slot.renamed, none]
  rfl

/-- A leaf is visited at a place that admits it just if it names a column. -/
theorem Visits.leaf (slot : Slot) (same : fate slot =
      if place.admits slot.token.kind then map.lookup slot.token.text else none) :
    Visits fate [slot] (leaf slot.token) (substituteLeaf map place slot.token) := by
  rw [substituteLeaf]
  split
  · rename_i admits
    rw [if_pos admits] at same
    split
    · rename_i none
      exact .kept slot (same.trans none)
    · rename_i name renamed
      have fated := same.trans renamed
      refine ⟨rfl, ?_⟩
      rw [visited, if_neg (by rw [fated]; simp), Slot.renamed, fated]
      rfl
    · rename_i dropped
      refine ⟨rfl, ?_⟩
      rw [visited, if_pos (same.trans dropped)]
      rfl
  · rename_i refused
    rw [if_neg refused] at same
    exact .kept slot same

/-- Both operands are visited, the second only if there is no fault in the first. -/
theorem Visits.binary (h : Visits fate slots left first) (op : Token)
    (h' : Visits fate slots' right second)
    (tokens : slots'.map (·.token) = right.leaves) :
    Visits fate (slots ++ slots') (binary left op right)
      (match first.fault with
        | some fault => ⟨binary first.value op right, some fault⟩
        | none => ⟨binary first.value op second.value, second.fault⟩) := by
  obtain ⟨value, fault⟩ := first
  have before := visited_append fate slots slots'
  rw [← h.leaves, ← h'.leaves] at before
  cases fault with
  | none => exact ⟨congrArg₂ (Expr.binary · op ·) h.shape h'.shape, before.symm⟩
  | some fault =>
      rw [tokens] at before
      exact ⟨congrArg (Expr.binary · op _) h.shape, before.symm⟩

/-! ### Operators that are words -/

/-- A word of another kind does not spell the keyword. -/
theorem is_of_kind {t : Token} {k : Keyword} (lexed : t.IsLexed) (other : t.kind ≠ k.kind) :
    t.is k = false := by
  rw [Token.is, beq_eq_false_iff_ne]
  exact fun known => other (lexed.kind_of_keyword? known)

/-- A cast is the only place of `AS`. -/
theorem Joins.is_as (h : Joins level source op rest) (lexed : ∀ t ∈ source, t.IsLexed) :
    op.is .AS = false := by
  cases h with
  | comma => rfl
  | symbol kind =>
      refine is_of_kind (lexed _ (by simp)) ?_
      rcases kind with kind | kind <;> rw [kind] <;> decide
  | word kind | is kind =>
      refine is_of_kind (lexed _ (by simp)) ?_
      rw [kind]
      decide
  | isNot | not => exact is_join _ _ _ _

/-- No prefix operator is `COLLATE`. -/
theorem Opens.is_collate {ops : List Token} (h : Opens level source ops rest)
    (lexed : ∀ t ∈ source, t.IsLexed) : ∀ op ∈ ops, op.is .COLLATE = false := by
  have other {t : Token} (member : t ∈ source) (kind : t.kind ≠ .operator) :
      t.is .COLLATE = false := is_of_kind (lexed t member) kind
  cases h with
  | sign kind =>
      refine List.forall_mem_singleton.2 (other (by simp) ?_)
      rcases kind with kind | kind <;> rw [kind] <;> decide
  | not kind | word kind | distinct kind | case kind =>
      refine List.forall_mem_singleton.2 (other (by simp) ?_)
      rw [kind]
      decide
  | notExists => exact List.forall_mem_singleton.2 (is_join _ _ _ _)
  | caseWhen kind _ when =>
      refine List.forall_mem_cons.2 ⟨other (by simp) ?_,
        List.forall_mem_singleton.2 (is_inj when (by decide))⟩
      rw [kind]
      decide

/-- A name that is read as a function is not `CAST`. -/
theorem is_cast_of_isCallable {t : Token} (name : t.isCallable = true) (lexed : t.IsLexed) :
    (⟨t.text, .identifier⟩ : Token).is .CAST = false := by
  have word := isWord_of_isCallable name
  have same : (⟨t.text, .identifier⟩ : Token).keyword? = t.keyword? := by
    rw [keyword?, keyword?, if_pos word]
    rfl
  rw [Token.is, same]
  refine is_of_kind lexed ?_
  simp only [isCallable, Bool.and_eq_true, Bool.or_eq_true, beq_iff_eq] at name
  rcases name.2 with kind | ⟨kind | kind, -⟩ <;> rw [kind] <;> decide

/-! ### Inside a term or a condition -/

/-- What the map says of the column that a leaf inside a term or a condition names. -/
def reference (map : RenameMap) (slot : Slot) : Option Fate :=
  if slot.isReference then map.lookup slot.token.text else none

/-- The token before an expression tells whether its first leaf is a collation. -/
abbrev follows (before : Option Token) : Bool :=
  before.any (·.is .COLLATE)

section Inside

variable (inside : place = .nested ∨ place = .predicate)
include inside

/-- Within an expression the place no longer changes. -/
theorem inner_inside : place.inner = place := by
  rcases inside with rfl | rfl <;> rfl

/-- A leaf is one slot, and its substitution visits it. -/
theorem visits_leaf_inside (before : Option Token) (t : Token) :
    Visits (reference map) [⟨t, before, false⟩] (leaf t)
      (substituteAt map place (follows before) (leaf t)) := by
  rw [substituteAt]
  split
  · rename_i collation
    refine .kept ⟨t, before, false⟩ (if_neg ?_)
    simp [Slot.isReference, Slot.isCollation, collation]
  · rename_i other
    rw [Bool.not_eq_true] at other
    refine .leaf ⟨t, before, false⟩ ?_
    have free : (⟨t, before, false⟩ : Slot).isCollation = false := other
    have same : (⟨t, before, false⟩ : Slot).isReference = place.admits t.kind := by
      rw [Slot.isReference, free]
      rcases inside with rfl | rfl <;> cases t.kind <;> rfl
    rw [reference, same]

/-- The equation of the substitution under a prefix operator. -/
theorem substituteAt_prefixed_inside (collation : Bool) (e : Expr) :
    substituteAt map place collation (prefixed op e) =
      ⟨prefixed op (substituteAt map place false e).value,
        (substituteAt map place false e).fault⟩ := by
  rw [substituteAt, inner_inside inside]

/-- The equation of the substitution under a postfix operator. -/
theorem substituteAt_postfixed_inside (collation : Bool) (e : Expr) :
    substituteAt map place collation (postfixed e op) =
      ⟨postfixed (substituteAt map place collation e).value op,
        (substituteAt map place collation e).fault⟩ := by
  have same : orderedPlace place op = place := by
    rcases inside with rfl | rfl <;> rfl
  cases collation with
  | true => rfl
  | false =>
      rw [substituteAt, same]
      rfl

/-- The equation of the substitution at a binary operator: a fault on the left ends it. -/
theorem substituteAt_binary_inside (collation : Bool) (notAs : op.is .AS = false) :
    substituteAt map place collation (binary left op right) =
      match (substituteAt map place collation left).fault with
      | some fault =>
          ⟨binary (substituteAt map place collation left).value op right, some fault⟩
      | none => ⟨binary (substituteAt map place collation left).value op
            (substituteAt map place (op.is .COLLATE) right).value,
          (substituteAt map place (op.is .COLLATE) right).fault⟩ := by
  have same : collatedPlace place right = place := by
    rcases inside with rfl | rfl <;> rfl
  cases collation with
  | true => rfl
  | false =>
      by_cases collate : op.is .COLLATE = true
      · rw [substituteAt, collate, same, inner_inside inside]
        rfl
      · rw [Bool.not_eq_true] at collate
        rw [substituteAt, collate, notAs, inner_inside inside]
        rfl

/-- Prefix operators keep the slots of their operand, in order. -/
theorem visits_prefixAll {ops : List Token} (ne : ops ≠ [])
    (other : ∀ op ∈ ops, op.is .COLLATE = false)
    (operand : ∀ before, Visits (reference map) (e.slotsAfter before) e
      (substituteAt map place (follows before) e)) (before : Option Token) :
    Visits (reference map) ((prefixAll ops e).slotsAfter before) (prefixAll ops e)
      (substituteAt map place (follows before) (prefixAll ops e)) := by
  induction ops generalizing before with
  | nil => exact absurd rfl ne
  | cons op ops ih =>
      rw [List.forall_mem_cons] at other
      have rest : Visits (reference map) ((prefixAll ops e).slotsAfter (some op)) (prefixAll ops e)
          (substituteAt map place (follows (some op)) (prefixAll ops e)) := by
        cases ops with
        | nil => exact operand (some op)
        | cons next ops => exact ih (by simp) other.2 (some op)
      rw [follows, Option.any_some, other.1] at rest
      change Visits _ _ (prefixed op _) (substituteAt _ _ _ (prefixed op _))
      rw [substituteAt_prefixed_inside inside]
      exact ⟨congrArg (prefixed op) rest.shape, rest.leaves⟩

/-- A call has the slots of its arguments. -/
theorem visits_call {name : Token} (notCast : name.is .CAST = false)
    (arguments : Visits (reference map) (e.slotsAfter (some openParen)) e
      (substituteAt map place false e)) (before : Option Token) :
    Visits (reference map) ((call name e).slotsAfter before) (call name e)
      (substituteAt map place (follows before) (call name e)) := by
  rw [substituteAt, inner_inside inside, slotsAfter, notCast]
  exact ⟨congrArg (call name) arguments.shape, arguments.leaves⟩

/-- A cast has the slots of what is cast, and none in its type. -/
theorem visits_cast {name stop type : Token} (cast : name.is .CAST = true)
    (as : stop.is .AS = true)
    (operand : Visits (reference map) (e.slotsAfter (some openParen)) e
      (substituteAt map place false e)) (before : Option Token) :
    Visits (reference map) ((call name (binary e stop (leaf type))).slotsAfter before)
      (call name (binary e stop (leaf type)))
      (substituteAt map place (follows before) (call name (binary e stop (leaf type)))) := by
  have kept : Visits (reference map) [⟨type, some stop, true⟩] (leaf type) ⟨leaf type, none⟩ :=
    .kept ⟨type, some stop, true⟩ (if_neg (by simp [Slot.isReference]))
  have both := operand.binary stop kept rfl
  have slots : (call name (binary e stop (leaf type))).slotsAfter before =
      e.slotsAfter (some openParen) ++ [⟨type, some stop, true⟩] := by
    rw [slotsAfter, if_pos cast, slotsAfter, slotsAfter, List.modifyLast_concat]
    rfl
  rw [substituteAt, substituteAt_cast map _ _ as, inner_inside inside,
    inner_inside inside, slots]
  generalize substituteAt map place false e = visit at both ⊢
  obtain ⟨value, fault⟩ := visit
  cases fault with
  | none | some => exact ⟨congrArg (call name) both.shape, both.leaves⟩

/-- **Inside a term or a condition the references are replaced**, and the token before an
expression tells whether its first leaf is one. -/
theorem Reads.visits_inside {part : Part} {ts : List Token} (h : Reads part e ts)
    (lexed : ∀ t ∈ ts, t.IsLexed) (before : Option Token) :
    Visits (reference map) (e.slotsAfter before) e
      (Expr.substituteAt map place (follows before) e) := by
  induction h generalizing before with
  | literal | name => exact visits_leaf_inside inside before _
  | @count level list t name =>
      have arguments : Visits (reference map) [⟨star, some openParen, false⟩] (leaf star)
          (Expr.substituteAt map place false (leaf star)) :=
        visits_leaf_inside inside (some openParen) star
      exact visits_call inside (is_cast_of_isCallable name (lexed t (by simp))) arguments before
  | @call level list t e ts name arguments ih =>
      have content := ih (fun t member => lexed t (by simp [member])) (some openParen)
      exact visits_call inside (is_cast_of_isCallable name (lexed t (by simp))) content before
  | @cast level list t stop e ts type name inner plain as isType ih =>
      have operand := ih (fun t member => lexed t (by simp [member])) (some openParen)
      rw [isCast, Bool.and_eq_true] at name
      exact visits_cast inside name.2 ((isSpelled_spelling _ .AS).symm.trans as) operand before
  | @parens level list e ts inner ih =>
      have content := ih (fun t member => lexed t (by simp [member])) (some openParen)
      rw [Expr.substituteAt, inner_inside inside]
      exact ⟨congrArg Expr.parens content.shape, content.leaves⟩
  | prefixed noQuery opens inner ih =>
      refine visits_prefixAll inside opens.ops_ne_nil (opens.is_collate fun t member => ?_)
        (ih fun t member => ?_) before
      · exact lexed t (by simp [member])
      · exact lexed t (by simp [member])
  | bare _ ih | last _ ih | items _ _ ih => exact ih lexed before
  | trailed inner trails ih =>
      have operand := ih (fun t member => lexed t (by simp [member])) before
      rw [substituteAt_postfixed_inside inside]
      exact ⟨congrArg (postfixed · _) operand.shape, operand.leaves⟩
  | @more level list left right op ts source rs inner goes joins right ih ihRight =>
      have notAs := joins.is_as fun t member => lexed t (by simp [member])
      have first := ih (fun t member => lexed t (by simp [member])) before
      have second := ihRight (fun t member => lexed t (by simp [member])) (some op)
      rw [substituteAt_binary_inside inside _ notAs]
      exact first.binary _ second (map_token_slotsAfter _ _)
  | empty => exact ⟨rfl, rfl⟩

end Inside

/-! ### Whole terms and conditions -/

variable {placement : Placement} {ts : List Token}

/-- A leaf that something stands before is not the beginning. -/
theorem before_ne_none {b : Token} (member : slot ∈ e.slotsAfter (some b)) :
    slot.before ≠ none := by
  induction e generalizing b slot with
  | empty => simp [slotsAfter] at member
  | leaf t =>
      obtain rfl := List.mem_singleton.1 member
      simp
  | prefixed _ _ ih | postfixed _ _ ih | parens _ ih => exact ih member
  | binary _ _ _ left right =>
      rcases List.mem_append.1 member with member | member
      · exact left member
      · exact right member
  | call name arguments ih =>
      rw [slotsAfter] at member
      split at member
      · have found := List.mem_map_of_mem (f := (·.before)) member
        rw [map_asType _ fun _ => rfl] at found
        obtain ⟨other, found, same⟩ := List.mem_map.1 found
        exact same ▸ ih found
      · exact ih member

/-- Only at the beginning of a plain index term a text names a column. -/
theorem Visits.fated (h : Visits (reference map) slots e s) (placement : Placement)
    (whole : Expr)
    (other : ∀ slot ∈ slots,
      placement = .predicate ∨ slot.before ≠ none ∨ ¬ whole.IsPlainTerm) :
    Visits (Slot.fate map placement whole) slots e s := by
  refine h.congr fun slot member => ?_
  have same : slot.IsCandidate placement whole ↔ slot.isReference = true := by
    refine ⟨fun candidate => ?_, .inl⟩
    rcases candidate with reference | ⟨index, -, first, plain⟩
    · exact reference
    · rcases other slot member with condition | second | composed
      · exact absurd (index.symm.trans condition) (by decide)
      · exact absurd first second
      · exact absurd plain composed
  rw [Slot.fate, reference]
  simp only [same]

/-- A postfix operator stands after an operand with its postfix operators. -/
theorem Reads.operand_postfixed (h : Reads (.phrase level false) (postfixed e op) ts) :
    ∃ us, Reads (.phrase level false) e us := by
  generalize isPart : Part.phrase level false = part at h
  generalize isExpr : postfixed e op = whole at h
  cases h with
  | trailed inner _ =>
      obtain ⟨rfl, rfl⟩ := Part.phrase.inj isPart
      obtain ⟨rfl, -⟩ := Expr.postfixed.inj isExpr
      exact ⟨_, inner⟩
  | bare inner =>
      cases inner with
      | @prefixed _ _ _ _ ops _ _ opens _ =>
          cases ops with
          | nil => exact absurd rfl opens.ops_ne_nil
          | cons => exact absurd isExpr (by simp [prefixAll])
      | _ => exact absurd isExpr (by simp)
  | _ => exact absurd isPart (by simp)

/-- A term that is more than a leaf is visited like what is inside a term, even if it has a
collation or an order. -/
theorem substituteAt_ordered (h : Reads (.phrase level false) e ts) (more : ∀ t, e ≠ leaf t) :
    substituteAt map .ordered false e = substituteAt map .nested false e := by
  have single := h.isBinary_phrase
  cases e with
  | leaf t => exact absurd rfl (more t)
  | binary => contradiction
  | postfixed operand op =>
      have same : orderedPlace .ordered op = orderedPlace .nested op := by
        rw [orderedPlace, orderedPlace, if_neg (by simp), if_neg (by simp)]
        rfl
      rw [substituteAt, substituteAt, same]
      rfl
  | _ => rfl

/-- A term that is not plain is visited like what is inside a term. -/
theorem substituteAt_term (h : Reads (.chain level false) e ts) (composed : ¬ e.IsPlainTerm) :
    substituteAt map .term false e = substituteAt map .nested false e := by
  generalize isPart : Part.chain level false = part at h
  cases h with
  | last inner =>
      obtain ⟨rfl, rfl⟩ := Part.chain.inj isPart
      have single := inner.isBinary_phrase
      cases e with
      | leaf t => exact absurd (.alone t) composed
      | binary => contradiction
      | postfixed operand op =>
          obtain ⟨us, phrase⟩ := inner.operand_postfixed
          have same : substituteAt map (orderedPlace .term op) false operand =
              substituteAt map .nested false operand := by
            by_cases order : isOrder op = true
            · rw [orderedPlace, if_pos ⟨rfl, order⟩]
              refine substituteAt_ordered phrase ?_
              rintro t rfl
              exact composed (.ordered t order)
            · rw [orderedPlace, if_neg (by simp [order])]
              rfl
          rw [substituteAt_postfixed_inside (.inl rfl), ← same]
          rfl
      | _ => rfl
  | @more _ _ left right op _ _ _ first _ joins rest =>
      obtain ⟨rfl, rfl⟩ := Part.chain.inj isPart
      by_cases collate : op.is .COLLATE = true
      · have same : substituteAt map (collatedPlace .term right) false left =
            substituteAt map .nested false left := by
          by_cases collation : right.isCollation = true
          · rw [collatedPlace, if_pos collation]
            refine substituteAt_ordered first ?_
            rintro t rfl
            exact composed (isPlainTerm_iff.1 (by rw [isPlainTerm, collate, collation]; rfl))
          · rw [collatedPlace, if_neg collation]
        rw [substituteAt, substituteAt, collate]
        simp only [Bool.false_eq_true, if_false, if_true]
        rw [same]
        rfl
      · rw [Bool.not_eq_true] at collate
        rw [substituteAt, substituteAt, collate]
        rfl
  | _ => exact absurd isPart (by simp)

/-- Everything after a binary operator is a chain of operands. -/
theorem Reads.right_binary (h : Reads (.chain level false) (binary left op right) ts) :
    ∃ list us, Reads (.chain level list) right us ∧ ∀ t ∈ us, t ∈ ts := by
  generalize isPart : Part.chain level false = part at h
  generalize isExpr : binary left op right = whole at h
  cases h with
  | more _ _ _ rest =>
      obtain ⟨rfl, rfl⟩ := Part.chain.inj isPart
      obtain ⟨-, -, rfl⟩ := Expr.binary.inj isExpr
      exact ⟨_, _, rest, fun t member => by simp [member]⟩
  | last inner =>
      have single := inner.isBinary_phrase
      rw [← isExpr] at single
      contradiction
  | _ => exact absurd isPart (by simp)

/-- The leaf that a plain term begins with names a column where a name or a text does. -/
theorem fate_first (plain : e.IsPlainTerm) (outside : place = .term ∨ place = .ordered)
    (name : Token) : Slot.fate map .indexTerm e ⟨name, none, false⟩ =
      if place.admits name.kind then map.lookup name.text else none := by
  have same : Slot.IsCandidate .indexTerm e ⟨name, none, false⟩ ↔
      place.admits name.kind = true := by
    simp only [Slot.IsCandidate, Slot.isReference, Slot.isCollation, plain]
    rcases outside with rfl | rfl <;> cases name.kind <;> simp [Place.admits,
      TokenKind.isQuotedIdentifier]
  rw [Slot.fate]
  simp only [same]

/-- A plain term is visited like its leaf. -/
theorem Reads.visits_plain (h : Reads (.chain level false) e ts) (lexed : ∀ t ∈ ts, t.IsLexed)
    (plain : e.IsPlainTerm) :
    Visits (Slot.fate map .indexTerm e) e.slots e (Expr.substituteAt map .term false e) := by
  cases plain with
  | alone name =>
      exact .leaf ⟨name, none, false⟩ (fate_first (.alone name) (.inl rfl) name)
  | ordered name order =>
      have first : Visits _ [⟨name, none, false⟩] (leaf name) (substituteLeaf map .ordered name) :=
        .leaf _ (fate_first (.ordered name order) (.inr rfl) name)
      rw [Expr.substituteAt, if_neg Bool.false_ne_true, orderedPlace, if_pos ⟨rfl, order⟩]
      exact ⟨congrArg (postfixed · _) first.shape, first.leaves⟩
  | @collated name collation op orders collate all =>
      have first : Visits _ [⟨name, none, false⟩] (leaf name) (substituteLeaf map .ordered name) :=
        .leaf _ (fate_first (.collated name collation collate all) (.inr rfl) name)
      obtain ⟨list, us, reads, sub⟩ := h.right_binary
      have inside : Visits (reference map) _ _ _ :=
        reads.visits_inside (.inl rfl) (fun t member => lexed t (sub t member)) (some op)
      have second := inside.fated .indexTerm
        (.binary (.leaf name) op (orders.foldl postfixed (.leaf collation)))
        fun slot member => .inr (.inl (before_ne_none member))
      rw [follows, Option.any_some, collate] at second
      rw [Expr.substituteAt, collatedPlace, collate,
        if_pos (isCollation_iff.2 ⟨collation, orders, all, rfl⟩)]
      exact first.binary _ second (map_token_slotsAfter _ _)

/-- **The references of an expression are replaced**, up to the first to a dropped column. -/
theorem Reads.visits (h : Reads (.chain level false) e ts) (lexed : ∀ t ∈ ts, t.IsLexed)
    (map : RenameMap) (placement : Placement) :
    Visits (Slot.fate map placement e) e.slots e (e.substitute map placement) := by
  cases placement with
  | predicate =>
      exact (h.visits_inside (.inr rfl) lexed none).fated _ _ fun _ _ => .inl rfl
  | indexTerm =>
      by_cases plain : e.IsPlainTerm
      · exact h.visits_plain lexed plain
      · rw [substitute, Placement.place, substituteAt_term h plain]
        exact (h.visits_inside (.inl rfl) lexed none).fated _ _ fun _ _ => .inr (.inr plain)

/-- **A visit replaces exactly the references.** -/
theorem substitute_references {text : String} (h : Expr.parse text = .ok e) (map : RenameMap)
    (placement : Placement) :
    ((∀ slot ∈ e.slots, slot.fate map placement e ≠ some .dropped) →
      (e.substitute map placement).fault = none ∧
      (e.substitute map placement).value.shape = e.shape ∧
      (e.substitute map placement).value.leaves =
        e.slots.map (·.renamed (Slot.fate map placement e))) ∧
    (∀ before slot after, e.slots = before ++ slot :: after →
      (∀ slot ∈ before, slot.fate map placement e ≠ some .dropped) →
      slot.fate map placement e = some .dropped →
      (e.substitute map placement).fault = some ⟨slot.token.text⟩ ∧
      (e.substitute map placement).value.shape = e.shape ∧
      (e.substitute map placement).value.leaves =
        before.map (·.renamed (Slot.fate map placement e)) ++ (slot :: after).map (·.token)) := by
  have visits :=
    (reads_of_parse h).visits (fun _ member => isLexed_of_mem member) map placement
  have outcome := Prod.ext_iff.1 visits.leaves
  constructor
  · intro kept
    have all := visited_of_kept kept []
    rw [List.append_nil] at all
    rw [all] at outcome
    exact ⟨outcome.2, visits.shape, by simpa [visited] using outcome.1⟩
  · intro before slot after split kept dropped
    rw [split, visited_of_kept kept, visited, if_pos dropped] at outcome
    exact ⟨outcome.2, visits.shape, outcome.1⟩

/-- The expression `a || "B" COLLATE a || CAST(A AS a)`, in which two of the names spelled `a`
are a collation and a type. -/
def mixed : Expr :=
  .binary (.leaf ⟨"a", .identifier⟩) ⟨"||", .symbol⟩
    (.binary (.leaf ⟨"B", .quotedIdentifier⟩) ⟨"COLLATE", .operator⟩
      (.binary (.leaf ⟨"a", .identifier⟩) ⟨"||", .symbol⟩
        (.call ⟨"CAST", .prefixOp⟩
          (.binary (.leaf ⟨"A", .identifier⟩) ⟨"AS", .identifier⟩ (.leaf ⟨"a", .identifier⟩)))))

/-- The sample is read as intended. -/
theorem parse_mixed : Expr.parse "a || \x22B\x22 COLLATE a || CAST(A AS a)" = .ok mixed := by
  have tokens : tokenize "a || \x22B\x22 COLLATE a || CAST(A AS a)" =
      [⟨"a", .identifier⟩, ⟨"||", .symbol⟩, ⟨"B", .quotedIdentifier⟩, ⟨"COLLATE", .operator⟩,
        ⟨"a", .identifier⟩, ⟨"||", .symbol⟩, ⟨"CAST", .prefixOp⟩, openParen, ⟨"A", .identifier⟩,
        ⟨"AS", .identifier⟩, ⟨"a", .identifier⟩, closeParen] := by
    rw [← Lexer.tokens_toList]
    cbv
  have a (level : Level) (list : Bool) :
      Reads (.phrase level list) (.leaf ⟨"a", .identifier⟩) [⟨"a", .identifier⟩] :=
    .bare (reads_plainName (by decide +kernel))
  have operand : Reads (.items .inCast) (.leaf ⟨"A", .identifier⟩) [⟨"A", .identifier⟩] :=
    .items rfl (.last (.bare (reads_plainName (by decide +kernel))))
  have as : (⟨"AS", .identifier⟩ : Token).isSpelled "AS" = true := by decide +kernel
  have type : IsCastType [⟨"a", .identifier⟩] := .words (by simp) (by simp)
  have cast (list : Bool) : Reads (.chain (.top []) list) (.call ⟨"CAST", .prefixOp⟩ _) _ :=
    .last (.bare (.cast (by decide +kernel) operand rfl as type))
  have concat {rest : List Token} : Joins (.top []) [⟨"||", .symbol⟩] ⟨"||", .symbol⟩ rest :=
    .symbol (.inl rfl)
  have collate {rest : List Token} :
      Joins (.top []) [⟨"COLLATE", .operator⟩] ⟨"COLLATE", .operator⟩ rest :=
    .word rfl (by decide +kernel)
  have reads : Reads (.chain (.top []) false) mixed _ :=
    .more (a _ _) (by decide +kernel) concat
      (.more (.bare (.literal rfl)) (by decide +kernel) collate
        (.more (a _ _) (by decide +kernel) concat (cast _)))
  rw [parse_eq_ok_iff, tokens]
  exact reads

/-- The columns `a` and `b` swap their names. -/
def swapping : RenameMap :=
  (RenameMap.empty.insert "a" (.renamed "b")).insert "b" (.renamed "a")

/-- The column `a` is called `b`, and the column `b` is dropped. -/
def dropping : RenameMap :=
  (RenameMap.empty.insert "a" (.renamed "b")).insert "b" .dropped

/-- Two columns swap their names, or one takes the name of the other, which is dropped. The
collation and the type keep their name. -/
theorem substitute_references_mixed :
    Expr.parse "a || \x22B\x22 COLLATE a || CAST(A AS a)" = .ok mixed ∧
      (∀ slot ∈ mixed.slots, slot.fate swapping .indexTerm mixed ≠ some .dropped) ∧
      (mixed.substitute swapping .indexTerm).fault = none ∧
      (mixed.substitute swapping .indexTerm).value.shape = mixed.shape ∧
      (mixed.substitute swapping .indexTerm).value.leaves =
        [⟨"b", .quotedIdentifier⟩, ⟨"a", .quotedIdentifier⟩, ⟨"a", .identifier⟩,
          ⟨"b", .quotedIdentifier⟩, ⟨"a", .identifier⟩] ∧
      (mixed.substitute dropping .indexTerm).fault = some ⟨"B"⟩ ∧
      (mixed.substitute dropping .indexTerm).value.shape = mixed.shape ∧
      (mixed.substitute dropping .indexTerm).value.leaves =
        [⟨"b", .quotedIdentifier⟩, ⟨"B", .quotedIdentifier⟩, ⟨"a", .identifier⟩,
          ⟨"A", .identifier⟩, ⟨"a", .identifier⟩] := by
  have kept : ∀ slot ∈ mixed.slots, slot.fate swapping .indexTerm mixed ≠ some .dropped := by
    decide +kernel
  obtain ⟨fault, shape, leaves⟩ :=
    (substitute_references parse_mixed swapping .indexTerm).1 kept
  obtain ⟨dropped, shape', leaves'⟩ :=
    (substitute_references parse_mixed dropping .indexTerm).2 (mixed.slots.take 1)
      ⟨⟨"B", .quotedIdentifier⟩, some ⟨"||", .symbol⟩, false⟩ (mixed.slots.drop 2)
      (by decide +kernel) (by decide +kernel) (by decide +kernel)
  exact ⟨parse_mixed, kept, fault, shape, leaves.trans (by decide +kernel), dropped, shape',
    leaves'.trans (by decide +kernel)⟩

end Expr

end SchemaText
