import SchemaText.Proofs.Rename.References

/-!
# Renaming twice

A table that is rebuilt twice renames its columns twice. The names that the first map gives are
looked up in the second one, and so are the names that the first map does not mention; what was
dropped stays dropped. One map that says all this renames like the two of them.

The first visit turns the leaves that it renames into quoted names. They stand at the same
places afterwards, and a quoted name is a column wherever a bare name or a text is one, so
that the second visit looks up the same leaves as the first.

## Main definitions

* `RenameMap.fateThrough`: what becomes of a column under one map and then another.
* `RenameMap.andThen`: the map that says so.
* `Substituted.IsThrough`: a visit comes to the same as two visits.

## Main results

* `RenameMap.lookup_andThen`: there is a map for any two maps in turn.
* `Expr.isThrough_substituteAt`: at every place, one visit comes to the same as two.
* `Expr.substitute_through`: **one map renames like two in turn**.
-/

namespace SchemaText

/-! ### Two maps in turn -/

namespace RenameMap

variable {first second : RenameMap} {name : String}

/-- What becomes of a column under one map and then another. -/
def fateThrough (first second : RenameMap) (name : String) : Option Fate :=
  match first.lookup name with
  | some (.renamed new) => some ((second.lookup new).getD (.renamed new))
  | some .dropped => some .dropped
  | none => second.lookup name

/-- The map of what becomes of columns under one map and then another. -/
def andThen (first second : RenameMap) : RenameMap :=
  first.entries.foldr (fun entry map =>
    (first.fateThrough second entry.1).elim map (map.insert entry.1)) second

/-- The map says something of a name just if an entry has it, in any case. -/
theorem isSome_lookup :
    (first.lookup name).isSome = first.entries.any fun entry => Text.same name entry.1 := by
  rw [lookup, Option.isSome_map, Bool.eq_iff_iff, List.find?_isSome, List.any_eq_true]

/-- What becomes of a name through two maps does not depend on its case. -/
theorem fateThrough_congr {other : String} (same : Text.same name other = true) :
    first.fateThrough second name = first.fateThrough second other := by
  rw [fateThrough, fateThrough, lookup_congr first same, lookup_congr second same]

/-- **Two maps in turn are one map.** -/
theorem lookup_andThen (first second : RenameMap) (name : String) :
    (first.andThen second).lookup name = first.fateThrough second name := by
  -- The entries of the first map are inserted one by one; those that remain are still to come.
  have inserted (entries : List (String × Fate)) (within : entries ⊆ first.entries) :
      (entries.foldr (fun entry map => (first.fateThrough second entry.1).elim map
        (map.insert entry.1)) second).lookup name =
          if entries.any fun entry => Text.same name entry.1 then first.fateThrough second name
          else second.lookup name := by
    induction entries with
    | nil => rfl
    | cons entry entries ih =>
        obtain ⟨member, within⟩ := List.cons_subset.1 within
        have mentioned : (first.lookup entry.1).isSome = true := by
          rw [isSome_lookup, List.any_eq_true]
          exact ⟨entry, member, Text.same_refl _⟩
        obtain ⟨fate, known⟩ : ∃ fate, first.fateThrough second entry.1 = some fate := by
          obtain ⟨fate, found⟩ := Option.isSome_iff_exists.1 mentioned
          cases fate <;> simp [fateThrough, found]
        rw [List.foldr_cons, known, Option.elim_some, lookup_insert, ih within, List.any_cons,
          Text.same_comm]
        cases same : Text.same name entry.1 with
        | true => rw [if_pos rfl, Bool.true_or, if_pos rfl, fateThrough_congr same, known]
        | false => rw [if_neg Bool.false_ne_true, Bool.false_or]
  rw [andThen, inserted first.entries fun _ member => member, ← isSome_lookup]
  cases found : first.lookup name with
  | none => rw [fateThrough, found]; rfl
  | some fate => rfl

end RenameMap

/-! ### Operands -/

/-- A visit comes to the same as two visits in turn: it ends without a fault just if both do,
and then leaves the same. -/
structure Substituted.IsThrough (whole first second : Substituted Expr) : Prop where
  /-- It ends without a fault just if both do. -/
  fault : whole.fault = none ↔ first.fault = none ∧ second.fault = none
  /-- It leaves what they leave. -/
  value : whole.fault = none → whole.value = second.value

namespace Expr

variable {map : RenameMap} {place : Place} {collation : Bool} {left right : Expr} {op : Token}

/-- Where the left operand of a binary operator stands. -/
def leftPlace (place : Place) (collation : Bool) (op : Token) (right : Expr) : Place :=
  if collation then place
  else if op.is .COLLATE then collatedPlace place right else place.inner

/-- Where the right operand of a binary operator stands. -/
def rightPlace (place : Place) (collation : Bool) (op : Token) : Place :=
  if collation then place
  else if op.is .COLLATE then place.inner
  else if op.is .AS then .typeName else place.inner

/-- Both operands are visited, the second only if there is no fault in the first. -/
theorem substituteAt_operands (left right : Expr) :
    substituteAt map place collation (binary left op right) =
      match (substituteAt map (leftPlace place collation op right) collation left).fault with
      | some fault =>
        ⟨binary (substituteAt map (leftPlace place collation op right) collation left).value op
          right, some fault⟩
      | none =>
        ⟨binary (substituteAt map (leftPlace place collation op right) collation left).value op
          (substituteAt map (rightPlace place collation op) (op.is .COLLATE) right).value,
          (substituteAt map (rightPlace place collation op) (op.is .COLLATE) right).fault⟩ := by
  rw [substituteAt, leftPlace, rightPlace]
  cases collation <;> cases op.is .COLLATE <;> rfl

/-- Nothing is dropped in a binary expression just if nothing is in its operands, each in its
own place. -/
theorem fault_operands :
    (substituteAt map place collation (binary left op right)).fault = none ↔
    (substituteAt map (leftPlace place collation op right) collation left).fault = none ∧
      (substituteAt map (rightPlace place collation op) (op.is .COLLATE) right).fault = none := by
  rw [substituteAt_operands]
  split <;> rename_i first <;> simp [first]

/-- Without a fault on the left, the operands are renamed independently. -/
theorem value_operands (op : Token) (right : Expr)
    (first : (substituteAt map (leftPlace place collation op right) collation left).fault = none) :
    (substituteAt map place collation (binary left op right)).value =
      binary (substituteAt map (leftPlace place collation op right) collation left).value op
        (substituteAt map (rightPlace place collation op) (op.is .COLLATE) right).value := by
  rw [substituteAt_operands, first]

/-- What a visit leaves is a collation just if it was one. -/
theorem isCollation_substituteAt (e : Expr) (place : Place) (collation : Bool) :
    (substituteAt map place collation e).value.isCollation = e.isCollation := by
  induction e generalizing place collation with
  | leaf token =>
      rw [substituteAt]
      split
      · rfl
      · rw [substituteLeaf]
        split
        · split <;> rfl
        · rfl
  | binary left op right _ _ =>
      rw [substituteAt_operands]
      split <;> rfl
  | postfixed operand op ih =>
      cases collation <;> exact congrArg (isOrder op && ·) (ih _ _)
  | empty | prefixed | parens | call => rfl

/-- The second visit finds the left operand at the same place as the first. -/
theorem leftPlace_substituteAt (at_ : Place) (other : Bool) (right : Expr) :
    leftPlace place collation op (substituteAt map at_ other right).value =
      leftPlace place collation op right := by
  have same : collatedPlace place (substituteAt map at_ other right).value =
      collatedPlace place right := by
    cases place <;> simp only [collatedPlace, isCollation_substituteAt]
  rw [leftPlace, leftPlace, same]

/-! ### One map for two -/

section Through

variable {first second composed : RenameMap}
  (composes : ∀ name, composed.lookup name = first.fateThrough second name)

include composes

/-- A leaf that names a column still names one under its new name. -/
theorem isThrough_leaf (place : Place) (token : Token) :
    (substituteLeaf composed place token).IsThrough (substituteLeaf first place token)
      (substituteAt second place false (substituteLeaf first place token).value) := by
  have quoted (name : String) (admits : place.admits token.kind = true) :
      place.admits (⟨name, .quotedIdentifier⟩ : Token).kind = true := by
    cases place <;> first
      | rfl
      | exact absurd admits Bool.false_ne_true
  by_cases admits : place.admits token.kind = true
  · have told := composes token.text
    rw [RenameMap.fateThrough] at told
    cases found : first.lookup token.text with
    | none =>
        rw [found] at told
        simp only [substituteLeaf, admits, found, told, if_true, substituteAt,
          Bool.false_eq_true, if_false]
        exact ⟨by simp, fun _ => rfl⟩
    | some fate =>
        rw [found] at told
        cases fate with
        | dropped =>
            simp only [substituteLeaf, admits, found, told, if_true]
            exact ⟨by simp, by simp⟩
        | renamed name =>
            simp only [substituteLeaf, admits, found, told, if_true, substituteAt,
              Bool.false_eq_true, if_false, quoted name admits]
            cases second.lookup name with
            | none => exact ⟨by simp, by simp⟩
            | some fate => cases fate <;> exact ⟨by simp, by simp⟩
  · have kept (map : RenameMap) : substituteLeaf map place token = ⟨leaf token, none⟩ := by
      rw [substituteLeaf, if_neg admits]
    rw [kept, kept, substituteAt, if_neg Bool.false_ne_true, kept]
    exact ⟨by simp, fun _ => rfl⟩

/-- **At every place, one visit comes to the same as two.** -/
theorem isThrough_substituteAt (e : Expr) (place : Place) (collation : Bool) :
    (substituteAt composed place collation e).IsThrough (substituteAt first place collation e)
      (substituteAt second place collation (substituteAt first place collation e).value) := by
  induction e generalizing place collation with
  | empty => exact ⟨by simp [substituteAt], fun _ => rfl⟩
  | leaf token =>
      cases collation with
      | true => exact ⟨by simp [substituteAt], fun _ => rfl⟩
      | false => exact isThrough_leaf composes place token
  | prefixed op operand ih =>
      exact ⟨(ih _ _).fault, fun kept => congrArg (prefixed op) ((ih _ _).value kept)⟩
  | parens inner ih =>
      exact ⟨(ih _ _).fault, fun kept => congrArg parens ((ih _ _).value kept)⟩
  | call name arguments ih =>
      exact ⟨(ih _ _).fault, fun kept => congrArg (call name) ((ih _ _).value kept)⟩
  | postfixed operand op ih =>
      cases collation <;>
        exact ⟨(ih _ _).fault, fun kept => congrArg (postfixed · op) ((ih _ _).value kept)⟩
  | binary left op right ihLeft ihRight =>
      have left_ := ihLeft (leftPlace place collation op right) collation
      have right_ := ihRight (rightPlace place collation op) (op.is .COLLATE)
      -- The second visit, once the first has gone through the left operand.
      have again (first_ : (substituteAt first (leftPlace place collation op right) collation
          left).fault = none) := value_operands op right first_
      constructor
      · rw [fault_operands, fault_operands, left_.fault, right_.fault]
        constructor
        · rintro ⟨⟨l₁, l₂⟩, r₁, r₂⟩
          rw [again l₁, fault_operands, leftPlace_substituteAt]
          exact ⟨⟨l₁, r₁⟩, l₂, r₂⟩
        · rintro ⟨⟨l₁, r₁⟩, both⟩
          rw [again l₁, fault_operands, leftPlace_substituteAt] at both
          exact ⟨⟨l₁, both.1⟩, r₁, both.2⟩
      · intro kept
        obtain ⟨l, r⟩ := fault_operands.1 kept
        obtain ⟨l₁, l₂⟩ := left_.fault.1 l
        rw [again l₁, value_operands op right l,
          value_operands op _ (by rwa [leftPlace_substituteAt]), leftPlace_substituteAt,
          left_.value l, right_.value r]

/-- **One map renames like two in turn.** It must say of each column what the two maps say one
after the other; then it fails to rename an expression just if one of them does, and otherwise
leaves the same expression. -/
theorem substitute_through (e : Expr) (placement : Placement) :
    ((e.substitute composed placement).fault = none ↔
      (e.substitute first placement).fault = none ∧
        ((e.substitute first placement).value.substitute second placement).fault = none) ∧
    ((e.substitute composed placement).fault = none →
      (e.substitute composed placement).value =
        ((e.substitute first placement).value.substitute second placement).value) :=
  have through := isThrough_substituteAt composes e placement.place false
  ⟨through.fault, through.value⟩

end Through

/-- The column `a` is called `x`. -/
def moving : RenameMap :=
  RenameMap.empty.insert "a" (.renamed "x")

/-- The column `a` is called `b`, and the column `b` is called `x`. -/
def throughSwap : RenameMap :=
  (RenameMap.empty.insert "a" (.renamed "b")).insert "b" (.renamed "x")

/-- Two columns swap their names, then one of them gets another name: what was called `b` is
called `x` in the end. -/
theorem substitute_through_swapped :
    (∀ name, throughSwap.lookup name = swapping.fateThrough moving name) ∧
      (mixed.substitute throughSwap .indexTerm).fault = none ∧
      (mixed.substitute throughSwap .indexTerm).value =
        ((mixed.substitute swapping .indexTerm).value.substitute moving .indexTerm).value ∧
      ((mixed.substitute swapping .indexTerm).value.substitute moving .indexTerm).value.leaves =
        [⟨"b", .quotedIdentifier⟩, ⟨"x", .quotedIdentifier⟩, ⟨"a", .identifier⟩,
          ⟨"b", .quotedIdentifier⟩, ⟨"a", .identifier⟩] := by
  have composes (name : String) :
      throughSwap.lookup name = swapping.fateThrough moving name := by
    simp only [throughSwap, swapping, moving, RenameMap.fateThrough, RenameMap.lookup_insert,
      RenameMap.lookup_empty]
    split <;> [rfl; split] <;> rfl
  obtain ⟨fault, value⟩ := substitute_through composes mixed .indexTerm
  have kept := fault.2 ⟨by decide +kernel, by decide +kernel⟩
  exact ⟨composes, kept, value kept, by decide +kernel⟩

end Expr

end SchemaText
