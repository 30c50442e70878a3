import SchemaText.Expr.Basic
import SchemaText.Rename.Map

/-!
# Renaming columns in expressions

Replaces the names of columns in an expression. Whether a leaf names a column depends on its
kind and on its place: a text literal names one only as a whole index term, with or without
collation and order; the names of collations and types never do.

The leaves are visited from left to right. A reference to a dropped column ends the visit;
the leaves before it have been replaced, the others have not.

## Main definitions

* `Place`: where a leaf stands, with `Place.inner` and `Place.admits`.
* `Substituted`: an expression after a visit, and the dropped column that ended it.
* `Expr.substituteAt`, `Expr.substitute`: the visit.
-/

namespace SchemaText

/-- What an expression is part of. -/
inductive Placement
  /-- A term of an index. -/
  | indexTerm
  /-- The condition of an index. -/
  | predicate
  deriving DecidableEq, Repr

/-- Where a leaf stands in what it is part of. -/
inductive Place
  /-- It is a whole index term. -/
  | term
  /-- It is an index term but for its order or collation. -/
  | ordered
  /-- It is inside an index term. -/
  | nested
  /-- It is in a condition. -/
  | predicate
  /-- It is the name of a type. -/
  | typeName
  deriving DecidableEq, Repr

namespace Place

/-- The place of a part of an expression that stands here. -/
def inner : Place → Place
  | term | ordered | nested => nested
  | predicate => predicate
  | typeName => typeName

/-- Whether a leaf of the kind names a column here. -/
def admits (place : Place) (kind : TokenKind) : Bool :=
  match place, kind with
  | typeName, _ => false
  | term, .stringLiteral | ordered, .stringLiteral => true
  | _, .identifier => true
  | _, kind => kind.isQuotedIdentifier

end Place

/-- The place where an expression begins. -/
def Placement.place : Placement → Place
  | indexTerm => .term
  | predicate => .predicate

/-- A reference to a column that has been dropped. -/
structure DroppedColumn where
  /-- The name as the expression spells it. -/
  column : String
  deriving DecidableEq, Repr

/-- The fault in words. -/
def DroppedColumn.message (fault : DroppedColumn) : String :=
  "Expression references dropped column '" ++ fault.column ++ "'"

/-- Something after a visit, and the fault that ended the visit, if one did. -/
structure Substituted (α : Type) where
  /-- What the visit left. -/
  value : α
  /-- The dropped column at which it ended. -/
  fault : Option DroppedColumn

namespace Expr

/-- Whether an operator orders an index term. -/
def isOrder (op : Token) : Bool :=
  op.is .ASC || op.is .DESC

/-- Whether the expression after `COLLATE` is a name with an order or none. -/
def isCollation : Expr → Bool
  | leaf _ => true
  | postfixed operand op => isOrder op && isCollation operand
  | _ => false

/-- Visits a leaf. -/
def substituteLeaf (map : RenameMap) (place : Place) (token : Token) : Substituted Expr :=
  if place.admits token.kind then
    match map.lookup token.text with
    | none => ⟨leaf token, none⟩
    | some (.renamed name) => ⟨leaf ⟨name, .quotedIdentifier⟩, none⟩
    | some .dropped => ⟨leaf token, some ⟨token.text⟩⟩
  else
    ⟨leaf token, none⟩

/-- The place left of `COLLATE`, by what is on its right. -/
def collatedPlace (place : Place) (collation : Expr) : Place :=
  match place with
  | .term | .ordered => if collation.isCollation then .ordered else .nested
  | other => other.inner

/-- The place before a postfix operator. -/
def orderedPlace (place : Place) (op : Token) : Place :=
  if place = .term ∧ isOrder op then .ordered else place.inner

/-- Visits an expression that stands at a place. With `collation`, its leftmost leaf is the
name of a collation: everything after `COLLATE` is its right operand. -/
def substituteAt (map : RenameMap) (place : Place) (collation : Bool) : Expr → Substituted Expr
  | empty => ⟨empty, none⟩
  | leaf token => if collation then ⟨leaf token, none⟩ else substituteLeaf map place token
  | prefixed op operand =>
    let inner := substituteAt map place.inner false operand
    ⟨prefixed op inner.value, inner.fault⟩
  | binary left op right =>
    let first :=
      if collation then substituteAt map place true left
      else if op.is .COLLATE then substituteAt map (collatedPlace place right) false left
      else substituteAt map place.inner false left
    match first.fault with
    | some fault => ⟨binary first.value op right, some fault⟩
    | none =>
      let second :=
        if collation then substituteAt map place (op.is .COLLATE) right
        else if op.is .COLLATE then substituteAt map place.inner true right
        else substituteAt map (if op.is .AS then .typeName else place.inner) false right
      ⟨binary first.value op second.value, second.fault⟩
  | postfixed operand op =>
    let inner :=
      if collation then substituteAt map place true operand
      else substituteAt map (orderedPlace place op) false operand
    ⟨postfixed inner.value op, inner.fault⟩
  | parens content =>
    let inner := substituteAt map place.inner false content
    ⟨parens inner.value, inner.fault⟩
  | call name arguments =>
    let inner := substituteAt map place.inner false arguments
    ⟨call name inner.value, inner.fault⟩

/-- Visits an expression. -/
def substitute (map : RenameMap) (placement : Placement) (e : Expr) : Substituted Expr :=
  substituteAt map placement.place false e

end Expr

end SchemaText
