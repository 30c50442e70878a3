import SchemaText.Proofs.Expr.Spelling
import SchemaText.Proofs.Token.Spoken
import SchemaText.Table.Printer

/-!
# Lists of terms

The terms of an index are a list of arguments: one expression in which commas are operators,
taken apart at the commas of its right spine. The items of such a list are expressions of
their own, and from them the list can be put together again.

## Main definitions

* `Expr.isList`: whether an expression falls apart at a comma, or is empty.
* `Expr.isBinary`: whether there is a binary operator at the top.
* `Expr.Terms`: items with commas between them.
* `Expr.Items`: the same or nothing.
* `Expr.graft`: an expression with a list behind it, as they are read together.

## Main results

* `Expr.Reads.terms`, `Expr.Terms.reads`: lists of arguments are items with commas between
  them.
* `Expr.Items.read_eq`, `Expr.Items.spelledAs`: what is written between parentheses is read
  as the list of its items.
-/

namespace SchemaText

namespace Expr

open Token

variable {level : Level} {list : Bool} {e r : Expr} {es : List Expr}
  {op : Token} {source ts rs rest : List Token}

/-- Whether an expression falls apart at a comma, or is empty. -/
def isList : Expr → Bool
  | empty => true
  | binary _ op _ => op.kind == .comma
  | _ => false

/-- Whether there is a binary operator at the top. -/
def isBinary : Expr → Bool
  | binary _ _ _ => true
  | _ => false

/-- What does not fall apart at a comma is its own only item. -/
theorem splitCommas_of_not_isList (h : e.isList = false) : e.splitCommas = [e] := by
  cases e with
  | empty => exact absurd h (by simp [isList])
  | binary left op right => exact splitCommas_binary (beq_eq_false_iff_ne.1 h)
  | _ => rfl

/-- Items with commas between them. -/
inductive Terms : List Expr → List Token → Prop
  | last {e : Expr} {ts : List Token} (term : Reads (.chain .arguments false) e ts)
      (single : e.isList = false) : Terms [e] ts
  | more {e : Expr} {es : List Expr} {ts rs : List Token}
      (term : Reads (.phrase .arguments false) e ts) (rest : Terms es rs) :
      Terms (e :: es) (ts ++ comma :: rs)

/-- There is at least one item. -/
theorem Terms.ne_nil (h : Terms es ts) : es ≠ [] := by
  cases h <;> simp

/-- A plain name is an operand. -/
theorem reads_plainName {text : String} (plain : Token.name text = ⟨text, .identifier⟩) :
    Reads (.operand level list) (leaf ⟨text, .identifier⟩) [⟨text, .identifier⟩] := by
  have noQuery : (⟨text, .identifier⟩ : Token).startsQuery = false := by
    have reserved := keyword?_name text
    rw [← plain, startsQuery]
    split
    · rename_i known
      exact absurd reserved (by rw [known]; decide)
    · rename_i known
      exact absurd reserved (by rw [known]; decide)
    · rename_i known
      exact absurd reserved (by rw [known]; decide)
    · rfl
  refine .name (t := ⟨text, .identifier⟩) (.inl ?_)
  rw [isCallable, noQuery]
  rfl

/-- A name that needs no quotes is a token of some text. -/
theorem isLexed_plainName {text : String} (plain : Token.name text = ⟨text, .identifier⟩) :
    (⟨text, .identifier⟩ : Token).IsLexed :=
  fun _ => plain ▸ isWellSpelled_name text

/-! ### Taking a list apart -/

/-- Prefix operators are never at the top as a binary one. -/
theorem isBinary_prefixAll {ops : List Token} (ne : ops ≠ []) (e : Expr) :
    (prefixAll ops e).isBinary = false := by
  cases ops with
  | nil => exact absurd rfl ne
  | cons op ops => rfl

/-- Only a chain of operands has a binary operator at its top. -/
theorem Reads.isBinary_phrase (h : Reads (.phrase level list) e ts) : e.isBinary = false := by
  generalize same : Part.phrase level list = part at h
  cases h with
  | trailed => rfl
  | bare inner =>
      cases inner with
      | prefixed _ opens _ => exact isBinary_prefixAll opens.ops_ne_nil _
      | _ => rfl
  | _ => exact absurd same (by simp)

/-- Only a list of arguments is empty. -/
theorem Reads.isEmpty_eq {part : Part} (h : Reads part e ts)
    (place : part ≠ .items .arguments) :
    e.isEmpty = false := by
  induction h with
  | @prefixed level list e source ops ts _ opens _ _ =>
      cases ops with
      | nil => exact absurd rfl opens.ops_ne_nil
      | cons op ops => rfl
  | bare _ ih | last _ ih | items _ _ ih => exact ih (by simp)
  | empty => exact absurd rfl place
  | _ => rfl

/-- Only a chain of operands can fall apart. -/
theorem Reads.isList_phrase (h : Reads (.phrase level list) e ts) : e.isList = false := by
  have single := h.isBinary_phrase
  have filled := h.isEmpty_eq (by simp)
  cases e with
  | empty | binary => contradiction
  | _ => rfl

/-- Only in a list a comma is an operator. -/
theorem Joins.eq_comma (h : Joins level source op rest) (kind : op.kind = .comma) :
    level = .arguments ∧ source = [Token.comma] ∧ op = Token.comma := by
  cases h with
  | comma place => exact ⟨place, rfl, rfl⟩
  | symbol other => exact absurd kind (by rcases other with other | other <;> simp [other])
  | word other => exact absurd kind (by simp [other])
  | is other => exact absurd kind (by simp [other])
  | isNot | not => exact absurd kind (by simp [Token.join])

/-- A whole expression is no list. -/
theorem Reads.isList_chain (h : Reads (.chain level list) e ts) (place : level ≠ .arguments) :
    e.isList = false := by
  cases h with
  | last inner => exact inner.isList_phrase
  | more _ _ joins _ => exact beq_eq_false_iff_ne.2 fun kind => place (joins.eq_comma kind).1

/-- **A list of arguments falls apart** into its items. -/
theorem Reads.terms (h : Reads (.chain .arguments false) e ts) : Terms e.splitCommas ts := by
  generalize same : Part.chain .arguments false = part at h
  induction h with
  | last inner =>
      obtain ⟨rfl, rfl⟩ := Part.chain.inj same
      rw [splitCommas_of_not_isList inner.isList_phrase]
      exact .last (.last inner) inner.isList_phrase
  | @more level list left right op ts source rs first goes joins rest _ ih =>
      obtain ⟨rfl, rfl⟩ := Part.chain.inj same
      by_cases kind : op.kind = .comma
      · obtain ⟨-, rfl, rfl⟩ := joins.eq_comma kind
        rw [splitCommas_binary_comma kind]
        exact .more first (ih rfl)
      · rw [splitCommas_binary kind]
        exact .last (.more first goes joins rest) (beq_eq_false_iff_ne.2 kind)
  | _ => exact absurd same (by simp)

/-! ### Putting a list together -/

/-- **Items with commas between them are a list** of arguments, which falls apart into them. -/
theorem Terms.reads (h : Terms es ts) :
    ∃ e, Reads (.chain .arguments false) e ts ∧ e.splitCommas = es := by
  induction h with
  | last term single => exact ⟨_, term, splitCommas_of_not_isList single⟩
  | @more e es ts rs term rest ih =>
      obtain ⟨right, reads, split⟩ := ih
      refine ⟨binary e comma right,
        .more term ?_ (.comma rfl : Joins .arguments [comma] comma rs) reads, ?_⟩
      · rintro _ ⟨⟩
        rfl
      · rw [splitCommas_binary_comma rfl, split]

/-- Where a chain begins, the expression is not missing. -/
theorem isEmptyBefore_of_reads (h : Reads (.chain level list) e ts)
    (place : level = .arguments ∨ level = .top []) : level.isEmptyBefore ts = false := by
  have first := h.beginsOperand
  cases ts with
  | nil => exact absurd rfl (h.ne_nil rfl)
  | cons t ts =>
      rcases place with rfl | rfl
      · have kind := first t rfl
        change (t.kind == .closeParen) = false
        rw [beq_eq_false_iff_ne]
        intro close
        rw [close] at kind
        exact absurd kind (by decide)
      · rfl

/-- An expression with a list behind it, as they are read together: the comma comes to stand
under the last binary operator. -/
def graft : Expr → Expr → Expr
  | binary left op right, rest => binary left op (graft right rest)
  | e, rest => binary e comma rest

/-- Without a binary operator at the top, the comma stands at the top. -/
theorem graft_of_not_isBinary (h : e.isBinary = false) (rest : Expr) :
    graft e rest = binary e comma rest := by
  cases e with
  | binary => exact absurd h (by simp [isBinary])
  | _ => rfl

/-- A list after a chain goes on with its last operand. -/
theorem Reads.graft (h : Reads (.chain .arguments list) e ts)
    (rest : Reads (.chain .arguments false) r rs) :
    Reads (.chain .arguments list) (e.graft r) (ts ++ comma :: rs) := by
  generalize same : Part.chain .arguments list = part at h
  induction h generalizing list with
  | last inner =>
      obtain ⟨rfl, rfl⟩ := Part.chain.inj same
      rw [graft_of_not_isBinary inner.isBinary_phrase]
      refine .more inner ?_ (.comma rfl : Joins .arguments [comma] comma rs) rest
      rintro _ ⟨⟩
      rfl
  | @more level list left right op ts source ss first goes joins inner _ ih =>
      obtain ⟨rfl, rfl⟩ := Part.chain.inj same
      have next : (ss ++ comma :: rs).head? = ss.head? :=
        List.head?_append_of_ne_nil ss (inner.ne_nil rfl)
      rw [List.append_assoc, List.append_assoc]
      exact .more first goes (joins.congr next) (ih rfl)
  | _ => exact absurd same (by simp)

/-! ### Writing a list -/

/-- **The items written with commas** stand for the list. -/
theorem Terms.spelledAs (h : Terms es ts) (lexed : ∀ t ∈ ts, t.IsLexed) :
    SpelledAs (commaList (es.map tokens)) ts := by
  induction h with
  | last term _ => exact term.spelledAs lexed
  | @more e es ts rs term rest ih =>
      rw [List.map_cons, commaList_cons _ (by simpa using rest.ne_nil)]
      refine (term.spelledAs fun t member => lexed t ?_).append
        (.cons comma (ih fun t member => lexed t ?_))
      · simp [member]
      · simp [member]

/-! ### Lists in parentheses -/

/-- A list of any length: nothing at all, or items with commas between them. -/
def Items (es : List Expr) (ts : List Token) : Prop :=
  (es = [] ∧ ts = []) ∨ Terms es ts

/-- What is read between parentheses is a list. -/
theorem Reads.items_splitCommas (h : Reads (.items .arguments) e ts) :
    Items e.splitCommas ts := by
  cases h with
  | empty => exact .inl ⟨rfl, rfl⟩
  | items _ inner => exact .inr inner.terms

/-- **A list is read** between parentheses. -/
theorem Items.read_eq (h : Items es ts) (rest : List Token) :
    ∃ e, read .arguments (ts ++ closeParen :: rest) = .ok (e, closeParen :: rest) ∧
      e.splitCommas = es := by
  have closes := closes_closeParen (.inl rfl : Level.arguments = .arguments ∨ _) rest
  rcases h with ⟨rfl, rfl⟩ | terms
  · exact ⟨empty, Reads.empty.read_eq closes, rfl⟩
  · obtain ⟨e, reads, split⟩ := terms.reads
    have items : Reads (.items .arguments) e ts :=
      .items (isEmptyBefore_of_reads reads (.inl rfl)) reads
    exact ⟨e, items.read_eq closes, split⟩

/-- Items are spelled as in the text that they are read from, with a comma between two. -/
theorem Items.spelledAs (h : Items es ts) (lexed : ∀ t ∈ ts, t.IsLexed) :
    SpelledAs (commaList (es.map tokens)) ts := by
  rcases h with ⟨rfl, rfl⟩ | terms
  · exact .nil
  · exact terms.spelledAs lexed

/-- Items have no invalid token. -/
theorem Items.kind_ne_invalid (h : Items es ts) : ∀ t ∈ ts, t.kind ≠ .invalid := by
  rcases h with ⟨rfl, rfl⟩ | terms
  · simp
  · obtain ⟨_, reads, _⟩ := terms.reads
    exact reads.kind_ne_invalid

end Expr

end SchemaText
