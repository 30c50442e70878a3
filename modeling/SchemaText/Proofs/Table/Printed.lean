import SchemaText.Proofs.Token.Spoken
import SchemaText.Table.Printer

/-!
# What statements are written with

Every token of a written statement is a keyword or can be spelled, piece by piece.

## Main definitions

* `Token.ArePrinted`: all tokens are keywords or can be spelled.

## Main results

* `Token.arePrinted_commaList`, `Token.arePrinted_nameList`: lists of printed pieces.
-/

namespace SchemaText

namespace Token

variable {a : Token} {ts ss : List Token} {k : Keyword}

/-- All tokens are keywords or can be spelled. -/
def ArePrinted (ts : List Token) : Prop :=
  ∀ t ∈ ts, t.IsPrinted

@[simp] theorem arePrinted_nil : ArePrinted [] := by
  rintro _ ⟨⟩

/-- Sequences are printed token by token. -/
@[simp] theorem arePrinted_cons : ArePrinted (a :: ts) ↔ a.IsPrinted ∧ ArePrinted ts :=
  List.forall_mem_cons

/-- Sequences are printed one after the other. -/
@[simp] theorem arePrinted_append : ArePrinted (ts ++ ss) ↔ ArePrinted ts ∧ ArePrinted ss :=
  List.forall_mem_append

attribute [simp] isPrinted_ofKeyword isPrinted_name

/-- Punctuation can be printed. -/
@[simp] theorem isPrinted_openParen : openParen.IsPrinted := .inl isWellSpelled_openParen

@[simp] theorem isPrinted_closeParen : closeParen.IsPrinted := .inl isWellSpelled_closeParen

@[simp] theorem isPrinted_comma : comma.IsPrinted := .inl isWellSpelled_comma

@[simp] theorem isPrinted_dot : dot.IsPrinted := .inl isWellSpelled_dot

/-- Keywords can be printed. -/
@[simp] theorem arePrinted_words (keywords : List Keyword) : ArePrinted (words keywords) := by
  intro t member
  obtain ⟨k, -, rfl⟩ := List.mem_map.1 member
  exact isPrinted_ofKeyword k

/-- `IF NOT EXISTS` can be printed. -/
@[simp] theorem arePrinted_existsGuard (asked : Bool) : ArePrinted (existsGuard asked) := by
  unfold existsGuard
  split
  · exact arePrinted_words _
  · exact arePrinted_nil

/-- A name can be printed with its schema, whatever their characters. -/
@[simp] theorem arePrinted_qualified (schema : Option String) (object : String) :
    ArePrinted (qualified schema object) := by
  cases schema <;> simp [qualified]

/-- Parentheses are printed around what can be printed. -/
@[simp] theorem arePrinted_inParens : ArePrinted (inParens ts) ↔ ArePrinted ts := by
  simp [inParens]

/-- Pieces separated by commas have no other tokens than the pieces have. -/
theorem forall_mem_commaList {P : Token → Prop} {pieces : List (List Token)}
    (between : P comma)
    (h : ∀ piece ∈ pieces, ∀ t ∈ piece, P t) : ∀ t ∈ commaList pieces, P t := by
  induction pieces with
  | nil => exact fun _ member => absurd member List.not_mem_nil
  | cons piece pieces ih =>
      have first := h piece (by simp)
      have rest := ih fun other member => h other (by simp [member])
      cases pieces with
      | nil => exact first
      | cons next pieces =>
          exact List.forall_mem_append.2 ⟨first, List.forall_mem_cons.2 ⟨between, rest⟩⟩

/-- Every piece is written. -/
theorem subset_commaList {pieces : List (List Token)} {piece : List Token}
    (h : piece ∈ pieces) : piece ⊆ commaList pieces := by
  induction pieces with
  | nil => exact absurd h List.not_mem_nil
  | cons first pieces ih =>
      cases pieces with
      | nil => exact fun t member => List.mem_singleton.1 h ▸ member
      | cons next pieces =>
          intro t member
          rcases List.mem_cons.1 h with rfl | later
          · exact List.mem_append_left _ member
          · exact List.mem_append_right _ (List.mem_cons_of_mem _ (ih later member))

/-- Pieces that can be printed can be printed as a list. -/
theorem arePrinted_commaList {pieces : List (List Token)}
    (h : ∀ piece ∈ pieces, ArePrinted piece) :
    ArePrinted (commaList pieces) :=
  forall_mem_commaList isPrinted_comma h

/-- A list of names can be printed, whatever their characters. -/
theorem arePrinted_nameList (names : List String) : ArePrinted (nameList names) := by
  rw [nameList, arePrinted_inParens]
  refine arePrinted_commaList fun piece member => ?_
  obtain ⟨name, -, rfl⟩ := List.mem_map.1 member
  simp

end Token

end SchemaText
