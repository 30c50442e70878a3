import SchemaText.Proofs.Token.First

/-!
# Between tokens

What stands between tokens are blanks, comments to the end of their line, and comments
between `/*` and `*/`. At the end of a text the last comment may be open. This module says so
of the text itself, without the state of a machine, and shows that exactly these texts are
skipped.

## Main definitions

* `Lexer.IsGap`: a text of blanks and comments, and whether its last comment is open.

## Main results

* `Lexer.isGap_iff`: **what is skipped** are the texts of blanks and comments.
* `Lexer.IsGap.skip_append`: a gap without an open comment is skipped before any text.
-/

namespace SchemaText

namespace Lexer

variable {g w text : List Char} {gap ends : Gap}

/-! ### Comments -/

/-- A comment to the end of the line ends with its line. -/
theorem skipFrom_closedLine (inside : '\n' ∉ text) (w : List Char) :
    skipFrom .line (text ++ '\n' :: w) = skipFrom .open w ∧
      gapEnd .line (text ++ '\n' :: w) = gapEnd .open w := by
  induction text with
  | nil => exact ⟨rfl, rfl⟩
  | cons c text ih =>
      rw [List.mem_cons, not_or] at inside
      obtain ⟨skips, ends⟩ := skipFrom_line (r := text ++ '\n' :: w) (Ne.symm inside.1)
      exact ⟨skips.trans (ih inside.2).1, ends.trans (ih inside.2).2⟩

/-- In a line without an end the comment stays open. -/
theorem skipFrom_openLine (inside : '\n' ∉ text) :
    skipFrom .line text = [] ∧ gapEnd .line text = .line := by
  induction text with
  | nil => exact ⟨rfl, rfl⟩
  | cons c text ih =>
      rw [List.mem_cons, not_or] at inside
      obtain ⟨skips, ends⟩ := skipFrom_line (r := text) (Ne.symm inside.1)
      exact ⟨skips.trans (ih inside.2).1, ends.trans (ih inside.2).2⟩

/-- A comment between `/*` and `*/` ends with the first `*/`. -/
theorem skipFrom_closedBlock (inside : ¬['*', '/'] <:+: text) (w : List Char) :
    skipFrom .block (text ++ '*' :: '/' :: w) = skipFrom .open w ∧
      gapEnd .block (text ++ '*' :: '/' :: w) = gapEnd .open w := by
  induction text with
  | nil => exact ⟨rfl, rfl⟩
  | cons c text ih =>
      rw [List.infix_cons_iff, not_or] at inside
      have still : ∀ s, c = '*' → text ++ '*' :: '/' :: w ≠ '/' :: s := by
        rintro s rfl next
        cases text with
        | nil => exact absurd (List.cons.inj next).1 (by decide)
        | cons d text =>
            obtain ⟨rfl, -⟩ := List.cons.inj next
            exact inside.1 ⟨text, rfl⟩
      obtain ⟨skips, ends⟩ := skipFrom_block still
      exact ⟨skips.trans (ih inside.2).1, ends.trans (ih inside.2).2⟩

/-- Without `*/` the comment stays open. -/
theorem skipFrom_openBlock (inside : ¬['*', '/'] <:+: text) :
    skipFrom .block text = [] ∧ gapEnd .block text = .block := by
  induction text with
  | nil => exact ⟨rfl, rfl⟩
  | cons c text ih =>
      rw [List.infix_cons_iff, not_or] at inside
      have still : ∀ s, c = '*' → text ≠ '/' :: s := by
        rintro s rfl rfl
        exact inside.1 ⟨s, rfl⟩
      obtain ⟨skips, ends⟩ := skipFrom_block still
      exact ⟨skips.trans (ih inside.2).1, ends.trans (ih inside.2).2⟩

/-! ### Texts of blanks and comments -/

/-- A text of blanks and comments. At its end a comment may be open. -/
inductive IsGap : List Char → Gap → Prop
  | nil : IsGap [] .open
  | blank {c : Char} {r : List Char} {ends : Gap} (blank : Text.isBlank c = true)
      (rest : IsGap r ends) : IsGap (c :: r) ends
  | line {text r : List Char} {ends : Gap} (inside : '\n' ∉ text) (rest : IsGap r ends) :
      IsGap ('-' :: '-' :: (text ++ '\n' :: r)) ends
  | block {text r : List Char} {ends : Gap} (inside : ¬['*', '/'] <:+: text)
      (rest : IsGap r ends) : IsGap ('/' :: '*' :: (text ++ '*' :: '/' :: r)) ends
  | openLine {text : List Char} (inside : '\n' ∉ text) : IsGap ('-' :: '-' :: text) .line
  | openBlock {text : List Char} (inside : ¬['*', '/'] <:+: text) :
      IsGap ('/' :: '*' :: text) .block

/-- **A gap without an open comment is skipped** before any text. -/
theorem IsGap.skip_append (h : IsGap g ends) (closed : ends = .open) (w : List Char) :
    skip (g ++ w) = skip w := by
  induction h with
  | nil => rfl
  | blank blank rest ih => exact (skipFrom_isBlank blank _).trans (ih closed)
  | @line text r _ inside rest ih =>
      rw [List.cons_append, List.cons_append, List.append_assoc]
      exact (skipFrom_closedLine inside (r ++ w)).1.trans (ih closed)
  | @block text r _ inside rest ih =>
      rw [List.cons_append, List.cons_append, List.append_assoc]
      exact (skipFrom_closedBlock inside (r ++ w)).1.trans (ih closed)
  | openLine | openBlock => exact absurd closed (by simp)

/-- A gap is skipped. -/
theorem IsGap.skip_eq (h : IsGap g ends) : skip g = [] ∧ gapEnd .open g = ends := by
  induction h with
  | nil => exact ⟨rfl, rfl⟩
  | blank blank rest ih =>
      exact ⟨(skipFrom_isBlank blank _).trans ih.1, (gapEnd_isBlank blank _).trans ih.2⟩
  | line inside rest ih =>
      obtain ⟨first, second⟩ := skipFrom_closedLine inside _
      exact ⟨first.trans ih.1, second.trans ih.2⟩
  | block inside rest ih =>
      obtain ⟨first, second⟩ := skipFrom_closedBlock inside _
      exact ⟨first.trans ih.1, second.trans ih.2⟩
  | openLine inside => exact skipFrom_openLine inside
  | openBlock inside => exact skipFrom_openBlock inside

/-- A comment to the end of the line gets a character. -/
theorem IsGap.cons_line {c : Char} (h : IsGap ('-' :: '-' :: g) ends) (other : c ≠ '\n') :
    IsGap ('-' :: '-' :: c :: g) ends := by
  have longer {text : List Char} (inside : '\n' ∉ text) : '\n' ∉ c :: text := by
    rw [List.mem_cons, not_or]
    exact ⟨other.symm, inside⟩
  cases h with
  | blank blank => exact absurd blank (by decide)
  | line inside rest => exact .line (longer inside) rest
  | openLine inside => exact .openLine (longer inside)

/-- A comment between `/*` and `*/` gets a character. -/
theorem IsGap.cons_block {c : Char} (h : IsGap ('/' :: '*' :: g) ends)
    (still : ∀ s, c = '*' → g ≠ '/' :: s) : IsGap ('/' :: '*' :: c :: g) ends := by
  have longer {text : List Char} (inside : ¬['*', '/'] <:+: text)
      (still : ∀ s, c = '*' → text ≠ '/' :: s) : ¬['*', '/'] <:+: c :: text := by
    rw [List.infix_cons_iff, not_or]
    refine ⟨?_, inside⟩
    rintro ⟨s, split⟩
    obtain ⟨rfl, rfl⟩ := List.cons.inj split
    exact still s rfl rfl
  cases h with
  | blank blank => exact absurd blank (by decide)
  | @block text r _ inside rest =>
      refine .block (longer inside ?_) rest
      rintro s rfl rfl
      exact still (s ++ '*' :: '/' :: r) rfl rfl
  | openBlock inside => exact .openBlock (longer inside still)

/-- What a comment begins with. -/
def Gap.opening : Gap → List Char
  | .open => []
  | .line => ['-', '-']
  | .block => ['/', '*']

/-- What is skipped is a gap, together with the beginning of the comment that it is in. -/
theorem isGap_of_skipFrom (skipped : skipFrom gap g = []) :
    IsGap (gap.opening ++ g) (gapEnd gap g) := by
  fun_induction skipFrom gap g with
  | case1 gap =>
      cases gap with
      | «open» => exact .nil
      | line => exact .openLine (by simp)
      | block => exact .openBlock (by simp)
  | case2 r ih => exact ih skipped
  | case3 r ih => exact ih skipped
  | case4 c r _ _ blank ih =>
      rw [gapEnd_isBlank blank]
      exact .blank blank (ih skipped)
  | case5 => exact absurd skipped (by simp)
  | case6 r ih => exact IsGap.line (show '\n' ∉ [] by simp) (ih skipped)
  | case7 c r other ih =>
      rw [(skipFrom_line other).2]
      exact (ih skipped).cons_line other
  | case8 r ih => exact IsGap.block (show ¬['*', '/'] <:+: [] by simp) (ih skipped)
  | case9 c r other ih =>
      have still : ∀ s, c = '*' → r ≠ '/' :: s := fun s star split => other s star split
      rw [(skipFrom_block still).2]
      exact (ih skipped).cons_block still

/-- **What is skipped** are the texts of blanks and comments. -/
theorem isGap_iff : IsGap g ends ↔ skip g = [] ∧ gapEnd .open g = ends := by
  refine ⟨IsGap.skip_eq, ?_⟩
  rintro ⟨skipped, rfl⟩
  exact isGap_of_skipFrom skipped

end Lexer

end SchemaText
