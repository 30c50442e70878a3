/-!
# Case folding

SQL keywords and names are compared without regard to the case of the letters `A`
to `Z`; every other character, accented letters included, stands for itself.

## Main definitions

* `Text.fold`: the characters of a text, its letters `A` to `Z` made small.
* `Text.same`: equality of two texts up to that.

## Main results

* `Text.same_iff`, `Text.same_refl`, `Text.same_comm`, `Text.same_trans`: `same` is an
  equivalence.
-/

namespace SchemaText

namespace Text

/-- The characters of a text with `A` to `Z` replaced by `a` to `z`. -/
def fold (s : String) : List Char :=
  s.toList.map Char.toLower

/-- Whether two texts agree up to the case of `A` to `Z`. -/
def same (s t : String) : Bool :=
  fold s == fold t

/-- Texts agree just if they fold to the same characters. -/
theorem same_iff {s t : String} : same s t = true ↔ fold s = fold t := by
  simp [same]

/-- Every text agrees with itself. -/
@[simp] theorem same_refl (s : String) : same s s = true := by
  simp [same]

/-- Agreement does not depend on the order of the texts. -/
theorem same_comm (s t : String) : same s t = same t s := by
  simp only [same, BEq.comm]

/-- Texts that agree with a third one agree with each other. -/
theorem same_trans {s t u : String} (hst : same s t = true) (htu : same t u = true) :
    same s u = true := by
  rw [same_iff] at *
  exact hst.trans htu

end Text

end SchemaText
