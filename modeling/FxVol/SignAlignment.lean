import Mathlib.Algebra.Order.Group.Abs

/-!
# Alignment of signs

Of a vector and its opposite, the one on which an odd function is not negative.
-/
namespace FxVol.SignAlignment

variable {V K : Type*} [InvolutiveNeg V] [AddCommGroup K] [LinearOrder K] [IsOrderedAddMonoid K]

def align (c : V → K) (v : V) : V := if c v < 0 then -v else v

variable {c : V → K} (hodd : ∀ v, c (-v) = -c v) (v : V)
include hodd

/-- Which of the two was given does not matter. -/
theorem align_neg (h : c v ≠ 0) : align c (-v) = align c v := by
  simp only [align, hodd, neg_lt_zero, neg_neg]
  rcases lt_or_gt_of_ne h with hlt | hgt
  · rw [if_neg hlt.not_gt, if_pos hlt]
  · rw [if_pos hgt, if_neg hgt.not_gt]

theorem apply_align : c (align c v) = |c v| := by
  rw [align]
  split
  · rw [hodd, abs_of_neg ‹_›]
  · rw [abs_of_nonneg (not_lt.mp ‹_›)]

theorem apply_align_nonneg : 0 ≤ c (align c v) := by
  rw [apply_align hodd]
  exact abs_nonneg (c v)

theorem align_align : align c (align c v) = align c v := if_neg (apply_align_nonneg hodd v).not_gt

end FxVol.SignAlignment
