import Mathlib.Algebra.Order.Field.Basic
import Mathlib.Order.Interval.Set.UnorderedInterval
import Mathlib.Logic.Function.Iterate
import Mathlib.Tactic.FieldSimp
import Mathlib.Tactic.Linarith
import Mathlib.Tactic.Ring

/-!
# Affine recursions

The iterates of `x ↦ b + p * x` approach the fixed point by the factor `p` a step.
-/
namespace FxVol.AffineRecursion

section Iterates
variable {K : Type*} [Field K] {b p : K}

def affine (b p x : K) : K := b + p * x

def fixedPoint (b p : K) : K := b / (1 - p)

theorem affine_sub_fixedPoint (hp : p ≠ 1) (x : K) :
    affine b p x - fixedPoint b p = p * (x - fixedPoint b p) := by
  have hsub : 1 - p ≠ 0 := sub_ne_zero.mpr hp.symm
  rw [affine, fixedPoint]
  field_simp
  ring

theorem iterate_sub_fixedPoint (hp : p ≠ 1) (x : K) (n : ℕ) :
    (affine b p)^[n] x - fixedPoint b p = p ^ n * (x - fixedPoint b p) := by
  induction n with
  | zero => simp
  | succ n ih => rw [Function.iterate_succ_apply', affine_sub_fixedPoint hp, ih, pow_succ', mul_assoc]

theorem sub_fixedPoint_eq_zero (hp : p ≠ 1) (x : K) : x - fixedPoint b p = 0 ↔ x * (1 - p) = b := by
  rw [sub_eq_zero, fixedPoint, eq_div_iff (sub_ne_zero.mpr hp.symm)]

end Iterates

/-- The part `w` of the way from `c` to `x` -/
theorem add_mul_sub_mem_uIcc {K : Type*} [Field K] [LinearOrder K] [IsStrictOrderedRing K] {w : K} (hw : 0 ≤ w)
    (hw' : w ≤ 1) (c x : K) : c + w * (x - c) ∈ Set.uIcc x c := by
  rcases le_total x c with h | h
  · have hlow : x - c ≤ w * (x - c) := le_mul_of_le_one_left (sub_nonpos.mpr h) hw'
    have hhigh : w * (x - c) ≤ 0 := mul_nonpos_of_nonneg_of_nonpos hw (sub_nonpos.mpr h)
    rw [Set.uIcc_of_le h]
    constructor <;> linarith
  · have hlow : 0 ≤ w * (x - c) := mul_nonneg hw (sub_nonneg.mpr h)
    have hhigh : w * (x - c) ≤ x - c := mul_le_of_le_one_left (sub_nonneg.mpr h) hw'
    rw [Set.uIcc_of_ge h]
    constructor <;> linarith

end FxVol.AffineRecursion
