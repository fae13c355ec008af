import Mathlib.Analysis.Calculus.Deriv.Inv
import Mathlib.Analysis.Calculus.Deriv.Mul
import Mathlib.Analysis.SpecialFunctions.Sqrt
import Mathlib.Tactic.FieldSimp
import Mathlib.Tactic.Linarith
import Mathlib.Tactic.LinearCombination
import Mathlib.Topology.Algebra.Module.ModuleTopology

/-!
# Arm of a hyperbola

`√(x * x + s * s)` with its two derivatives, and the least value it takes when a line of slope `rho` is added.
-/
namespace FxVol.HyperbolaArm

noncomputable def arm (s x : ℝ) : ℝ := √(x * x + s * s)

section Arm
variable {s : ℝ} (hs : 0 < s)
include hs

theorem radicand_pos (x : ℝ) : 0 < x * x + s * s := by
  have hsq := mul_self_nonneg x
  positivity

theorem arm_pos (x : ℝ) : 0 < arm s x := Real.sqrt_pos.mpr (radicand_pos hs x)

theorem arm_mul_self (x : ℝ) : arm s x * arm s x = x * x + s * s := Real.mul_self_sqrt (radicand_pos hs x).le

theorem hasDerivAt_arm (x : ℝ) : HasDerivAt (arm s) (x / arm s x) x := by
  have hsquare : HasDerivAt (fun x => x * x) (1 * x + x * 1) x := (hasDerivAt_id' x).mul (hasDerivAt_id' x)
  have hradicand : HasDerivAt (fun x => x * x + s * s) (1 * x + x * 1) x := hsquare.add_const (s * s)
  refine (hradicand.sqrt (radicand_pos hs x).ne').congr_deriv ?_
  rw [← arm]
  have hpos := arm_pos hs x
  field_simp
  ring

theorem hasDerivAt_slope (x : ℝ) : HasDerivAt (fun x => x / arm s x) (s * s / arm s x ^ 3) x := by
  have hpos := arm_pos hs x
  have hsq := arm_mul_self hs x
  refine ((hasDerivAt_id' x).div (hasDerivAt_arm hs x) hpos.ne').congr_deriv ?_
  field_simp
  linear_combination hsq

/-- The arm is steeper than its asymptotes nowhere. -/
theorem abs_slope_le (x : ℝ) : |x / arm s x| ≤ 1 := by
  rw [abs_div, abs_of_pos (arm_pos hs x), div_le_one (arm_pos hs x)]
  refine Real.le_sqrt_of_sq_le ?_
  rw [sq_abs, sq]
  linarith [mul_self_nonneg s]

end Arm

section Tilted
variable {rho s : ℝ}

theorem le_tilted (hrho : rho ^ 2 ≤ 1) (x : ℝ) : s * √(1 - rho ^ 2) ≤ rho * x + arm s x := by
  have hu : √(1 - rho ^ 2) ^ 2 = 1 - rho ^ 2 := Real.sq_sqrt (sub_nonneg.mpr hrho)
  have hroot : s * √(1 - rho ^ 2) - rho * x ≤ arm s x := by
    refine Real.le_sqrt_of_sq_le ?_
    have hsquare : x * x + s * s - (s * √(1 - rho ^ 2) - rho * x) ^ 2 = (√(1 - rho ^ 2) * x + rho * s) ^ 2 := by
      linear_combination (-(s ^ 2) - x ^ 2) * hu
    linarith [sq_nonneg (√(1 - rho ^ 2) * x + rho * s)]
  linarith

/-- Where the tilted arm is lowest -/
noncomputable def vertex (rho s : ℝ) : ℝ := -(rho * s / √(1 - rho ^ 2))

theorem tilted_vertex (hrho : rho ^ 2 < 1) (hs : 0 < s) : rho * vertex rho s + arm s (vertex rho s) = s * √(1 - rho ^ 2) := by
  have hu : 0 < √(1 - rho ^ 2) := Real.sqrt_pos.mpr (sub_pos.mpr hrho)
  have hu2 : √(1 - rho ^ 2) ^ 2 = 1 - rho ^ 2 := Real.sq_sqrt (sub_pos.mpr hrho).le
  have harm : arm s (vertex rho s) = s / √(1 - rho ^ 2) := by
    rw [arm, Real.sqrt_eq_iff_mul_self_eq_of_pos (div_pos hs hu), vertex]
    field_simp
    linear_combination -hu2
  rw [harm, vertex]
  field_simp
  linear_combination -hu2

end Tilted
end FxVol.HyperbolaArm
