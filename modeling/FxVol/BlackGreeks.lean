import FxVol.BlackFormula
import Mathlib.Analysis.Calculus.Deriv.Inv
import Mathlib.Analysis.SpecialFunctions.Sqrt

/-!
# Derivatives of the Black formula

First and second derivatives of the values of call and put by the forward and by the total volatility, and the mixed one.
-/
namespace FxVol.BlackFormula

theorem hasDerivAt_density (x : ℝ) : HasDerivAt density (-(x * density x)) x := by
  have hsquare : HasDerivAt (fun x : ℝ => -(1 / 2) * x * x) (-x) x := by
    refine (((hasDerivAt_id' x).const_mul (-(1 / 2))).mul (hasDerivAt_id' x)).congr_deriv ?_
    ring
  rw [funext density_eq]
  refine (hsquare.exp.div_const √(2 * Real.pi)).congr_deriv ?_
  dsimp only
  ring

section Derivatives
variable {F K s : ℝ}

/-- Nearer the money by less of the volatility -/
theorem d1_sub_d2 : d1 F K s - d2 F K s = s := by
  rw [d1, d2]
  ring

theorem d1_slope (hs : 0 < s) : -Real.log (F / K) / s ^ 2 + 1 / 2 = -(d2 F K s / s) := by
  rw [d2]
  field_simp
  ring

variable (hF : 0 < F) (hK : 0 < K)
include hF hK

theorem hasDerivAt_log_moneyness : HasDerivAt (fun F => Real.log (F / K)) (1 / F) F := by
  refine (((hasDerivAt_id' F).div_const K).log (div_pos hF hK).ne').congr_deriv ?_
  field_simp

theorem hasDerivAt_d1_forward (s : ℝ) : HasDerivAt (fun F => d1 F K s) (1 / F / s) F :=
  ((hasDerivAt_log_moneyness hF hK).div_const s).add_const (s / 2)

theorem hasDerivAt_d2_forward (s : ℝ) : HasDerivAt (fun F => d2 F K s) (1 / F / s) F :=
  ((hasDerivAt_log_moneyness hF hK).div_const s).sub_const (s / 2)

/-- Delta of the call: the two densities cancel. -/
theorem hasDerivAt_call_forward (hs : 0 < s) : HasDerivAt (fun F => call F K s) (distribution (d1 F K s)) F := by
  have hfirst := (hasDerivAt_id' F).mul
    ((hasDerivAt_distribution (d1 F K s)).comp F (hasDerivAt_d1_forward hF hK s))
  have hsecond := ((hasDerivAt_distribution (d2 F K s)).comp F (hasDerivAt_d2_forward hF hK s)).const_mul K
  refine (hfirst.sub hsecond).congr_deriv ?_
  simp only [Function.comp_apply]
  linear_combination (1 / F / s) * density_d1 hF hK hs

theorem hasDerivAt_put_forward (hs : 0 < s) : HasDerivAt (fun F => put F K s) (distribution (d1 F K s) - 1) F := by
  have hparity : (fun F => put F K s) = fun F => call F K s - (F - K) := funext fun F => put_eq F K s
  rw [hparity]
  exact (hasDerivAt_call_forward hF hK hs).sub ((hasDerivAt_id' F).sub_const K)

/-- Gamma -/
theorem hasDerivAt_delta (s : ℝ) :
    HasDerivAt (fun F => distribution (d1 F K s)) (density (d1 F K s) / (F * s)) F := by
  refine ((hasDerivAt_distribution (d1 F K s)).comp F (hasDerivAt_d1_forward hF hK s)).congr_deriv ?_
  rw [div_div, mul_one_div]

omit hF hK in
theorem hasDerivAt_delta_vol (hs : 0 < s) :
    HasDerivAt (fun s => distribution (d1 F K s)) (-(density (d1 F K s) * d2 F K s / s)) s := by
  refine ((hasDerivAt_distribution (d1 F K s)).comp s (hasDerivAt_d1 hs)).congr_deriv ?_
  rw [d1_slope hs]
  ring

omit hF hK in
theorem hasDerivAt_vega_vol (hs : 0 < s) :
    HasDerivAt (fun s => F * density (d1 F K s)) (F * density (d1 F K s) * d1 F K s * d2 F K s / s) s := by
  refine (((hasDerivAt_density (d1 F K s)).comp s (hasDerivAt_d1 hs)).const_mul F).congr_deriv ?_
  rw [d1_slope hs]
  ring

theorem hasDerivAt_put {s : ℝ} (hs : 0 < s) : HasDerivAt (put F K) (F * density (d1 F K s)) s := by
  rw [funext (put_eq F K)]
  exact (hasDerivAt_call hF hK hs).sub_const _

/-- The mixed derivative, in the other order -/
theorem hasDerivAt_vega_forward (hs : 0 < s) :
    HasDerivAt (fun F => F * density (d1 F K s)) (-(density (d1 F K s) * d2 F K s / s)) F := by
  have hdensity := (hasDerivAt_density (d1 F K s)).comp F (hasDerivAt_d1_forward hF hK s)
  refine ((hasDerivAt_id' F).mul hdensity).congr_deriv ?_
  have hd2 : d2 F K s = d1 F K s - s := by linarith [d1_sub_d2 (F := F) (K := K) (s := s)]
  simp only [Function.comp_apply]
  rw [hd2]
  field_simp
  ring

end Derivatives
end FxVol.BlackFormula
