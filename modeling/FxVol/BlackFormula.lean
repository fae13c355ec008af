import FxVol.Numerals
import Mathlib.Analysis.Calculus.Deriv.MeanValue
import Mathlib.Analysis.SpecialFunctions.Log.Deriv
import Mathlib.MeasureTheory.Integral.IntervalIntegral.FundThmCalculus
import Mathlib.MeasureTheory.Integral.IntegralEqImproper
import Mathlib.Probability.CDF
import Mathlib.Probability.Distributions.Gaussian.Real

/-!
# The Black formula

The value of an option on a forward as a function of its total volatility `s`, the volatility times the square root
of the time.  It increases with `s` from the intrinsic value, which is its limit at zero.
-/
namespace FxVol.BlackFormula

open scoped Numerals
open Filter MeasureTheory ProbabilityTheory Topology

noncomputable def density (x : ℝ) : ℝ := gaussianPDFReal 0 1 x

noncomputable def distribution (x : ℝ) : ℝ := cdf (gaussianReal 0 1) x

theorem density_eq (x : ℝ) : density x = Real.exp (-(1 / 2) * x * x) / √(2 * Real.pi) := by
  have hexp : -(x - 0) ^ 2 / (2 * ((1 : NNReal) : ℝ)) = -(1 / 2) * x * x := by
    rw [NNReal.coe_one]
    ring
  rw [density, gaussianPDFReal, hexp, NNReal.coe_one, mul_one, inv_mul_eq_div]

theorem density_pos (x : ℝ) : 0 < density x := gaussianPDFReal_pos 0 1 x one_ne_zero

theorem density_neg (x : ℝ) : density (-x) = density x := by
  rw [density_eq, density_eq]
  congr 2
  ring

theorem continuous_density : Continuous density := by
  have h : density = fun x => Real.exp (-(1 / 2) * x * x) / √(2 * Real.pi) := funext density_eq
  rw [h]
  fun_prop

theorem integrable_density : Integrable density := integrable_gaussianPDFReal 0 1

theorem distribution_eq (x : ℝ) : distribution x = ∫ t in Set.Iic x, density t := by
  rw [distribution, cdf_eq_real, measureReal_def, gaussianReal_apply_eq_integral 0 one_ne_zero]
  exact ENNReal.toReal_ofReal (integral_nonneg fun t => (density_pos t).le)

theorem distribution_sub (a b : ℝ) : distribution b - distribution a = ∫ t in a..b, density t := by
  rw [distribution_eq, distribution_eq]
  exact intervalIntegral.integral_Iic_sub_Iic integrable_density.integrableOn integrable_density.integrableOn

theorem hasDerivAt_distribution (x : ℝ) : HasDerivAt distribution (density x) x := by
  have h : distribution = fun b => distribution 0 + ∫ t in (0)..b, density t := by
    funext b
    rw [← distribution_sub]
    ring
  rw [h]
  exact (continuous_density.integral_hasStrictDerivAt 0 x).hasDerivAt.const_add _

theorem continuous_distribution : Continuous distribution :=
  continuous_iff_continuousAt.mpr fun x => (hasDerivAt_distribution x).continuousAt

theorem distribution_neg (x : ℝ) : distribution (-x) = 1 - distribution x := by
  have hreflect : ∫ t in Set.Iic (-x), density t = ∫ t in Set.Ioi x, density t := by
    rw [← neg_neg x, ← integral_comp_neg_Iic, neg_neg]
    simp only [density_neg]
  have htotal : (∫ t in Set.Iic x, density t) + ∫ t in Set.Ioi x, density t = 1 := by
    rw [intervalIntegral.integral_Iic_add_Ioi integrable_density.integrableOn integrable_density.integrableOn]
    exact integral_gaussianPDFReal_eq_one 0 one_ne_zero
  rw [distribution_eq, distribution_eq, hreflect]
  linarith

theorem tendsto_distribution_atTop : Tendsto distribution atTop (𝓝 1) := tendsto_cdf_atTop _

theorem tendsto_distribution_atBot : Tendsto distribution atBot (𝓝 0) := tendsto_cdf_atBot _

section Formula
variable (F K : ℝ)

noncomputable def d1 (s : ℝ) : ℝ := Real.log (F / K) / s + s / 2

noncomputable def d2 (s : ℝ) : ℝ := Real.log (F / K) / s - s / 2

noncomputable def call (s : ℝ) : ℝ := F * distribution (d1 F K s) - K * distribution (d2 F K s)

noncomputable def put (s : ℝ) : ℝ := K * distribution (-d2 F K s) - F * distribution (-d1 F K s)

theorem put_eq (s : ℝ) : put F K s = call F K s - (F - K) := by
  rw [put, call, distribution_neg, distribution_neg]
  ring

variable {F K}

theorem hasDerivAt_log_div {s : ℝ} (hs : 0 < s) :
    HasDerivAt (fun s => Real.log (F / K) / s) (-Real.log (F / K) / s ^ 2) s := by
  refine ((hasDerivAt_const s (Real.log (F / K))).div (hasDerivAt_id s) hs.ne').congr_deriv ?_
  simp

theorem hasDerivAt_d1 {s : ℝ} (hs : 0 < s) : HasDerivAt (d1 F K) (-Real.log (F / K) / s ^ 2 + 1 / 2) s :=
  (hasDerivAt_log_div hs).add ((hasDerivAt_id s).div_const 2)

theorem hasDerivAt_d2 {s : ℝ} (hs : 0 < s) : HasDerivAt (d2 F K) (-Real.log (F / K) / s ^ 2 - 1 / 2) s :=
  (hasDerivAt_log_div hs).sub ((hasDerivAt_id s).div_const 2)

variable (hF : 0 < F) (hK : 0 < K)
include hF hK

/-- The densities at the two points are in the ratio of the strike to the forward. -/
theorem density_d1 {s : ℝ} (hs : 0 < s) : F * density (d1 F K s) = K * density (d2 F K s) := by
  have hexp : -(1 / 2) * d2 F K s * d2 F K s = -(1 / 2) * d1 F K s * d1 F K s + Real.log (F / K) := by
    rw [d1, d2]
    field_simp
    ring
  rw [density_eq, density_eq, hexp, Real.exp_add, Real.exp_log (div_pos hF hK)]
  field_simp

/-- Vega, in the total volatility -/
theorem hasDerivAt_call {s : ℝ} (hs : 0 < s) : HasDerivAt (call F K) (F * density (d1 F K s)) s := by
  have hcall := (((hasDerivAt_distribution (d1 F K s)).comp s (hasDerivAt_d1 hs)).const_mul F).sub
    (((hasDerivAt_distribution (d2 F K s)).comp s (hasDerivAt_d2 hs)).const_mul K)
  refine hcall.congr_deriv ?_
  linear_combination (-Real.log (F / K) / s ^ 2 - 1 / 2) * density_d1 hF hK hs

theorem continuousAt_call {s : ℝ} (hs : 0 < s) : ContinuousAt (call F K) s := (hasDerivAt_call hF hK hs).continuousAt

theorem call_strictMonoOn : StrictMonoOn (call F K) (Set.Ioi 0) := by
  apply strictMonoOn_of_deriv_pos (convex_Ioi 0)
  · exact fun s hs => (continuousAt_call hF hK hs).continuousWithinAt
  · intro s hs
    rw [interior_Ioi] at hs
    rw [(hasDerivAt_call hF hK hs).deriv]
    exact mul_pos hF (density_pos _)

/-- Without volatility the call is worth what its exercise is. -/
theorem tendsto_call : Tendsto (call F K) (𝓝[>] 0) (𝓝 (max 0 (F - K))) := by
  have hhalf : Tendsto (fun s : ℝ => s / 2) (𝓝[>] 0) (𝓝 0) := by
    have h : Tendsto (fun s : ℝ => s / 2) (𝓝 0) (𝓝 (0 / 2)) := tendsto_id.div_const 2
    rw [zero_div] at h
    exact h.mono_left nhdsWithin_le_nhds
  have hvalue : ∀ {p : ℝ}, Tendsto (fun s => distribution (d1 F K s)) (𝓝[>] 0) (𝓝 p) →
      Tendsto (fun s => distribution (d2 F K s)) (𝓝[>] 0) (𝓝 p) → Tendsto (call F K) (𝓝[>] 0) (𝓝 (F * p - K * p)) :=
    fun h1 h2 => (h1.const_mul F).sub (h2.const_mul K)
  rcases lt_trichotomy F K with hlt | heq | hgt
  · have hlog : Tendsto (fun s => Real.log (F / K) / s) (𝓝[>] 0) atBot :=
      tendsto_inv_nhdsGT_zero.const_mul_atTop_of_neg (Real.log_neg (div_pos hF hK) ((div_lt_one hK).mpr hlt))
    have h := hvalue (tendsto_distribution_atBot.comp (hlog.atBot_add hhalf))
      (tendsto_distribution_atBot.comp ((hlog.atBot_add hhalf.neg).congr fun s => (sub_eq_add_neg _ _).symm))
    rw [max_eq_left (by linarith)]
    simpa using h
  · subst heq
    have hd1 : d1 F F = fun s => s / 2 := by
      funext s
      rw [d1, div_self hF.ne', Real.log_one, zero_div, zero_add]
    have hd2 : d2 F F = fun s => -(s / 2) := by
      funext s
      rw [d2, div_self hF.ne', Real.log_one, zero_div, zero_sub]
    have hneg := hhalf.neg
    rw [neg_zero] at hneg
    have h := hvalue (p := distribution 0)
      (by rw [hd1]; exact (continuous_distribution.tendsto 0).comp hhalf)
      (by rw [hd2]; exact (continuous_distribution.tendsto 0).comp hneg)
    rw [sub_self, max_self]
    simpa using h
  · have hlog : Tendsto (fun s => Real.log (F / K) / s) (𝓝[>] 0) atTop :=
      tendsto_inv_nhdsGT_zero.const_mul_atTop (Real.log_pos ((one_lt_div hK).mpr hgt))
    have h := hvalue (tendsto_distribution_atTop.comp (hlog.atTop_add hhalf))
      (tendsto_distribution_atTop.comp ((hlog.atTop_add hhalf.neg).congr fun s => (sub_eq_add_neg _ _).symm))
    rw [max_eq_right (by linarith)]
    simpa using h

/-- With volatility it is worth more. -/
theorem lt_call {s : ℝ} (hs : 0 < s) : max 0 (F - K) < call F K s := by
  have hhalf : (0 : ℝ) < s / 2 := half_pos hs
  have hle : max 0 (F - K) ≤ call F K (s / 2) := by
    refine le_of_tendsto (tendsto_call hF hK) ?_
    filter_upwards [Ioo_mem_nhdsGT hhalf] with x hx
    exact (call_strictMonoOn hF hK hx.1 hhalf hx.2).le
  exact hle.trans_lt (call_strictMonoOn hF hK hhalf hs (half_lt_self hs))

theorem continuousAt_put {s : ℝ} (hs : 0 < s) : ContinuousAt (put F K) s := by
  rw [funext (put_eq F K)]
  exact (continuousAt_call hF hK hs).sub_const _

theorem put_strictMonoOn : StrictMonoOn (put F K) (Set.Ioi 0) := by
  intro s hs s' hs' hlt
  have := call_strictMonoOn hF hK hs hs' hlt
  rw [put_eq, put_eq]
  linarith

omit hF hK in
/-- Parity of what the exercises are worth -/
theorem exercise_parity : max 0 (K - F) = max 0 (F - K) - (F - K) := by
  rcases le_total F K with hle | hle
  · rw [max_eq_right (by linarith), max_eq_left (by linarith)]
    ring
  · rw [max_eq_left (by linarith), max_eq_right (by linarith)]
    ring

theorem tendsto_put : Tendsto (put F K) (𝓝[>] 0) (𝓝 (max 0 (K - F))) := by
  rw [funext (put_eq F K), exercise_parity]
  exact (tendsto_call hF hK).sub_const _

theorem lt_put {s : ℝ} (hs : 0 < s) : max 0 (K - F) < put F K s := by
  rw [put_eq, exercise_parity]
  exact sub_lt_sub_right (lt_call hF hK hs) (F - K)

end Formula

end FxVol.BlackFormula
