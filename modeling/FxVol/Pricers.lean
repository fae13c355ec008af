import FxVol.BlackFormula
import FxVol.Numerals
import FxVol.OptionPrices

/-!
# The pricers over a field

`core.pricing.bs` and the pricer of `core.trade_preview` in exact arithmetic over any ordered field.  Over the
rationals they are the pricers of the desk; over the reals, with the functions of `math` and `scipy.stats.norm`,
the prices are values of the Black formula.
-/
namespace FxVol.Pricers

open scoped Numerals

/-- `math` and `scipy.stats.norm` -/
structure Numerics (K : Type*) [Field K] where
  exp : K → K
  log : K → K
  sqrt : K → K
  erf : K → K
  pi : K
  normCdf : K → K
  normPdf : K → K
  normCdf_eq : ∀ x, normCdf x = 1 / 2 * (1 + erf (x / sqrt 2))
  normPdf_eq : ∀ x, normPdf x = exp (-(1 / 2) * x * x) / sqrt (2 * pi)

variable {𝕜 : Type*} [Field 𝕜] [LinearOrder 𝕜] (N : Numerics 𝕜)

section Pricing
variable (F K T sigma : 𝕜)

/-- The arguments no formula is evaluated at -/
def Degenerate : Prop := sigma ≤ 0 ∨ T ≤ 0 ∨ F ≤ 0 ∨ K ≤ 0

instance : Decidable (Degenerate F K T sigma) := inferInstanceAs (Decidable (_ ∨ _))

def bsD1 : 𝕜 := (N.log (F / K) + 1 / 2 * (sigma * sigma) * T) / (sigma * N.sqrt T)

def bsD2 : 𝕜 := bsD1 N F K T sigma - sigma * N.sqrt T

def bsPrice (right : ContractType) : 𝕜 :=
  if Degenerate F K T sigma then 0
  else if right = .call then
    F * N.normCdf (bsD1 N F K T sigma) - K * N.normCdf (bsD2 N F K T sigma)
  else K * N.normCdf (-bsD2 N F K T sigma) - F * N.normCdf (-bsD1 N F K T sigma)

def bsDelta (right : ContractType) : 𝕜 :=
  if Degenerate F K T sigma then 0
  else if right = .call then N.normCdf (bsD1 N F K T sigma)
  else N.normCdf (bsD1 N F K T sigma) - 1

def bsGamma : 𝕜 :=
  if Degenerate F K T sigma then 0
  else N.normPdf (bsD1 N F K T sigma) / (F * sigma * N.sqrt T)

def bsVega : 𝕜 :=
  if Degenerate F K T sigma then 0 else F * N.normPdf (bsD1 N F K T sigma) * N.sqrt T

def bsTheta : 𝕜 :=
  if Degenerate F K T sigma then 0
  else -(F * N.normPdf (bsD1 N F K T sigma) * sigma) / (2 * N.sqrt T) / 365

def bsVanna : 𝕜 :=
  if Degenerate F K T sigma then 0
  else -N.normPdf (bsD1 N F K T sigma) * bsD2 N F K T sigma / sigma

def bsVolga : 𝕜 :=
  if Degenerate F K T sigma then 0
  else F * N.normPdf (bsD1 N F K T sigma) * N.sqrt T * bsD1 N F K T sigma * bsD2 N F K T sigma / sigma

end Pricing

def phi (x : 𝕜) : 𝕜 := N.exp (-(1 / 2) * x * x) / N.sqrt (2 * N.pi)

/-- `_N` -/
def cumulative (x : 𝕜) : 𝕜 := 1 / 2 * (1 + N.erf (x / N.sqrt 2))

/-- `bs_price`, the intrinsic value where the formula has none -/
def previewBsPrice (F K T sigma : 𝕜) (right : ContractType) : 𝕜 :=
  if Degenerate F K T sigma then max 0 (if right = .call then F - K else K - F)
  else if right = .call then
    F * cumulative N (bsD1 N F K T sigma) - K * cumulative N (bsD2 N F K T sigma)
  else K * cumulative N (-bsD2 N F K T sigma) - F * cumulative N (-bsD1 N F K T sigma)

structure RawGreeks (𝕜 : Type*) where
  delta : 𝕜
  gamma : 𝕜
  vega : 𝕜
  theta : 𝕜

/-- `bs_greeks`, theta per year -/
def bsGreeks (F K T sigma : 𝕜) (right : ContractType) : RawGreeks 𝕜 :=
  if Degenerate F K T sigma then ⟨0, 0, 0, 0⟩
  else
    let d1 := bsD1 N F K T sigma
    { delta := if right = .call then cumulative N d1 else cumulative N d1 - 1
      gamma := phi N d1 / (F * sigma * N.sqrt T)
      vega := F * phi N d1 * N.sqrt T
      theta := -F * phi N d1 * sigma / (2 * N.sqrt T) }

section Rationals
variable (N : Greeks.Numerics) (F K T sigma : ℚ) (right : ContractType)

def ofGreeks : Numerics ℚ := { N with }

theorem bsPrice_rat : bsPrice (ofGreeks N) F K T sigma right = Greeks.bsPrice N F K T sigma right := rfl

theorem previewBsPrice_rat : previewBsPrice (ofGreeks N) F K T sigma right = Greeks.previewBsPrice N F K T sigma right := rfl

theorem bsDelta_rat : bsDelta (ofGreeks N) F K T sigma right = Greeks.bsDelta N F K T sigma right := rfl

theorem bsGamma_rat : bsGamma (ofGreeks N) F K T sigma = Greeks.bsGamma N F K T sigma := rfl

theorem bsVega_rat : bsVega (ofGreeks N) F K T sigma = Greeks.bsVega N F K T sigma := rfl

theorem bsTheta_rat : bsTheta (ofGreeks N) F K T sigma = Greeks.bsTheta N F K T sigma := rfl

theorem bsVanna_rat : bsVanna (ofGreeks N) F K T sigma = Greeks.bsVanna N F K T sigma := rfl

theorem bsVolga_rat : bsVolga (ofGreeks N) F K T sigma = Greeks.bsVolga N F K T sigma := rfl

end Rationals

/-- The functions of `math` and `scipy.stats.norm` -/
noncomputable def standard : Numerics ℝ where
  exp := Real.exp
  log := Real.log
  sqrt := Real.sqrt
  erf x := 2 * BlackFormula.distribution (x * √2) - 1
  pi := Real.pi
  normCdf := BlackFormula.distribution
  normPdf := BlackFormula.density
  normCdf_eq x := by
    rw [div_mul_cancel₀ x (by positivity : √2 ≠ 0)]
    ring
  normPdf_eq := BlackFormula.density_eq

/-- What an option is worth on its exercise; nothing where it is not priced -/
def intrinsic (F K : 𝕜) (right : ContractType) : 𝕜 :=
  if F ≤ 0 ∨ K ≤ 0 then 0 else max 0 (if right = .call then F - K else K - F)

section Standard
variable {F K T sigma : ℝ} {right : ContractType}

theorem bsD1_standard (hT : 0 < T) (hsigma : 0 < sigma) :
    bsD1 standard F K T sigma = BlackFormula.d1 F K (sigma * √T) := by
  have hs : 0 < √T := Real.sqrt_pos.mpr hT
  have hT' : T = √T * √T := (Real.mul_self_sqrt hT.le).symm
  have hhalf : 1 / 2 * (sigma * sigma) * T / (sigma * √T) = sigma * √T / 2 := by
    rw [div_eq_iff (by positivity)]
    calc 1 / 2 * (sigma * sigma) * T = 1 / 2 * (sigma * sigma) * (√T * √T) := by rw [← hT']
      _ = sigma * √T / 2 * (sigma * √T) := by ring
  change (Real.log (F / K) + 1 / 2 * (sigma * sigma) * T) / (sigma * √T) = _
  rw [add_div, hhalf, BlackFormula.d1]

theorem bsD2_standard (hT : 0 < T) (hsigma : 0 < sigma) :
    bsD2 standard F K T sigma = BlackFormula.d2 F K (sigma * √T) := by
  change bsD1 standard F K T sigma - sigma * √T = _
  rw [bsD1_standard hT hsigma, BlackFormula.d1, BlackFormula.d2]
  ring

/-- Both prices are values of the Black formula. -/
theorem bsPrice_standard (hF : 0 < F) (hK : 0 < K) (hT : 0 < T) (hsigma : 0 < sigma) : bsPrice standard F K T sigma right =
    if right = .call then BlackFormula.call F K (sigma * √T) else BlackFormula.put F K (sigma * √T) := by
  have hregular : ¬ Degenerate F K T sigma := by
    simp only [Degenerate, not_or, not_le]
    exact ⟨hsigma, hT, hF, hK⟩
  rw [bsPrice, if_neg hregular, bsD1_standard hT hsigma, bsD2_standard hT hsigma]
  rfl

theorem bsPrice_degenerate (N : Numerics 𝕜) {F K T sigma : 𝕜} (h : Degenerate F K T sigma) :
    bsPrice N F K T sigma right = 0 := if_pos h

section Volatility
variable (F K) (hT : 0 < T)
include hT

/-- A price does not fall with the volatility. -/
theorem bsPrice_monotoneOn (right : ContractType) : MonotoneOn (fun sigma => bsPrice standard F K T sigma right) (Set.Ioi 0) := by
  intro sigma hsigma sigma' hsigma' hle
  rw [Set.mem_Ioi] at hsigma hsigma'
  dsimp only
  by_cases hFK : F ≤ 0 ∨ K ≤ 0
  · rw [bsPrice_degenerate standard (.inr (.inr hFK)), bsPrice_degenerate standard (.inr (.inr hFK))]
  · rw [not_or, not_le, not_le] at hFK
    have hs : 0 < √T := Real.sqrt_pos.mpr hT
    have hmono : sigma * √T ≤ sigma' * √T := mul_le_mul_of_nonneg_right hle hs.le
    rw [bsPrice_standard hFK.1 hFK.2 hT hsigma, bsPrice_standard hFK.1 hFK.2 hT hsigma']
    by_cases hcall : right = .call
    · rw [if_pos hcall, if_pos hcall]
      exact (BlackFormula.call_strictMonoOn hFK.1 hFK.2).monotoneOn (mul_pos hsigma hs) (mul_pos hsigma' hs) hmono
    · rw [if_neg hcall, if_neg hcall]
      exact (BlackFormula.put_strictMonoOn hFK.1 hFK.2).monotoneOn (mul_pos hsigma hs) (mul_pos hsigma' hs) hmono

/-- With the volatility the price goes to the intrinsic value. -/
theorem tendsto_bsPrice (right : ContractType) :
    Filter.Tendsto (fun sigma => bsPrice standard F K T sigma right) (nhdsWithin 0 (Set.Ioi 0))
      (nhds (intrinsic F K right)) := by
  by_cases hFK : F ≤ 0 ∨ K ≤ 0
  · rw [intrinsic, if_pos hFK]
    exact tendsto_const_nhds.congr fun sigma => (bsPrice_degenerate standard (.inr (.inr hFK))).symm
  · rw [intrinsic, if_neg hFK]
    rw [not_or, not_le, not_le] at hFK
    have hs : 0 < √T := Real.sqrt_pos.mpr hT
    have hscale : Filter.Tendsto (fun sigma => sigma * √T) (nhdsWithin 0 (Set.Ioi 0)) (nhdsWithin 0 (Set.Ioi 0)) := by
      refine tendsto_nhdsWithin_iff.mpr ⟨?_, ?_⟩
      · have h : Filter.Tendsto (fun sigma => sigma * √T) (nhds 0) (nhds (0 * √T)) := Filter.tendsto_id.mul_const _
        rw [zero_mul] at h
        exact h.mono_left nhdsWithin_le_nhds
      · exact eventually_nhdsWithin_of_forall fun sigma hsigma => mul_pos hsigma hs
    have heq : ∀ᶠ sigma in nhdsWithin 0 (Set.Ioi 0), (if right = .call then BlackFormula.call F K (sigma * √T)
        else BlackFormula.put F K (sigma * √T)) = bsPrice standard F K T sigma right :=
      eventually_nhdsWithin_of_forall fun sigma hsigma => (bsPrice_standard hFK.1 hFK.2 hT hsigma).symm
    refine Filter.Tendsto.congr' heq ?_
    by_cases hcall : right = .call
    · simp only [hcall, if_true]
      exact (BlackFormula.tendsto_call hFK.1 hFK.2).comp hscale
    · simp only [hcall, if_false]
      exact (BlackFormula.tendsto_put hFK.1 hFK.2).comp hscale

theorem continuousAt_bsPrice (right : ContractType) (hsigma : 0 < sigma) :
    ContinuousAt (fun sigma => bsPrice standard F K T sigma right) sigma := by
  by_cases hFK : F ≤ 0 ∨ K ≤ 0
  · have hzero : (fun sigma => bsPrice standard F K T sigma right) = fun _ => 0 :=
      funext fun sigma => bsPrice_degenerate standard (.inr (.inr hFK))
    rw [hzero]
    exact continuousAt_const
  · rw [not_or, not_le, not_le] at hFK
    have hs : 0 < sigma * √T := mul_pos hsigma (Real.sqrt_pos.mpr hT)
    have hscale : ContinuousAt (fun sigma => sigma * √T) sigma := continuousAt_id.mul continuousAt_const
    have heq : ∀ᶠ sigma in nhds sigma, (if right = .call then BlackFormula.call F K (sigma * √T)
        else BlackFormula.put F K (sigma * √T)) = bsPrice standard F K T sigma right :=
      (eventually_gt_nhds hsigma).mono fun sigma hsigma => (bsPrice_standard hFK.1 hFK.2 hT hsigma).symm
    refine ContinuousAt.congr ?_ heq
    by_cases hcall : right = .call
    · simp only [hcall, if_true]
      exact ContinuousAt.comp (f := fun sigma => sigma * √T) (BlackFormula.continuousAt_call hFK.1 hFK.2 hs) hscale
    · simp only [hcall, if_false]
      exact ContinuousAt.comp (f := fun sigma => sigma * √T) (BlackFormula.continuousAt_put hFK.1 hFK.2 hs) hscale

end Volatility

end Standard

end FxVol.Pricers
