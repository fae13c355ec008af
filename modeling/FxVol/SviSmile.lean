import FxVol.HyperbolaArm
import FxVol.Numerals
import Mathlib.Analysis.Calculus.Deriv.MeanValue
import Mathlib.Analysis.Convex.Deriv
import Mathlib.Analysis.SpecialFunctions.Log.Basic

/-!
# The SVI smile

`core.vol.svi` over the reals: the total variance of one tenor, the fit of its five parameters and the butterfly check.
Within the bounds of the fit the variance is a convex hyperbola above zero, and the check is made with its derivatives.
-/
namespace FxVol.SviSmile

open scoped Numerals
open HyperbolaArm

noncomputable def eps : ℝ := 1 / 10 ^ 10

structure SviParams where
  a : ℝ
  b : ℝ
  rho : ℝ
  m : ℝ
  sigma : ℝ

noncomputable def totalVariance (params : SviParams) (k : ℝ) : ℝ :=
  let diff := k - params.m
  params.a + params.b * (params.rho * diff + √(diff * diff + params.sigma * params.sigma))

noncomputable def sviIv (params : SviParams) (tenorYears k : ℝ) : ℝ :=
  √(max (totalVariance params k) eps / max tenorYears eps)

/-- What `scipy.optimize.least_squares` returns -/
structure OptimizeResult where
  x : SviParams
  success : Bool

/-- `least_squares` from a start within bounds; `none` where it raises -/
def LeastSquares := (SviParams → List ℝ) → SviParams → SviParams → SviParams → Option OptimizeResult

structure Within (lo hi x : SviParams) : Prop where
  a : lo.a ≤ x.a ∧ x.a ≤ hi.a
  b : lo.b ≤ x.b ∧ x.b ≤ hi.b
  rho : lo.rho ≤ x.rho ∧ x.rho ≤ hi.rho
  m : lo.m ≤ x.m ∧ x.m ≤ hi.m
  sigma : lo.sigma ≤ x.sigma ∧ x.sigma ≤ hi.sigma

/-- A minimizer with bounds stays within them. -/
def LeastSquares.Bounded (leastSquares : LeastSquares) : Prop :=
  ∀ residuals x0 lo hi result, leastSquares residuals x0 lo hi = some result → Within lo hi result.x

noncomputable def lo : SviParams := ⟨0, 0, -(999 / 1000), -1, 1 / 10 ^ 3⟩

noncomputable def hi (wObs : List ℝ) : SviParams := ⟨wObs.max?.getD 0 * 2 + 1 / 10 ^ 3, 1, 999 / 1000, 1, 2⟩

noncomputable def x0 (wObs : List ℝ) : SviParams := ⟨wObs.min?.getD 0 * (9 / 10), 4 / 100, -(2 / 10), 0, 1 / 10⟩

open Classical in
/-- `fit_svi`, the observations as pairs of a strike and a vol -/
noncomputable def fitSvi (leastSquares : LeastSquares) (observations : List (ℝ × ℝ)) (forward tenorYears : ℝ) :
    Option SviParams :=
  let kept := observations.filter fun (strike, iv) => decide (0 < strike ∧ 0 < iv)
  if kept.length < 3 then none
  else
    let T := max tenorYears eps
    let wObs := kept.map fun (_, iv) => iv * iv * T
    let residuals (p : SviParams) : List ℝ := kept.map fun (strike, iv) =>
      totalVariance p (Real.log (strike / forward)) - iv * iv * T
    match leastSquares residuals (x0 wObs) lo (hi wObs) with
    | none => none
    | some result => if result.success then some result.x else none

/-- Parameters within the bounds of a fit to the total variances `wObs` -/
structure FittedParams (wObs : List ℝ) extends SviParams where
  within : Within lo (hi wObs) toSviParams

noncomputable def FittedParams.start {wObs : List ℝ} (hobs : ∀ w ∈ wObs, 0 < w) : FittedParams wObs where
  toSviParams := x0 wObs
  within := by
    refine ⟨?_, ?_, ?_, ?_, ?_⟩
    · simp only [lo, hi, x0]
      cases hmin : wObs.min? with
      | none =>
        rw [List.min?_eq_none_iff.mp hmin]
        norm_num
      | some least =>
        cases hmax : wObs.max? with
        | none => simp [List.max?_eq_none_iff.mp hmax] at hmin
        | some greatest =>
          have hleast := List.min?_eq_some_iff.mp hmin
          have hle := hleast.2 greatest (List.max?_mem hmax)
          have hpos := hobs least hleast.1
          rw [Option.getD_some, Option.getD_some]
          constructor <;> linarith
    all_goals norm_num [lo, hi, x0]

theorem fitSvi_fitted {leastSquares : LeastSquares} (hbounded : leastSquares.Bounded) {observations : List (ℝ × ℝ)}
    {forward tenorYears : ℝ} {params : SviParams} (h : fitSvi leastSquares observations forward tenorYears = some params) :
    ∃ wObs, ∃ fitted : FittedParams wObs, fitted.toSviParams = params := by
  simp only [fitSvi] at h
  split at h
  · cases h
  split at h
  · cases h
  next result hresult =>
    split at h
    · cases h
      exact ⟨_, ⟨result.x, hbounded _ _ _ _ _ hresult⟩, rfl⟩
    · cases h

noncomputable def wP (params : SviParams) (k : ℝ) : ℝ :=
  let diff := k - params.m
  let sq := √(diff * diff + params.sigma * params.sigma)
  params.b * (params.rho + diff / sq)

noncomputable def wPp (params : SviParams) (k : ℝ) : ℝ :=
  let diff := k - params.m
  let sq := √(diff * diff + params.sigma * params.sigma)
  params.b * (params.sigma * params.sigma) / sq ^ 3

/-- `g` at one point of the grid -/
noncomputable def g (params : SviParams) (k : ℝ) : ℝ :=
  let w := max (totalVariance params k) eps
  let term1 := (1 - k * wP params k / (2 * w)) ^ 2
  let term2 := wP params k ^ 2 / 4 * (1 / w + 25 / 100)
  let term3 := wPp params k / 2
  term1 - term2 + term3

noncomputable def linspace (kMin kMax : ℝ) (n : ℕ) : List ℝ :=
  (List.range n).map fun i => kMin + i * ((kMax - kMin) / (n - 1 : ℕ))

/-- `butterfly_g_min`, `none` where `np.min` raises on an empty grid -/
noncomputable def butterflyGMin (params : SviParams) (kMin kMax : ℝ) (nGrid : ℕ) : Option ℝ :=
  ((linspace kMin kMax nGrid).map (g params)).min?

/-- Gatheral's density function of a smile of total variance `w` -/
noncomputable def gatheral (w : ℝ → ℝ) (k : ℝ) : ℝ :=
  (1 - k * deriv w k / (2 * w k)) ^ 2 - deriv w k ^ 2 / 4 * (1 / w k + 1 / 4) + deriv (deriv w) k / 2

section Derivatives
variable (params : SviParams)

theorem totalVariance_eq : totalVariance params =
    fun k => params.a + params.b * (params.rho * (k - params.m) + arm params.sigma (k - params.m)) := rfl

theorem wP_eq : wP params =
    fun k => params.b * (params.rho + (k - params.m) / arm params.sigma (k - params.m)) := rfl

variable {params} (hsigma : 0 < params.sigma)
include hsigma

theorem hasDerivAt_totalVariance (k : ℝ) : HasDerivAt (totalVariance params) (wP params k) k := by
  have hdiff : HasDerivAt (fun k => k - params.m) 1 k := (hasDerivAt_id' k).sub_const params.m
  have harm := (hasDerivAt_arm hsigma (k - params.m)).comp k hdiff
  have hsum : HasDerivAt (fun k => params.rho * (k - params.m) + arm params.sigma (k - params.m))
      (params.rho * 1 + (k - params.m) / arm params.sigma (k - params.m) * 1) k := (hdiff.const_mul params.rho).add harm
  rw [totalVariance_eq]
  refine ((hsum.const_mul params.b).const_add params.a).congr_deriv ?_
  rw [wP_eq, mul_one, mul_one]

theorem hasDerivAt_wP (k : ℝ) : HasDerivAt (wP params) (wPp params k) k := by
  have hdiff : HasDerivAt (fun k => k - params.m) 1 k := (hasDerivAt_id' k).sub_const params.m
  have hslope := (hasDerivAt_slope hsigma (k - params.m)).comp k hdiff
  rw [wP_eq]
  refine ((hslope.const_add params.rho).const_mul params.b).congr_deriv ?_
  rw [mul_one, ← mul_div_assoc, wPp, ← arm]

theorem deriv_totalVariance : deriv (totalVariance params) = wP params :=
  funext fun k => (hasDerivAt_totalVariance hsigma k).deriv

theorem deriv_wP : deriv (wP params) = wPp params := funext fun k => (hasDerivAt_wP hsigma k).deriv

/-- Off the clamp the check is made with Gatheral's function. -/
theorem g_eq_gatheral {k : ℝ} (hk : eps ≤ totalVariance params k) : g params k = gatheral (totalVariance params) k := by
  rw [g, gatheral, deriv_totalVariance hsigma, deriv_wP hsigma, max_eq_left hk]
  norm_num

omit hsigma in
/-- The function depends on the smile near `k` only. -/
theorem gatheral_congr {w w' : ℝ → ℝ} {k : ℝ} (h : w =ᶠ[nhds k] w') : gatheral w k = gatheral w' k := by
  rw [gatheral, gatheral, h.deriv.deriv_eq, h.deriv_eq, h.eq_of_nhds]

omit hsigma in
/-- The total variance that `svi_iv` prices is the one before the clamps. -/
theorem sviIv_sq_mul {T k : ℝ} (hT : eps ≤ T) (hk : eps ≤ totalVariance params k) :
    sviIv params T k ^ 2 * T = totalVariance params k := by
  have heps : 0 < eps := by rw [eps]; positivity
  have hTpos := heps.trans_le hT
  rw [sviIv, max_eq_left hk, max_eq_left hT, Real.sq_sqrt (div_nonneg (heps.le.trans hk) hTpos.le),
    div_mul_cancel₀ _ hTpos.ne']

theorem g_eq_gatheral_sviIv {T k : ℝ} (hT : eps ≤ T) (hk : eps < totalVariance params k) :
    g params k = gatheral (fun k => sviIv params T k ^ 2 * T) k := by
  have hnear : ∀ᶠ x in nhds k, eps < totalVariance params x :=
    (hasDerivAt_totalVariance hsigma k).continuousAt.eventually (lt_mem_nhds hk)
  have hsame : (fun k => sviIv params T k ^ 2 * T) =ᶠ[nhds k] totalVariance params :=
    hnear.mono fun x hx => sviIv_sq_mul hT hx.le
  rw [gatheral_congr hsame, g_eq_gatheral hsigma hk.le]

end Derivatives

section Shape
variable {params : SviParams} (hb : 0 ≤ params.b) (hsigma : 0 < params.sigma)

/-- Lowest total variance of a smile -/
noncomputable def lowest (params : SviParams) : ℝ := params.a + params.b * params.sigma * √(1 - params.rho ^ 2)

include hb in
theorem lowest_le (hrho : params.rho ^ 2 ≤ 1) (k : ℝ) : lowest params ≤ totalVariance params k := by
  have htilted := mul_le_mul_of_nonneg_left (le_tilted (s := params.sigma) hrho (k - params.m)) hb
  rw [totalVariance_eq, lowest, mul_assoc]
  linarith

include hsigma in
theorem lowest_attained (hrho : params.rho ^ 2 < 1) :
    totalVariance params (params.m + vertex params.rho params.sigma) = lowest params := by
  rw [totalVariance_eq, lowest, mul_assoc, ← tilted_vertex hrho hsigma]
  dsimp only
  rw [add_sub_cancel_left]

include hb hsigma in
theorem wP_mem (k : ℝ) : wP params k ∈ Set.Icc (params.b * (params.rho - 1)) (params.b * (params.rho + 1)) := by
  obtain ⟨hlow, hhigh⟩ := abs_le.mp (abs_slope_le hsigma (k - params.m))
  rw [wP_eq]
  exact ⟨mul_le_mul_of_nonneg_left (by linarith) hb, mul_le_mul_of_nonneg_left (by linarith) hb⟩

include hb hsigma in
theorem wPp_nonneg (k : ℝ) : 0 ≤ wPp params k := by
  have harm := arm_pos hsigma (k - params.m)
  rw [wPp, ← arm]
  positivity

include hb hsigma in
theorem totalVariance_convex : ConvexOn ℝ Set.univ (totalVariance params) := by
  refine convexOn_univ_of_deriv2_nonneg (fun k => (hasDerivAt_totalVariance hsigma k).differentiableAt) ?_ fun k => ?_
  · rw [deriv_totalVariance hsigma]
    exact fun k => (hasDerivAt_wP hsigma k).differentiableAt
  · rw [Function.iterate_succ_apply, Function.iterate_one, deriv_totalVariance hsigma, deriv_wP hsigma]
    exact wPp_nonneg hb hsigma k

include hb hsigma in
theorem chord_mem {x y : ℝ} (hxy : x < y) : (totalVariance params y - totalVariance params x) / (y - x) ∈
    Set.Icc (params.b * (params.rho - 1)) (params.b * (params.rho + 1)) := by
  have hdifferentiable : Differentiable ℝ (totalVariance params) :=
    fun k => (hasDerivAt_totalVariance hsigma k).differentiableAt
  have hslope (k : ℝ) := wP_mem hb hsigma k
  rw [← deriv_totalVariance hsigma] at hslope
  constructor
  · rw [le_div_iff₀ (sub_pos.mpr hxy)]
    exact mul_sub_le_image_sub_of_le_deriv hdifferentiable (fun k => (hslope k).1) hxy.le
  · rw [div_le_iff₀ (sub_pos.mpr hxy)]
    exact image_sub_le_mul_sub_of_deriv_le hdifferentiable (fun k => (hslope k).2) hxy.le

end Shape

/-- A smile of total variance `w` over `low`, between wings of slope `b` -/
structure WellDefined (w : ℝ → ℝ) (low b rho : ℝ) : Prop where
  low_nonneg : 0 ≤ low
  low_le : ∀ k, low ≤ w k
  attained : ∃ k, w k = low
  convex : ConvexOn ℝ Set.univ w
  slope : ∀ k, deriv w k ∈ Set.Icc (b * (rho - 1)) (b * (rho + 1))
  chord : ∀ x y, x < y → (w y - w x) / (y - x) ∈ Set.Icc (b * (rho - 1)) (b * (rho + 1))

/-- The check of a smile is made with its derivatives. -/
structure TrueCheck (params : SviParams) : Prop where
  first : ∀ k, HasDerivAt (totalVariance params) (wP params k) k
  second : ∀ k, HasDerivAt (deriv (totalVariance params)) (wPp params k) k
  variance : ∀ k, eps ≤ totalVariance params k → g params k = gatheral (totalVariance params) k
  priced : ∀ T k, eps ≤ T → eps < totalVariance params k → g params k = gatheral (fun k => sviIv params T k ^ 2 * T) k
  min : ∀ kMin kMax nGrid, (∀ k ∈ linspace kMin kMax nGrid, eps ≤ totalVariance params k) →
    butterflyGMin params kMin kMax nGrid = ((linspace kMin kMax nGrid).map (gatheral (totalVariance params))).min?

namespace FittedParams
variable {wObs : List ℝ} (params : FittedParams wObs)

theorem a_nonneg : 0 ≤ params.a := params.within.a.1

theorem b_nonneg : 0 ≤ params.b := params.within.b.1

theorem sigma_pos : 0 < params.sigma := by
  have hlow := params.within.sigma.1
  rw [lo] at hlow
  exact lt_of_lt_of_le (by norm_num) hlow

theorem rho_sq_lt : params.rho ^ 2 < 1 := by
  obtain ⟨hlow, hhigh⟩ := params.within.rho
  simp only [lo, hi] at hlow hhigh
  rw [sq_lt_one_iff_abs_lt_one, abs_lt]
  constructor <;> linarith

theorem lowest_nonneg : 0 ≤ lowest params.toSviParams :=
  add_nonneg params.a_nonneg (mul_nonneg (mul_nonneg params.b_nonneg params.sigma_pos.le) (Real.sqrt_nonneg _))

end FittedParams

/-- Every smile within the bounds of the fit is well defined, and its check uses its own derivatives. -/
theorem svi_smile_sound {wObs : List ℝ} (params : FittedParams wObs) :
    WellDefined (totalVariance params.toSviParams)
      (params.a + params.b * params.sigma * √(1 - params.rho ^ 2)) params.b params.rho ∧ TrueCheck params.toSviParams := by
  have hb := params.b_nonneg
  have hsigma := params.sigma_pos
  have hrho := params.rho_sq_lt
  constructor
  · constructor
    · exact params.lowest_nonneg
    · exact lowest_le hb hrho.le
    · exact ⟨_, lowest_attained hsigma hrho⟩
    · exact totalVariance_convex hb hsigma
    · intro k
      rw [deriv_totalVariance hsigma]
      exact wP_mem hb hsigma k
    · exact fun x y => chord_mem hb hsigma
  · constructor
    · exact hasDerivAt_totalVariance hsigma
    · rw [deriv_totalVariance hsigma]
      exact hasDerivAt_wP hsigma
    · exact fun k => g_eq_gatheral hsigma
    · exact fun T k => g_eq_gatheral_sviIv hsigma
    · intro kMin kMax nGrid hgrid
      rw [butterflyGMin, List.map_congr_left fun k hk => g_eq_gatheral hsigma (hgrid k hk)]

noncomputable def threeVariances : FittedParams [1 / 100, 1 / 200, 1 / 50] := .start (by simp)

theorem svi_smile_sound_threeVariances : WellDefined (totalVariance threeVariances.toSviParams)
    (threeVariances.a + threeVariances.b * threeVariances.sigma * √(1 - threeVariances.rho ^ 2)) threeVariances.b
      threeVariances.rho ∧ TrueCheck threeVariances.toSviParams :=
  svi_smile_sound threeVariances

end FxVol.SviSmile
