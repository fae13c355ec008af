import FxVol.DecimalRounding
import FxVol.Numerals
import FxVol.SurfaceProfile
import Mathlib.Analysis.SpecialFunctions.Pow.Real

/-!
# The SSVI surface

`core.vol.ssvi` over the reals: the total variance of the power-law surface, and the fit of its three parameters.  The
fit flags parameters outside `2 * gamma ≥ 1 - rho ^ 2`; no parameters within its bounds admit calendar arbitrage.
-/
namespace FxVol.SsviSurface

open scoped Numerals

noncomputable def eps : ℝ := 1 / 10 ^ 10

noncomputable def phi (theta eta gamma : ℝ) : ℝ := eta * max theta eps ^ (-gamma)

noncomputable def ssviTotalVariance (k theta eta gamma rho : ℝ) : ℝ :=
  let phi := phi theta eta gamma
  let arg := phi * k + rho
  theta / 2 * (1 + rho * phi * k + √(arg * arg + (1 - rho * rho)))

section PowerLaw
variable {eta gamma rho : ℝ}

theorem eps_pos : 0 < eps := by
  rw [eps]
  positivity

theorem clamped_pos (theta : ℝ) : 0 < max theta eps := lt_max_of_lt_right eps_pos

/-- Below the clamp the ratio rises with `theta`, from there on it is one. -/
theorem clampRatio_mono {a b : ℝ} (ha : 0 ≤ a) (hab : a ≤ b) : a / max a eps ≤ b / max b eps := by
  have heps := eps_pos
  rw [div_le_div_iff₀ (clamped_pos a) (clamped_pos b)]
  rcases le_total b eps with hb | hb
  · rw [max_eq_right hb, max_eq_right (hab.trans hb)]
    exact mul_le_mul_of_nonneg_right hab heps.le
  · rw [max_eq_left hb, mul_comm]
    exact mul_le_mul_of_nonneg_left (le_max_left a eps) (ha.trans hab)

theorem theta_mul_phi (theta : ℝ) :
    theta * phi theta eta gamma = eta * (theta / max theta eps * max theta eps ^ (1 - gamma)) := by
  have hpow : max theta eps ^ (1 - gamma) = max theta eps * max theta eps ^ (-gamma) := by
    rw [sub_eq_add_neg, Real.rpow_add (clamped_pos theta), Real.rpow_one]
  rw [phi, hpow, ← mul_assoc (theta / _), div_mul_cancel₀ _ (clamped_pos theta).ne']
  ring

/-- The clamp included, the power law falls and its product with `theta` rises. -/
theorem phi_scaling (heta : 0 < eta) (hgamma : 0 ≤ gamma) (hgamma' : gamma ≤ 1) :
    SurfaceProfile.Scaling fun theta => phi theta eta gamma where
  pos theta _ := mul_pos heta (Real.rpow_pos_of_pos (clamped_pos theta) _)
  antitone a _ b _ hab := mul_le_mul_of_nonneg_left
    (Real.rpow_le_rpow_of_nonpos (clamped_pos a) (max_le_max_right eps hab) (neg_nonpos.mpr hgamma)) heta.le
  monotone_mul a ha b hb hab := by
    have hpow : max a eps ^ (1 - gamma) ≤ max b eps ^ (1 - gamma) :=
      Real.rpow_le_rpow (clamped_pos a).le (max_le_max_right eps hab) (sub_nonneg.mpr hgamma')
    have hratio : 0 ≤ b / max b eps := div_nonneg hb (clamped_pos b).le
    dsimp only
    rw [theta_mul_phi, theta_mul_phi]
    exact mul_le_mul_of_nonneg_left (mul_le_mul (clampRatio_mono ha hab) hpow
      (Real.rpow_nonneg (clamped_pos a).le _) hratio) heta.le

theorem ssviTotalVariance_eq (k theta : ℝ) :
    ssviTotalVariance k theta eta gamma rho = SurfaceProfile.variance (fun theta => phi theta eta gamma) rho k theta := by
  simp only [ssviTotalVariance, SurfaceProfile.variance, SurfaceProfile.profile, mul_assoc]

/-- Total variances are positive and their slices do not cross. -/
def CalendarFree (eta gamma rho : ℝ) : Prop :=
  ∀ k, (∀ theta, 0 < theta → 0 < ssviTotalVariance k theta eta gamma rho) ∧
    MonotoneOn (fun theta => ssviTotalVariance k theta eta gamma rho) (Set.Ici 0)

theorem calendarFree (heta : 0 < eta) (hgamma : 0 ≤ gamma) (hgamma' : gamma ≤ 1) (hrho : |rho| < 1) :
    CalendarFree eta gamma rho := by
  intro k
  have hslices := SurfaceProfile.variance_monotoneOn (phi_scaling heta hgamma hgamma') hrho k
  simp only [ssviTotalVariance_eq]
  exact ⟨fun theta htheta => SurfaceProfile.variance_pos hrho k htheta, hslices⟩

end PowerLaw

/-- The SSVI surface has no calendar arbitrage within the bounds of the fit. -/
theorem ssvi_no_calendar_arbitrage (k eta gamma rho : ℝ) (heta : 0 < eta) (hgamma : gamma ∈ Set.Icc (5 / 100) (95 / 100))
    (hrho : |rho| < 1) :
    (∀ theta, 0 < theta → 0 < ssviTotalVariance k theta eta gamma rho) ∧
      ∀ theta theta', 0 ≤ theta → theta ≤ theta' →
        ssviTotalVariance k theta eta gamma rho ≤ ssviTotalVariance k theta' eta gamma rho := by
  obtain ⟨hlo, hhi⟩ := hgamma
  obtain ⟨hpos, hmono⟩ := calendarFree heta (by linarith) (by linarith) hrho k
  exact ⟨hpos, fun theta theta' h hle => hmono h (h.trans hle) hle⟩

/-- The initial guess of the fit, `2 * gamma < 1 - rho ^ 2` -/
theorem ssvi_no_calendar_arbitrage_guess :
    (∀ theta, 0 < theta → 0 < ssviTotalVariance (1 / 10) theta 1 (3 / 10) (-(2 / 10))) ∧
      ∀ theta theta', 0 ≤ theta → theta ≤ theta' →
        ssviTotalVariance (1 / 10) theta 1 (3 / 10) (-(2 / 10)) ≤ ssviTotalVariance (1 / 10) theta' 1 (3 / 10) (-(2 / 10)) :=
  ssvi_no_calendar_arbitrage (1 / 10) 1 (3 / 10) (-(2 / 10)) one_pos ⟨by norm_num, by norm_num⟩ (by norm_num [abs_lt])

structure Params where
  eta : ℝ
  gamma : ℝ
  rho : ℝ

/-- What `scipy.optimize.least_squares` returns -/
structure OptimizeResult where
  x : Params
  residuals : List ℝ
  success : Bool

/-- `least_squares` from a start within bounds; `none` where it raises -/
def LeastSquares := (Params → List ℝ) → Params → Params → Params → Option OptimizeResult

structure Within (lo hi x : Params) : Prop where
  eta : lo.eta ≤ x.eta ∧ x.eta ≤ hi.eta
  gamma : lo.gamma ≤ x.gamma ∧ x.gamma ≤ hi.gamma
  rho : lo.rho ≤ x.rho ∧ x.rho ≤ hi.rho

/-- A minimizer with bounds stays within them. -/
def LeastSquares.Bounded (leastSquares : LeastSquares) : Prop :=
  ∀ residuals x0 lo hi result, leastSquares residuals x0 lo hi = some result → Within lo hi result.x

structure Observation where
  tenorYears : ℝ
  strike : ℝ
  iv : ℝ

structure Fit where
  eta : ℝ
  gamma : ℝ
  rho : ℝ
  rmseFit : ℝ
  calendarArbFree : Bool

noncomputable def x0 : Params := ⟨1, 3 / 10, -(2 / 10)⟩

noncomputable def lo : Params := ⟨1 / 10 ^ 3, 5 / 100, -(999 / 1000)⟩

noncomputable def hi : Params := ⟨10, 95 / 100, 999 / 1000⟩

open Classical in
noncomputable def fitSsvi (leastSquares : LeastSquares) (observations : List Observation) (forward : ℝ)
    (atmIvByTenorYears : List (ℝ × ℝ)) : Option Fit :=
  if observations.length < 5 ∨ atmIvByTenorYears = [] then none
  else
    let kept := observations.filter fun o => decide (0 < o.strike ∧ 0 < o.iv)
    if kept.length < 5 then none
    else
      let theta (o : Observation) : ℝ :=
        (((atmIvByTenorYears.find? fun p => decide (p.1 = o.tenorYears)).map Prod.snd).getD o.iv) ^ 2 * o.tenorYears
      let residuals (x : Params) : List ℝ := kept.map fun o =>
        ssviTotalVariance (Real.log (o.strike / forward)) (theta o) x.eta x.gamma x.rho - o.iv * o.iv * o.tenorYears
      match leastSquares residuals x0 lo hi with
      | none => none
      | some result =>
        if result.success = false then none
        else some {
          eta := DecimalRounding.roundTo result.x.eta 6
          gamma := DecimalRounding.roundTo result.x.gamma 6
          rho := DecimalRounding.roundTo result.x.rho 6
          rmseFit := DecimalRounding.roundTo
            (√((result.residuals.map fun r => r ^ 2).sum / result.residuals.length)) 6
          calendarArbFree := decide (1 - result.x.rho * result.x.rho - 1 / 10 ^ 6 ≤ 2 * result.x.gamma) }

section Fits
variable {leastSquares : LeastSquares}

theorem fitSsvi_cases {observations : List Observation} {forward : ℝ} {atms : List (ℝ × ℝ)} {fit : Fit}
    (h : fitSsvi leastSquares observations forward atms = some fit) :
    ∃ residuals result, leastSquares residuals x0 lo hi = some result ∧ fit.eta = DecimalRounding.roundTo result.x.eta 6 ∧
      fit.gamma = DecimalRounding.roundTo result.x.gamma 6 ∧ fit.rho = DecimalRounding.roundTo result.x.rho 6 := by
  simp only [fitSsvi] at h
  split at h
  · cases h
  split at h
  · cases h
  split at h
  · cases h
  next result hresult =>
    split at h
    · cases h
    · cases h
      exact ⟨_, result, hresult, rfl, rfl, rfl⟩

/-- The bounds have no more than six decimals, so rounding keeps within them. -/
theorem within_round {x : Params} (h : Within lo hi x) : Within lo hi
    ⟨DecimalRounding.roundTo x.eta 6, DecimalRounding.roundTo x.gamma 6, DecimalRounding.roundTo x.rho 6⟩ := by
  have key (n m : ℤ) (a b y : ℝ) (ha : a = n / 10 ^ 6) (hb : b = m / 10 ^ 6) (hy : a ≤ y ∧ y ≤ b) :
      a ≤ DecimalRounding.roundTo y 6 ∧ DecimalRounding.roundTo y 6 ≤ b := by
    subst ha hb
    exact ⟨DecimalRounding.le_roundTo hy.1, DecimalRounding.roundTo_le hy.2⟩
  exact ⟨key 1000 10000000 _ _ _ (by norm_num [lo]) (by norm_num [hi]) h.eta,
    key 50000 950000 _ _ _ (by norm_num [lo]) (by norm_num [hi]) h.gamma,
    key (-999000) 999000 _ _ _ (by norm_num [lo]) (by norm_num [hi]) h.rho⟩

/-- Every fit is free of calendar arbitrage, also where its flag says otherwise. -/
theorem fitSsvi_calendarFree (hbounded : leastSquares.Bounded) {observations : List Observation} {forward : ℝ}
    {atms : List (ℝ × ℝ)} {fit : Fit} (h : fitSsvi leastSquares observations forward atms = some fit) :
    CalendarFree fit.eta fit.gamma fit.rho := by
  obtain ⟨residuals, result, hresult, heta, hgamma, hrho⟩ := fitSsvi_cases h
  have hwithin := within_round (hbounded _ _ _ _ _ hresult)
  rw [← heta, ← hgamma, ← hrho] at hwithin
  have heta' := hwithin.eta.1
  obtain ⟨hglo, hghi⟩ := hwithin.gamma
  obtain ⟨hrlo, hrhi⟩ := hwithin.rho
  simp only [lo, hi] at heta' hglo hghi hrlo hrhi
  refine calendarFree (lt_of_lt_of_le (by norm_num) heta') (by linarith) (by linarith) ?_
  rw [abs_lt]
  constructor <;> linarith

end Fits

end FxVol.SsviSurface
