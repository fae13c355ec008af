import FxVol.AffineRecursion
import FxVol.DecimalRounding
import FxVol.Numerals
import Mathlib.Analysis.SpecialFunctions.Pow.Real

/-!
# The GARCH term structure

`core.vol.garch` over the reals: the variance of a fit to daily returns, projected to each tenor.  The decay is that of
a day and the engine's tenors are in years, so that the projection is the fit's own forecast only from the long-run
variance.
-/
namespace FxVol.GarchTerm

open scoped Numerals
open AffineRecursion DecimalRounding

/-- `fit.params` and the last `fit.conditional_volatility` -/
structure Fit where
  omega : ℝ
  alpha : ℝ
  beta : ℝ
  lastCond : ℝ

namespace Fit
variable (fit : Fit)

noncomputable def persistence : ℝ := min (fit.alpha + fit.beta) (9999 / 10000)

noncomputable def kappa : ℝ := -Real.log fit.persistence

noncomputable def varC : ℝ := (√(fit.lastCond ^ 2 * 252) / 100) ^ 2

noncomputable def varLr : ℝ := (√(fit.omega / (1 - fit.persistence) * 252) / 100) ^ 2

noncomputable def varT (T : ℝ) : ℝ := fit.varLr + (fit.varC - fit.varLr) * Real.exp (-fit.kappa * T)

noncomputable def volGarch (T : ℝ) : ℝ := √(max (fit.varT T) 0) * 100

noncomputable def volEmpirical (rvTenor rvFull : Option ℝ) (empKappa T : ℝ) : ℝ :=
  match rvTenor, rvFull with
  | some rvTenor, some rvFull => rvFull + (rvTenor - rvFull) * Real.exp (-empKappa * T)
  | _, _ => fit.volGarch T

noncomputable def volModel (rvTenor rvFull : Option ℝ) (blend empKappa T : ℝ) : ℝ :=
  blend * fit.volGarch T + (1 - blend) * fit.volEmpirical rvTenor rvFull empKappa T

end Fit

noncomputable def returns (closes : List ℝ) : List ℝ :=
  closes.zipWith (fun x y => (Real.log y - Real.log x) * 100) closes.tail

section Project
variable (archModel : List ℝ → Option Fit) (closes : List ℝ) (tenorT : List (String × ℝ)) (rvMap : List (String × Option ℝ))
  (rvFull : Option ℝ) (blend empKappa : ℝ)

/-- `vol_model` of each tenor -/
noncomputable def projection : List (String × ℝ) :=
  if closes.length < 5 then []
  else
    match archModel (returns closes) with
    | none => []
    | some fit => tenorT.map fun (label, T) =>
        (label, fit.volModel ((rvMap.lookup label).bind id) rvFull blend empKappa T)

noncomputable def fitAndProjectGarch : List (String × ℝ) :=
  (projection archModel closes tenorT rvMap rvFull blend empKappa).map fun (label, volModel) => (label, roundTo volModel 4)

end Project

/-- A fit with a long-run variance -/
structure StationaryFit extends Fit where
  omega_pos : 0 < omega
  alpha_nonneg : 0 ≤ alpha
  beta_nonneg : 0 ≤ beta
  sum_pos : 0 < alpha + beta
  sum_le : alpha + beta ≤ 9999 / 10000
  lastCond_pos : 0 < lastCond

namespace StationaryFit
variable (fit : StationaryFit)

noncomputable def lastVariance : ℝ := fit.lastCond ^ 2

/-- The expected variance of a day from that of the day before -/
noncomputable def nextVariance (x : ℝ) : ℝ := affine fit.omega (fit.alpha + fit.beta) x

noncomputable def longRunVariance : ℝ := fixedPoint fit.omega (fit.alpha + fit.beta)

/-- Square of an annual vol in percent, from the variance of a daily return in percent -/
noncomputable def annualised (x : ℝ) : ℝ := x * 252

/-- A vol `n` trading days ahead is the forecast of the fit itself. -/
structure OwnForecast (n : ℕ) (vol : ℝ) : Prop where
  sq_eq : vol ^ 2 = annualised (fit.nextVariance^[n] fit.lastVariance)
  between : vol ∈ Set.uIcc √(annualised fit.lastVariance) √(annualised fit.longRunVariance)
  rate : vol ^ 2 - annualised fit.longRunVariance =
    (fit.alpha + fit.beta) ^ n * (annualised fit.lastVariance - annualised fit.longRunVariance)

theorem persistence_eq : fit.persistence = fit.alpha + fit.beta := min_eq_left fit.sum_le

theorem sum_lt_one : fit.alpha + fit.beta < 1 := fit.sum_le.trans_lt (by norm_num)

theorem longRunVariance_pos : 0 < fit.longRunVariance := div_pos fit.omega_pos (sub_pos.mpr fit.sum_lt_one)

theorem lastVariance_pos : 0 < fit.lastVariance := pow_pos fit.lastCond_pos 2

theorem varC_eq : fit.varC = annualised fit.lastVariance / 10000 := by
  rw [Fit.varC, div_pow, Real.sq_sqrt (by positivity), annualised, lastVariance]
  norm_num

theorem varLr_eq : fit.varLr = annualised fit.longRunVariance / 10000 := by
  have hpos := fit.longRunVariance_pos
  rw [longRunVariance, fixedPoint] at hpos
  rw [Fit.varLr, persistence_eq, div_pow, Real.sq_sqrt (by positivity), annualised, longRunVariance, fixedPoint]
  norm_num

/-- The decay over `T` is the persistence to the power `T`. -/
theorem decay_eq (T : ℝ) : Real.exp (-fit.kappa * T) = (fit.alpha + fit.beta) ^ T := by
  rw [Fit.kappa, neg_neg, persistence_eq, ← Real.rpow_def_of_pos fit.sum_pos]

theorem varT_eq (T : ℝ) : fit.varT T = (annualised fit.longRunVariance +
    (fit.alpha + fit.beta) ^ T * (annualised fit.lastVariance - annualised fit.longRunVariance)) / 10000 := by
  rw [Fit.varT, varC_eq, varLr_eq, decay_eq]
  ring

/-- What the leg projects lies between the two variances. -/
theorem varT_between {T : ℝ} (hT : 0 ≤ T) :
    fit.varT T * 10000 ∈ Set.uIcc (annualised fit.lastVariance) (annualised fit.longRunVariance) := by
  rw [varT_eq, div_mul_cancel₀ _ (by norm_num)]
  exact add_mul_sub_mem_uIcc (Real.rpow_nonneg fit.sum_pos.le T)
    (Real.rpow_le_one fit.sum_pos.le fit.sum_lt_one.le hT) _ _

theorem varT_pos {T : ℝ} (hT : 0 ≤ T) : 0 < fit.varT T := by
  have hlow := (Set.mem_uIcc.mp (fit.varT_between hT))
  have hlast : 0 < annualised fit.lastVariance := mul_pos fit.lastVariance_pos (by norm_num)
  have hlong : 0 < annualised fit.longRunVariance := mul_pos fit.longRunVariance_pos (by norm_num)
  rcases hlow with h | h
  · linarith [h.1]
  · linarith [h.1]

theorem volGarch_eq {T : ℝ} (hT : 0 ≤ T) : fit.volGarch T = √(fit.varT T * 10000) := by
  have hroot : √(10000 : ℝ) = 100 := by
    rw [show (10000 : ℝ) = 100 ^ 2 by norm_num, Real.sqrt_sq (by norm_num)]
  rw [Fit.volGarch, max_eq_left (fit.varT_pos hT).le, Real.sqrt_mul (fit.varT_pos hT).le, hroot]

theorem volGarch_sq {T : ℝ} (hT : 0 ≤ T) : fit.volGarch T ^ 2 = annualised fit.longRunVariance +
    (fit.alpha + fit.beta) ^ T * (annualised fit.lastVariance - annualised fit.longRunVariance) := by
  have hpos := fit.varT_pos hT
  rw [volGarch_eq fit hT, Real.sq_sqrt (by positivity), varT_eq, div_mul_cancel₀ _ (by norm_num)]

/-- The leg is between the current and the long-run vol at every horizon. -/
theorem volGarch_between {T : ℝ} (hT : 0 ≤ T) :
    fit.volGarch T ∈ Set.uIcc √(annualised fit.lastVariance) √(annualised fit.longRunVariance) := by
  rw [volGarch_eq fit hT]
  rcases Set.mem_uIcc.mp (fit.varT_between hT) with h | h
  · exact Set.mem_uIcc.mpr (Or.inl ⟨Real.sqrt_le_sqrt h.1, Real.sqrt_le_sqrt h.2⟩)
  · exact Set.mem_uIcc.mpr (Or.inr ⟨Real.sqrt_le_sqrt h.1, Real.sqrt_le_sqrt h.2⟩)

theorem forecast_eq (n : ℕ) : annualised (fit.nextVariance^[n] fit.lastVariance) = annualised fit.longRunVariance +
    (fit.alpha + fit.beta) ^ n * (annualised fit.lastVariance - annualised fit.longRunVariance) := by
  have hiterate := iterate_sub_fixedPoint (b := fit.omega) fit.sum_lt_one.ne fit.lastVariance n
  have hnext : fit.nextVariance = affine fit.omega (fit.alpha + fit.beta) := rfl
  rw [hnext, sub_eq_iff_eq_add.mp hiterate, longRunVariance]
  simp only [annualised]
  ring

/-- A leg whose horizon is given in days is the forecast. -/
theorem ownForecast_days (n : ℕ) : fit.OwnForecast n (fit.volGarch n) where
  sq_eq := by rw [volGarch_sq fit n.cast_nonneg, forecast_eq, Real.rpow_natCast]
  between := fit.volGarch_between n.cast_nonneg
  rate := by rw [volGarch_sq fit n.cast_nonneg, Real.rpow_natCast, add_sub_cancel_left]

/-- Over a number of days the decay of as many years is not the daily one. -/
theorem pow_lt_decay {n : ℕ} (hn : 1 ≤ n) : (fit.alpha + fit.beta) ^ n < (fit.alpha + fit.beta) ^ ((n : ℝ) / 252) := by
  have hn' : (1 : ℝ) ≤ n := by exact_mod_cast hn
  rw [← Real.rpow_natCast]
  exact Real.rpow_lt_rpow_of_exponent_gt fit.sum_pos fit.sum_lt_one (by linarith)

/-- A leg whose horizon is given in years is the forecast only where there is nothing to decay. -/
theorem ownForecast_years {n : ℕ} (hn : 1 ≤ n) : fit.OwnForecast n (fit.volGarch (n / 252)) ↔
    fit.lastVariance * (1 - (fit.alpha + fit.beta)) = fit.omega := by
  have hT : (0 : ℝ) ≤ n / 252 := by positivity
  rw [← sub_fixedPoint_eq_zero (b := fit.omega) fit.sum_lt_one.ne]
  constructor
  · intro h
    have hsq := h.sq_eq
    rw [volGarch_sq fit hT, forecast_eq, add_right_inj] at hsq
    have hgap : annualised fit.lastVariance - annualised fit.longRunVariance = 0 := by
      by_contra hne
      exact (fit.pow_lt_decay hn).ne' (mul_right_cancel₀ hne hsq)
    rw [annualised, annualised, longRunVariance] at hgap
    linarith
  · intro h
    have hgap : annualised fit.lastVariance - annualised fit.longRunVariance = 0 := by
      rw [annualised, annualised, longRunVariance]
      linarith
    have hleg := volGarch_sq fit hT
    rw [hgap, mul_zero, add_zero] at hleg
    constructor
    · rw [hleg, forecast_eq, hgap, mul_zero, add_zero]
    · exact fit.volGarch_between hT
    · rw [hleg, hgap, sub_self, mul_zero]

end StationaryFit

section Legs
variable {archModel : List ℝ → Option Fit} {closes : List ℝ} {tenorT : List (String × ℝ)} {label : String} {T : ℝ}
  (rvMap : List (String × Option ℝ)) (rvFull : Option ℝ) (blend empKappa : ℝ)

theorem lookup_map {β γ : Type*} (g : String → β → γ) (entries : List (String × β)) (label : String) :
    (entries.map fun entry => (entry.1, g entry.1 entry.2)).lookup label = (entries.lookup label).map (g label) := by
  induction entries with
  | nil => rfl
  | cons entry entries ih =>
    rw [List.map_cons, List.lookup_cons, List.lookup_cons]
    cases hkey : label == entry.1 with
    | false => exact ih
    | true => rw [eq_of_beq hkey]; rfl

theorem projection_lookup (fit : Fit) (hlen : 5 ≤ closes.length) (hfit : archModel (returns closes) = some fit)
    (htenor : tenorT.lookup label = some T) :
    (projection archModel closes tenorT rvMap rvFull blend empKappa).lookup label =
      some (fit.volModel ((rvMap.lookup label).bind id) rvFull blend empKappa T) := by
  rw [projection, if_neg (by omega), hfit]
  dsimp only
  rw [lookup_map fun label T => fit.volModel ((rvMap.lookup label).bind id) rvFull blend empKappa T, htenor]
  rfl

/-- All the weight on the GARCH leg -/
theorem volModel_one (fit : Fit) (rvTenor rvFull : Option ℝ) (T : ℝ) :
    fit.volModel rvTenor rvFull 1 empKappa T = fit.volGarch T := by
  rw [Fit.volModel, sub_self, zero_mul, one_mul, add_zero]

end Legs

/-- The projected vol of a tenor is the fit's own forecast just in case the fit ends at its long-run variance. -/
theorem own_forecast_iff (archModel : List ℝ → Option Fit) (closes : List ℝ) (fit : StationaryFit)
    (hlen : 5 ≤ closes.length) (hfit : archModel (returns closes) = some fit.toFit) (tenorT : List (String × ℝ))
    (label : String) (n : ℕ) (hn : 1 ≤ n) (htenor : tenorT.lookup label = some ((n : ℝ) / 252))
    (rvMap : List (String × Option ℝ)) (rvFull : Option ℝ) (empKappa : ℝ) :
    (∃ vol, (projection archModel closes tenorT rvMap rvFull 1 empKappa).lookup label = some vol ∧ fit.OwnForecast n vol) ↔
      fit.lastVariance * (1 - (fit.alpha + fit.beta)) = fit.omega := by
  rw [projection_lookup rvMap rvFull 1 empKappa fit.toFit hlen hfit htenor, volModel_one]
  simp only [Option.some.injEq, exists_eq_left']
  exact fit.ownForecast_years hn

/-- Persistence one half, long-run variance one -/
noncomputable def halving (lastCond : ℝ) (hpos : 0 < lastCond) : StationaryFit where
  omega := 1 / 2
  alpha := 1 / 4
  beta := 1 / 4
  lastCond := lastCond
  omega_pos := by norm_num
  alpha_nonneg := by norm_num
  beta_nonneg := by norm_num
  sum_pos := by norm_num
  sum_le := by norm_num
  lastCond_pos := hpos

/-- At the long-run variance the tenor of a year has the fit's vol. -/
theorem own_forecast_at_rest : ∃ vol,
    (projection (fun _ => some (halving 1 one_pos).toFit) [1, 1, 1, 1, 1] [("1Y", 1)] [] none 1 2).lookup "1Y" = some vol ∧
      (halving 1 one_pos).OwnForecast 252 vol := by
  refine (own_forecast_iff _ _ (halving 1 one_pos) (by simp) rfl [("1Y", 1)] "1Y" 252 (by norm_num) ?_ [] none 2).mpr ?_
  · norm_num
  · norm_num [StationaryFit.lastVariance, halving]

/-- From twice the long-run vol the projection of a year is still far from the vol the fit forecasts by then. -/
theorem not_own_forecast : ¬ ∃ vol,
    (projection (fun _ => some (halving 2 two_pos).toFit) [1, 1, 1, 1, 1] [("1Y", 1)] [] none 1 2).lookup "1Y" = some vol ∧
      (halving 2 two_pos).OwnForecast 252 vol := by
  rintro ⟨vol, hvol, hown⟩
  rw [projection_lookup (T := 1) [] none 1 2 (halving 2 two_pos).toFit (by simp) rfl (by norm_num), volModel_one,
    Option.some.injEq] at hvol
  have hyear : ((252 : ℕ) : ℝ) / 252 = 1 := by norm_num
  rw [← hvol, ← hyear] at hown
  have hrest := ((halving 2 two_pos).ownForecast_years (by norm_num)).mp hown
  norm_num [StationaryFit.lastVariance, halving] at hrest

end FxVol.GarchTerm
