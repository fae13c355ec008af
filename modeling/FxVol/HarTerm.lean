import FxVol.DecimalRounding
import FxVol.WindowRecursion
import Mathlib.Analysis.Asymptotics.SpecificAsymptotics
import Mathlib.Analysis.SpecialFunctions.Log.Basic
import Mathlib.Analysis.SpecificLimits.Basic

/-!
# The HAR term structure

`core.vol.har_rv` over the reals: the realised volatility of the next day from those of the last day, week and month, fitted
to the logarithms and iterated to each tenor.  A stationary fit has a long-run level, which its projections approach from
wherever the last month has left them.
-/
namespace FxVol.HarTerm

open scoped Numerals Topology
open DecimalRounding WindowRecursion Filter

structure HarCoef where
  beta0 : ℝ
  betaD : ℝ
  betaW : ℝ
  betaM : ℝ
  sigmaResidual : ℝ

def weeklyLag : ℕ := 5

def monthlyLag : ℕ := 22

/-- The floor under a volatility of which the logarithm is taken -/
noncomputable def floorPct : ℝ := 1 / 10000

noncomputable def mean (xs : List ℝ) : ℝ := xs.sum / xs.length

noncomputable def dailyRvPercentFromCloses (closes : List ℝ) : List ℝ :=
  (closes.zipWith (fun x y => Real.log y - Real.log x) closes.tail).map fun r => max (|r| * √252 * 100) floorPct

/-- `xs[first:last]` -/
def slice (xs : List ℝ) (first last : ℕ) : List ℝ := (xs.take last).drop first

/-- `_build_features`: the day, week and month up to an entry, with the entry after it -/
noncomputable def buildFeatures (rvSeries : List ℝ) : List ((ℝ × ℝ × ℝ) × ℝ) :=
  if rvSeries.length < monthlyLag + 2 then []
  else
    (List.range' monthlyLag (rvSeries.length - 1 - monthlyLag)).map fun t =>
      ((rvSeries.getD t 0, mean (slice rvSeries (t - weeklyLag + 1) (t + 1)),
        mean (slice rvSeries (t - monthlyLag + 1) (t + 1))), rvSeries.getD (t + 1) 0)

/-- The least squares of `numpy`, the rows of a design with an intercept against the targets -/
abbrev Lstsq := List (ℝ × ℝ × ℝ × ℝ) → List ℝ → Option (ℝ × ℝ × ℝ × ℝ)

/-- The standard deviation with `ddof` degrees of freedom taken off -/
noncomputable def stdDev (xs : List ℝ) (ddof : ℕ) : ℝ :=
  √((xs.map fun x => (x - mean xs) ^ 2).sum / (xs.length - ddof : ℕ))

noncomputable def fitHarRv (lstsq : Lstsq) (closes : List ℝ) : Option HarCoef :=
  let c := closes.filter (0 < ·)
  if c.length < monthlyLag + 20 then none
  else
    let features := buildFeatures (dailyRvPercentFromCloses c)
    if features.length < 10 then none
    else
      let design := features.map fun f => ((1 : ℝ), Real.log f.1.1, Real.log f.1.2.1, Real.log f.1.2.2)
      let yLog := features.map fun f => Real.log f.2
      (lstsq design yLog).map fun b =>
        let fitted := fun x : ℝ × ℝ × ℝ × ℝ => x.1 * b.1 + x.2.1 * b.2.1 + x.2.2.1 * b.2.2.1 + x.2.2.2 * b.2.2.2
        ⟨b.1, b.2.1, b.2.2.1, b.2.2.2, stdDev (yLog.zipWith (fun y x => y - fitted x) design) 4⟩

/-- The forecast of one day: `next_rv` -/
noncomputable def nextRv (coef : HarCoef) (rv : List ℝ) : ℝ :=
  let rvD := Real.log (max (rv.getLastD 0) floorPct)
  let rvW := Real.log (max (mean (rv.rtake weeklyLag)) floorPct)
  let rvM := Real.log (max (mean (rv.rtake monthlyLag)) floorPct)
  Real.exp (coef.beta0 + coef.betaD * rvD + coef.betaW * rvW + coef.betaM * rvM)

/-- One pass of the loop, on `rv` and `daily_forecasts` -/
noncomputable def forecastDay (coef : HarCoef) (s : List ℝ × List ℝ) : List ℝ × List ℝ :=
  (s.1 ++ [nextRv coef s.1], s.2 ++ [nextRv coef s.1])

/-- `project_horizon`; `none` is `nan`, or that there is no last day. -/
noncomputable def projectHorizon (coef : HarCoef) (rvSeries : List ℝ) (horizonDays : ℤ) : Option ℝ :=
  if horizonDays ≤ 0 ∨ rvSeries = [] then none
  else
    let rv := rvSeries.rtake (max monthlyLag rvSeries.length)
    some (mean ((forecastDay coef)^[horizonDays.toNat] (rv, [])).2)

noncomputable def fitAndProjectHar (lstsq : Lstsq) (closes : List ℝ) (tenorDays : List (String × ℤ)) :
    List (String × Option ℝ) :=
  match fitHarRv lstsq closes with
  | none => []
  | some coef =>
    let rv := dailyRvPercentFromCloses closes
    tenorDays.map fun (label, days) =>
      let tradingDays := max 1 (nearestEven ((days : ℝ) * 5 / 7))
      (label, (projectHorizon coef rv tradingDays).map (roundTo · 4))

theorem iterate_forecastDay (coef : HarCoef) (n : ℕ) (rv daily : List ℝ) :
    (forecastDay coef)^[n] (rv, daily) =
      (rv ++ forecasts (nextRv coef) n rv, daily ++ forecasts (nextRv coef) n rv) := by
  induction n generalizing rv daily with
  | zero => simp [forecasts]
  | succ n ih => rw [Function.iterate_succ_apply, forecastDay, ih, forecasts]; simp

theorem projectHorizon_eq (coef : HarCoef) {rvSeries : List ℝ} (hne : rvSeries ≠ []) (n : ℕ) :
    projectHorizon coef rvSeries (n + 1 : ℕ) = some (mean (forecasts (nextRv coef) (n + 1) rvSeries)) := by
  have hall : rvSeries.rtake (max monthlyLag rvSeries.length) = rvSeries := by
    rw [List.rtake, Nat.sub_eq_zero_of_le (le_max_right _ _), List.drop_zero]
  have hdays : ¬ (((n + 1 : ℕ) : ℤ) ≤ 0 ∨ rvSeries = []) := not_or.mpr ⟨by omega, hne⟩
  rw [projectHorizon, if_neg hdays, hall, Int.toNat_natCast]
  exact congrArg (fun s => some (mean s.2)) (iterate_forecastDay coef (n + 1) rvSeries [])

theorem mean_le_mean {xs ys : List ℝ} (h : List.Forall₂ (· ≤ ·) xs ys) : mean xs ≤ mean ys := by
  rw [mean, mean, h.length_eq]
  exact div_le_div_of_nonneg_right (List.Forall₂.sum_le_sum h) (Nat.cast_nonneg _)

theorem mean_const {xs : List ℝ} (hne : xs ≠ []) (c : ℝ) : mean (xs.map fun _ => c) = c := by
  have hlength : (xs.length : ℝ) ≠ 0 := by simpa using hne
  rw [mean, List.map_const', List.sum_replicate, List.length_replicate, nsmul_eq_mul, mul_div_cancel_left₀ c hlength]

theorem mean_mem_Icc {xs : List ℝ} (hne : xs ≠ []) {low high : ℝ} (h : ∀ x ∈ xs, x ∈ Set.Icc low high) :
    mean xs ∈ Set.Icc low high := by
  constructor
  · rw [← mean_const hne low]
    exact mean_le_mean (List.forall₂_map_left_iff.mpr (List.forall₂_same.mpr fun x hx => (h x hx).1))
  · rw [← mean_const hne high]
    exact mean_le_mean (List.forall₂_map_right_iff.mpr (List.forall₂_same.mpr fun x hx => (h x hx).2))

theorem getLastD_eq_mean (rv : List ℝ) : rv.getLastD 0 = mean (rv.rtake 1) := by
  rcases List.eq_nil_or_concat rv with rfl | ⟨init, last, rfl⟩
  · simp [mean]
  · rw [List.concat_eq_append, List.getLastD_concat, List.rtake_concat_succ, List.rtake_zero]
    simp [mean]

/-- The logarithm of the last `m` days -/
noncomputable def logMean (m : ℕ) (rv : List ℝ) : ℝ := Real.log (max (mean (rv.rtake m)) floorPct)

theorem nextRv_eq (coef : HarCoef) (rv : List ℝ) : nextRv coef rv =
    Real.exp (coef.beta0 + coef.betaD * logMean 1 rv + coef.betaW * logMean weeklyLag rv +
      coef.betaM * logMean monthlyLag rv) := by
  rw [nextRv, getLastD_eq_mean]
  rfl

theorem floorPct_pos : 0 < floorPct := by norm_num [floorPct]

theorem logMean_mem {m : ℕ} (hm : 0 < m) (hm' : m ≤ monthlyLag) {rv : List ℝ} (hne : rv ≠ []) {a b : ℝ}
    (hb : floorPct ≤ Real.exp b) (h : ∀ x ∈ rv.rtake monthlyLag, x ∈ Set.Icc (Real.exp a) (Real.exp b)) :
    logMean m rv ∈ Set.Icc a b := by
  have htail : rv.rtake m ≠ [] := by
    have hlength := List.length_pos_iff.mpr hne
    rw [List.rtake, ne_eq, List.drop_eq_nil_iff]
    omega
  have hmean : mean (rv.rtake m) ∈ Set.Icc (Real.exp a) (Real.exp b) := by
    refine mean_mem_Icc htail fun x hx => h x ?_
    rw [← rtake_rtake hm'] at hx
    exact mem_of_mem_rtake hx
  have hpos : 0 < max (mean (rv.rtake m)) floorPct := floorPct_pos.trans_le (le_max_right _ _)
  constructor
  · exact (Real.le_log_iff_exp_le hpos).mpr (hmean.1.trans (le_max_left _ _))
  · exact (Real.log_le_iff_le_exp hpos).mpr (max_le hmean.2 hb)

theorem logMean_le_logMean (m : ℕ) {rv rv' : List ℝ} (h : List.Forall₂ (· ≤ ·) rv rv') : logMean m rv ≤ logMean m rv' := by
  have htail : List.Forall₂ (· ≤ ·) (rv.rtake m) (rv'.rtake m) := by
    rw [List.rtake, List.rtake, h.length_eq]
    exact List.forall₂_drop _ h
  exact Real.log_le_log (floorPct_pos.trans_le (le_max_right _ _)) (max_le_max (mean_le_mean htail) le_rfl)

theorem logMean_congr {m : ℕ} (hm : m ≤ monthlyLag) {rv rv' : List ℝ} (h : rv.rtake monthlyLag = rv'.rtake monthlyLag) :
    logMean m rv = logMean m rv' := by
  rw [logMean, logMean, ← rtake_rtake hm, h, rtake_rtake hm]

/-- The days before the last month have no part in a forecast. -/
theorem nextRv_congr (coef : HarCoef) (rv rv' : List ℝ) (h : rv.rtake monthlyLag = rv'.rtake monthlyLag) :
    nextRv coef rv = nextRv coef rv' := by
  rw [nextRv_eq, nextRv_eq, logMean_congr (by decide) h, logMean_congr (by decide) h, logMean_congr le_rfl h]

theorem rtake_month_eq_nil {rv : List ℝ} : rv.rtake monthlyLag = [] ↔ rv = [] := by
  rw [List.rtake, List.drop_eq_nil_iff, ← List.length_eq_zero_iff, monthlyLag]
  omega

/-- Two series with the same last month have the same projections. -/
theorem projectHorizon_congr (coef : HarCoef) {rv rv' : List ℝ} (h : rv.rtake monthlyLag = rv'.rtake monthlyLag)
    (horizonDays : ℤ) : projectHorizon coef rv horizonDays = projectHorizon coef rv' horizonDays := by
  have hempty : rv = [] ↔ rv' = [] := by rw [← rtake_month_eq_nil, h, rtake_month_eq_nil]
  by_cases hnone : horizonDays ≤ 0 ∨ rv = []
  · have hnone' : horizonDays ≤ 0 ∨ rv' = [] := by rwa [← hempty]
    rw [projectHorizon, projectHorizon, if_pos hnone, if_pos hnone']
  · obtain ⟨hdays, hne⟩ := not_or.mp hnone
    obtain ⟨n, rfl⟩ : ∃ n : ℕ, horizonDays = (n + 1 : ℕ) := ⟨horizonDays.toNat - 1, by omega⟩
    rw [projectHorizon_eq coef hne, projectHorizon_eq coef (mt hempty.mpr hne),
      forecasts_congr (nextRv_congr coef) (n + 1) h]

/-- With non-negative coefficients, a month that is nowhere lower, or a higher intercept, does not lower a projection. -/
theorem projectHorizon_le {coef coef' : HarCoef} (hbeta0 : coef.beta0 ≤ coef'.beta0) (hbetaD : coef.betaD = coef'.betaD)
    (hbetaW : coef.betaW = coef'.betaW) (hbetaM : coef.betaM = coef'.betaM) (hnonnegD : 0 ≤ coef.betaD)
    (hnonnegW : 0 ≤ coef.betaW) (hnonnegM : 0 ≤ coef.betaM) {rv rv' : List ℝ} (hne : rv ≠ []) (hne' : rv' ≠ [])
    (h : List.Forall₂ (· ≤ ·) (rv.rtake monthlyLag) (rv'.rtake monthlyLag)) (n : ℕ) :
    ∃ σ σ' : ℝ, projectHorizon coef rv (n + 1 : ℕ) = some σ ∧ projectHorizon coef' rv' (n + 1 : ℕ) = some σ' ∧ σ ≤ σ' := by
  refine ⟨_, _, projectHorizon_eq coef hne n, projectHorizon_eq coef' hne' n, mean_le_mean ?_⟩
  rw [forecasts_congr (nextRv_congr coef) (n + 1) (rtake_rtake le_rfl rv).symm,
    forecasts_congr (nextRv_congr coef') (n + 1) (rtake_rtake le_rfl rv').symm]
  refine forall₂_forecasts ?_ (n + 1) h
  intro xs ys hxs
  rw [nextRv_eq, nextRv_eq, Real.exp_le_exp, ← hbetaD, ← hbetaW, ← hbetaM]
  have hday := mul_le_mul_of_nonneg_left (logMean_le_logMean 1 hxs) hnonnegD
  have hweek := mul_le_mul_of_nonneg_left (logMean_le_logMean weeklyLag hxs) hnonnegW
  have hmonth := mul_le_mul_of_nonneg_left (logMean_le_logMean monthlyLag hxs) hnonnegM
  linarith

/-- A projection reads the last month only, whatever the coefficients; with non-negative ones a month that is nowhere
lower, or a higher intercept, does not lower it. -/
theorem projectHorizon_mono :
    (∀ (coef : HarCoef) (rv rv' : List ℝ) (horizonDays : ℤ), rv.rtake monthlyLag = rv'.rtake monthlyLag →
      projectHorizon coef rv horizonDays = projectHorizon coef rv' horizonDays) ∧
    ∀ (coef coef' : HarCoef) (rv rv' : List ℝ) (n : ℕ), coef.beta0 ≤ coef'.beta0 → coef.betaD = coef'.betaD →
      coef.betaW = coef'.betaW → coef.betaM = coef'.betaM → 0 ≤ coef.betaD → 0 ≤ coef.betaW → 0 ≤ coef.betaM →
      rv ≠ [] → rv' ≠ [] → List.Forall₂ (· ≤ ·) (rv.rtake monthlyLag) (rv'.rtake monthlyLag) →
      ∃ σ σ' : ℝ, projectHorizon coef rv (n + 1 : ℕ) = some σ ∧
        projectHorizon coef' rv' (n + 1 : ℕ) = some σ' ∧ σ ≤ σ' := by
  constructor
  · intro coef rv rv' horizonDays h
    exact projectHorizon_congr coef h horizonDays
  · intro coef coef' rv rv' n hbeta0 hbetaD hbetaW hbetaM hnonnegD hnonnegW hnonnegM hne hne' h
    exact projectHorizon_le hbeta0 hbetaD hbetaW hbetaM hnonnegD hnonnegW hnonnegM hne hne' h n

/-- A month of days that rise from two percent, after other days -/
noncomputable def risingMonth (before : List ℝ) : List ℝ := before ++ (List.range monthlyLag).map fun k : ℕ => 2 + (k : ℝ) / 10

theorem risingMonth_rtake (before : List ℝ) :
    (risingMonth before).rtake monthlyLag = (List.range monthlyLag).map fun k : ℕ => 2 + (k : ℝ) / 10 := by
  rw [risingMonth, List.rtake, List.length_append, List.length_map, List.length_range, Nat.add_sub_cancel, List.drop_left]

/-- Two series whose last months agree, one of them two days longer, under a fit that reverts; and the same month above a
flat one of two percent. -/
theorem projectHorizon_mono_rising :
    projectHorizon ⟨1, -1 / 4, 1 / 8, 1 / 2, 0⟩ (risingMonth [9]) 63 =
        projectHorizon ⟨1, -1 / 4, 1 / 8, 1 / 2, 0⟩ (risingMonth [1, 4, 7]) 63 ∧
      ∃ σ σ' : ℝ, projectHorizon ⟨0, 1 / 4, 1 / 8, 1 / 8, 0⟩ (9 :: List.replicate monthlyLag 2) (62 + 1 : ℕ) = some σ ∧
        projectHorizon ⟨1, 1 / 4, 1 / 8, 1 / 8, 0⟩ (risingMonth [1, 4, 7]) (62 + 1 : ℕ) = some σ' ∧ σ ≤ σ' := by
  refine ⟨projectHorizon_mono.1 _ _ _ _ ?_, projectHorizon_mono.2 _ _ _ _ _ zero_le_one rfl rfl rfl (by norm_num)
    (by norm_num) (by norm_num) (List.cons_ne_nil _ _) (List.append_ne_nil_of_left_ne_nil (List.cons_ne_nil _ _) _) ?_⟩
  · rw [risingMonth_rtake, risingMonth_rtake]
  · have hflat : ((9 : ℝ) :: List.replicate monthlyLag 2).rtake monthlyLag = (List.range monthlyLag).map fun _ => 2 := by
      rw [List.rtake, List.length_cons, List.length_replicate, Nat.add_sub_cancel_left, List.drop_one, List.tail_cons,
        List.map_const', List.length_range]
    rw [hflat, risingMonth_rtake, List.forall₂_map_left_iff, List.forall₂_map_right_iff, List.forall₂_same]
    intro k _
    have hday : (0 : ℝ) ≤ k / 10 := by positivity
    linarith

/-- A fit with a long-run level, not below the floor -/
structure StationaryHar extends HarCoef where
  betaD_nonneg : 0 ≤ betaD
  betaW_nonneg : 0 ≤ betaW
  betaM_nonneg : 0 ≤ betaM
  persistence_lt : betaD + betaW + betaM < 1
  floor_le : floorPct ≤ Real.exp (beta0 / (1 - (betaD + betaW + betaM)))

namespace StationaryHar
variable (coef : StationaryHar)

noncomputable def persistence : ℝ := coef.betaD + coef.betaW + coef.betaM

noncomputable def logLevel : ℝ := coef.beta0 / (1 - coef.persistence)

noncomputable def longRun : ℝ := Real.exp coef.logLevel

theorem persistence_nonneg : 0 ≤ coef.persistence :=
  add_nonneg (add_nonneg coef.betaD_nonneg coef.betaW_nonneg) coef.betaM_nonneg

/-- Between logarithms around the long-run one the next is by the persistence nearer to it. -/
theorem nextRv_mem {rv : List ℝ} (hne : rv ≠ []) {a b : ℝ} (hb : coef.logLevel ≤ b)
    (h : ∀ x ∈ rv.rtake monthlyLag, x ∈ Set.Icc (Real.exp a) (Real.exp b)) :
    nextRv coef.toHarCoef rv ∈ Set.Icc (Real.exp (coef.logLevel + coef.persistence * (a - coef.logLevel)))
      (Real.exp (coef.logLevel + coef.persistence * (b - coef.logLevel))) := by
  have hfloor : floorPct ≤ Real.exp b := coef.floor_le.trans (Real.exp_le_exp.mpr hb)
  have hday := logMean_mem one_pos (by decide) hne hfloor h
  have hweek := logMean_mem (show 0 < weeklyLag by decide) (by decide) hne hfloor h
  have hmonth := logMean_mem (show 0 < monthlyLag by decide) le_rfl hne hfloor h
  have hbeta0 : coef.beta0 = coef.logLevel * (1 - coef.persistence) := by
    have hlt : coef.persistence < 1 := coef.persistence_lt
    rw [logLevel, div_mul_cancel₀ _ (sub_ne_zero.mpr hlt.ne')]
  have hpersistence : coef.persistence = coef.betaD + coef.betaW + coef.betaM := rfl
  simp only [nextRv_eq, Set.mem_Icc, Real.exp_le_exp, hbeta0, hpersistence]
  constructor
  · have h1 := mul_le_mul_of_nonneg_left hday.1 coef.betaD_nonneg
    have h2 := mul_le_mul_of_nonneg_left hweek.1 coef.betaW_nonneg
    have h3 := mul_le_mul_of_nonneg_left hmonth.1 coef.betaM_nonneg
    linarith
  · have h1 := mul_le_mul_of_nonneg_left hday.2 coef.betaD_nonneg
    have h2 := mul_le_mul_of_nonneg_left hweek.2 coef.betaW_nonneg
    have h3 := mul_le_mul_of_nonneg_left hmonth.2 coef.betaM_nonneg
    linarith

/-- A forecast stays between the last month and the long-run level. -/
theorem nextRv_between {rv : List ℝ} (hne : rv ≠ []) {low high : ℝ} (hlow : 0 < low) (hlevel : coef.longRun ∈ Set.Icc low high)
    (h : ∀ x ∈ rv.rtake monthlyLag, x ∈ Set.Icc low high) : nextRv coef.toHarCoef rv ∈ Set.Icc low high := by
  have hhigh : 0 < high := hlow.trans_le (hlevel.1.trans hlevel.2)
  have ha : Real.log low ≤ coef.logLevel := (Real.log_le_iff_le_exp hlow).mpr hlevel.1
  have hb : coef.logLevel ≤ Real.log high := (Real.le_log_iff_exp_le hhigh).mpr hlevel.2
  have hwindow : ∀ x ∈ rv.rtake monthlyLag, x ∈ Set.Icc (Real.exp (Real.log low)) (Real.exp (Real.log high)) := by
    rwa [Real.exp_log hlow, Real.exp_log hhigh]
  have hnext := coef.nextRv_mem hne hb hwindow
  have hpersistence := coef.persistence_nonneg
  have hlt : coef.persistence ≤ 1 := le_of_lt coef.persistence_lt
  constructor
  · refine le_trans ?_ hnext.1
    rw [← Real.log_le_iff_le_exp hlow]
    have hpart := mul_le_mul_of_nonpos_right hlt (sub_nonpos.mpr ha)
    linarith
  · refine hnext.2.trans ?_
    rw [← Real.le_log_iff_exp_le hhigh]
    have hpart := mul_le_mul_of_nonneg_right hlt (sub_nonneg.mpr hb)
    linarith

/-- Within a factor `exp b` of the long-run level -/
def Near (b x : ℝ) : Prop := x ∈ Set.Icc (Real.exp (coef.logLevel - b)) (Real.exp (coef.logLevel + b))

theorem nextRv_near (b : ℝ) (rv : List ℝ) (hb : 0 ≤ b) (hne : rv ≠ []) (h : ∀ x ∈ rv.rtake monthlyLag, coef.Near b x) :
    coef.Near (coef.persistence * b) (nextRv coef.toHarCoef rv) := by
  have hnext := coef.nextRv_mem hne (le_add_of_nonneg_right hb) h
  rw [Near]
  convert hnext using 2 <;> ring_nf

theorem near_mono (b b' x : ℝ) (hb : b ≤ b') (h : coef.Near b x) : coef.Near b' x := by
  refine ⟨le_trans ?_ h.1, h.2.trans ?_⟩
  · exact Real.exp_le_exp.mpr (sub_le_sub_left hb _)
  · exact Real.exp_le_exp.mpr (add_le_add_right hb _)

/-- Positive days are all within some factor of the long-run level. -/
theorem exists_near {rv : List ℝ} (hpos : ∀ x ∈ rv, 0 < x) : ∃ c, 0 ≤ c ∧ ∀ x ∈ rv, coef.Near c x := by
  refine ⟨(rv.map fun x => |Real.log x - coef.logLevel|).sum, List.sum_nonneg (by simp), ?_⟩
  intro x hx
  have hle : |Real.log x - coef.logLevel| ≤ (rv.map fun x => |Real.log x - coef.logLevel|).sum :=
    List.single_le_sum (by simp) _ (List.mem_map_of_mem hx)
  obtain ⟨hlow, hhigh⟩ := abs_le.mp hle
  constructor
  · rw [← Real.le_log_iff_exp_le (hpos x hx)]
    linarith
  · rw [← Real.log_le_iff_le_exp (hpos x hx)]
    linarith

/-- The forecasts of the days approach the long-run level. -/
theorem tendsto_forecast {rv : List ℝ} (hne : rv ≠ []) (hpos : ∀ x ∈ rv.rtake monthlyLag, 0 < x) :
    Tendsto (forecast (nextRv coef.toHarCoef) rv) atTop (𝓝 coef.longRun) := by
  obtain ⟨c, hc, hnear⟩ := coef.exists_near hpos
  have hbound := near_forecast coef.persistence_nonneg (le_of_lt coef.persistence_lt) coef.near_mono coef.nextRv_near hc
    hne hnear
  have hpow : Tendsto (fun k : ℕ => coef.persistence ^ (k / monthlyLag + 1) * c) atTop (𝓝 0) := by
    have hwindows : Tendsto (fun k : ℕ => k / monthlyLag + 1) atTop atTop :=
      (tendsto_add_atTop_nat 1).comp (Nat.tendsto_div_const_atTop (by decide))
    have hpersistence := (tendsto_pow_atTop_nhds_zero_of_lt_one coef.persistence_nonneg coef.persistence_lt).comp hwindows
    simpa using hpersistence.mul_const c
  have hlow : Tendsto (fun k : ℕ => Real.exp (coef.logLevel - coef.persistence ^ (k / monthlyLag + 1) * c)) atTop
      (𝓝 coef.longRun) := by
    have hlimit := (Real.continuous_exp.tendsto _).comp (hpow.const_sub coef.logLevel)
    rwa [sub_zero] at hlimit
  have hhigh : Tendsto (fun k : ℕ => Real.exp (coef.logLevel + coef.persistence ^ (k / monthlyLag + 1) * c)) atTop
      (𝓝 coef.longRun) := by
    have hlimit := (Real.continuous_exp.tendsto _).comp (hpow.const_add coef.logLevel)
    rwa [add_zero] at hlimit
  exact tendsto_of_tendsto_of_tendsto_of_le_of_le hlow hhigh (fun k => (hbound k).1) fun k => (hbound k).2

end StationaryHar

theorem sum_forecasts (coef : HarCoef) (rv : List ℝ) (n : ℕ) :
    (forecasts (nextRv coef) n rv).sum = ∑ k ∈ Finset.range n, forecast (nextRv coef) rv k := by
  induction n with
  | zero => rfl
  | succ n ih => rw [forecasts_succ, List.sum_append, List.sum_singleton, ih, Finset.sum_range_succ]

/-- The projections of a stationary fit stay between the last month and its long-run level, and approach the level as the
horizon grows. -/
theorem projectHorizon_approaches (coef : StationaryHar) {rv : List ℝ} (hne : rv ≠ [])
    (hpos : ∀ x ∈ rv.rtake monthlyLag, 0 < x) :
    ∃ σ : ℕ → ℝ, (∀ n : ℕ, projectHorizon coef.toHarCoef rv (n + 1 : ℕ) = some (σ n)) ∧
      (∀ low high : ℝ, 0 < low → coef.longRun ∈ Set.Icc low high → (∀ x ∈ rv.rtake monthlyLag, x ∈ Set.Icc low high) →
        ∀ n : ℕ, σ n ∈ Set.Icc low high) ∧
      Tendsto σ atTop (𝓝 coef.longRun) := by
  refine ⟨fun n => mean (forecasts (nextRv coef.toHarCoef) (n + 1) rv), projectHorizon_eq coef.toHarCoef hne, ?_, ?_⟩
  · intro low high hlow hlevel h n
    refine mean_mem_Icc (List.ne_nil_of_length_eq_add_one (length_forecasts (n + 1) rv)) ?_
    exact forall_mem_forecasts (fun rv hne => coef.nextRv_between hne hlow hlevel) (n + 1) hne h
  · have hcesaro := (coef.tendsto_forecast hne hpos).cesaro.comp (tendsto_add_atTop_nat 1)
    refine hcesaro.congr fun n => ?_
    rw [mean, length_forecasts, sum_forecasts, div_eq_inv_mul]
    rfl

/-- A day weighs as much as the week and the month together, and the three as much as their long-run level. -/
noncomputable def halfCoef : HarCoef := ⟨0, 1 / 4, 1 / 8, 1 / 8, 0⟩

/-- A fit whose long-run level is one percent -/
noncomputable def halfPersistent : StationaryHar where
  toHarCoef := halfCoef
  betaD_nonneg := by norm_num [halfCoef]
  betaW_nonneg := by norm_num [halfCoef]
  betaM_nonneg := by norm_num [halfCoef]
  persistence_lt := by norm_num [halfCoef]
  floor_le := by norm_num [halfCoef, floorPct]

theorem projectHorizon_approaches_one : ∃ σ : ℕ → ℝ,
    (∀ n : ℕ, projectHorizon halfPersistent.toHarCoef [3, 2] (n + 1 : ℕ) = some (σ n)) ∧
      (∀ n : ℕ, σ n ∈ Set.Icc (1 : ℝ) 3) ∧ Tendsto σ atTop (𝓝 1) := by
  have hlevel : halfPersistent.longRun = 1 := by
    rw [StationaryHar.longRun, StationaryHar.logLevel]
    norm_num [halfPersistent, halfCoef]
  have hmonth : ([3, 2] : List ℝ).rtake monthlyLag = [3, 2] := rfl
  have hpos : ∀ x ∈ ([3, 2] : List ℝ).rtake monthlyLag, 0 < x := by
    rw [hmonth]
    norm_num
  obtain ⟨σ, hσ, hbetween, htendsto⟩ := projectHorizon_approaches halfPersistent (by simp) hpos
  refine ⟨σ, hσ, hbetween 1 3 one_pos ?_ ?_, hlevel ▸ htendsto⟩
  · rw [hlevel]
    norm_num
  · rw [hmonth]
    norm_num

end FxVol.HarTerm
