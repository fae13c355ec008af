import FxVol.DiscountedMean
import FxVol.GreekLimits
import FxVol.Numerals
import Mathlib.Analysis.SpecialFunctions.Pow.Real

/-!
# The capital anchor of the caps

`ewma` and `nav_base` over an ordered field.  The anchor does not fall below the floor under the high-water mark of any
part of its series, so that no drawdown within the series takes a cap below that part of the cap at the mark.
-/
namespace FxVol.NavAnchor

open scoped Numerals
open DiscountedMean GreekLimits

structure Caps (K : Type*) where
  deltaUsd : K
  vegaUsd : K
  gammaPip : K
  crossUsd : K
  lossBudgetUsd : K
  navBaseUsd : K
  spot : K
  regimeMult : K

section Program
variable {K : Type*} [Field K] [LinearOrder K]

/-- The stored rows over the defaults -/
def policy (params : Param → Option K) (p : Param) : K := (params p).getD (configDefaults p : ℚ)

/-- `compute_caps` -/
def capsFor (navBase spot regimeMult : K) (params : Param → Option K) : Caps K :=
  let p := policy params
  let s := p .shockSpot * regimeMult
  let v := p .shockVol * regimeMult
  if navBase ≤ 0 ∨ spot ≤ 0 ∨ regimeMult ≤ 0 ∨ s ≤ 0 ∨ v ≤ 0 then
    ⟨0, 0, 0, 0, 0, max navBase 0, spot, regimeMult⟩
  else
    let loss := p .alpha * navBase
    { deltaUsd := p .betaDelta * loss / s
      vegaUsd := p .betaVega * loss / v
      gammaPip := 2 * p .betaGamma * loss / (s ^ 2 * spot * 10000)
      crossUsd := p .betaCross * loss
      lossBudgetUsd := loss
      navBaseUsd := navBase
      spot := spot
      regimeMult := regimeMult }

variable (decay : K → K)

/-- `ewma`, where `decay` is `0.5 ** (1.0 / halflife)` -/
def ewma (values : List K) (halflife : K) : Option K :=
  if values = [] ∨ halflife ≤ 0 then none
  else
    let t := totals (decay halflife) values.reverse
    if t.den = 0 then none else some (t.num / t.den)

def navBase (navSeries : List K) (hwmFloor halflife : K) : Option K :=
  match navSeries.max? with
  | none => none
  | some hwm =>
    match ewma decay navSeries halflife with
    | none => some (hwm * hwmFloor)
    | some smoothed => some (max (hwm * hwmFloor) smoothed)

def median (values : List K) : K :=
  let s := values.insertionSort (· ≤ ·)
  if s.length % 2 = 1 then s.getD (s.length / 2) 0
  else (s.getD (s.length / 2 - 1) 0 + s.getD (s.length / 2) 0) / 2

/-- The multiplier of the shocks, from the vol levels of the last 90 days -/
def regime (volLevels : List K) : K :=
  if 10 ≤ volLevels.length then
    let baseline := median volLevels
    if 0 < baseline then max 1 (min 3 (volLevels.getLastD 0 / baseline)) else 1
  else 1

/-- `compute_live_caps`, from the closes of `read_nav_series` and the other rows it reads -/
def computeLiveCaps (navSeries : List K) (spot : Option K) (params : Param → Option K) (volLevels : List K) : Caps K :=
  let navB := (navBase decay navSeries (policy params .navHwmFloor) (policy params .navHalflifeDays)).getD 0
  capsFor navB (spot.getD 0) (regime volLevels) params

end Program

/-- Over the rationals these are the caps of the gate. -/
theorem capsFor_rat (navBase spot regimeMult : ℚ) (params : Param → Option ℚ) :
    capsFor navBase spot regimeMult params =
      let c := computeCaps navBase spot regimeMult params
      ⟨c.deltaUsd, c.vegaUsd, c.gammaPip, c.crossUsd, c.lossBudgetUsd, c.navBaseUsd, c.spot, c.regimeMult⟩ := by
  have hpolicy : policy params = overlay params := by
    funext p
    rw [policy, overlay, Rat.cast_id]
  simp only [capsFor, computeCaps, hpolicy]
  split <;> rfl

section Maxima
variable {K : Type*} [LinearOrder K]

/-- Larger entries have the larger maximum. -/
theorem max_mono {xs ys : List K} (h : List.Forall₂ (· ≤ ·) xs ys) {a b : K} (ha : xs.max? = some a)
    (hb : ys.max? = some b) : a ≤ b := by
  obtain ⟨hmem, -⟩ := List.max?_eq_some_iff.mp ha
  obtain ⟨-, hle⟩ := List.max?_eq_some_iff.mp hb
  obtain ⟨i, hi, rfl⟩ := List.getElem_of_mem hmem
  have hlen := h.length_eq
  exact (h.get hi (hlen ▸ hi)).trans (hle _ (List.getElem_mem _))

theorem exists_max {xs : List K} (hne : xs ≠ []) : ∃ a, xs.max? = some a :=
  Option.isSome_iff_exists.mp (List.isSome_max?_of_ne_nil hne)

end Maxima

section Bounds
variable {K : Type*} [Field K] [LinearOrder K] [IsStrictOrderedRing K] {decay : K → K} {hwmFloor halflife : K}

theorem ewma_eq (hdecay : 0 < decay halflife) (hhalflife : 0 < halflife) {values : List K} (hne : values ≠ []) :
    ewma decay values halflife = some (mean (decay halflife) values.reverse) := by
  have hden := den_pos hdecay (List.reverse_ne_nil_iff.mpr hne)
  rw [ewma, if_neg (by simp [hne, hhalflife])]
  dsimp only
  rw [if_neg hden.ne', mean]

theorem navBase_eq (hdecay : 0 < decay halflife) (hhalflife : 0 < halflife) {navSeries : List K} {hwm : K}
    (hmax : navSeries.max? = some hwm) :
    navBase decay navSeries hwmFloor halflife = some (max (hwm * hwmFloor) (mean (decay halflife) navSeries.reverse)) := by
  have hne : navSeries ≠ [] := List.ne_nil_of_mem (List.max?_eq_some_iff.mp hmax).1
  simp only [navBase, hmax, ewma_eq hdecay hhalflife hne]

theorem ewma_le (hdecay : 0 < decay halflife) {values : List K} (hne : values ≠ []) {high : K}
    (h : ∀ x ∈ values, x ≤ high) : mean (decay halflife) values.reverse ≤ high :=
  mean_le hdecay (List.reverse_ne_nil_iff.mpr hne) fun x hx => h x (List.mem_reverse.mp hx)

theorem le_ewma (hdecay : 0 < decay halflife) {values : List K} (hne : values ≠ []) {low : K}
    (h : ∀ x ∈ values, low ≤ x) : low ≤ mean (decay halflife) values.reverse :=
  le_mean hdecay (List.reverse_ne_nil_iff.mpr hne) fun x hx => h x (List.mem_reverse.mp hx)

/-- The anchor is a number between the floor under the high-water mark and the mark. -/
theorem anchor_bounds (hdecay : 0 < decay halflife) (hhalflife : 0 < halflife) (hfloor' : hwmFloor ≤ 1) {navSeries : List K}
    (hpos : ∀ x ∈ navSeries, 0 < x) {high : K} (hmax : navSeries.max? = some high) :
    ∃ base, navBase decay navSeries hwmFloor halflife = some base ∧ hwmFloor * high ≤ base ∧ base ≤ high ∧ 0 < base := by
  obtain ⟨hmem, hle⟩ := List.max?_eq_some_iff.mp hmax
  obtain ⟨low, hmin⟩ := Option.isSome_iff_exists.mp (List.isSome_min?_of_ne_nil (List.ne_nil_of_mem hmem))
  obtain ⟨hmem', hge⟩ := List.min?_eq_some_iff.mp hmin
  have hsmoothed := le_ewma hdecay (List.ne_nil_of_mem hmem) hge
  refine ⟨_, navBase_eq hdecay hhalflife hmax, ?_, max_le ?_ ?_, ?_⟩
  · rw [mul_comm]
    exact le_max_left _ _
  · exact mul_le_of_le_one_right (hpos high hmem).le hfloor'
  · exact ewma_le hdecay (List.ne_nil_of_mem hmem) hle
  · exact lt_max_of_lt_right ((hpos low hmem').trans_le hsmoothed)

theorem navBase_mono (hdecay : 0 < decay halflife) (hhalflife : 0 < halflife) (hfloor : 0 ≤ hwmFloor) {xs ys : List K}
    (hne : xs ≠ []) (h : List.Forall₂ (· ≤ ·) xs ys) : ∃ a b, navBase decay xs hwmFloor halflife = some a ∧
      navBase decay ys hwmFloor halflife = some b ∧ a ≤ b := by
  obtain ⟨highX, hmaxX⟩ := exists_max hne
  have hne' : ys ≠ [] := fun hnil => hne (List.forall₂_nil_right_iff.mp (hnil ▸ h))
  obtain ⟨highY, hmaxY⟩ := exists_max hne'
  refine ⟨_, _, navBase_eq hdecay hhalflife hmaxX, navBase_eq hdecay hhalflife hmaxY, max_le_max ?_ ?_⟩
  · exact mul_le_mul_of_nonneg_right (max_mono h hmaxX hmaxY) hfloor
  · exact mean_mono hdecay (List.rel_reverse h)

/-- Whatever is appended, the anchor keeps the floor under the mark of the series before. -/
theorem anchor_held (hdecay : 0 < decay halflife) (hhalflife : 0 < halflife) (hfloor : 0 ≤ hwmFloor) (hfloor' : hwmFloor ≤ 1)
    {navSeries later : List K} (hpos : ∀ x ∈ navSeries ++ later, 0 < x) {high : K} (hmax : navSeries.max? = some high) :
    ∃ base, navBase decay (navSeries ++ later) hwmFloor halflife = some base ∧ hwmFloor * high ≤ base ∧ 0 < base := by
  obtain ⟨hmem, -⟩ := List.max?_eq_some_iff.mp hmax
  have hmem' : high ∈ navSeries ++ later := List.mem_append_left later hmem
  obtain ⟨top, htop⟩ := exists_max (List.ne_nil_of_mem hmem')
  obtain ⟨base, hbase, hlow, -, hbasepos⟩ := anchor_bounds hdecay hhalflife hfloor' hpos htop
  have hgrow : high ≤ top := (List.max?_eq_some_iff.mp htop).2 high hmem'
  exact ⟨base, hbase, (mul_le_mul_of_nonneg_left hgrow hfloor).trans hlow, hbasepos⟩

end Bounds

section Drawdown
variable {K : Type*} [Field K] [LinearOrder K]

/-- No appetite and no weight is below zero; the settings panel accepts no others. -/
structure NonnegPolicy (params : Param → Option K) : Prop where
  alpha : 0 ≤ policy params .alpha
  delta : 0 ≤ policy params .betaDelta
  vega : 0 ≤ policy params .betaVega
  gamma : 0 ≤ policy params .betaGamma
  cross : 0 ≤ policy params .betaCross

theorem nonnegPolicy_of_validate {params : Param → Option ℚ} (h : ∀ p, ∀ value ∈ params p, validate p value = true) :
    NonnegPolicy params := by
  have hvalid (p : Param) : validate p (policy params p) = true := by
    rw [policy, Rat.cast_id]
    exact overlay_validate h p
  have hweight {p : Param} (hp : p.unit = .weight) : 0 ≤ policy params p := by
    have hchecked := hvalid p
    rw [validate, hp, decide_eq_true_iff] at hchecked
    exact hchecked.1
  have halpha := hvalid .alpha
  simp only [validate, Param.unit, decide_eq_true_iff] at halpha
  exact ⟨halpha.1.le, hweight rfl, hweight rfl, hweight rfl, hweight rfl⟩

/-- Each of the four caps is at least the part `f` of what it was. -/
structure CapsHeld (f : K) (before after : Caps K) : Prop where
  delta : f * before.deltaUsd ≤ after.deltaUsd
  vega : f * before.vegaUsd ≤ after.vegaUsd
  gamma : f * before.gammaPip ≤ after.gammaPip
  cross : f * before.crossUsd ≤ after.crossUsd

variable [IsStrictOrderedRing K]

theorem capsHeld {params : Param → Option K} (hpolicy : NonnegPolicy params) {f high base : K} (hhigh : 0 < high)
    (hbase : 0 < base) (h : f * high ≤ base) (spot regimeMult : K) :
    CapsHeld f (capsFor high spot regimeMult params) (capsFor base spot regimeMult params) := by
  by_cases hstop : spot ≤ 0 ∨ regimeMult ≤ 0 ∨ policy params .shockSpot * regimeMult ≤ 0 ∨
      policy params .shockVol * regimeMult ≤ 0
  · simp only [capsFor, if_pos (Or.inr hstop)]
    constructor <;> simp
  · have hloss {c : K} (hc : 0 ≤ c) : f * (c * high) ≤ c * base := by
      rw [mul_left_comm]
      exact mul_le_mul_of_nonneg_left h hc
    simp only [capsFor, if_neg (not_or.mpr ⟨hhigh.not_ge, hstop⟩), if_neg (not_or.mpr ⟨hbase.not_ge, hstop⟩)]
    simp only [not_or, not_le] at hstop
    obtain ⟨hspot, -, hs, hv⟩ := hstop
    constructor
    · have hcoef := hloss (div_nonneg (mul_nonneg hpolicy.delta hpolicy.alpha) hs.le)
      dsimp only
      convert hcoef using 1 <;> ring
    · have hcoef := hloss (div_nonneg (mul_nonneg hpolicy.vega hpolicy.alpha) hv.le)
      dsimp only
      convert hcoef using 1 <;> ring
    · have hden : 0 ≤ (policy params .shockSpot * regimeMult) ^ 2 * spot * 10000 := by positivity
      have hcoef := hloss (div_nonneg (mul_nonneg (mul_nonneg two_pos.le hpolicy.gamma) hpolicy.alpha) hden)
      dsimp only
      convert hcoef using 1 <;> ring
    · have hcoef := hloss (mul_nonneg hpolicy.cross hpolicy.alpha)
      dsimp only
      convert hcoef using 1 <;> ring

end Drawdown

section Loader
variable {K : Type*} [Field K] [LinearOrder K] [IsStrictOrderedRing K] {decay : K → K} {params : Param → Option K}

theorem computeLiveCaps_held (hdecay : 0 < decay (policy params .navHalflifeDays)) (hpolicy : NonnegPolicy params)
    (hhalflife : 0 < policy params .navHalflifeDays) (hfloor : 0 ≤ policy params .navHwmFloor)
    (hfloor' : policy params .navHwmFloor ≤ 1) {navSeries later : List K} (hpos : ∀ x ∈ navSeries ++ later, 0 < x) {high : K}
    (hmax : navSeries.max? = some high) (spot : Option K) (volLevels : List K) :
    CapsHeld (policy params .navHwmFloor) (capsFor high (spot.getD 0) (regime volLevels) params)
      (computeLiveCaps decay (navSeries ++ later) spot params volLevels) := by
  obtain ⟨hmem, -⟩ := List.max?_eq_some_iff.mp hmax
  obtain ⟨base, hbase, hlow, hbasepos⟩ := anchor_held hdecay hhalflife hfloor hfloor' hpos hmax
  rw [computeLiveCaps, hbase]
  exact capsHeld hpolicy (hpos high (List.mem_append_left later hmem)) hbasepos hlow _ _

end Loader

/-- `0.5 ** (1.0 / halflife)` -/
noncomputable def halfDecay (halflife : ℝ) : ℝ := (1 / 2) ^ (1 / halflife)

theorem halfDecay_pos (halflife : ℝ) : 0 < halfDecay halflife := Real.rpow_pos_of_pos (by norm_num) _

/-- What the anchor with a floor and a half-life promises -/
structure Anchored (hwmFloor halflife : ℝ) : Prop where
  bounded : ∀ navs low high, (∀ x ∈ navs, 0 < x) → navs.min? = some low → navs.max? = some high →
    ∃ base smoothed, navBase halfDecay navs hwmFloor halflife = some base ∧ ewma halfDecay navs halflife = some smoothed ∧
      hwmFloor * high ≤ base ∧ base ≤ high ∧ low ≤ smoothed ∧ smoothed ≤ high
  monotone : ∀ navs navs', navs ≠ [] → List.Forall₂ (· ≤ ·) navs navs' → (∀ x ∈ navs, 0 < x) →
    ∃ base base', navBase halfDecay navs hwmFloor halflife = some base ∧
      navBase halfDecay navs' hwmFloor halflife = some base' ∧ base ≤ base'
  held : ∀ navs later high, (∀ x ∈ navs ++ later, 0 < x) → navs.max? = some high →
    ∃ base, navBase halfDecay (navs ++ later) hwmFloor halflife = some base ∧ hwmFloor * high ≤ base ∧
      ∀ params, NonnegPolicy params → ∀ spot regimeMult,
        CapsHeld hwmFloor (capsFor high spot regimeMult params) (capsFor base spot regimeMult params)

/-- The anchor is bounded and follows no drawdown of its series below the floor. -/
theorem capital_anchored {hwmFloor halflife : ℝ} (hfloor : hwmFloor ∈ Set.Icc 0 1) (hhalflife : 0 < halflife) :
    Anchored hwmFloor halflife where
  bounded := by
    intro navs low high hpos hmin hmax
    obtain ⟨hmem, hge⟩ := List.min?_eq_some_iff.mp hmin
    obtain ⟨-, hle⟩ := List.max?_eq_some_iff.mp hmax
    have hne := List.ne_nil_of_mem hmem
    obtain ⟨base, hbase, hlow, hhigh, -⟩ := anchor_bounds (halfDecay_pos halflife) hhalflife hfloor.2 hpos hmax
    exact ⟨base, _, hbase, ewma_eq (halfDecay_pos halflife) hhalflife hne, hlow, hhigh,
      le_ewma (halfDecay_pos halflife) hne hge, ewma_le (halfDecay_pos halflife) hne hle⟩
  monotone := by
    intro navs navs' hne hle _
    exact navBase_mono (halfDecay_pos halflife) hhalflife hfloor.1 hne hle
  held := by
    intro navs later high hpos hmax
    obtain ⟨hmem, -⟩ := List.max?_eq_some_iff.mp hmax
    obtain ⟨base, hbase, hlow, hbasepos⟩ := anchor_held (halfDecay_pos halflife) hhalflife hfloor.1 hfloor.2 hpos hmax
    refine ⟨base, hbase, hlow, fun params hpolicy spot regimeMult => ?_⟩
    exact capsHeld hpolicy (hpos high (List.mem_append_left later hmem)) hbasepos hlow spot regimeMult

/-- The default floor and half-life -/
theorem capital_anchored_default : Anchored (9 / 10) 20 := capital_anchored ⟨by norm_num, by norm_num⟩ (by norm_num)

end FxVol.NavAnchor
