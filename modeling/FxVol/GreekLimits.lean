import FxVol.GreekCapRuns
import Mathlib.Tactic.GCongr
import Mathlib.Tactic.FieldSimp

/-!
# The loss budget behind the caps

`compute_caps` projects the daily stress loss on the axes by inverting the shock of each.  The
gamma cap inverts a loss written in the drift of a USD delta; the risk engine persists the drift of
the EUR delta, so that a book at this cap loses the spot times its budget.
-/
namespace FxVol.GreekLimits

open Greeks BookExposure

/-- The keys of `CONFIG_DEFAULTS`. -/
inductive Param
  | alpha | betaDelta | betaVega | betaGamma | betaCross | shockSpot | shockVol | navHwmFloor
  | navHalflifeDays
  deriving DecidableEq

def configDefaults : Param → ℚ
  | .alpha => 5 / 100
  | .betaDelta => 15 / 100
  | .betaVega => 50 / 100
  | .betaGamma => 25 / 100
  | .betaCross => 10 / 100
  | .shockSpot => 25 / 1000
  | .shockVol => 4
  | .navHwmFloor => 9 / 10
  | .navHalflifeDays => 20

inductive ParamUnit | fracCapital | weight | fracSpot | volPts | fraction | days

/-- `CONFIG_META` -/
def Param.unit : Param → ParamUnit
  | .alpha => .fracCapital
  | .betaDelta | .betaVega | .betaGamma | .betaCross => .weight
  | .shockSpot => .fracSpot
  | .shockVol => .volPts
  | .navHwmFloor => .fraction
  | .navHalflifeDays => .days

/-- `validate`, which the settings endpoint asks before it writes a value. -/
def validate (p : Param) (value : ℚ) : Bool :=
  match p.unit with
  | .weight | .fraction => 0 ≤ value ∧ value ≤ 1
  | .fracCapital | .fracSpot => 0 < value ∧ value ≤ 1
  | .volPts => 0 ≤ value
  | .days => 1 ≤ value

/-- The stored rows over the defaults. -/
def overlay (params : Param → Option ℚ) (p : Param) : ℚ := (params p).getD (configDefaults p)

/-- Every default passes its own check, so that an overlay of checked rows does. -/
theorem overlay_validate {params : Param → Option ℚ}
    (h : ∀ p, ∀ value ∈ params p, validate p value = true) (p : Param) :
    validate p (overlay params p) = true := by
  unfold overlay
  cases hrow : params p with
  | some value => exact h p value hrow
  | none => cases p <;> decide +kernel

structure GreekCaps where
  deltaUsd : ℚ
  vegaUsd : ℚ
  gammaPip : ℚ
  crossUsd : ℚ
  lossBudgetUsd : ℚ
  navBaseUsd : ℚ
  spot : ℚ
  regimeMult : ℚ
  deriving DecidableEq

/-- The caps as `run_pretrade_gate` reads them. -/
def GreekCaps.gate (c : GreekCaps) : PretradeGate.GreekCaps := ⟨c.deltaUsd, c.vegaUsd, c.gammaPip⟩

def computeCaps (navBase spot regimeMult : ℚ) (params : Param → Option ℚ) : GreekCaps :=
  let p := overlay params
  let s := p .shockSpot * regimeMult
  let v := p .shockVol * regimeMult
  if navBase ≤ 0 ∨ spot ≤ 0 ∨ regimeMult ≤ 0 ∨ s ≤ 0 ∨ v ≤ 0 then
    ⟨0, 0, 0, 0, 0, max navBase 0, spot, regimeMult⟩
  else
    let loss := p .alpha * navBase
    { deltaUsd := p .betaDelta * loss / s
      vegaUsd := p .betaVega * loss / v
      gammaPip := 2 * p .betaGamma * loss / (s ^ 2 * spot * 10000)
      crossUsd := p .betaCross * loss
      lossBudgetUsd := loss
      navBaseUsd := navBase
      spot := spot
      regimeMult := regimeMult }

structure Holding where
  contract : Instrument
  qty : ℚ

/-- The greeks the risk engine gives to the positions it can price, added up. -/
def bookOf (N : Numerics) (F : ℚ) (book : List Holding) : PositionGreeks :=
  sumGreeks (book.filterMap fun h => positionGreeks N h.contract h.qty F)

/-- The derivatives of the value of a position in dollars, by the spot, twice by the spot, and by the
volatility. -/
structure Sensitivity where
  spot : ℚ
  spotSpot : ℚ
  vol : ℚ

def sensitivity (N : Numerics) (F : ℚ) (h : Holding) : Option Sensitivity :=
  match h.contract.contractType with
  | .future => some ⟨h.qty * h.contract.mult, 0, 0⟩
  | right =>
    match h.contract.strike, h.contract.expiryYears, h.contract.iv with
    | some K, some T, some iv =>
      if 0 < K ∧ 0 < T ∧ 0 < iv then
        let notional := h.qty * h.contract.mult
        some ⟨notional * bsDelta N F K T iv right, notional * bsGamma N F K T iv,
          notional * bsVega N F K T iv⟩
      else none
    | _, _, _ => none

section Stress
variable (N : Numerics) (F : ℚ) (book : List Holding)

def sensitivities : List Sensitivity := book.filterMap (sensitivity N F)

/-- First order, for a move of the spot by the part `s` of it. -/
def deltaLoss (s : ℚ) : ℚ := |((sensitivities N F book).map (·.spot)).sum * (s * F)|

/-- Second order, for the same move. -/
def gammaLoss (s : ℚ) : ℚ := |1 / 2 * ((sensitivities N F book).map (·.spotSpot)).sum * (s * F) ^ 2|

/-- First order, for a move of the volatility by `v` points. -/
def vegaLoss (v : ℚ) : ℚ := |((sensitivities N F book).map (·.vol)).sum * (v * volpt)|

/-- A position in the units of the risk engine. -/
def deskUnits (x : Sensitivity) : ℚ × ℚ × ℚ := (x.spot * F, x.spotSpot * pipSize, x.vol * volpt)

theorem positionGreeks_sensitivity (h : Holding) :
    (positionGreeks N h.contract h.qty F).map
        (fun g => (g.deltaUsd, g.gammaUsdPerPip, g.vegaUsdPerVolpt)) =
      (sensitivity N F h).map (deskUnits F) := by
  unfold positionGreeks sensitivity
  cases h.contract.contractType with
  | future => simp [deskUnits, futureGreeks]
  | call | put =>
    cases h.contract.strike <;> cases h.contract.expiryYears <;> cases h.contract.iv <;>
      simp only [Option.map_none]
    split_ifs <;> simp [deskUnits, optionGreeks]

/-- The book in the units of the risk engine. -/
theorem bookOf_sensitivities :
    (bookOf N F book).deltaUsd = ((sensitivities N F book).map (·.spot)).sum * F ∧
    (bookOf N F book).gammaUsdPerPip = ((sensitivities N F book).map (·.spotSpot)).sum * pipSize ∧
    (bookOf N F book).vegaUsdPerVolpt = ((sensitivities N F book).map (·.vol)).sum * volpt := by
  simp only [bookOf, sumGreeks, sensitivities]
  induction book with
  | nil => simp
  | cons h book ih =>
    obtain ⟨hdelta, hgamma, hvega⟩ := ih
    have hone := positionGreeks_sensitivity N F h
    rw [List.filterMap_cons, List.filterMap_cons]
    cases hs : sensitivity N F h with
    | none =>
      rw [hs, Option.map_none, Option.map_eq_none_iff] at hone
      rw [hone]
      exact ⟨hdelta, hgamma, hvega⟩
    | some x =>
      rw [hs, Option.map_some, Option.map_eq_some_iff] at hone
      obtain ⟨g, hg, hunits⟩ := hone
      simp only [deskUnits, Prod.mk.injEq] at hunits
      obtain ⟨h1, h2, h3⟩ := hunits
      rw [hg]
      simp only [List.map_cons, List.sum_cons, hdelta, hgamma, hvega, h1, h2, h3]
      refine ⟨?_, ?_, ?_⟩ <;> ring

variable {F} {s v : ℚ}

theorem deltaLoss_eq (hs : 0 < s) : deltaLoss N F book s = |(bookOf N F book).deltaUsd| * s := by
  rw [deltaLoss, (bookOf_sensitivities N F book).1, mul_comm s F, ← mul_assoc, abs_mul,
    abs_of_pos hs]

theorem gammaLoss_eq (hF : 0 < F) (hs : 0 < s) : gammaLoss N F book s =
    |(bookOf N F book).gammaUsdPerPip| * (1 / 2 * 10000 * s ^ 2 * F ^ 2) := by
  have hscale : (0 : ℚ) < 1 / 2 * 10000 * s ^ 2 * F ^ 2 := by positivity
  have hunits : 1 / 2 * ((sensitivities N F book).map (·.spotSpot)).sum * (s * F) ^ 2 =
      (bookOf N F book).gammaUsdPerPip * (1 / 2 * 10000 * s ^ 2 * F ^ 2) := by
    rw [(bookOf_sensitivities N F book).2.1, pipSize]
    ring
  rw [gammaLoss, hunits, abs_mul, abs_of_pos hscale]

theorem vegaLoss_eq (hv : 0 < v) : vegaLoss N F book v = |(bookOf N F book).vegaUsdPerVolpt| * v := by
  rw [vegaLoss, (bookOf_sensitivities N F book).2.2, mul_comm v volpt, ← mul_assoc, abs_mul,
    abs_of_pos hv]

end Stress

/-- A call of `compute_caps` on rows the settings endpoint lets through, with everything positive. -/
structure Inputs where
  navBase : ℚ
  spot : ℚ
  regimeMult : ℚ
  params : Param → Option ℚ
  navBase_pos : 0 < navBase
  spot_pos : 0 < spot
  regimeMult_pos : 0 < regimeMult
  valid : ∀ p, ∀ value ∈ params p, validate p value = true
  shockSpot_pos : 0 < overlay params .shockSpot
  shockVol_pos : 0 < overlay params .shockVol

namespace Inputs
variable (i : Inputs)

def param (p : Param) : ℚ := overlay i.params p

def caps : GreekCaps := computeCaps i.navBase i.spot i.regimeMult i.params

/-- The loss the desk accepts in a day. -/
def budget : ℚ := i.param .alpha * i.navBase

def spotShock : ℚ := i.param .shockSpot * i.regimeMult

def volShock : ℚ := i.param .shockVol * i.regimeMult

theorem spotShock_pos : 0 < i.spotShock := mul_pos i.shockSpot_pos i.regimeMult_pos

theorem volShock_pos : 0 < i.volShock := mul_pos i.shockVol_pos i.regimeMult_pos

theorem alpha_pos : 0 < i.param .alpha := by
  have h := overlay_validate i.valid .alpha
  exact (of_decide_eq_true h).1

theorem budget_pos : 0 < i.budget := mul_pos i.alpha_pos i.navBase_pos

theorem weight_nonneg {p : Param} (hp : p.unit = .weight) : 0 ≤ i.param p := by
  have h := overlay_validate i.valid p
  rw [validate, hp] at h
  exact (of_decide_eq_true h).1

theorem caps_eq : i.caps =
    { deltaUsd := i.param .betaDelta * i.budget / i.spotShock
      vegaUsd := i.param .betaVega * i.budget / i.volShock
      gammaPip := 2 * i.param .betaGamma * i.budget / (i.spotShock ^ 2 * i.spot * 10000)
      crossUsd := i.param .betaCross * i.budget
      lossBudgetUsd := i.budget
      navBaseUsd := i.navBase
      spot := i.spot
      regimeMult := i.regimeMult } := by
  have hs := i.spotShock_pos
  have hv := i.volShock_pos
  rw [caps, computeCaps, if_neg]
  · rfl
  · rintro (h | h | h | h | h)
    · exact absurd i.navBase_pos (not_lt.mpr h)
    · exact absurd i.spot_pos (not_lt.mpr h)
    · exact absurd i.regimeMult_pos (not_lt.mpr h)
    · exact absurd hs (not_lt.mpr h)
    · exact absurd hv (not_lt.mpr h)

/-- The book is exactly at the cap of an axis, as the gate compares them. -/
def AtCap (N : Numerics) (book : List Holding) (a : Axis) : Prop :=
  |a.position (bookOf N i.spot book)| = a.cap i.caps.gate

variable {i} {N : Numerics} {book : List Holding}

theorem deltaLoss_atCap (h : i.AtCap N book .delta) :
    deltaLoss N i.spot book i.spotShock = i.param .betaDelta * i.budget := by
  have hcap : |(bookOf N i.spot book).deltaUsd| = i.param .betaDelta * i.budget / i.spotShock := by
    rw [show |(bookOf N i.spot book).deltaUsd| = i.caps.deltaUsd from h, caps_eq]
  rw [deltaLoss_eq N book i.spotShock_pos, hcap, div_mul_cancel₀ _ i.spotShock_pos.ne']

theorem vegaLoss_atCap (h : i.AtCap N book .vega) :
    vegaLoss N i.spot book i.volShock = i.param .betaVega * i.budget := by
  have hcap : |(bookOf N i.spot book).vegaUsdPerVolpt| = i.param .betaVega * i.budget / i.volShock := by
    rw [show |(bookOf N i.spot book).vegaUsdPerVolpt| = i.caps.vegaUsd from h, caps_eq]
  rw [vegaLoss_eq N book i.volShock_pos, hcap, div_mul_cancel₀ _ i.volShock_pos.ne']

/-- At the gamma cap the loss is the budget of the axis times the spot. -/
theorem gammaLoss_atCap (h : i.AtCap N book .gamma) :
    gammaLoss N i.spot book i.spotShock = i.param .betaGamma * i.budget * i.spot := by
  have hs := i.spotShock_pos.ne'
  have hF := i.spot_pos.ne'
  have hcap : |(bookOf N i.spot book).gammaUsdPerPip| =
      2 * i.param .betaGamma * i.budget / (i.spotShock ^ 2 * i.spot * 10000) := by
    rw [show |(bookOf N i.spot book).gammaUsdPerPip| = i.caps.gammaPip from h, caps_eq]
  rw [gammaLoss_eq N book i.spot_pos i.spotShock_pos, hcap]
  field_simp

end Inputs

structure CapsFall (i : Inputs) : Prop where
  regime : ∀ j : Inputs, j.navBase = i.navBase → j.spot = i.spot → j.param = i.param →
    i.regimeMult ≤ j.regimeMult → ∀ a : Axis, a.cap j.caps.gate ≤ a.cap i.caps.gate
  spot : ∀ j : Inputs, j.navBase = i.navBase → j.spot = i.spot → j.regimeMult = i.regimeMult →
    (∀ p, p ≠ .shockSpot → j.param p = i.param p) → i.param .shockSpot ≤ j.param .shockSpot →
      j.caps.deltaUsd ≤ i.caps.deltaUsd ∧ j.caps.gammaPip ≤ i.caps.gammaPip
  vol : ∀ j : Inputs, j.navBase = i.navBase → j.spot = i.spot → j.regimeMult = i.regimeMult →
    (∀ p, p ≠ .shockVol → j.param p = i.param p) → i.param .shockVol ≤ j.param .shockVol →
      j.caps.vegaUsd ≤ i.caps.vegaUsd

/-- Books at a cap lose what is budgeted for its axis, together no more than the budget, and the
caps fall as the shocks grow. -/
structure CapsProject (N : Numerics) (i : Inputs) (atDelta atVega atGamma : List Holding) : Prop where
  delta : deltaLoss N i.spot atDelta i.spotShock = i.param .betaDelta * i.budget
  vega : vegaLoss N i.spot atVega i.volShock = i.param .betaVega * i.budget
  gamma : gammaLoss N i.spot atGamma i.spotShock = i.param .betaGamma * i.budget
  total : i.param .betaDelta + i.param .betaVega + i.param .betaGamma + i.param .betaCross ≤ 1 →
    deltaLoss N i.spot atDelta i.spotShock + vegaLoss N i.spot atVega i.volShock +
      gammaLoss N i.spot atGamma i.spotShock + i.caps.crossUsd ≤ i.budget
  fall : CapsFall i

section Fall
variable {i j : Inputs}

theorem budget_congr (hnav : j.navBase = i.navBase) (halpha : j.param .alpha = i.param .alpha) :
    j.budget = i.budget := by
  rw [Inputs.budget, Inputs.budget, hnav, halpha]

/-- Delta and gamma caps fall with the shock of the spot. -/
theorem spotCaps_le (hbudget : j.budget = i.budget) (hspot : j.spot = i.spot)
    (hdelta : j.param .betaDelta = i.param .betaDelta)
    (hgamma : j.param .betaGamma = i.param .betaGamma) (hshock : i.spotShock ≤ j.spotShock) :
    j.caps.deltaUsd ≤ i.caps.deltaUsd ∧ j.caps.gammaPip ≤ i.caps.gammaPip := by
  have hs := i.spotShock_pos
  have hbudget_pos := i.budget_pos
  have hspot_pos := i.spot_pos
  have hbetaDelta := i.weight_nonneg (p := .betaDelta) rfl
  have hbetaGamma := i.weight_nonneg (p := .betaGamma) rfl
  rw [Inputs.caps_eq, Inputs.caps_eq, hbudget, hspot, hdelta, hgamma]
  constructor
  · dsimp only
    gcongr
  · dsimp only
    gcongr

theorem vegaCap_le (hbudget : j.budget = i.budget) (hvega : j.param .betaVega = i.param .betaVega)
    (hshock : i.volShock ≤ j.volShock) : j.caps.vegaUsd ≤ i.caps.vegaUsd := by
  have hv := i.volShock_pos
  have hbudget_pos := i.budget_pos
  have hbetaVega := i.weight_nonneg (p := .betaVega) rfl
  rw [Inputs.caps_eq, Inputs.caps_eq, hbudget, hvega]
  dsimp only
  gcongr

theorem caps_fall (i : Inputs) : CapsFall i where
  regime j hnav hspot hparam hregime := by
    have hbudget : j.budget = i.budget := budget_congr hnav (congrFun hparam _)
    have hspotShock : i.spotShock ≤ j.spotShock := by
      rw [Inputs.spotShock, Inputs.spotShock, hparam]
      exact mul_le_mul_of_nonneg_left hregime i.shockSpot_pos.le
    have hvolShock : i.volShock ≤ j.volShock := by
      rw [Inputs.volShock, Inputs.volShock, hparam]
      exact mul_le_mul_of_nonneg_left hregime i.shockVol_pos.le
    have hcaps := spotCaps_le hbudget hspot (congrFun hparam _) (congrFun hparam _) hspotShock
    intro a
    cases a with
    | delta => exact hcaps.1
    | vega => exact vegaCap_le hbudget (congrFun hparam _) hvolShock
    | gamma => exact hcaps.2
  spot j hnav hspot hregime hparam hshock := by
    have hspotShock : i.spotShock ≤ j.spotShock := by
      rw [Inputs.spotShock, Inputs.spotShock, hregime]
      exact mul_le_mul_of_nonneg_right hshock i.regimeMult_pos.le
    exact spotCaps_le (budget_congr hnav (hparam _ nofun)) hspot (hparam _ nofun) (hparam _ nofun)
      hspotShock
  vol j hnav _ hregime hparam hshock := by
    have hvolShock : i.volShock ≤ j.volShock := by
      rw [Inputs.volShock, Inputs.volShock, hregime]
      exact mul_le_mul_of_nonneg_right hshock i.regimeMult_pos.le
    exact vegaCap_le (budget_congr hnav (hparam _ nofun)) (hparam _ nofun) hvolShock

end Fall

/-- The caps project the loss budget just where the spot is one or nothing is budgeted for gamma. -/
theorem caps_project_iff (N : Numerics) (i : Inputs) (atDelta atVega atGamma : List Holding)
    (hdelta : i.AtCap N atDelta .delta) (hvega : i.AtCap N atVega .vega)
    (hgamma : i.AtCap N atGamma .gamma) :
    CapsProject N i atDelta atVega atGamma ↔ i.spot = 1 ∨ i.param .betaGamma = 0 := by
  have hloss := Inputs.gammaLoss_atCap hgamma
  constructor
  · intro h
    have hboth := hloss.symm.trans h.gamma
    by_cases hbeta : i.param .betaGamma = 0
    · exact .inr hbeta
    · have hne : i.param .betaGamma * i.budget ≠ 0 := mul_ne_zero hbeta i.budget_pos.ne'
      exact .inl (mul_left_cancel₀ hne (hboth.trans (mul_one _).symm))
  · intro h
    have hgammaLoss : gammaLoss N i.spot atGamma i.spotShock = i.param .betaGamma * i.budget := by
      rcases h with h | h
      · rw [hloss, h, mul_one]
      · rw [hloss, h]
        ring
    refine ⟨Inputs.deltaLoss_atCap hdelta, Inputs.vegaLoss_atCap hvega, hgammaLoss, ?_, caps_fall i⟩
    intro hsum
    have hcross : i.caps.crossUsd = i.param .betaCross * i.budget := by rw [Inputs.caps_eq]
    rw [Inputs.deltaLoss_atCap hdelta, Inputs.vegaLoss_atCap hvega, hgammaLoss, hcross]
    have hscaled := mul_le_mul_of_nonneg_right hsum i.budget_pos.le
    linarith

/-- Books at the caps of the default parameters, at parity and at 1.08. -/
def atDefaults (navBase spot : ℚ) (hnav : 0 < navBase) (hspot : 0 < spot) : Inputs where
  navBase := navBase
  spot := spot
  regimeMult := 1
  params _ := none
  navBase_pos := hnav
  spot_pos := hspot
  regimeMult_pos := one_pos
  valid := nofun
  shockSpot_pos := by decide +kernel
  shockVol_pos := by decide +kernel

def euroFuture : Instrument := ⟨.future, 125000, none, none, none⟩

def quarterCall (K : ℚ) : Instrument := ⟨.call, 125000, some K, some (90 / 365), some (7 / 100)⟩

def atParity : Inputs := atDefaults 1250000 1 (by norm_num) one_pos

def callsAt (cap : ℚ) (a : Axis) : List Holding :=
  [⟨quarterCall 1, cap / a.position (bookOf nearTheMoney 1 [⟨quarterCall 1, 1⟩])⟩]

theorem caps_project_atParity :
    CapsProject nearTheMoney atParity [⟨euroFuture, 3⟩] (callsAt atParity.caps.vegaUsd .vega)
      (callsAt atParity.caps.gammaPip .gamma) :=
  (caps_project_iff nearTheMoney atParity _ _ _ (by unfold Inputs.AtCap; decide +kernel)
    (by unfold Inputs.AtCap; decide +kernel) (by unfold Inputs.AtCap; decide +kernel)).mpr (.inl rfl)

/-- The spot and NAV of the docstring of `compute_caps`. -/
def documented : Inputs := atDefaults 812000 (108 / 100) (by norm_num) (by norm_num)

def documentedCalls : List Holding :=
  [⟨quarterCall (108 / 100), documented.caps.gammaPip /
    (bookOf nearTheMoney (108 / 100) [⟨quarterCall (108 / 100), 1⟩]).gammaUsdPerPip⟩]

/-- Calls at the gamma cap lose eight percent more than the budget of the axis. -/
theorem gamma_cap_loses_more : documented.AtCap nearTheMoney documentedCalls .gamma ∧
    gammaLoss nearTheMoney documented.spot documentedCalls documented.spotShock = 10962 ∧
    documented.param .betaGamma * documented.budget = 10150 := by
  unfold Inputs.AtCap
  decide +kernel

end FxVol.GreekLimits
