import FxVol.StructureCompletion
import FxVol.ContractSymbols
import Mathlib.Tactic.Ring

/-!
# Greeks in desk units

The Black-Scholes greeks of `core.pricing.bs` and `core.trade_preview`, and the one scaling path of
`core.risk.greek_scaling`: delta in USD, gamma in USD per pip, vega in USD per vol point.  Floats
are exact rationals.
-/
namespace FxVol.Greeks

/-- `math` and `scipy.stats.norm`.  Nothing is asked of the elementary functions; the normal
distribution is documented in terms of them. -/
structure Numerics where
  exp : ℚ → ℚ
  log : ℚ → ℚ
  sqrt : ℚ → ℚ
  erf : ℚ → ℚ
  pi : ℚ
  normCdf : ℚ → ℚ
  normPdf : ℚ → ℚ
  normCdf_eq : ∀ x, normCdf x = 1 / 2 * (1 + erf (x / sqrt 2))
  normPdf_eq : ∀ x, normPdf x = exp (-(1 / 2) * x * x) / sqrt (2 * pi)

def pipSize : ℚ := 1 / 10000

def volpt : ℚ := 1 / 100

variable (N : Numerics)

section Pricing
variable (F K T sigma : ℚ)

/-- The arguments no formula is evaluated at. -/
def Degenerate : Prop := sigma ≤ 0 ∨ T ≤ 0 ∨ F ≤ 0 ∨ K ≤ 0

instance : Decidable (Degenerate F K T sigma) := by unfold Degenerate; infer_instance

def bsD1 : ℚ := (N.log (F / K) + 1 / 2 * (sigma * sigma) * T) / (sigma * N.sqrt T)

def bsD2 : ℚ := bsD1 N F K T sigma - sigma * N.sqrt T

def bsDelta (right : ContractType) : ℚ :=
  if Degenerate F K T sigma then 0
  else if right = .call then N.normCdf (bsD1 N F K T sigma)
  else N.normCdf (bsD1 N F K T sigma) - 1

def bsGamma : ℚ :=
  if Degenerate F K T sigma then 0
  else N.normPdf (bsD1 N F K T sigma) / (F * sigma * N.sqrt T)

def bsVega : ℚ :=
  if Degenerate F K T sigma then 0 else F * N.normPdf (bsD1 N F K T sigma) * N.sqrt T

def bsTheta : ℚ :=
  if Degenerate F K T sigma then 0
  else -(F * N.normPdf (bsD1 N F K T sigma) * sigma) / (2 * N.sqrt T) / 365

def bsVanna : ℚ :=
  if Degenerate F K T sigma then 0
  else -N.normPdf (bsD1 N F K T sigma) * bsD2 N F K T sigma / sigma

def bsVolga : ℚ :=
  if Degenerate F K T sigma then 0
  else F * N.normPdf (bsD1 N F K T sigma) * N.sqrt T * bsD1 N F K T sigma * bsD2 N F K T sigma /
    sigma

end Pricing

def phi (x : ℚ) : ℚ := N.exp (-(1 / 2) * x * x) / N.sqrt (2 * N.pi)

/-- `_N` -/
def cumulative (x : ℚ) : ℚ := 1 / 2 * (1 + N.erf (x / N.sqrt 2))

structure RawGreeks where
  delta : ℚ
  gamma : ℚ
  vega : ℚ
  theta : ℚ

/-- `bs_greeks`, theta per year -/
def bsGreeks (F K T sigma : ℚ) (right : ContractType) : RawGreeks :=
  if Degenerate F K T sigma then ⟨0, 0, 0, 0⟩
  else
    let d1 := bsD1 N F K T sigma
    { delta := if right = .call then cumulative N d1 else cumulative N d1 - 1
      gamma := phi N d1 / (F * sigma * N.sqrt T)
      vega := F * phi N d1 * N.sqrt T
      theta := -F * phi N d1 * sigma / (2 * N.sqrt T) }

section Agreement
variable (F K T sigma : ℚ) (right : ContractType)

theorem phi_eq (x : ℚ) : phi N x = N.normPdf x := (N.normPdf_eq x).symm

theorem cumulative_eq (x : ℚ) : cumulative N x = N.normCdf x := (N.normCdf_eq x).symm

theorem bsGreeks_delta : (bsGreeks N F K T sigma right).delta = bsDelta N F K T sigma right := by
  unfold bsGreeks bsDelta
  by_cases h : Degenerate F K T sigma
  · rw [if_pos h, if_pos h]
  · rw [if_neg h, if_neg h]
    simp only [cumulative_eq]

theorem bsGreeks_gamma : (bsGreeks N F K T sigma right).gamma = bsGamma N F K T sigma := by
  unfold bsGreeks bsGamma
  by_cases h : Degenerate F K T sigma
  · rw [if_pos h, if_pos h]
  · rw [if_neg h, if_neg h]
    simp only [phi_eq]

theorem bsGreeks_vega : (bsGreeks N F K T sigma right).vega = bsVega N F K T sigma := by
  unfold bsGreeks bsVega
  by_cases h : Degenerate F K T sigma
  · rw [if_pos h, if_pos h]
  · rw [if_neg h, if_neg h]
    simp only [phi_eq]

end Agreement

structure PositionGreeks where
  deltaEur : ℚ
  deltaUsd : ℚ
  gammaUsdPerPip : ℚ
  vegaUsdPerVolpt : ℚ
  thetaUsdPerDay : ℚ
  vannaUsdPerVolpt : ℚ
  volgaUsdPerVolpt2 : ℚ
  deriving DecidableEq

def futureGreeks (qty mult F : ℚ) : PositionGreeks :=
  ⟨qty * mult, qty * mult * F, 0, 0, 0, 0, 0⟩

def optionGreeks (qty mult F K T iv : ℚ) (right : ContractType) : PositionGreeks :=
  let qm := qty * mult
  { deltaEur := qm * bsDelta N F K T iv right
    deltaUsd := qm * bsDelta N F K T iv right * F
    gammaUsdPerPip := qm * bsGamma N F K T iv * pipSize
    vegaUsdPerVolpt := qm * bsVega N F K T iv * volpt
    thetaUsdPerDay := qm * bsTheta N F K T iv
    vannaUsdPerVolpt := qm * bsVanna N F K T iv * volpt
    volgaUsdPerVolpt2 := qm * bsVolga N F K T iv * volpt * volpt }

structure Instrument where
  contractType : ContractType
  mult : ℚ
  strike : Option ℚ
  expiryYears : Option ℚ
  iv : Option ℚ
  deriving DecidableEq

/-- `position_greeks`: none where an option cannot be priced. -/
def positionGreeks (i : Instrument) (qty F : ℚ) : Option PositionGreeks :=
  match i.contractType with
  | .future => some (futureGreeks qty i.mult F)
  | right =>
    match i.strike, i.expiryYears, i.iv with
    | some K, some T, some iv =>
      if 0 < K ∧ 0 < T ∧ 0 < iv then some (optionGreeks N qty i.mult F K T iv right) else none
    | _, _, _ => none

def sumGreeks (items : List PositionGreeks) : PositionGreeks where
  deltaEur := (items.map (·.deltaEur)).sum
  deltaUsd := (items.map (·.deltaUsd)).sum
  gammaUsdPerPip := (items.map (·.gammaUsdPerPip)).sum
  vegaUsdPerVolpt := (items.map (·.vegaUsdPerVolpt)).sum
  thetaUsdPerDay := (items.map (·.thetaUsdPerDay)).sum
  vannaUsdPerVolpt := (items.map (·.vannaUsdPerVolpt)).sum
  volgaUsdPerVolpt2 := (items.map (·.volgaUsdPerVolpt2)).sum

/-- Whether `position_greeks` can price the contract. -/
def Instrument.Priceable (i : Instrument) : Prop :=
  i.contractType = .future ∨
    ∃ K ∈ i.strike, ∃ T ∈ i.expiryYears, ∃ iv ∈ i.iv, 0 < K ∧ 0 < T ∧ 0 < iv

theorem positionGreeks_isSome (i : Instrument) (qty F : ℚ) :
    (positionGreeks N i qty F).isSome ↔ i.Priceable := by
  unfold positionGreeks Instrument.Priceable
  cases i.contractType with
  | future => simp
  | call | put =>
    cases i.strike <;> cases i.expiryYears <;> cases i.iv <;> simp

end FxVol.Greeks
