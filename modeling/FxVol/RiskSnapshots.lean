import FxVol.PositionMarks
import FxVol.StructurePnl

/-!
# The risk engine

A cycle takes the mirror of the IB positions, publishes the sum of their greeks and a P&L curve, and
persists the greeks of each.  The columns are rounded; the rounding is a parameter, so that what is
due to it can be told from the rest.
-/
namespace FxVol.RiskSnapshots

open Greeks VolSurface TradePreviews

/-- A rounding to so many digits, off by half of `unit` in the last of them at most. -/
structure Rounding where
  unit : ℚ
  round : ℚ → ℕ → ℚ
  near : ∀ x digits, |round x digits - x| ≤ unit / 2 / 10 ^ digits

namespace Rounding

def python : Rounding := ⟨1, pyRound, pyRound_near⟩

def exact : Rounding := ⟨0, fun x _ => x, fun x digits => by simp⟩

end Rounding

/-- `scipy.optimize.brentq` beside the rest: a root of a function between two bounds, none where it
raises. -/
structure RiskNumerics extends vol : VolSurface.Numerics where
  brentq : (ℚ → ℚ) → ℚ → ℚ → Option ℚ

/-- A row of `open_position` with its entry price -/
structure HeldRow extends OpenPosition where
  contractPriceEntry : Option ℚ
  deriving DecidableEq

structure RiskPosition where
  id : ℕ
  instrumentType : InstrumentType
  quantity : ℚ
  strike : Option ℚ
  optionType : Option ContractType
  T : ℚ
  tenor : Tenor
  costPerUnit : ℚ
  multiplier : ℚ
  deriving DecidableEq

def daysToTenorBucket (days : ℤ) : Tenor :=
  if days ≤ 30 then .m1
  else if days ≤ 60 then .m2
  else if days ≤ 90 then .m3
  else if days ≤ 120 then .m4
  else if days ≤ 150 then .m5
  else .m6

/-- `_load_positions_from_db` -/
def loadPosition (today : ℤ) (row : HeldRow) : Option RiskPosition :=
  (parseLocalSymbol row.localSymbol).map fun spec =>
    let dteDays := row.expiry.elim 0 fun expiry => expiry.toOrdinal - today
    { id := row.id
      instrumentType := spec.instrumentType
      quantity := sideSign row.side * row.quantity
      strike := spec.strike
      optionType := spec.optionType.filter fun right => right ≠ .future
      T := (max dteDays 0 : ℤ) / 365
      tenor := daysToTenorBucket dteDays
      costPerUnit := row.contractPriceEntry.getD 0
      multiplier := spec.multiplier }

def RiskPosition.option (p : RiskPosition) : Option (ℚ × ContractType) :=
  p.optionType.bind fun right =>
    if p.strike.getD 0 ≤ 0 ∨ p.T ≤ 0 then none else some (p.strike.getD 0, right)

/-- What a cycle that persists reads: the mirror, the published spot, the surface if there is one, the
marks and the P&L that Redis has, and which rows are still there when their greeks are written. -/
structure RiskCycle where
  rows : List HeldRow
  today : ℤ
  F : ℚ
  spot_pos : 0 < F
  surface : Option Surface
  optionMarks : ℕ → Option ℚ
  contractMarks : ℕ → Option ℚ
  unrealizedPnl : ℕ → Option ℚ
  kept : ℕ → Bool

def RiskCycle.positions (c : RiskCycle) : List RiskPosition := c.rows.filterMap (loadPosition c.today)

def fallbackIv : ℚ := 8 / 100

section Cycle
variable (N : RiskNumerics) (ρ : Rounding) (c : RiskCycle) (p : RiskPosition)

def bsImpliedVol (price F K T : ℚ) (right : ContractType) : Option ℚ :=
  let lo := 1 / 10 ^ 4
  let hi := 5
  let f := fun sigma => bsPrice N.vol.toNumerics F K T sigma right - price
  if price ≤ 0 ∨ F ≤ 0 ∨ K ≤ 0 ∨ T ≤ 0 then none
  else if price < max (if right = .call then F - K else K - F) 0 - 1 / 10 ^ 8 then none
  else if 0 < f lo * f hi then none
  else N.brentq f lo hi

def ivFor (K : ℚ) : Option ℚ :=
  (ivAtStrike N.vol c.surface p.tenor K c.F p.T).map (·.iv)

def ivOrFallback (K : ℚ) : ℚ := (ivFor N c p K).getD fallbackIv

def markIv (K : ℚ) (right : ContractType) : Option ℚ :=
  (c.optionMarks p.id).bind fun mark => bsImpliedVol N mark c.F K p.T right

/-- The volatility of `_persist_position_snapshots` -/
def persistIv (K : ℚ) (right : ContractType) : ℚ :=
  ((ivFor N c p K).or (markIv N c p K right)).getD fallbackIv

def persistedGreeks : Option PositionGreeks :=
  if p.instrumentType = .future then some (futureGreeks p.quantity p.multiplier c.F)
  else p.option.map fun (K, right) =>
    optionGreeks N.vol.toNumerics p.quantity p.multiplier c.F K p.T (persistIv N c p K right) right

/-- The P&L by Black-Scholes, none where the entry price is unknown -/
def bsPnl : Option ℚ :=
  if p.costPerUnit = 0 then none
  else if p.instrumentType = .future then
    some ((c.F - p.costPerUnit) * p.quantity * p.multiplier)
  else p.option.map fun (K, right) =>
    (bsPrice N.vol.toNumerics c.F K p.T (persistIv N c p K right) right - p.costPerUnit) *
      p.quantity * p.multiplier

/-- The columns that a cycle writes to `open_position` and copies to `open_position_history` -/
structure SnapshotRow where
  positionId : ℕ
  marketPrice : Option ℚ
  currentPnlUsd : Option ℚ
  deltaUsd : Option ℚ
  gammaUsd : Option ℚ
  vegaUsd : Option ℚ
  thetaUsd : Option ℚ
  iv : Option ℚ
  vannaUsd : Option ℚ
  volgaUsd : Option ℚ
  deriving DecidableEq

def snapshotRow : SnapshotRow :=
  let g := persistedGreeks N c p
  let iv := if p.instrumentType = .future then none
    else p.option.map fun (K, right) => persistIv N c p K right
  { positionId := p.id
    marketPrice := (c.contractMarks p.id).map fun x => ρ.round x 8
    currentPnlUsd := ((c.unrealizedPnl p.id).or (bsPnl N c p)).map fun x => ρ.round x 2
    deltaUsd := g.map fun g => ρ.round g.deltaUsd 2
    gammaUsd := g.map fun g => ρ.round g.gammaUsdPerPip 2
    vegaUsd := g.map fun g => ρ.round g.vegaUsdPerVolpt 2
    thetaUsd := g.map fun g => ρ.round g.thetaUsdPerDay 2
    iv := iv.map fun x => ρ.round x 5
    vannaUsd := g.map fun g => ρ.round g.vannaUsdPerVolpt 2
    volgaUsd := g.map fun g => ρ.round g.volgaUsdPerVolpt2 2 }

def persistPositionSnapshots : List SnapshotRow :=
  (c.positions.filter fun p => c.kept p.id).map (snapshotRow N ρ c)

def aggregatedGreeks : Option PositionGreeks :=
  if p.instrumentType = .future then some (futureGreeks p.quantity p.multiplier c.F)
  else p.option.map fun (K, right) =>
    optionGreeks N.vol.toNumerics p.quantity p.multiplier c.F K p.T (ivOrFallback N c p K) right

structure RiskUpdate where
  greeks : PositionGreeks
  nPositions : ℕ
  nPriced : ℕ

def aggregateGreeks : RiskUpdate :=
  let items := c.positions.filterMap (aggregatedGreeks N c)
  ⟨sumGreeks items, c.positions.length, items.length⟩

def curveTerm (spot : ℚ) : ℚ :=
  match p.optionType with
  | none => if p.instrumentType = .future then (spot - p.costPerUnit) * p.quantity else 0
  | some right =>
    if p.strike.getD 0 ≤ 0 ∨ p.T ≤ 0 then 0
    else (bsPriceVec N.vol.toNumerics spot (p.strike.getD 0) p.T
      (ivOrFallback N c p (p.strike.getD 0)) right - p.costPerUnit) * p.quantity

def curveAt (spot : ℚ) : ℚ := (c.positions.map fun p => curveTerm N c p spot).sum

/-- `np.linspace` over two per cent on both sides of the spot -/
def curveSpots : List ℚ :=
  let lo := c.F * (1 - 2 / 100)
  let hi := c.F * (1 + 2 / 100)
  (List.range 120).map fun i => lo + i * ((hi - lo) / 119)

def computePnlCurve : List (ℚ × ℚ) := (curveSpots c).map fun spot => (spot, curveAt N c spot)

end Cycle

end FxVol.RiskSnapshots
