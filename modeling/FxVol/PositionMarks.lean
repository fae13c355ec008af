import FxVol.VolSurface
import FxVol.DeltaHedge
import FxVol.BookState
import FxVol.OptionPrices

/-!
# The mark of a booked position

What a monitor cycle makes of an open position: the entry legs re-priced on the surface, the P&L
against the entry premium, and its attribution to the entry greeks.
-/
namespace FxVol

def isLeapYear (year : ℕ) : Prop := year % 4 = 0 ∧ (year % 100 ≠ 0 ∨ year % 400 = 0)

instance (year : ℕ) : Decidable (isLeapYear year) := inferInstanceAs (Decidable (_ ∧ _))

def daysBeforeMonth (year month : ℕ) : ℕ :=
  ([31, 28, 31, 30, 31, 30, 31, 31, 30, 31, 30].take (month - 1)).sum +
    if 2 < month ∧ isLeapYear year then 1 else 0

def Date.toOrdinal (d : Date) : ℤ :=
  let y := d.year - 1
  (y * 365 + y / 4 - y / 100 + y / 400 + daysBeforeMonth d.year d.month + d.day : ℕ)

/-- `now.date().toordinal()` -/
def dateOrdinal (now : Instant) : ℤ := now / 86400000000 + 719163

example : (Date.mk 1970 1 1).toOrdinal = dateOrdinal 0 := by decide

namespace PositionMarks

open Greeks VolSurface TradePreviews BookState

/-- What a cycle prices with; `spot` is the spot it takes when the surface has none. -/
structure Quotes where
  surface : Option Surface
  spot : ℚ
  now : Instant

def yearsToExpiry (expiry : Date) (now : Instant) : ℚ :=
  ((max 0 (expiry.toOrdinal - dateOrdinal now) : ℤ) : ℚ) / 365

def tenorFromExpiry (expiry : Date) (now : Instant) : Tenor :=
  let days := max 1 (expiry.toOrdinal - dateOrdinal now)
  (([Tenor.m1, .m2, .m3, .m6]).argmin fun t => ((t.dte : ℤ) - days).natAbs).getD .m1

/-- `PositionMark`; its legs are diagnostic. -/
structure PositionMark where
  markValueUsd : ℚ
  totalDelta : ℚ
  totalGammaUsdPerPip2 : ℚ
  totalVegaUsdPerVolpt : ℚ
  totalThetaUsdPerDay : ℚ
  nSurfaceMissing : ℕ
  deriving DecidableEq

variable (N : VolSurface.Numerics) (q : Quotes)

def legIv (leg : PositionPricing.LegSpec) : Option IvResult :=
  ivAtStrike N q.surface (tenorFromExpiry leg.expiry q.now) leg.strike q.spot
    (yearsToExpiry leg.expiry q.now)

def legPrice (leg : PositionPricing.LegSpec) (sigma : ℚ) : ℚ :=
  bsPrice N.toNumerics q.spot leg.strike (yearsToExpiry leg.expiry q.now) sigma leg.contractType

namespace PositionMark

def zero : PositionMark := ⟨0, 0, 0, 0, 0, 0⟩

def miss (m : PositionMark) (n : ℕ) : PositionMark :=
  { m with nSurfaceMissing := m.nSurfaceMissing + n }

def priced (m : PositionMark) (leg : PositionPricing.LegSpec) (sigma : ℚ) : PositionMark :=
  let T := yearsToExpiry leg.expiry q.now
  { m with
    markValueUsd := m.markValueUsd +
      sideSign leg.side * legPrice N q leg sigma * leg.qty * eurFopMultiplier
    totalDelta := m.totalDelta +
      bsDelta N.toNumerics q.spot leg.strike T sigma leg.contractType * leg.qtySigned
    totalGammaUsdPerPip2 := m.totalGammaUsdPerPip2 +
      bsGamma N.toNumerics q.spot leg.strike T sigma * (pipSize * pipSize) * leg.qtySigned *
        eurFopMultiplier
    totalVegaUsdPerVolpt := m.totalVegaUsdPerVolpt +
      bsVega N.toNumerics q.spot leg.strike T sigma * volpt * leg.qtySigned * eurFopMultiplier
    totalThetaUsdPerDay := m.totalThetaUsdPerDay +
      bsTheta N.toNumerics q.spot leg.strike T sigma * leg.qtySigned * eurFopMultiplier }

/-- One leg of `price_position`. -/
def addLeg (m : PositionMark) (leg : PositionPricing.LegSpec) : PositionMark :=
  match legIv N q leg, leg.fallbackIv with
  | some res, _ => if res.iv ≤ 0 then m.miss 1 else m.priced N q leg res.iv
  | none, some sigma => if sigma ≤ 0 then m.miss 2 else (m.priced N q leg sigma).miss 1
  | none, none => m.miss 1

end PositionMark

def pricePosition (legs : List PositionPricing.LegSpec) : PositionMark :=
  legs.foldl (PositionMark.addLeg N q) .zero

def repricePosition (db : Db) (structureId : ℕ) : Option PositionMark :=
  let rows := (db.ordersOf structureId).filter fun p => p.1.orderRole = .entry
  let legs := rows.filterMap fun p => p.1.legSpec
  if legs = [] then none else some (pricePosition N q legs)

def hedgerMarket : PositionPricing.Market where
  ivAtStrike leg := (legIv N q leg).map (·.iv)
  bsDelta leg sigma :=
    bsDelta N.toNumerics q.spot leg.strike (yearsToExpiry leg.expiry q.now) sigma leg.contractType

/-- The delta of the mark, and how many legs the surface misses, are those the delta hedger reads. -/
theorem pricePosition_hedger (legs : List PositionPricing.LegSpec) :
    PositionPricing.pricePosition (hedgerMarket N q) legs =
      ⟨(pricePosition N q legs).totalDelta, (pricePosition N q legs).nSurfaceMissing⟩ := by
  suffices hfold : ∀ m : PositionMark,
      legs.foldl (PositionPricing.PositionMark.addLeg (hedgerMarket N q))
        ⟨m.totalDelta, m.nSurfaceMissing⟩ =
      ⟨(legs.foldl (PositionMark.addLeg N q) m).totalDelta,
        (legs.foldl (PositionMark.addLeg N q) m).nSurfaceMissing⟩ from hfold .zero
  induction legs with
  | nil => exact fun m => rfl
  | cons leg legs ih =>
    intro m
    rw [List.foldl_cons, List.foldl_cons, ← ih]
    congr 1
    simp only [PositionPricing.PositionMark.addLeg, PositionMark.addLeg, hedgerMarket]
    cases legIv N q leg with
    | some res =>
      simp only [Option.map_some]
      split_ifs <;> rfl
    | none =>
      cases leg.fallbackIv with
      | none => rfl
      | some sigma =>
        simp only [Option.map_none]
        split_ifs <;> rfl

theorem repricePosition_hedger (db : Db) (structureId : ℕ) :
    FxVol.repricePosition db structureId (hedgerMarket N q) =
      (repricePosition N q db structureId).map fun m => ⟨m.totalDelta, m.nSurfaceMissing⟩ := by
  simp only [FxVol.repricePosition, repricePosition]
  split_ifs
  · rfl
  · rw [pricePosition_hedger]
    rfl

structure PnlAttribution where
  vegaUsd : ℚ
  gammaUsd : ℚ
  thetaUsd : ℚ
  otherUsd : ℚ
  deriving DecidableEq

def attributePnl (pnlGrossUsd : ℚ) (entry : EntryGreeks)
    (ivEntryPct ivNowPct spotEntry spotNow daysElapsed : ℚ) : PnlAttribution :=
  let vega := entry.vegaUsdPerVolpt.getD 0 * (ivNowPct - ivEntryPct)
  let pips := (spotNow - spotEntry) / pipSize
  let gamma := 1 / 2 * entry.gammaUsdPerPip2.getD 0 * pips * pips
  let theta := entry.thetaUsdPerDay.getD 0 * daysElapsed
  ⟨vega, gamma, theta, pnlGrossUsd - (vega + gamma + theta)⟩

structure MtmResult where
  pnlGrossUsd : ℚ
  pnlNetUsd : ℚ
  markValueUsd : ℚ
  deriving DecidableEq

def computeMtm (entryPremiumUsd markValueUsd entryTotalCostUsd hedgeCostCumulUsd : ℚ) : MtmResult where
  pnlGrossUsd := markValueUsd - entryPremiumUsd
  pnlNetUsd := markValueUsd - entryPremiumUsd - entryTotalCostUsd - hedgeCostCumulUsd
  markValueUsd := markValueUsd

/-- The market snapshot of a cycle; all of it is missing where Redis has no surface. -/
structure Market where
  surface : Option Surface
  spotNow : Option ℚ
  ivNowPct : Option ℚ

/-- `spot_eff`, since no writer fills the `entry_spot` of a position -/
def Market.quotes (m : Market) (now : Instant) : Quotes := ⟨m.surface, m.spotNow.getD (1085 / 1000), now⟩

def Market.ivEff (m : Market) : ℚ := m.ivNowPct.getD 7

def daysElapsed (pos : PositionRow) (now : Instant) : ℚ := ((now - pos.openedAt : ℤ) : ℚ) / 86400000000

/-- What a cycle attributes to the entry greeks; the volatility and the spot of the entry are those
of the cycle, which no writer fills either. -/
def attribution (m : Market) (pos : PositionRow) (now : Instant) (pnlGrossUsd : ℚ) : PnlAttribution :=
  attributePnl pnlGrossUsd pos.entryGreeks m.ivEff m.ivEff (m.quotes now).spot (m.quotes now).spot
    (daysElapsed pos now)

def liveMark (db : Db) (pos : PositionRow) (m : Market) (now : Instant) : Option PositionMark :=
  (repricePosition N (m.quotes now) db pos.structureId).filter fun mark => mark.nSurfaceMissing = 0

/-- `mark_value` of `_monitor_one`: the live mark, else the premium and what the entry greeks make of
the time since. -/
def markValue (db : Db) (pos : PositionRow) (m : Market) (now : Instant) : ℚ :=
  match liveMark N db pos m now with
  | some mark => mark.markValueUsd
  | none =>
    let a := attribution m pos now 0
    pos.entryPremiumUsd + (a.vegaUsd + a.gammaUsd + a.thetaUsd)

/-- The mark to market that `_monitor_one` persists. -/
def monitoredMtm (db : Db) (pos : PositionRow) (m : Market) (now : Instant)
    (hedgeCostCumulUsd : ℚ) : MtmResult :=
  computeMtm pos.entryPremiumUsd (markValue N db pos m now) pos.entryTotalCostUsd hedgeCostCumulUsd

end PositionMarks

end FxVol
