import FxVol.PlacementSystem
import Mathlib.Algebra.Order.Ring.Rat

/-!
# The delta hedger

For each open position a monitor cycle re-prices the entry legs, nets the hedges of the
position that are still in flight and decides whether a new `hedge_order` row is due.  The
execution engine then submits the row and marks it filled.
-/
namespace FxVol

/-- One row of `hedge_order` with the columns the monitor writes. -/
structure PositionHedge extends HedgeOrder where
  positionId : ℕ
  triggeredAt : Instant
  deltaImbalanceAtTrigger : ℚ
  rebalanceThresholdUsed : ℚ
  deriving DecidableEq

namespace PositionPricing

structure LegSpec where
  legIdx : ℕ
  contractType : ContractType
  strike : ℚ
  expiry : Date
  side : Side
  qty : ℕ
  fallbackIv : Option ℚ
  deriving DecidableEq

/-- What a cycle prices with: `iv_at_strike` on the cached surface, which is `none` at every
leg when there is no surface, and `bs_delta` at the spot and the instant of the cycle. -/
structure Market where
  ivAtStrike : LegSpec → Option ℚ
  bsDelta : LegSpec → ℚ → ℚ

structure PositionMark where
  totalDelta : ℚ
  nSurfaceMissing : ℕ
  deriving DecidableEq

def LegSpec.qtySigned (leg : LegSpec) : ℚ := sideSign leg.side * leg.qty

namespace PositionMark

def miss (m : PositionMark) (n : ℕ) : PositionMark :=
  { m with nSurfaceMissing := m.nSurfaceMissing + n }

def priced (m : PositionMark) (market : Market) (leg : LegSpec) (sigma : ℚ) : PositionMark :=
  { m with totalDelta := m.totalDelta + market.bsDelta leg sigma * leg.qtySigned }

/-- One leg of `price_position`.  The surface gives the volatility, else the entry preview
does and the leg counts as missing; a leg that cannot be priced counts once more. -/
def addLeg (market : Market) (m : PositionMark) (leg : LegSpec) : PositionMark :=
  match market.ivAtStrike leg, leg.fallbackIv with
  | some sigma, _ => if sigma ≤ 0 then m.miss 1 else m.priced market leg sigma
  | none, some sigma => if sigma ≤ 0 then m.miss 2 else (m.priced market leg sigma).miss 1
  | none, none => m.miss 1

end PositionMark

def pricePosition (market : Market) (legs : List LegSpec) : PositionMark :=
  legs.foldl (PositionMark.addLeg market) ⟨0, 0⟩

end PositionPricing

open PositionPricing (Market PositionMark pricePosition)

/-- The leg `_reprice_position` makes of an entry row; a row without strike or expiry, such
as a future, gives none. -/
def StructureOrder.legSpec (o : StructureOrder) : Option PositionPricing.LegSpec :=
  match o.contractStrike, o.contractExpiry with
  | some strike, some expiry =>
    let qtyEff := if 0 < o.qtyFilled then o.qtyFilled else o.qty
    if qtyEff = 0 then none
    else some
      { legIdx := o.legIdx
        contractType := o.contractType
        strike := strike
        expiry := expiry
        side := o.side
        qty := qtyEff
        fallbackIv := o.previewIvPct.bind fun iv => if iv = 0 then none else some (iv / 100) }
  | _, _ => none

/-- `_reprice_position`.  The legs are summed, so their order by `leg_idx` is left out. -/
def repricePosition (db : Db) (structureId : ℕ) (market : Market) : Option PositionMark :=
  let rows := (db.ordersOf structureId).filter fun p => p.1.orderRole = .entry
  let legs := rows.filterMap fun p => p.1.legSpec
  if legs = [] then none else some (pricePosition market legs)

/-- `current_delta_unhedged` of `_monitor_one`: unknown unless every leg has a live mark. -/
def currentDeltaUnhedged (db : Db) (structureId : ℕ) (market : Market) : Option ℚ :=
  match repricePosition db structureId market with
  | some mark => if mark.nSurfaceMissing = 0 then some mark.totalDelta else none
  | none => none

structure HedgeConfig where
  rebalanceThresholdDelta : ℚ
  minHedgeQty : ℤ
  maxHedgeFrequencySeconds : ℚ
  deriving DecidableEq

/-- The defaults of `_load_hedge_config`, which the seed of the table repeats. -/
def HedgeConfig.defaults : HedgeConfig where
  rebalanceThresholdDelta := 5 / 100
  minHedgeQty := 1
  maxHedgeFrequencySeconds := 300

inductive SkipReason | belowThreshold | roundedToZero | cooldown | noDeltaAvailable
  deriving DecidableEq

inductive HedgeDecision
  | skip (deltaImbalance thresholdUsed : ℚ) (reason : SkipReason)
  | hedge (hedgeQty : ℕ) (side : Side) (deltaImbalance thresholdUsed residual : ℚ)
  deriving DecidableEq

namespace PositionHedge

/-- The futures delta the hedge adds once it fills. -/
def signedQty (h : PositionHedge) : ℚ := sideSign h.side * h.hedgeQty

def InFlight (h : PositionHedge) : Prop := h.state = .pending ∨ h.state = .submitted

instance (h : PositionHedge) : Decidable h.InFlight := inferInstanceAs (Decidable (_ ∨ _))

end PositionHedge

def hedgesOf (hedges : List PositionHedge) (positionId : ℕ) : List PositionHedge :=
  hedges.filter fun h => h.positionId = positionId

def inFlightOf (hedges : List PositionHedge) (positionId : ℕ) : List PositionHedge :=
  (hedgesOf hedges positionId).filter fun h => h.InFlight

def netPendingHedgeDelta (deltaUnhedged : Option ℚ) (pending : List PositionHedge) : Option ℚ :=
  deltaUnhedged.map fun delta => delta + (pending.map PositionHedge.signedQty).sum

/-- `triggered_at` of the latest hedge of the position, whatever its state. -/
def lastHedgeAt (hedges : List PositionHedge) (positionId : ℕ) : Option Instant :=
  ((hedgesOf hedges positionId).map (·.triggeredAt)).max?

def onCooldown (lastHedgeAt : Option Instant) (now : Instant) (cooldownSeconds : ℚ) : Prop :=
  ∃ last ∈ lastHedgeAt, 0 < cooldownSeconds ∧ ((now - last : ℤ) : ℚ) / 1000000 < cooldownSeconds

instance (last : Option Instant) (now : Instant) (cooldown : ℚ) :
    Decidable (onCooldown last now cooldown) :=
  inferInstanceAs (Decidable (∃ _ ∈ last, _))

def checkDeltaHedgeNeeded (deltaUnhedged : Option ℚ) (cfg : HedgeConfig)
    (lastHedgeAt : Option Instant) (now : Instant) : HedgeDecision :=
  match deltaUnhedged with
  | none => .skip 0 cfg.rebalanceThresholdDelta .noDeltaAvailable
  | some delta =>
    if |delta| < cfg.rebalanceThresholdDelta then
      .skip delta cfg.rebalanceThresholdDelta .belowThreshold
    else if onCooldown lastHedgeAt now cfg.maxHedgeFrequencySeconds then
      .skip delta cfg.rebalanceThresholdDelta .cooldown
    else if ((roundHalfEven delta).natAbs : ℤ) < cfg.minHedgeQty then
      .skip delta cfg.rebalanceThresholdDelta .roundedToZero
    else
      .hedge (roundHalfEven delta).natAbs (if 0 < delta then .sell else .buy) delta
        cfg.rebalanceThresholdDelta (delta - roundHalfEven delta)

/-- `delta_for_decision` of `_monitor_one`. -/
def deltaForDecision (hedges : List PositionHedge) (positionId : ℕ) (current : Option ℚ) : Option ℚ :=
  netPendingHedgeDelta current (inFlightOf hedges positionId)

/-- `current_delta_unhedged` of an open position, as the cycle reads the tables. -/
def optionDelta (db : Db) (positionId : ℕ) (market : Market) : Option ℚ :=
  (db.bookedPositions[positionId]?).bind fun pos => currentDeltaUnhedged db pos.structureId market

/-- The delta hedge of `_monitor_one`; a cycle visits the open positions only. -/
def monitorOne (cfg : HedgeConfig) (hedges : List PositionHedge) (db : Db) (positionId : ℕ)
    (market : Market) (now : Instant) : List PositionHedge :=
  if (db.bookedPositions[positionId]?).map (·.state) = some .open then
    match checkDeltaHedgeNeeded
        (deltaForDecision hedges positionId (optionDelta db positionId market)) cfg
        (lastHedgeAt hedges positionId) now with
    | .hedge qty side imbalance threshold _ => hedges ++
      [{ HedgeOrder.new side qty with
         positionId := positionId
         triggeredAt := now
         deltaImbalanceAtTrigger := imbalance
         rebalanceThresholdUsed := threshold }]
    | .skip .. => hedges
  else hedges

/-- What happens to the hedge table.  A monitor cycle reads the trading tables as they are by
then; `submit_hedge_order` stamps a pending row or fails it, and `_finalise_hedge` runs on
the IB status `Filled`. -/
inductive HedgerEvent
  | monitor (tables : Db) (positionId : ℕ) (market : Market) (now : Instant)
  | submitted (hedgeId : ℕ) (ids : IbIds) (now : Instant)
  | failed (hedgeId : ℕ)
  | filled (hedgeId : ℕ)

namespace PositionHedge

def submit (h : PositionHedge) (ids : IbIds) (now : Instant) : PositionHedge :=
  if h.state = .pending then
    { h with state := .submitted, ibOrderId := ids.orderId, submittedAt := some now }
  else h

def fail (h : PositionHedge) : PositionHedge :=
  if h.state = .pending then { h with state := .failed } else h

/-- `_finalise_hedge`, whose callback is wired once the row has been submitted. -/
def finalise (h : PositionHedge) : PositionHedge :=
  if h.state = .submitted then { h with state := .filled } else h

end PositionHedge

def hedgerStep (cfg : HedgeConfig) (hedges : List PositionHedge) :
    HedgerEvent → List PositionHedge
  | .monitor db positionId market now => monitorOne cfg hedges db positionId market now
  | .submitted hedgeId ids now => hedges.modify hedgeId fun h => h.submit ids now
  | .failed hedgeId => hedges.modify hedgeId PositionHedge.fail
  | .filled hedgeId => hedges.modify hedgeId PositionHedge.finalise

end FxVol
