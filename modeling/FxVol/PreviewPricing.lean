import FxVol.GateUnits
import FxVol.OptionPrices

/-!
# What a preview shows

The premiums, the greeks of the legs, the sizing and the checks of `create_preview`, each scaled on
its own way to the size of the trade, and the premium a mock submit books.
-/
namespace FxVol.PreviewPricing

open Greeks TradePreviews GateUnits
open PreviewRequests (Regime)

structure PricingResult where
  legPricesUsd : List ℚ
  totalPremiumUsd : ℚ
  maxLossUsd : ℚ
  maxLossAtExpiryOnly : Bool
  deriving DecidableEq

/-- The premium of one contract of a leg in USD; a future and a leg that cannot be priced have
none. -/
def legPrice (N : Numerics) (spot : ℚ) (leg : Leg) : ℚ :=
  if leg.contractType = .future then 0
  else
    match leg.strike, leg.entryIvPct with
    | some strike, some ivPct =>
      if strike = 0 ∨ ivPct = 0 then 0
      else previewBsPrice N spot strike ((leg.dte : ℚ) / 365) (ivPct / 100) leg.contractType *
        eurFopMultiplier
    | _, _ => 0

def unitPremium (N : Numerics) (spot : ℚ) (legs : List Leg) : ℚ :=
  (legs.map fun leg => sideSign leg.side * legPrice N spot leg * leg.qtyFactor).sum

def priceStructure (N : Numerics) (structure' : Structure) (s : Surface) : PricingResult :=
  let spot := spotFromSurface s
  let total := unitPremium N spot structure'.legs
  { legPricesUsd := structure'.legs.map (legPrice N spot)
    totalPremiumUsd := pyRound total 4
    maxLossUsd := pyRound (if 0 < total then |total| else 1000000000) 4
    maxLossAtExpiryOnly := 0 < total }

structure LegGreeksRow where
  legIdx : ℕ
  contractType : ContractType
  strike : Option ℚ
  side : Side
  qtyFactor : ℤ
  vega : ℚ
  gamma : ℚ
  theta : ℚ
  delta : ℚ
  deriving DecidableEq

def computeLegsGreeks (N : Numerics) (structure' : Structure) (s : Surface) : List LegGreeksRow :=
  structure'.legs.map fun leg =>
    let g := legGreeks N leg (spotFromSurface s) structure'.futMult
    { legIdx := leg.legIdx
      contractType := leg.contractType
      strike := leg.strike
      side := leg.side
      qtyFactor := leg.qtyFactor
      vega := pyRound g.vega 2
      gamma := pyRound g.gamma 6
      theta := pyRound g.theta 2
      delta := pyRound g.delta 4 }

/-- A row at a number of structure units. -/
def LegGreeksRow.scaled (n : ℤ) (r : LegGreeksRow) : LegGreeksRow :=
  { r with
    qtyFactor := r.qtyFactor * n
    vega := r.vega * n
    gamma := r.gamma * n
    theta := r.theta * n
    delta := r.delta * n }

/-- The arguments of `compute_sizing` besides the structure. -/
structure SizingRequest where
  zScore : ℚ
  totalPremium : ℚ
  bookTotalVegaUsd : ℚ
  bookVegaNeutralThreshold : ℚ
  baseQty : ℤ
  thresholdMin : ℚ
  maxZMultiplier : ℚ
  bookAlpha : ℚ
  regime : Option RegimeState
  qtyOverride : Option ℤ

structure SizingResult where
  baseQty : ℤ
  zScoreFactor : ℚ
  bookPenalty : ℚ
  eventDampener : ℚ
  regimeMultiplier : ℚ
  finalQtyPerLeg : ℤ
  legQuantities : List ℤ
  finalPremiumUsd : ℚ
  deriving DecidableEq

namespace SizingRequest
variable (r : SizingRequest)

def zFactor : ℚ :=
  if 0 < r.thresholdMin then min (|r.zScore| / r.thresholdMin) r.maxZMultiplier else 1

/-- A structure that adds to the vega of the book is made smaller. -/
def bookPenalty (vegaSign : VegaSign) : ℚ :=
  if (vegaSign = .positive ∧ 0 < r.bookTotalVegaUsd) ∨
      (vegaSign = .negative ∧ r.bookTotalVegaUsd < 0) then
    max (1 / 2) (1 - r.bookAlpha * (|r.bookTotalVegaUsd| / max r.bookVegaNeutralThreshold 1))
  else 1

def eventDampener : ℚ := if r.regime.any (·.eventDampener) then 1 / 2 else 1

def regimeMult : ℚ := r.regime.elim 1 RegimeState.mult

def finalQty (vegaSign : VegaSign) : ℤ :=
  let rawQty := r.baseQty * r.zFactor * r.bookPenalty vegaSign * r.eventDampener * r.regimeMult
  let sized := if 0 < r.regimeMult then max 1 (roundHalfEven rawQty) else 0
  match r.qtyOverride with
  | some qty => if 0 < qty then qty else sized
  | none => sized

/-- `compute_sizing` -/
def result (structure' : Structure) : SizingResult where
  baseQty := r.baseQty
  zScoreFactor := pyRound r.zFactor 2
  bookPenalty := pyRound (r.bookPenalty structure'.vegaSign) 2
  eventDampener := r.eventDampener
  regimeMultiplier := r.regimeMult
  finalQtyPerLeg := r.finalQty structure'.vegaSign
  legQuantities := structure'.legs.map fun leg => r.finalQty structure'.vegaSign * leg.qtyFactor
  finalPremiumUsd :=
    pyRound (r.totalPremium * ((r.finalQty structure'.vegaSign : ℚ) / max r.baseQty 1)) 2

end SizingRequest

inductive CheckName
  | regimeNotPreEvent | signalStillActionable | vegaUnderBookLimit | noArbViolationOnLegs
  | minimumLiquidity
  deriving DecidableEq

inductive CheckDetails
  | regime (label : Option (Named Regime))
  | zScores (armedZ currentZ : ℚ)
  | vega (postTradeVega limit : ℚ)
  | none
  | liquidity (minQuotedSize limit : ℤ)

structure Check where
  name : CheckName
  passed : Bool
  details : CheckDetails

/-- The rows of `config_scalar` that only the preview reads. -/
structure PreviewLimits where
  bookVegaNeutralThreshold : Option ℚ
  maxBookVegaUsd : Option ℚ
  minLiquidityQuotedSize : Option ℚ

structure CheckInputs where
  regime : Option RegimeState
  armedZ : ℚ
  currentZ : ℚ
  thresholdMin : ℚ
  bookTotalVegaUsd : ℚ
  structureVegaUsd : ℚ
  maxBookVegaUsd : ℚ
  hasArbViolation : Bool
  minQuotedSize : ℤ
  minLiquidity : ℤ

def runPreSubmitChecks (i : CheckInputs) : List Check :=
  let zFlipped := decide (0 < i.armedZ) ≠ decide (0 < i.currentZ)
  let zTooWeak := |i.currentZ| < i.thresholdMin * (7 / 10)
  let postVega := i.bookTotalVegaUsd + i.structureVegaUsd
  [⟨.regimeNotPreEvent, ¬ i.regime.any fun r => r.label = .known .preEvent,
      .regime (i.regime.map (·.label))⟩,
    ⟨.signalStillActionable, ¬ (zFlipped ∨ zTooWeak), .zScores i.armedZ i.currentZ⟩,
    ⟨.vegaUnderBookLimit, |postVega| ≤ i.maxBookVegaUsd,
      .vega (pyRound postVega 2) i.maxBookVegaUsd⟩,
    ⟨.noArbViolationOnLegs, ¬ i.hasArbViolation, .none⟩,
    ⟨.minimumLiquidity, i.minLiquidity ≤ i.minQuotedSize,
      .liquidity i.minQuotedSize i.minLiquidity⟩]

section Endpoint
variable (N : Numerics) (structure' : Structure) (req : PreviewRequest) (inputs : PreviewInputs)
  (limits : PreviewLimits)

/-- The sizing of the endpoint: the quantity of the user is the base and the override. -/
def sizingRequest : SizingRequest where
  zScore := 3 / 2
  totalPremium := (priceStructure N structure' inputs.priced.1).totalPremiumUsd
  bookTotalVegaUsd := 0
  bookVegaNeutralThreshold := limits.bookVegaNeutralThreshold.getD 2000
  baseQty := baseQty req inputs
  thresholdMin := inputs.limits.zThresholdMin.getD (3 / 2)
  maxZMultiplier := 1
  bookAlpha := 0
  regime := inputs.regime
  qtyOverride := some (baseQty req inputs)

def sizing : SizingResult := (sizingRequest N structure' req inputs limits).result structure'

def legsGreeks : List LegGreeksRow :=
  (computeLegsGreeks N structure' inputs.priced.1).map
    (LegGreeksRow.scaled (max (baseQty req inputs) 1))

def structureVegaAtSize : ℚ :=
  (computeNetGreeks N structure' inputs.priced.1).vegaUsdPerVolpt *
    (((sizing N structure' req inputs limits).finalQtyPerLeg : ℚ) / max (baseQty req inputs) 1)

/-- The checks of the endpoint; a manual trade is held to no signal. -/
def preSubmitChecks (bookTotalVegaUsd : ℚ) : List Check :=
  runPreSubmitChecks
    { regime := inputs.regime
      armedZ := 2
      currentZ := 2
      thresholdMin := inputs.limits.zThresholdMin.getD (3 / 2)
      bookTotalVegaUsd := bookTotalVegaUsd
      structureVegaUsd := structureVegaAtSize N structure' req inputs limits
      maxBookVegaUsd := limits.maxBookVegaUsd.getD 5000
      hasArbViolation := false
      minQuotedSize := 99
      minLiquidity := truncated (limits.minLiquidityQuotedSize.getD 10) }

structure PricedLeg extends PayloadLeg where
  entryPricePerContractUsd : ℚ
  deriving DecidableEq

def pricedLegs : List PricedLeg :=
  structure'.legs.map fun leg =>
    { payloadLeg (finalQty structure' req inputs) leg with
      entryPricePerContractUsd :=
        (priceStructure N structure' inputs.priced.1).legPricesUsd.getD leg.legIdx 0 }

/-- `total_premium_paid_usd` of a mock submit -/
def mockPremium (legs : List PricedLeg) : ℚ :=
  pyRound (legs.map fun leg => sideSign leg.side * leg.entryPricePerContractUsd * leg.qty).sum 4

/-- The sizing of the gate and of the preview are one. -/
theorem sizing_finalQty : (sizing N structure' req inputs limits).finalQtyPerLeg =
    finalQty structure' req inputs := by
  have hpenalty : (sizingRequest N structure' req inputs limits).bookPenalty structure'.vegaSign = 1 := by
    simp [SizingRequest.bookPenalty, sizingRequest]
  have hfactor : (sizingRequest N structure' req inputs limits).zFactor =
      if 0 < inputs.limits.zThresholdMin.getD (3 / 2) then
        min (3 / 2 / inputs.limits.zThresholdMin.getD (3 / 2)) 1 else 1 := by
    simp only [SizingRequest.zFactor, sizingRequest]
    norm_num
  change (sizingRequest N structure' req inputs limits).finalQty structure'.vegaSign = _
  rw [SizingRequest.finalQty, hpenalty, hfactor, mul_one]
  rfl

end Endpoint

end FxVol.PreviewPricing
