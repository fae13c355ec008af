import FxVol.MonitorSessions
import FxVol.RiskAggregate

/-!
# The P&L attribution

The P&L of a window, position by position, split into delta, gamma, vega and theta by the greeks
that the risk engine and the position monitor stored at its start.
-/
namespace FxVol.PnlAttributions

open Greeks VolSurface PositionMarks MonitorSessions ExitAlerts RiskSnapshots RiskAggregate
open TradePreviews (StructureType)

/-- The computable order, which a search by instances does not find first -/
local instance timestampOrder : Preorder ℤ := Int.instLinearOrder.toPartialOrder.toPreorder

/-- `_TERM_KEYS` -/
structure Decomposition where
  actualPnlUsd : Option ℚ
  deltaPnlUsd : Option ℚ
  gammaPnlUsd : Option ℚ
  vegaPnlUsd : Option ℚ
  thetaPnlUsd : Option ℚ
  residualUsd : Option ℚ
  deriving DecidableEq

/-- What the decomposition reads of a leg at one end of the window. -/
structure Reading where
  pnl : Option ℚ
  spot : Option ℚ
  iv : Option ℚ
  delta : Option ℚ
  gamma : Option ℚ
  vega : Option ℚ
  theta : Option ℚ

def change (later earlier : Option ℚ) : Option ℚ := Option.map₂ (· - ·) later earlier

def daysBetween (earlier later : Instant) : ℚ := ((later - earlier : ℤ) : ℚ) / 86400000000

def decomposeRow (ρ : Rounding) (now : Instant) (latest start : Reading) (tThen : Option Instant)
    (gammaScale : ℚ) : Decomposition :=
  match change latest.pnl start.pnl with
  | none => ⟨none, none, none, none, none, none⟩
  | some actual =>
    let dspot := change latest.spot start.spot
    let divPts := change latest.iv start.iv
    let dtDays := tThen.map fun t => daysBetween t now
    let delta := Option.map₂ (· * ·) (start.delta.or latest.delta) dspot
    let gamma := Option.map₂ (fun g d => 1 / 2 * g * gammaScale * d * d) (start.gamma.or latest.gamma) dspot
    let vega := Option.map₂ (· * ·) (start.vega.or latest.vega) divPts
    let theta := Option.map₂ (· * ·) (start.theta.or latest.theta) dtDays
    let explained := Option.map₂ (· + ·) (Option.map₂ (· + ·) (Option.map₂ (· + ·) delta gamma) vega) theta
    { actualPnlUsd := some (ρ.round actual 2)
      deltaPnlUsd := delta.map fun x => ρ.round x 2
      gammaPnlUsd := gamma.map fun x => ρ.round x 2
      vegaPnlUsd := vega.map fun x => ρ.round x 2
      thetaPnlUsd := theta.map fun x => ρ.round x 2
      residualUsd := explained.map fun x => ρ.round (actual - x) 2 }

/-- `PRODUCT_LABELS` -/
inductive ProductLabel
  | vanillaCall | vanillaPut | straddle | strangle | butterfly | calendar | future6E | futureM6E
  deriving DecidableEq

/-- `_STRUCTURE_TYPE_TO_LABEL`, none for the futures -/
def structureTypeLabel : StructureType → Option ProductLabel
  | .vanillaCall | .shortVanillaCall => some .vanillaCall
  | .vanillaPut | .shortVanillaPut => some .vanillaPut
  | .straddleAtm | .shortStraddleAtm => some .straddle
  | .longStrangle25d | .shortStrangle => some .strangle
  | .longButterfly25d | .shortButterfly25d => some .butterfly
  | .calendarLong | .calendarShort => some .calendar
  | .futureBuy | .futureSell => none

def futureLabel (ibSymbol : String) : ProductLabel :=
  if ['M', '6', 'E'] <+: ibSymbol.toList then .futureM6E else .future6E

/-- `product_label_from_symbol` of a mirrored symbol -/
def productLabelFromSymbol (ibSymbol : String) (structureType : Option StructureType) : ProductLabel :=
  match structureType.map structureTypeLabel with
  | some (some label) => label
  | some none => futureLabel ibSymbol
  | none =>
    if [' ', 'C'] <:+: ibSymbol.toList then .vanillaCall
    else if [' ', 'P'] <:+: ibSymbol.toList then .vanillaPut
    else futureLabel ibSymbol

/-- A row of `open_position` as the attribution reads it -/
structure IbRow where
  columns : SnapshotRow
  localSymbol : String
  productLabel : Option ProductLabel

structure IbHistory where
  timestamp : Instant
  columns : SnapshotRow

structure Tables where
  openPositions : List IbRow
  openHistory : List IbHistory
  bookedPositions : List (ℕ × BookedPosition)
  metricHistory : List MetricRow

/-- A call of `compute_attribution`; `spotFallback` is the cached spot, now and then. -/
structure Request where
  now : Instant
  lookbackHours : ℤ
  spotFallback : Option ℚ × Option ℚ

def Request.cutoff (q : Request) : Instant := q.now - q.lookbackHours * 3600000000

def IbRow.isFuture (r : IbRow) : Bool :=
  r.productLabel = some .future6E || r.productLabel = some .futureM6E || ['6', 'E'].isPrefixOf r.localSymbol.toList

section Reader
variable (ρ : Rounding) (s : Tables) (q : Request)

/-- The latest snapshot of a position at the start of the window -/
def ibThen (id : ℕ) : Option IbHistory :=
  (s.openHistory.filter fun h => h.columns.positionId = id ∧ h.timestamp ≤ q.cutoff).argmax (·.timestamp)

def underlyingForward : Option ℚ × Option ℚ :=
  let futures := s.openPositions.filter fun r => ['6', 'E'].isPrefixOf r.localSymbol.toList
  let marked := (futures.filter fun r => r.columns.marketPrice.isSome).argmax (·.columns.positionId)
  let marks := futures.filterMap fun r =>
    (s.openHistory.filter fun h => h.columns.positionId = r.columns.positionId ∧
      h.timestamp ≤ q.cutoff ∧ h.columns.marketPrice.isSome).argmax (·.timestamp)
  match marked.bind (·.columns.marketPrice) with
  | none => (none, none)
  | some forward => (some forward, (marks.argmax (·.timestamp)).bind (·.columns.marketPrice))

def forwards : Option ℚ × Option ℚ :=
  let f := underlyingForward s q
  (f.1.or q.spotFallback.1, f.2.or q.spotFallback.2)

def ivFractionToPts (iv : Option ℚ) : Option ℚ := iv.map (· * 100)

def perSpot (deltaUsd spot : Option ℚ) : Option ℚ :=
  Option.map₂ (· / ·) deltaUsd (spot.filter (· ≠ 0))

def ibSpots (r : IbRow) : Option ℚ × Option ℚ :=
  if r.isFuture then
    (r.columns.marketPrice, (ibThen s q r.columns.positionId).bind (·.columns.marketPrice))
  else forwards s q

/-- The columns of an IB leg at one end of the window, all null where there is no snapshot -/
def ibReading (future : Bool) (spot : Option ℚ) (columns : Option SnapshotRow) : Reading :=
  let read := fun f : SnapshotRow → Option ℚ => columns.bind f
  { pnl := read (·.currentPnlUsd)
    spot := spot
    iv := if future then some 0 else ivFractionToPts (read (·.iv))
    delta := perSpot (read (·.deltaUsd)) spot
    gamma := if future then some 0 else read (·.gammaUsd)
    vega := if future then some 0 else read (·.vegaUsd)
    theta := if future then some 0 else read (·.thetaUsd) }

def ibTerms (r : IbRow) : Decomposition :=
  let start := ibThen s q r.columns.positionId
  let spots := ibSpots s q r
  decomposeRow ρ q.now (ibReading r.isFuture spots.1 (some r.columns))
    (ibReading r.isFuture spots.2 (start.map (·.columns))) (start.map (·.timestamp))
    (if r.isFuture then 1 else 1 / pipSize)

def metricReading (m : Option MetricRow) : Reading where
  pnl := m.map (·.mtm.pnlGrossUsd)
  spot := m.map (·.spot)
  iv := m.map (·.ivAvgLegsPct)
  delta := m.bind (·.currentDeltaUnhedged)
  gamma := m.bind (·.currentGreeks.gammaUsdPerPip2)
  vega := m.bind (·.currentGreeks.vegaUsdPerVolpt)
  theta := m.bind (·.currentGreeks.thetaUsdPerDay)

/-- The latest metric row of a position, and the latest at the start of the window -/
def metricsOf (id : ℕ) : Option MetricRow × Option MetricRow :=
  let rows := s.metricHistory.filter fun m => m.positionId = id
  (rows.argmax (·.timestamp), (rows.filter fun m => m.timestamp ≤ q.cutoff).argmax (·.timestamp))

def bookedTerms (id : ℕ) : Decomposition :=
  let rows := metricsOf s q id
  decomposeRow ρ q.now (metricReading rows.1) (metricReading rows.2) (rows.2.map (·.timestamp))
    (1 / (pipSize * pipSize))

inductive Source | ibLive | booked
  deriving DecidableEq

/-- A row of `per_position` -/
structure Attributed where
  id : ℕ
  source : Source
  terms : Decomposition
  deriving DecidableEq

def computeAttribution : List Attributed :=
  s.openPositions.map (fun r => ⟨r.columns.positionId, .ibLive, ibTerms ρ s q r⟩) ++
    (s.bookedPositions.filter fun p => p.2.state = .open).map fun p =>
      ⟨p.1, .booked, bookedTerms ρ s q p.1⟩

end Reader

/-- Greeks by Black-Scholes for one unit of notional -/
structure Exposure where
  notional : ℚ
  delta : ℚ
  gamma : ℚ
  vega : ℚ
  theta : ℚ

/-- How spot and volatility moved over so many days -/
structure Move where
  spot : ℚ
  vol : ℚ
  days : ℚ

structure Terms where
  delta : ℚ
  gamma : ℚ
  vega : ℚ
  theta : ℚ

def Terms.total (t : Terms) : ℚ := t.delta + t.gamma + t.vega + t.theta

/-- The second-order expansion in dollars -/
def expansion (xs : List Exposure) (m : Move) : Terms where
  delta := (xs.map fun x => x.notional * x.delta).sum * m.spot
  gamma := 1 / 2 * (xs.map fun x => x.notional * x.gamma).sum * m.spot ^ 2
  vega := (xs.map fun x => x.notional * x.vega).sum * m.vol
  theta := (xs.map fun x => x.notional * x.theta).sum * m.days

/-- The terms of the expansion, and no residual, up to what the rounding of the columns can do. -/
structure Returned (unit : ℚ) (e slack : Terms) (pnlSlack : ℚ) (d : Decomposition) : Prop where
  delta : ∃ x ∈ d.deltaPnlUsd, |x - e.delta| ≤ slack.delta + unit / 2 / 10 ^ 2
  gamma : ∃ x ∈ d.gammaPnlUsd, |x - e.gamma| ≤ slack.gamma + unit / 2 / 10 ^ 2
  vega : ∃ x ∈ d.vegaPnlUsd, |x - e.vega| ≤ slack.vega + unit / 2 / 10 ^ 2
  theta : ∃ x ∈ d.thetaPnlUsd, |x - e.theta| ≤ slack.theta + unit / 2 / 10 ^ 2
  residual : ∃ x ∈ d.residualUsd, |x| ≤ pnlSlack + slack.total + unit / 2 / 10 ^ 2

def storedVol (N : RiskNumerics) (c : RiskCycle) (p : RiskPosition) : Option ℚ :=
  if p.instrumentType = .future then none
  else p.option.map fun (K, right) => persistIv N c p K right

def ibExposure (N : RiskNumerics) (c : RiskCycle) (p : RiskPosition) : Exposure :=
  let n := p.quantity * p.multiplier
  if p.instrumentType = .future then ⟨n, 1, 0, 0, 0⟩
  else p.option.elim ⟨0, 0, 0, 0, 0⟩ fun (K, right) =>
    let iv := persistIv N c p K right
    { notional := n
      delta := bsDelta N.vol.toNumerics c.F K p.T iv right
      gamma := bsGamma N.vol.toNumerics c.F K p.T iv
      vega := bsVega N.vol.toNumerics c.F K p.T iv
      theta := bsTheta N.vol.toNumerics c.F K p.T iv }

/-- A position whose P&L moves by the expansion: the cycle that persisted it last when the window
starts, the latest cycle, and the spots the window is read with.  A leg of a trade has its type from a
template with such a leg. -/
structure IbWindow (N : RiskNumerics) where
  start : RiskCycle
  latest : RiskCycle
  rowThen : HeldRow
  rowNow : HeldRow
  held : RiskPosition
  heldNow : RiskPosition
  parent : Option StructureType
  tThen : Instant
  now : Instant
  spotThen : ℚ
  spotNow : ℚ
  pnlThen : ℚ
  pnlNow : ℚ
  volThen : ℚ
  volNow : ℚ
  loaded : loadPosition start.today rowThen = some held
  loadedNow : loadPosition latest.today rowNow = some heldNow
  sameId : rowNow.id = rowThen.id
  sameSymbol : rowNow.localSymbol = rowThen.localSymbol
  parentLeg : ∀ ty ∈ parent, (∃ leg ∈ ty.template.legs, leg.contractType = .future) ↔
    held.instrumentType = .future
  priced : Priced held
  spotPos : 0 < spotThen
  storedPnl : (start.unrealizedPnl held.id).or (bsPnl N start held) = some pnlThen ∧
    (latest.unrealizedPnl heldNow.id).or (bsPnl N latest heldNow) = some pnlNow
  storedVols : held.instrumentType ≠ .future →
    storedVol N start held = some volThen ∧ storedVol N latest heldNow = some volNow
  moved : pnlNow - pnlThen = (expansion [ibExposure N start held]
    ⟨spotNow - spotThen, volNow - volThen, daysBetween tThen now⟩).total

namespace IbWindow

variable {N : RiskNumerics} (w : IbWindow N)

def move : Move := ⟨w.spotNow - w.spotThen, w.volNow - w.volThen, daysBetween w.tThen w.now⟩

def terms : Terms := expansion [ibExposure N w.start w.held] w.move

def row (ρ : Rounding) : IbRow :=
  ⟨snapshotRow N ρ w.latest w.heldNow, w.rowNow.localSymbol,
    some (productLabelFromSymbol w.rowNow.localSymbol w.parent)⟩

/-- The tables hold what the cycles wrote. -/
structure Recorded (ρ : Rounding) (s : Tables) (q : Request) : Prop where
  now : q.now = w.now
  row : w.row ρ ∈ s.openPositions
  key : ∀ r ∈ s.openPositions, r.columns.positionId = w.held.id → r = w.row ρ
  start : ibThen s q w.held.id = some ⟨w.tThen, snapshotRow N ρ w.start w.held⟩
  spots : ibSpots s q (w.row ρ) = (some w.spotNow, some w.spotThen)

def slack (unit : ℚ) : Terms :=
  let cents := unit / 2 / 10 ^ 2
  let points := unit / 10 ^ 5 * 100
  if w.held.instrumentType = .future then ⟨cents * |w.move.spot / w.spotThen|, 0, 0, 0⟩
  else
    { delta := cents * |w.move.spot / w.spotThen|
      gamma := 1 / 2 * cents / pipSize * w.move.spot ^ 2
      vega := cents * |w.move.vol * 100| +
        (|(ibExposure N w.start w.held).notional * (ibExposure N w.start w.held).vega * volpt| + cents) * points
      theta := cents * |w.move.days| }

end IbWindow

def entryLegs (db : Db) (structureId : ℕ) : List PositionPricing.LegSpec :=
  ((db.ordersOf structureId).filter fun p => p.1.orderRole = .entry).filterMap fun p => p.1.legSpec

def legExposure (N : VolSurface.Numerics) (q : Quotes) (leg : PositionPricing.LegSpec) : Exposure :=
  let T := yearsToExpiry leg.expiry q.now
  let sigma := ((legIv N q leg).map (·.iv)).getD 0
  { notional := leg.qtySigned * eurFopMultiplier
    delta := bsDelta N.toNumerics q.spot leg.strike T sigma leg.contractType
    gamma := bsGamma N.toNumerics q.spot leg.strike T sigma
    vega := bsVega N.toNumerics q.spot leg.strike T sigma
    theta := bsTheta N.toNumerics q.spot leg.strike T sigma }

def bookedExposures (N : VolSurface.Numerics) (c : Cycle) (pos : Position) : List Exposure :=
  (entryLegs c.db pos.structureId).map (legExposure N (c.market.quotes c.now))

/-- A position that the surface prices when the window starts, whose P&L moves by the expansion. -/
structure BookedWindow (N : VolSurface.Numerics) where
  start : Cycle
  latest : Cycle
  id : ℕ
  pos : Position
  posNow : Position
  now : Instant
  live : (liveMark N start.db pos.row start.market start.now).isSome
  moved : (metricRow N latest id posNow).mtm.pnlGrossUsd - (metricRow N start id pos).mtm.pnlGrossUsd =
    (expansion (bookedExposures N start pos)
      ⟨(metricRow N latest id posNow).spot - (metricRow N start id pos).spot,
        ((metricRow N latest id posNow).ivAvgLegsPct - (metricRow N start id pos).ivAvgLegsPct) * volpt,
        daysBetween start.now now⟩).total

namespace BookedWindow

variable {N : VolSurface.Numerics} (w : BookedWindow N)

def rowThen : MetricRow := metricRow N w.start w.id w.pos

def rowNow : MetricRow := metricRow N w.latest w.id w.posNow

def move : Move :=
  ⟨w.rowNow.spot - w.rowThen.spot, (w.rowNow.ivAvgLegsPct - w.rowThen.ivAvgLegsPct) * volpt,
    daysBetween w.start.now w.now⟩

def terms : Terms := expansion (bookedExposures N w.start w.pos) w.move

structure Recorded (s : Tables) (q : Request) : Prop where
  now : q.now = w.now
  row : ∃ row, (w.id, row) ∈ s.bookedPositions ∧ row.state = .open
  metrics : metricsOf s q w.id = (some w.rowNow, some w.rowThen)

end BookedWindow

/-- A window of a position of either source, and tables that record it to the last digit. -/
inductive Window (N : RiskNumerics)
  | ibLive (w : IbWindow N) (s : Tables) (q : Request) (h : w.Recorded .exact s q)
  | booked (w : BookedWindow N.vol) (s : Tables) (q : Request) (h : w.Recorded s q)

namespace Window

variable {N : RiskNumerics}

/-- From any tables that record the window, however rounded, the terms of the expansion come back. -/
def Consistent : Window N → Prop
  | .ibLive w _ _ _ => ∀ ρ s q, w.Recorded ρ s q → ∃ a ∈ computeAttribution ρ s q,
      a.id = w.held.id ∧ a.source = .ibLive ∧
        Returned ρ.unit w.terms (w.slack ρ.unit) (ρ.unit / 10 ^ 2) a.terms
  | .booked w _ _ _ => ∀ ρ s q, w.Recorded s q → ∃ a ∈ computeAttribution ρ s q,
      a.id = w.id ∧ a.source = .booked ∧ Returned ρ.unit w.terms ⟨0, 0, 0, 0⟩ 0 a.terms

/-- The delta has nothing to explain, or it is that of an IB position and was priced at the spot that
the window starts with. -/
def DeltaUnits : Window N → Prop
  | .ibLive w _ _ _ => w.terms.delta = 0 ∨ w.start.F = w.spotThen
  | .booked w _ _ _ => w.terms.delta = 0

end Window

section Decomposition
variable {ρ : Rounding} {now t : Instant} {scale actual dS dV D G V T pnlSlack : ℚ} {latest start : Reading}
  {tThen : Option Instant} {e slack : Terms}

theorem decomposeRow_eq (hactual : change latest.pnl start.pnl = some actual)
    (hspot : change latest.spot start.spot = some dS) (hiv : change latest.iv start.iv = some dV)
    (hD : start.delta = some D) (hG : start.gamma = some G) (hV : start.vega = some V)
    (hT : start.theta = some T) (ht : tThen = some t) :
    decomposeRow ρ now latest start tThen scale =
      { actualPnlUsd := some (ρ.round actual 2)
        deltaPnlUsd := some (ρ.round (D * dS) 2)
        gammaPnlUsd := some (ρ.round (1 / 2 * G * scale * dS * dS) 2)
        vegaPnlUsd := some (ρ.round (V * dV) 2)
        thetaPnlUsd := some (ρ.round (T * daysBetween t now) 2)
        residualUsd := some (ρ.round
          (actual - (D * dS + 1 / 2 * G * scale * dS * dS + V * dV + T * daysBetween t now)) 2) } := by
  simp [decomposeRow, hactual, hspot, hiv, hD, hG, hV, hT, ht]

theorem round_within {x y bound : ℚ} (h : |x - y| ≤ bound) (digits : ℕ) :
    |ρ.round x digits - y| ≤ bound + ρ.unit / 2 / 10 ^ digits := by
  have hround := ρ.near x digits
  calc |ρ.round x digits - y| = |(x - y) + (ρ.round x digits - x)| := by ring_nf
    _ ≤ |x - y| + |ρ.round x digits - x| := abs_add_le _ _
    _ ≤ bound + ρ.unit / 2 / 10 ^ digits := add_le_add h hround

theorem returned_of_near (dS dV D G V T : ℚ) (hactual : change latest.pnl start.pnl = some actual)
    (hspot : change latest.spot start.spot = some dS) (hiv : change latest.iv start.iv = some dV)
    (hD : start.delta = some D) (hG : start.gamma = some G) (hV : start.vega = some V)
    (hT : start.theta = some T) (ht : tThen = some t) (hpnl : |actual - e.total| ≤ pnlSlack)
    (hdelta : |D * dS - e.delta| ≤ slack.delta)
    (hgamma : |1 / 2 * G * scale * dS * dS - e.gamma| ≤ slack.gamma)
    (hvega : |V * dV - e.vega| ≤ slack.vega)
    (htheta : |T * daysBetween t now - e.theta| ≤ slack.theta) :
    Returned ρ.unit e slack pnlSlack (decomposeRow ρ now latest start tThen scale) := by
  rw [decomposeRow_eq hactual hspot hiv hD hG hV hT ht]
  refine ⟨⟨_, rfl, round_within hdelta 2⟩, ⟨_, rfl, round_within hgamma 2⟩, ⟨_, rfl, round_within hvega 2⟩,
    ⟨_, rfl, round_within htheta 2⟩, ⟨_, rfl, ?_⟩⟩
  have hresidual : |actual - (D * dS + 1 / 2 * G * scale * dS * dS + V * dV + T * daysBetween t now) - 0| ≤
      pnlSlack + slack.total := by
    rw [abs_le] at *
    simp only [Terms.total] at *
    constructor <;> linarith
  have hround := round_within (ρ := ρ) hresidual 2
  rwa [sub_zero] at hround

/-- Nothing is rounded: the delta term is that of the expansion. -/
theorem Returned.exact_delta {d : Decomposition} (h : Returned 0 e ⟨0, 0, 0, 0⟩ pnlSlack d) :
    d.deltaPnlUsd = some e.delta := by
  obtain ⟨x, hx, hnear⟩ := h.delta
  have hzero : |x - e.delta| ≤ 0 := by simpa using hnear
  rw [Option.mem_def.mp hx, sub_eq_zero.mp (abs_nonpos_iff.mp hzero)]

end Decomposition

section Booked
variable {N : VolSurface.Numerics} {q : Quotes}

/-- A mark that misses no leg has every leg from the surface. -/
theorem surface_priced {legs : List PositionPricing.LegSpec}
    (h : (pricePosition N q legs).nSurfaceMissing = 0) : ∀ leg ∈ legs, (legIv N q leg).isSome := by
  suffices hfold : ∀ m : PositionMark, (legs.foldl (PositionMark.addLeg N q) m).nSurfaceMissing = 0 →
      m.nSurfaceMissing = 0 ∧ ∀ leg ∈ legs, (legIv N q leg).isSome from (hfold .zero h).2
  clear h
  induction legs with
  | nil => exact fun m hm => ⟨hm, fun leg hleg => nomatch hleg⟩
  | cons leg legs ih =>
    intro m hm
    obtain ⟨hadd, hrest⟩ := ih _ hm
    cases hiv : legIv N q leg with
    | some res =>
      have hpos : ¬ res.iv ≤ 0 := not_le.mpr (ivAtStrike_pos hiv)
      simp only [PositionMark.addLeg, hiv, if_neg hpos] at hadd
      refine ⟨hadd, fun l hl => ?_⟩
      rcases List.mem_cons.mp hl with rfl | hl
      · rw [hiv]
        rfl
      · exact hrest l hl
    | none =>
      simp only [PositionMark.addLeg, hiv] at hadd
      cases hfallback : leg.fallbackIv with
      | none => simp [hfallback, PositionMark.miss] at hadd
      | some sigma =>
        simp only [hfallback] at hadd
        split_ifs at hadd <;> simp [PositionMark.miss] at hadd

/-- The totals of a mark in the units of its columns -/
theorem pricePosition_greeks {legs : List PositionPricing.LegSpec}
    (h : ∀ leg ∈ legs, (legIv N q leg).isSome) :
    let xs := legs.map (legExposure N q)
    let mark := pricePosition N q legs
    eurFopMultiplier * mark.totalDelta = (xs.map fun x => x.notional * x.delta).sum ∧
    mark.totalGammaUsdPerPip2 = (xs.map fun x => x.notional * x.gamma).sum * (pipSize * pipSize) ∧
    mark.totalVegaUsdPerVolpt = (xs.map fun x => x.notional * x.vega).sum * volpt ∧
    mark.totalThetaUsdPerDay = (xs.map fun x => x.notional * x.theta).sum := by
  have hsum (f : Exposure → ℚ) (column : PositionMark → ℚ) (hzero : column .zero = 0)
      (hpriced : ∀ m leg res, legIv N q leg = some res →
        column (m.priced N q leg res.iv) = column m + f (legExposure N q leg)) :
      column (pricePosition N q legs) = ((legs.map (legExposure N q)).map f).sum := by
    rw [MonitoredPnl.pricePosition_column h column (fun leg => f (legExposure N q leg)) hpriced, hzero, zero_add, List.map_map]
    rfl
  dsimp only
  rw [← List.sum_map_mul_right, ← List.sum_map_mul_right]
  refine ⟨hsum _ (fun m => eurFopMultiplier * m.totalDelta) ?_ ?_, hsum _ PositionMark.totalGammaUsdPerPip2 rfl ?_,
    hsum _ PositionMark.totalVegaUsdPerVolpt rfl ?_, hsum _ PositionMark.totalThetaUsdPerDay rfl ?_⟩
  · exact mul_zero _
  all_goals
    intro m leg res hres
    simp only [PositionMark.priced, legExposure, hres, Option.map_some, Option.getD_some]
    ring

theorem metricReading_live (w : BookedWindow N) : ∃ mark : PositionMark,
    eurFopMultiplier * mark.totalDelta * w.move.spot = w.terms.delta ∧
    1 / 2 * mark.totalGammaUsdPerPip2 * (1 / (pipSize * pipSize)) * w.move.spot * w.move.spot =
      w.terms.gamma ∧
    mark.totalVegaUsdPerVolpt * (w.rowNow.ivAvgLegsPct - w.rowThen.ivAvgLegsPct) = w.terms.vega ∧
    mark.totalThetaUsdPerDay * w.move.days = w.terms.theta ∧
    metricReading (some w.rowThen) =
      { pnl := some w.rowThen.mtm.pnlGrossUsd
        spot := some w.rowThen.spot
        iv := some w.rowThen.ivAvgLegsPct
        delta := some mark.totalDelta
        gamma := some mark.totalGammaUsdPerPip2
        vega := some mark.totalVegaUsdPerVolpt
        theta := some mark.totalThetaUsdPerDay } := by
  obtain ⟨mark, hmark⟩ := Option.isSome_iff_exists.mp w.live
  obtain ⟨hreprice, hmissing⟩ := Option.filter_eq_some_iff.mp hmark
  have hlegs : mark = pricePosition N (w.start.market.quotes w.start.now)
      (entryLegs w.start.db w.pos.structureId) := by
    simp only [PositionMarks.repricePosition] at hreprice
    split_ifs at hreprice
    exact (Option.some.inj hreprice).symm
  have hpriced := surface_priced (by rw [← hlegs]; exact of_decide_eq_true hmissing)
  obtain ⟨hdelta, hgamma, hvega, htheta⟩ := pricePosition_greeks hpriced
  rw [← hlegs] at hdelta hgamma hvega htheta
  refine ⟨mark, ?_, ?_, ?_, ?_, ?_⟩
  · rw [hdelta]
    rfl
  · rw [hgamma, BookedWindow.terms, expansion, bookedExposures, pipSize]
    ring
  · rw [hvega, BookedWindow.terms, expansion, bookedExposures, BookedWindow.move]
    ring
  · rw [htheta]
    rfl
  · simp [metricReading, BookedWindow.rowThen, metricRow, hmark]

theorem booked_attributed (w : BookedWindow N) {ρ : Rounding} {s : Tables} {q : Request}
    (h : w.Recorded s q) : ∀ a ∈ computeAttribution ρ s q, a.id = w.id → a.source = .booked →
      a.terms = decomposeRow ρ w.now (metricReading (some w.rowNow)) (metricReading (some w.rowThen))
        (some w.start.now) (1 / (pipSize * pipSize)) := by
  intro a ha hid hsource
  rcases List.mem_append.mp ha with ha | ha
  · obtain ⟨r, -, rfl⟩ := List.mem_map.mp ha
    cases hsource
  · obtain ⟨p, -, rfl⟩ := List.mem_map.mp ha
    simp only at hid
    simp only [bookedTerms, hid, h.metrics, h.now]
    rfl

theorem booked_mem (w : BookedWindow N) {ρ : Rounding} {s : Tables} {q : Request}
    (h : w.Recorded s q) : ∃ a ∈ computeAttribution ρ s q, a.id = w.id ∧ a.source = .booked := by
  obtain ⟨row, hrow, hopen⟩ := h.row
  have hmem : (w.id, row) ∈ s.bookedPositions.filter fun p => p.2.state = .open :=
    List.mem_filter.mpr ⟨hrow, decide_eq_true hopen⟩
  exact ⟨_, List.mem_append_right _ (List.mem_map.mpr ⟨_, hmem, rfl⟩), rfl, rfl⟩

end Booked

theorem futureLabel_future (symbol : String) :
    futureLabel symbol = .future6E ∨ futureLabel symbol = .futureM6E := by
  rw [futureLabel]
  split_ifs
  · exact .inr rfl
  · exact .inl rfl

/-- Only a type without a leg on a future has a label of options. -/
theorem structureTypeLabel_eq_none (ty : StructureType) : structureTypeLabel ty = none ↔
    ∃ leg ∈ ty.template.legs, leg.contractType = .future := by
  cases ty <;> decide

theorem structureTypeLabel_option {ty : StructureType} {label : ProductLabel}
    (h : structureTypeLabel ty = some label) : label ≠ .future6E ∧ label ≠ .futureM6E := by
  cases ty <;> cases h <;> decide

/-- The symbol and the label tell a future. -/
theorem isFuture_iff {symbol : String} {spec : ContractSpec} (hparse : parseLocalSymbol symbol = some spec)
    {parent : Option StructureType}
    (hparent : ∀ ty ∈ parent, (∃ leg ∈ ty.template.legs, leg.contractType = .future) ↔
      spec.instrumentType = .future) (columns : SnapshotRow) :
    (IbRow.mk columns symbol (some (productLabelFromSymbol symbol parent))).isFuture = true ↔
      spec.instrumentType = .future := by
  have hlabel : ∀ ty ∈ parent, (spec.instrumentType = .future →
      productLabelFromSymbol symbol parent = futureLabel symbol) ∧
      (spec.instrumentType ≠ .future → productLabelFromSymbol symbol parent ≠ .future6E ∧
        productLabelFromSymbol symbol parent ≠ .futureM6E) := by
    intro ty hty
    have hleg := (structureTypeLabel_eq_none ty).trans (hparent ty hty)
    rw [Option.mem_def.mp hty]
    cases hty' : structureTypeLabel ty with
    | none => exact ⟨fun _ => by simp [productLabelFromSymbol, hty'], fun hoption => absurd (hleg.mp hty') hoption⟩
    | some label =>
      refine ⟨fun hfuture => absurd (hleg.mpr hfuture) (by simp [hty']), fun _ => ?_⟩
      simpa [productLabelFromSymbol, hty'] using structureTypeLabel_option hty'
  unfold parseLocalSymbol at hparse
  split at hparse
  next m y right a b c d hsymbol =>
    obtain ⟨hchars, hspec⟩ := Option.ite_none_right_eq_some.mp hparse
    cases hspec
    have hright : right = 'C' ∨ right = 'P' := by simpa using hchars.2.2.1
    have hoption : productLabelFromSymbol symbol parent ≠ .future6E ∧
        productLabelFromSymbol symbol parent ≠ .futureM6E := by
      cases parent with
      | some ty => exact (hlabel ty rfl).2 (by simp)
      | none =>
        have hpart : [' ', right] <:+: symbol.toList :=
          hsymbol ▸ ⟨['E', 'U', 'U', m, y], [a, b, c, d], rfl⟩
        rcases hright with rfl | rfl
        · simp [productLabelFromSymbol, hpart]
        · simp only [productLabelFromSymbol, Option.map_none]
          split_ifs <;> simp
    simp [IbRow.isFuture, hoption, hsymbol]
  next m y hsymbol =>
    split_ifs at hparse with hchars
    cases hparse
    have hfuture : productLabelFromSymbol symbol parent = futureLabel symbol := by
      cases parent with
      | some ty => exact (hlabel ty rfl).1 rfl
      | none =>
        have hspace : ' ' ∉ symbol.toList := by
          rw [hsymbol]
          intro hmem
          have hcase : ' ' = m ∨ ' ' = y := by simpa using hmem
          rcases hcase with rfl | rfl
          · exact absurd hchars.1 (by decide)
          · exact absurd hchars.2 (by decide)
        have hnone : ∀ right, ¬ [' ', right] <:+: symbol.toList :=
          fun right hpart => hspace (hpart.subset List.mem_cons_self)
        simp [productLabelFromSymbol, hnone]
    have hlabels := futureLabel_future symbol
    simp [IbRow.isFuture, hfuture, hlabels]
  next m y hsymbol =>
    split_ifs at hparse
    cases hparse
    simp [IbRow.isFuture, hsymbol]
  next => cases hparse

section Cents
variable (ρ : Rounding)

/-- A stored USD delta over the spot it was priced at, or of a spot that did not move -/
theorem delta_within (D F S dS : ℚ) (hS : S ≠ 0) (h : D * dS = 0 ∨ F = S) :
    |ρ.round (D * F) 2 / S * dS - D * dS| ≤ ρ.unit / 2 / 10 ^ 2 * |dS / S| := by
  have hexact : D * F / S * dS = D * dS := by
    rcases h with h | rfl
    · calc D * F / S * dS = F / S * (D * dS) := by ring
        _ = D * dS := by rw [h, mul_zero]
    · rw [mul_div_assoc, div_self hS, mul_one]
  calc |ρ.round (D * F) 2 / S * dS - D * dS|
      = |(ρ.round (D * F) 2 - D * F) * (dS / S)| := by rw [← hexact]; ring_nf
    _ = |ρ.round (D * F) 2 - D * F| * |dS / S| := abs_mul _ _
    _ ≤ ρ.unit / 2 / 10 ^ 2 * |dS / S| := mul_le_mul_of_nonneg_right (ρ.near _ 2) (abs_nonneg _)

theorem gamma_within (G dS : ℚ) : |1 / 2 * ρ.round (G * pipSize) 2 * (1 / pipSize) * dS * dS - 1 / 2 * G * dS ^ 2| ≤
    1 / 2 * (ρ.unit / 2 / 10 ^ 2) / pipSize * dS ^ 2 := by
  have hround := mul_le_mul_of_nonneg_right (ρ.near (G * pipSize) 2) (sq_nonneg dS)
  have hpip : (pipSize : ℚ) = 1 / 10000 := rfl
  calc |1 / 2 * ρ.round (G * pipSize) 2 * (1 / pipSize) * dS * dS - 1 / 2 * G * dS ^ 2|
      = |5000 * ((ρ.round (G * pipSize) 2 - G * pipSize) * dS ^ 2)| := by rw [hpip]; ring_nf
    _ = 5000 * (|ρ.round (G * pipSize) 2 - G * pipSize| * dS ^ 2) := by
      rw [abs_mul, abs_mul, abs_of_nonneg (sq_nonneg dS), abs_of_pos (by norm_num : (0 : ℚ) < 5000)]
    _ ≤ 5000 * (ρ.unit / 2 / 10 ^ 2 * dS ^ 2) := mul_le_mul_of_nonneg_left hround (by norm_num)
    _ = 1 / 2 * (ρ.unit / 2 / 10 ^ 2) / pipSize * dS ^ 2 := by rw [hpip]; ring

theorem vega_within (V a b : ℚ) :
    |ρ.round (V * volpt) 2 * (ρ.round a 5 * 100 - ρ.round b 5 * 100) - V * (a - b)| ≤
      ρ.unit / 2 / 10 ^ 2 * |(a - b) * 100| +
        (|V * volpt| + ρ.unit / 2 / 10 ^ 2) * (ρ.unit / 10 ^ 5 * 100) := by
  have hvolpt : (volpt : ℚ) = 1 / 100 := rfl
  have hV := ρ.near (V * volpt) 2
  have hpoints : |(ρ.round a 5 * 100 - ρ.round b 5 * 100) - (a - b) * 100| ≤ ρ.unit / 10 ^ 5 * 100 := by
    have ha := abs_le.mp (ρ.near a 5)
    have hb := abs_le.mp (ρ.near b 5)
    rw [abs_le]
    constructor <;> linarith [ha.1, ha.2, hb.1, hb.2]
  have hstored : |ρ.round (V * volpt) 2| ≤ |V * volpt| + ρ.unit / 2 / 10 ^ 2 := by
    have htriangle := abs_add_le (V * volpt) (ρ.round (V * volpt) 2 - V * volpt)
    rw [add_sub_cancel] at htriangle
    linarith
  have hsplit : ρ.round (V * volpt) 2 * (ρ.round a 5 * 100 - ρ.round b 5 * 100) - V * (a - b) =
      (ρ.round (V * volpt) 2 - V * volpt) * ((a - b) * 100) +
        ρ.round (V * volpt) 2 * ((ρ.round a 5 * 100 - ρ.round b 5 * 100) - (a - b) * 100) := by
    rw [hvolpt]
    ring
  rw [hsplit]
  refine (abs_add_le _ _).trans (add_le_add ?_ ?_)
  · rw [abs_mul]
    exact mul_le_mul_of_nonneg_right hV (abs_nonneg _)
  · rw [abs_mul]
    exact mul_le_mul hstored hpoints (abs_nonneg _) ((abs_nonneg _).trans hstored)

theorem theta_within (T days : ℚ) : |ρ.round T 2 * days - T * days| ≤ ρ.unit / 2 / 10 ^ 2 * |days| := by
  rw [← sub_mul, abs_mul]
  exact mul_le_mul_of_nonneg_right (ρ.near T 2) (abs_nonneg _)

theorem pnl_within (a b : ℚ) : |ρ.round a 2 - ρ.round b 2 - (a - b)| ≤ ρ.unit / 10 ^ 2 := by
  have ha := abs_le.mp (ρ.near a 2)
  have hb := abs_le.mp (ρ.near b 2)
  rw [abs_le]
  constructor <;> linarith [ha.1, ha.2, hb.1, hb.2]

end Cents

section Ib
variable {N : RiskNumerics} (w : IbWindow N)

/-- The greeks that a cycle persists, in terms of the exposure -/
theorem persisted_exposure {c : RiskCycle} {p : RiskPosition} (hpriced : Priced p) :
    ∃ g, persistedGreeks N c p = some g ∧
      g.deltaUsd = (ibExposure N c p).notional * (ibExposure N c p).delta * c.F ∧
      g.gammaUsdPerPip = (ibExposure N c p).notional * (ibExposure N c p).gamma * pipSize ∧
      g.vegaUsdPerVolpt = (ibExposure N c p).notional * (ibExposure N c p).vega * volpt ∧
      g.thetaUsdPerDay = (ibExposure N c p).notional * (ibExposure N c p).theta := by
  by_cases hfuture : p.instrumentType = .future
  · refine ⟨_, if_pos hfuture, ?_⟩
    simp [ibExposure, hfuture, futureGreeks]
  · obtain ⟨o, ho⟩ := Option.isSome_iff_exists.mp (hpriced.resolve_left hfuture)
    refine ⟨_, (if_neg hfuture).trans (by rw [ho]; rfl), ?_⟩
    simp [ibExposure, hfuture, ho, optionGreeks]

theorem row_isFuture (ρ : Rounding) : (w.row ρ).isFuture = true ↔ w.held.instrumentType = .future := by
  obtain ⟨spec, hspec, hheld⟩ := Option.map_eq_some_iff.mp w.loaded
  have htype : spec.instrumentType = w.held.instrumentType := by rw [← hheld]
  rw [← htype]
  refine isFuture_iff (w.sameSymbol ▸ hspec) ?_ _
  rw [htype]
  exact w.parentLeg

theorem row_id (ρ : Rounding) : (w.row ρ).columns.positionId = w.held.id := by
  obtain ⟨_, -, hheld⟩ := Option.map_eq_some_iff.mp w.loaded
  obtain ⟨_, -, hnow⟩ := Option.map_eq_some_iff.mp w.loadedNow
  have hid : w.heldNow.id = w.held.id := by rw [← hnow, ← hheld, w.sameId]
  exact hid

theorem ib_attributed {ρ : Rounding} {s : Tables} {q : Request} (h : w.Recorded ρ s q) :
    ∀ a ∈ computeAttribution ρ s q, a.id = w.held.id → a.source = .ibLive →
      a.terms = ibTerms ρ s q (w.row ρ) := by
  intro a ha hid hsource
  rcases List.mem_append.mp ha with ha | ha
  · obtain ⟨r, hr, rfl⟩ := List.mem_map.mp ha
    rw [h.key r hr hid]
  · obtain ⟨p, -, rfl⟩ := List.mem_map.mp ha
    cases hsource

theorem ib_mem {ρ : Rounding} {s : Tables} {q : Request} (h : w.Recorded ρ s q) :
    ∃ a ∈ computeAttribution ρ s q, a.id = w.held.id ∧ a.source = .ibLive :=
  ⟨_, List.mem_append_left _ (List.mem_map.mpr ⟨_, h.row, rfl⟩), row_id w ρ, rfl⟩

/-- The terms of a recorded window, spelled out -/
theorem ibTerms_eq {ρ : Rounding} {s : Tables} {q : Request} (h : w.Recorded ρ s q) :
    ibTerms ρ s q (w.row ρ) =
      decomposeRow ρ w.now
        (ibReading (w.row ρ).isFuture (some w.spotNow) (some (snapshotRow N ρ w.latest w.heldNow)))
        (ibReading (w.row ρ).isFuture (some w.spotThen) (some (snapshotRow N ρ w.start w.held)))
        (some w.tThen) (if (w.row ρ).isFuture then 1 else 1 / pipSize) := by
  rw [ibTerms, row_id, h.start, h.spots, h.now]
  rfl

/-- What is left of a window of an IB position where the units of its delta agree -/
theorem ib_returned (hunits : w.terms.delta = 0 ∨ w.start.F = w.spotThen) (ρ : Rounding) :
    Returned ρ.unit w.terms (w.slack ρ.unit) (ρ.unit / 10 ^ 2)
      (decomposeRow ρ w.now
        (ibReading (w.row ρ).isFuture (some w.spotNow) (some (snapshotRow N ρ w.latest w.heldNow)))
        (ibReading (w.row ρ).isFuture (some w.spotThen) (some (snapshotRow N ρ w.start w.held)))
        (some w.tThen) (if (w.row ρ).isFuture then 1 else 1 / pipSize)) := by
  obtain ⟨g, hg, hdelta, hgamma, hvega, htheta⟩ := persisted_exposure (N := N) (c := w.start) w.priced
  have hspot : w.spotThen ≠ 0 := w.spotPos.ne'
  have hterms : w.terms =
      ⟨(ibExposure N w.start w.held).notional * (ibExposure N w.start w.held).delta * w.move.spot,
        1 / 2 * ((ibExposure N w.start w.held).notional * (ibExposure N w.start w.held).gamma) * w.move.spot ^ 2,
        (ibExposure N w.start w.held).notional * (ibExposure N w.start w.held).vega * w.move.vol,
        (ibExposure N w.start w.held).notional * (ibExposure N w.start w.held).theta * w.move.days⟩ := by
    simp [IbWindow.terms, expansion]
  have hpnl : |ρ.round w.pnlNow 2 - ρ.round w.pnlThen 2 - w.terms.total| ≤ ρ.unit / 10 ^ 2 := by
    have hmoved : w.terms.total = w.pnlNow - w.pnlThen := w.moved.symm
    rw [hmoved]
    exact pnl_within ρ _ _
  have hactual : ∀ future : Bool, change
      (ibReading future (some w.spotNow) (some (snapshotRow N ρ w.latest w.heldNow))).pnl
      (ibReading future (some w.spotThen) (some (snapshotRow N ρ w.start w.held))).pnl =
        some (ρ.round w.pnlNow 2 - ρ.round w.pnlThen 2) := by
    intro future
    simp [change, ibReading, snapshotRow, w.storedPnl]
  have hdelta' := delta_within ρ ((ibExposure N w.start w.held).notional * (ibExposure N w.start w.held).delta)
    w.start.F w.spotThen w.move.spot hspot (by rwa [hterms] at hunits)
  by_cases hfuture : w.held.instrumentType = .future
  · have hread : (w.row ρ).isFuture = true := (row_isFuture w ρ).mpr hfuture
    have hx : ibExposure N w.start w.held = ⟨w.held.quantity * w.held.multiplier, 1, 0, 0, 0⟩ := if_pos hfuture
    rw [hread]
    refine returned_of_near w.move.spot 0 (ρ.round g.deltaUsd 2 / w.spotThen) 0 0 0 (hactual true) rfl
      (by simp [change, ibReading]) (by simp [ibReading, perSpot, snapshotRow, hg, hspot]) rfl rfl rfl rfl hpnl ?_ ?_ ?_ ?_
    · rw [hterms, hdelta, IbWindow.slack, if_pos hfuture]
      exact hdelta'
    all_goals simp [hterms, hx, IbWindow.slack, hfuture]
  · have hread : (w.row ρ).isFuture = false :=
      Bool.eq_false_of_not_eq_true fun h => hfuture ((row_isFuture w ρ).mp h)
    obtain ⟨hvol, hvolNow⟩ := w.storedVols hfuture
    rw [storedVol, if_neg hfuture] at hvol
    have hnow : ¬ w.heldNow.instrumentType = .future := by
      intro hnow
      rw [storedVol, if_pos hnow] at hvolNow
      cases hvolNow
    rw [storedVol, if_neg hnow] at hvolNow
    rw [hread]
    refine returned_of_near w.move.spot (ρ.round w.volNow 5 * 100 - ρ.round w.volThen 5 * 100)
      (ρ.round g.deltaUsd 2 / w.spotThen) (ρ.round g.gammaUsdPerPip 2) (ρ.round g.vegaUsdPerVolpt 2)
      (ρ.round g.thetaUsdPerDay 2) (hactual false) rfl
      (by simp [change, ibReading, ivFractionToPts, snapshotRow, hfuture, hnow, hvol, hvolNow])
      (by simp [ibReading, perSpot, snapshotRow, hg, hspot]) (by simp [ibReading, snapshotRow, hg])
      (by simp [ibReading, snapshotRow, hg]) (by simp [ibReading, snapshotRow, hg]) rfl hpnl ?_ ?_ ?_ ?_
    · rw [hterms, hdelta, IbWindow.slack, if_neg hfuture]
      exact hdelta'
    · rw [hterms, hgamma, IbWindow.slack, if_neg hfuture]
      exact gamma_within ρ _ _
    · rw [hterms, hvega, IbWindow.slack, if_neg hfuture]
      exact vega_within ρ _ _ _
    · rw [hterms, htheta, IbWindow.slack, if_neg hfuture]
      exact theta_within ρ _ _

/-- Nothing rounded, the delta term that comes back -/
theorem ib_exact_delta : (decomposeRow .exact w.now
    (ibReading (w.row .exact).isFuture (some w.spotNow) (some (snapshotRow N .exact w.latest w.heldNow)))
    (ibReading (w.row .exact).isFuture (some w.spotThen) (some (snapshotRow N .exact w.start w.held)))
    (some w.tThen) (if (w.row .exact).isFuture then 1 else 1 / pipSize)).deltaPnlUsd =
      some (w.terms.delta * (w.start.F / w.spotThen)) := by
  obtain ⟨g, hg, hdelta, -⟩ := persisted_exposure (N := N) (c := w.start) w.priced
  have hspot : w.spotThen ≠ 0 := w.spotPos.ne'
  have hterm : g.deltaUsd / w.spotThen * (w.spotNow - w.spotThen) = w.terms.delta * (w.start.F / w.spotThen) := by
    simp only [hdelta, IbWindow.terms, expansion, IbWindow.move, List.map_cons, List.map_nil, List.sum_cons,
      List.sum_nil]
    ring
  rw [← hterm]
  simp [decomposeRow, change, ibReading, perSpot, snapshotRow, w.storedPnl, hg, hspot, Rounding.exact]

end Ib

namespace Window

variable {N : RiskNumerics}

/-- For windows of both sources: whatever the rounding, the attribution returns the expansion that moved
the P&L and leaves no residual, just where the delta has nothing to explain or is that of an IB position
priced at the spot the window starts with. -/
theorem consistent_iff (w : Window N) : w.Consistent ↔ w.DeltaUnits := by
  cases w with
  | ibLive w s q h =>
    constructor
    · intro hall
      obtain ⟨a, ha, hid, hsource, hreturned⟩ := hall .exact s q h
      have hslack : w.slack Rounding.exact.unit = ⟨0, 0, 0, 0⟩ := by
        simp [IbWindow.slack, Rounding.exact]
      rw [ib_attributed w h a ha hid hsource, ibTerms_eq w h, hslack] at hreturned
      have hdelta := Option.some.inj (hreturned.exact_delta.symm.trans (ib_exact_delta w))
      by_cases hzero : w.terms.delta = 0
      · exact .inl hzero
      · have hratio : w.start.F / w.spotThen = 1 := (mul_eq_left₀ hzero).mp hdelta.symm
        exact .inr ((div_eq_one_iff_eq w.spotPos.ne').mp hratio)
    · intro hunits ρ s q h
      obtain ⟨a, ha, hid, hsource⟩ := ib_mem w h
      refine ⟨a, ha, hid, hsource, ?_⟩
      rw [ib_attributed w h a ha hid hsource, ibTerms_eq w h]
      exact ib_returned w hunits ρ
  | booked w s q h =>
    obtain ⟨mark, hdelta, hgamma, hvega, htheta, hread⟩ := metricReading_live w
    constructor
    · intro hall
      obtain ⟨a, ha, hid, hsource, hreturned⟩ := hall .exact s q h
      rw [booked_attributed w h a ha hid hsource] at hreturned
      have hterm : w.terms.delta = mark.totalDelta * w.move.spot := by
        have hback := hreturned.exact_delta
        rw [hread] at hback
        simpa [decomposeRow, change, metricReading, Rounding.exact, BookedWindow.move] using hback.symm
      have hmult : (eurFopMultiplier : ℚ) = 125000 := rfl
      rw [hmult] at hdelta
      change w.terms.delta = 0
      linarith
    · intro hflat ρ s q h
      obtain ⟨a, ha, hid, hsource⟩ := booked_mem w (ρ := ρ) h
      refine ⟨a, ha, hid, hsource, ?_⟩
      rw [booked_attributed w h a ha hid hsource, hread]
      have hzero : mark.totalDelta * w.move.spot = 0 := by
        have hmult : (eurFopMultiplier : ℚ) = 125000 := rfl
        change w.terms.delta = 0 at hflat
        rw [hmult, hflat] at hdelta
        linarith
      have hpnl : w.rowNow.mtm.pnlGrossUsd - w.rowThen.mtm.pnlGrossUsd = w.terms.total := w.moved
      have hactual : change (metricReading (some w.rowNow)).pnl (some w.rowThen.mtm.pnlGrossUsd) =
          some w.terms.total := by
        rw [← hpnl]
        rfl
      refine returned_of_near w.move.spot (w.rowNow.ivAvgLegsPct - w.rowThen.ivAvgLegsPct) mark.totalDelta
        mark.totalGammaUsdPerPip2 mark.totalVegaUsdPerVolpt mark.totalThetaUsdPerDay hactual rfl rfl rfl rfl
        rfl rfl rfl (by simp) ?_ ?_ ?_ ?_
      · have hdelta' : w.terms.delta = 0 := hflat
        simp [hzero, hdelta']
      · rw [hgamma, sub_self, abs_zero]
      · rw [hvega, sub_self, abs_zero]
      · have hdays : mark.totalThetaUsdPerDay * daysBetween w.start.now w.now = w.terms.theta := htheta
        simp [hdays]

end Window

/-- A cycle of the booked straddle so many days later -/
def cycleAt (market : Market) (days : ℤ) : Cycle :=
  { watch .mock 0 0 with market := market, now := MonitoredPnl.march + days * 86400000000 }

def friday : Cycle := cycleAt MonitoredPnl.quoted 0

/-- No surface, and the P&L from the theta of the entry -/
def sunday : Cycle := cycleAt ⟨none, none, none⟩ 2

/-- The straddle with a theta that makes the P&L of the weekend the expansion -/
def decayed : Position :=
  let held := heldStraddle .mock
  let moved := (expansion (bookedExposures riskNumerics.vol friday held)
    ⟨(metricRow riskNumerics.vol sunday 0 held).spot - (metricRow riskNumerics.vol friday 0 held).spot, 0, 2⟩).total
  { held with
    payload := { held.payload with
      greeksNet := { held.payload.greeksNet with
        thetaUsdPerDay := ((metricRow riskNumerics.vol friday 0 held).mtm.pnlGrossUsd + moved) / 2 } } }

def weekendWindow : BookedWindow riskNumerics.vol where
  start := friday
  latest := sunday
  id := 0
  pos := decayed
  posNow := decayed
  now := sunday.now
  live := by decide +kernel
  moved := by decide +kernel

def weekendTables : Tables where
  openPositions := []
  openHistory := []
  bookedPositions := [(0, decayed.toBookedPosition)]
  metricHistory := [weekendWindow.rowThen, weekendWindow.rowNow]

def weekendRequest : Request := ⟨sunday.now, 24, none, none⟩

theorem weekend_recorded : weekendWindow.Recorded weekendTables weekendRequest where
  now := rfl
  row := ⟨_, List.mem_singleton_self _, rfl⟩
  metrics := by decide +kernel

/-- The spot costs the straddle over six thousand dollars; the attribution returns five cents and leaves
the rest unexplained. -/
theorem booked_delta_lost :
    weekendWindow.terms.delta < -6368 ∧
    (∀ a ∈ computeAttribution .python weekendTables weekendRequest,
      a.terms.deltaPnlUsd = some (-5 / 100) ∧ a.terms.residualUsd = some (-636891 / 100)) ∧
    ¬ ∀ (N : RiskNumerics) (w : Window N), w.Consistent := by
  have hterm : weekendWindow.terms.delta < -6368 := by decide +kernel
  have hrows : ∀ a ∈ computeAttribution .python weekendTables weekendRequest,
      a.terms.deltaPnlUsd = some (-5 / 100) ∧ a.terms.residualUsd = some (-636891 / 100) := by
    decide +kernel
  refine ⟨hterm, hrows, fun hall => ?_⟩
  obtain ⟨a, ha, -, -, hreturned⟩ :=
    hall riskNumerics (.booked weekendWindow weekendTables weekendRequest weekend_recorded) .python
      weekendTables weekendRequest weekend_recorded
  obtain ⟨x, hx, hnear⟩ := hreturned.delta
  rw [(hrows a ha).1] at hx
  cases hx
  rw [abs_le] at hnear
  norm_num [Rounding.python] at hnear
  linarith [hnear.2]

end FxVol.PnlAttributions
