import FxVol.OptionPrices
import FxVol.RiskSnapshots

/-!
# Full revaluation of the open book

`core.risk.stress.reval_book` and the panels that revalue the book with it, `/stress-grid` and
`/greeks-ladder`; and `/scenarios`, which revalues the book by a loop of its own.
-/
namespace FxVol.Revaluation

open Greeks RiskSnapshots

/-- A row of `open_position` with the columns a revaluation reads -/
structure BookRow where
  id : ℕ
  localSymbol : String
  side : Side
  quantity : ℚ
  expiry : Option Date
  marketPrice : Option ℚ
  iv : Option ℚ
  deriving DecidableEq

/-- A number that counts as true -/
def truthy (x : Option ℚ) : Option ℚ := x.filter fun x => x ≠ 0

structure OptionTerms where
  K : ℚ
  T : ℚ
  iv : ℚ
  right : ContractType
  deriving DecidableEq

/-- A position as both panels resolve it; a future has no option terms. -/
structure ResolvedPosition where
  qtySigned : ℚ
  mult : ℚ
  option : Option OptionTerms
  deriving DecidableEq

/-- The number of contracts times the multiplier -/
def ResolvedPosition.qm (p : ResolvedPosition) : ℚ := p.qtySigned * p.mult

def yearsTo (today : ℤ) (expiry : Date) : ℚ := max (1 / 1000) (((expiry.toOrdinal - today : ℤ) : ℚ) / 365)

def optionTerms (today : ℤ) (spec : ContractSpec) (p : BookRow) : Option OptionTerms :=
  match spec.optionType, truthy spec.strike, p.expiry, truthy p.iv with
  | some right, some K, some expiry, some iv => some ⟨K, yearsTo today expiry, iv, right⟩
  | _, _, _, _ => none

def resolve (today : ℤ) (p : BookRow) : Option ResolvedPosition :=
  (parseLocalSymbol p.localSymbol).bind fun spec =>
    let qtySigned := p.quantity * sideSign p.side
    if spec.instrumentType = .future then some ⟨qtySigned, spec.multiplier, none⟩
    else (optionTerms today spec p).map fun terms => ⟨qtySigned, spec.multiplier, some terms⟩

def positions (today : ℤ) (rows : List BookRow) : List ResolvedPosition := rows.filterMap (resolve today)

inductive SpotSource | futureMark | strikeProxy
  deriving DecidableEq

def futureMark (rows : List BookRow) : Option ℚ :=
  rows.findSome? fun p => (parseLocalSymbol p.localSymbol).bind fun spec =>
    if spec.instrumentType = .future then truthy p.marketPrice else none

/-- The spot of `_resolve_book`: the strike it falls back on is of an option with a mark and an IV. -/
def resolveSpot (rows : List BookRow) : Option (ℚ × SpotSource) :=
  match futureMark rows with
  | some spot => some (spot, .futureMark)
  | none =>
    (rows.findSome? fun p => (parseLocalSymbol p.localSymbol).bind fun spec =>
      if (truthy p.marketPrice).isSome ∧ (truthy p.iv).isSome then truthy spec.strike else none).map
      fun strike => (strike, .strikeProxy)

/-- The spot of `/scenarios`, whose strike needs a mark only -/
def scenarioSpot (rows : List BookRow) : Option ℚ :=
  (futureMark rows).or <| rows.findSome? fun p => (parseLocalSymbol p.localSymbol).bind fun spec =>
    if spec.optionType.isSome ∧ (truthy p.marketPrice).isSome then truthy spec.strike else none

inductive Output | pnl | delta | gamma | vega | theta | vanna | volga
  deriving DecidableEq

structure Shocks where
  dspotBp : ℚ := 0
  dvolVp : ℚ := 0
  dtDays : ℚ := 0
  dskewVp : ℚ := 0
  dflyVp : ℚ := 0

def moneyBand : ℚ := 5 / 100

def moneyWeight (strike spot : ℚ) : ℚ :=
  if spot ≤ 0 then 0 else max (-1) (min 1 ((strike - spot) / (spot * moneyBand)))

def shockedIv (o : OptionTerms) (spot : ℚ) (s : Shocks) : ℚ :=
  let iv := o.iv + s.dvolVp / 100
  if s.dskewVp ≠ 0 ∨ s.dflyVp ≠ 0 then
    let w := moneyWeight o.K spot
    iv + s.dskewVp / 100 * (1 / 2) * w + s.dflyVp / 100 * |w|
  else iv

/-- A position of `_resolve_book`, with the price of its option at the current spot and IV -/
structure Baseline extends ResolvedPosition where
  priceBase : ℚ

/-- A position of `/scenarios`, with its value at the current spot and IV -/
structure ScenarioPosition extends ResolvedPosition where
  npvBase : ℚ

section Reval
variable (N : Numerics)

def baseline (spot : ℚ) (p : ResolvedPosition) : Baseline :=
  { p with priceBase := p.option.elim 0 fun o => bsPrice N spot o.K o.T o.iv o.right }

def greek (output : Output) (qm spot : ℚ) (o : OptionTerms) (iv : ℚ) : ℚ :=
  match output with
  | .pnl => 0
  | .delta => qm * bsDelta N spot o.K o.T iv o.right
  | .gamma => qm * bsGamma N spot o.K o.T iv * (1 / 10000)
  | .vega => qm * bsVega N spot o.K o.T iv * (1 / 100)
  | .theta => qm * bsTheta N spot o.K o.T iv
  | .vanna => qm * bsVanna N spot o.K o.T iv * (1 / 100)
  | .volga => qm * bsVolga N spot o.K o.T iv * (1 / 10000)

/-- One position of `reval_book` -/
def revalStep (spot0 : ℚ) (s : Shocks) (output : Output) (total : ℚ) (p : Baseline) : ℚ :=
  let newSpot := spot0 * (1 + s.dspotBp / 10000)
  match p.option with
  | none =>
    match output with
    | .pnl => total + p.qm * (newSpot - spot0)
    | .delta => total + p.qm
    | _ => total
  | some o =>
    let newT := max (1 / 10000) (o.T - s.dtDays / 365)
    let newIv := shockedIv o newSpot s
    -- an option whose shocked vol is not positive is left out, its base value with it
    if newIv ≤ 0 then total
    else if output = .pnl then total + p.qm * (bsPrice N newSpot o.K newT newIv o.right - p.priceBase)
    else total + greek N output p.qm newSpot { o with T := newT } newIv

def revalBook (baselines : List Baseline) (spot0 : ℚ) (s : Shocks) (output : Output) : ℚ :=
  baselines.foldl (revalStep N spot0 s output) 0

/-- The second axis of the stress grid, and an axis of the ladder -/
inductive Axis | spot | vol | time | skew | fly
  deriving DecidableEq

def Axis.shock (a : Axis) (x : ℚ) (s : Shocks) : Shocks :=
  match a with
  | spot => { s with dspotBp := x }
  | vol => { s with dvolVp := x }
  | time => { s with dtDays := x }
  | skew => { s with dskewVp := x }
  | fly => { s with dflyVp := x }

/-- `_STRESS_SPOT_BPS` and the rows of `_STRESS_ROW_AXES` -/
def Axis.stressBins : Axis → List ℚ
  | spot => [-200, -100, -50, 0, 50, 100, 200]
  | vol => [3, 1, 0, -1, -3]
  | time => [40, 20, 10, 5, 0]
  | skew => [2, 1, 0, -1, -2]
  | fly => [2, 1, 0, -1, -2]

/-- `_LADDER_AXES` -/
def Axis.ladderBins : Axis → List ℚ
  | spot => [-400, -200, 0, 200, 400]
  | vol => [-3, -1, 0, 1, 3]
  | time => [0, 5, 10, 20, 40]
  | skew => [-2, -1, 0, 1, 2]
  | fly => [-2, -1, 0, 1, 2]

variable (ρ : Rounding)

def gridCell (baselines : List Baseline) (spot : ℚ) (s : Shocks) (output : Output) : ℚ :=
  ρ.round (revalBook N baselines spot s output) 2

structure StressGrid where
  currentSpot : Option ℚ
  spotSource : Option SpotSource
  nPositions : ℕ
  grid : List (List ℚ)

def stressGrid (today : ℤ) (rows : List BookRow) (axis : Axis) (output : Output) : StressGrid :=
  match resolveSpot rows with
  | none => ⟨none, none, 0, []⟩
  | some (spot, source) =>
    let baselines := (positions today rows).map (baseline N spot)
    { currentSpot := some (ρ.round spot 5)
      spotSource := some source
      nPositions := baselines.length
      grid := axis.stressBins.map fun x => Axis.stressBins .spot |>.map fun bp =>
        gridCell N ρ baselines spot (axis.shock x { dspotBp := bp }) output }

structure LadderRow where
  axisValue : ℚ
  pnlUsd : ℚ
  deltaUsd : ℚ
  gammaUsdPerPip : ℚ
  vegaUsdPerVolpt : ℚ
  hedgeDeltaUsd : ℚ
  deriving DecidableEq

/-- The delta of `reval_book` is an exposure in EUR; times the current spot it is in USD. -/
def ladderRow (baselines : List Baseline) (spot : ℚ) (s : Shocks) (x : ℚ) : LadderRow :=
  let delta := revalBook N baselines spot s .delta * spot
  { axisValue := x
    pnlUsd := ρ.round (revalBook N baselines spot s .pnl) 2
    deltaUsd := ρ.round delta 2
    gammaUsdPerPip := ρ.round (revalBook N baselines spot s .gamma) 2
    vegaUsdPerVolpt := ρ.round (revalBook N baselines spot s .vega) 2
    hedgeDeltaUsd := -ρ.round delta 2 }

structure GreeksLadder where
  currentSpot : Option ℚ
  spotSource : Option SpotSource
  nPositions : ℕ
  rows : List LadderRow

def greeksLadder (today : ℤ) (rows : List BookRow) (axis : Axis) : GreeksLadder :=
  match resolveSpot rows with
  | none => ⟨none, none, 0, []⟩
  | some (spot, source) =>
    let baselines := (positions today rows).map (baseline N spot)
    { currentSpot := some (ρ.round spot 5)
      spotSource := some source
      nPositions := baselines.length
      rows := axis.ladderBins.map fun x => ladderRow N ρ baselines spot (axis.shock x {}) x }

structure Totals where
  pnl : ℚ
  delta : ℚ
  gamma : ℚ
  vega : ℚ
  theta : ℚ
  deriving DecidableEq

def scenarioPosition (spot : ℚ) (p : ResolvedPosition) : ScenarioPosition :=
  { p with npvBase := p.qm * p.option.elim spot fun o => bsPrice N spot o.K o.T o.iv o.right }

/-- One position of `_aggregate`: a vol is floored, and theta, which is per day, is divided by 365. -/
def aggregateStep (spotNow ivShift : ℚ) (t : Totals) (p : ScenarioPosition) : Totals :=
  match p.option with
  | none => { t with pnl := t.pnl + (p.qm * spotNow - p.npvBase), delta := t.delta + p.qm }
  | some o =>
    let sigma := max (1 / 1000) (o.iv + ivShift)
    { pnl := t.pnl + (p.qm * bsPrice N spotNow o.K o.T sigma o.right - p.npvBase)
      delta := t.delta + p.qm * bsDelta N spotNow o.K o.T sigma o.right
      gamma := t.gamma + p.qm * bsGamma N spotNow o.K o.T sigma * (1 / 10000)
      vega := t.vega + p.qm * bsVega N spotNow o.K o.T sigma * (1 / 100)
      theta := t.theta + p.qm * bsTheta N spotNow o.K o.T sigma / 365 }

def totals (ps : List ScenarioPosition) (spotNow ivShift : ℚ) : Totals :=
  ps.foldl (aggregateStep N spotNow ivShift) ⟨0, 0, 0, 0, 0⟩

def aggregate (ps : List ScenarioPosition) (spotNow ivShift : ℚ) : Totals :=
  let t := totals N ps spotNow ivShift
  ⟨ρ.round t.pnl 2, ρ.round t.delta 2, ρ.round t.gamma 2, ρ.round t.vega 2, ρ.round t.theta 2⟩

def scenarioSpotStepsPct : List ℚ :=
  [-5, -4, -3, -2, -3 / 2, -1, -1 / 2, -1 / 4, 0, 1 / 4, 1 / 2, 1, 3 / 2, 2, 3, 4, 5]

def scenarioIvStepsVolpt : List ℚ := [-5, -4, -3, -2, -1, -1 / 2, 0, 1 / 2, 1, 2, 3, 4, 5]

structure Scenarios where
  currentSpot : Option ℚ
  currentIvAvgPct : Option ℚ
  bySpot : List (ℚ × Totals)
  byIv : List (ℚ × Totals)
  nPositions : ℕ

def currentIvAvgPct (ps : List ResolvedPosition) : Option ℚ :=
  let ivs := (ps.filterMap (·.option)).map (·.iv)
  if 0 < ivs.length then some (ρ.round (ivs.sum / ivs.length * 100) 2) else none

def scenarios (today : ℤ) (rows : List BookRow) : Scenarios :=
  match scenarioSpot rows with
  | none => ⟨none, none, [], [], 0⟩
  | some spot =>
    let ps := (positions today rows).map (scenarioPosition N spot)
    { currentSpot := some (ρ.round spot 5)
      currentIvAvgPct := currentIvAvgPct ρ (positions today rows)
      bySpot := scenarioSpotStepsPct.map fun step =>
        (ρ.round (spot * (1 + step / 100)) 5, aggregate N ρ ps (spot * (1 + step / 100)) 0)
      byIv := scenarioIvStepsVolpt.map fun step => (step, aggregate N ρ ps spot (step / 100))
      nPositions := ps.length }

end Reval

end FxVol.Revaluation
