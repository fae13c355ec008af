import FxVol.GreekScaling
import FxVol.PreviewRequests
import Mathlib.Data.List.MinMax

/-!
# Building a preview

`build_structure` from a template and `build_from_legs` from free legs, the net greeks of a
structure unit, the sizing, and the part of the stored payload that the pre-trade gate reads.
Texts that name no tenor or no delta pillar are `Named.other`.
-/
namespace FxVol.TradePreviews

open Greeks
open PreviewRequests (Regime)

inductive Named (α : Type*)
  | known (a : α)
  | other
  deriving DecidableEq

/-- `DISPLAY_PILLARS`, which are the tenors of `TENOR_TO_DTE` -/
inductive Tenor | m1 | m2 | m3 | m4 | m5 | m6
  deriving DecidableEq

def Tenor.all : List Tenor := [.m1, .m2, .m3, .m4, .m5, .m6]

/-- `TENOR_TO_DTE` -/
def Tenor.dte : Tenor → ℕ
  | .m1 => 30
  | .m2 => 60
  | .m3 => 90
  | .m4 => 120
  | .m5 => 150
  | .m6 => 180

inductive DeltaPillar | dp10 | dp25 | atm | dc25 | dc10
  deriving DecidableEq

def DeltaPillar.all : List DeltaPillar := [.dp10, .dp25, .atm, .dc25, .dc10]

structure Cell where
  iv : Option ℚ
  strike : Option ℚ
  interp : Bool

/-- The published surface: its cells, and `butterfly_g_min` of each tenor of its SVI report, where
it carries one. -/
structure Surface where
  cell : Tenor → DeltaPillar → Option Cell
  svi : Option (List (Option ℚ))

def Surface.iv (s : Surface) (t : Tenor) (d : DeltaPillar) : Option ℚ := (s.cell t d).bind (·.iv)

def Surface.strike (s : Surface) (t : Tenor) (d : DeltaPillar) : Option ℚ :=
  (s.cell t d).bind (·.strike)

def spotFromSurface (s : Surface) : ℚ :=
  (([Tenor.m1, .m2, .m3].filterMap fun t => s.strike t .atm).head?).getD 1

/-- `_any_butterfly_violation`, where the surface reports on it. -/
def Surface.butterflyViolation (s : Surface) : Option Bool :=
  s.svi.map fun nodes => nodes.any fun g => g.any (· < 0)

/-- `surface_listed_tenors` -/
def listedTenors (s : Surface) : List Tenor :=
  Tenor.all.filter fun t =>
    (DeltaPillar.all.any fun d => (s.iv t d).isSome) ∧
      ¬ (DeltaPillar.all.any fun d => (s.cell t d).any (·.interp))

def snapTenor (requested : Tenor) (s : Surface) : Tenor :=
  if requested ∈ listedTenors s then requested
  else
    ((listedTenors s).argmin fun t => ((t.dte : ℤ) - requested.dte).natAbs).getD requested

def syntheticSurface : Surface where
  cell t d :=
    let atm : ℚ := match t with
      | .m1 => 68 / 1000
      | .m2 => 69 / 1000
      | .m3 => 70 / 1000
      | .m4 => 705 / 10000
      | .m5 => 71 / 1000
      | .m6 => 715 / 10000
    let (smile, offset) : ℚ × ℚ := match d with
      | .dp10 => (6 / 10, -20 / 1000)
      | .dp25 => (2 / 10, -10 / 1000)
      | .atm => (0, 0)
      | .dc25 => (1 / 10, 10 / 1000)
      | .dc10 => (45 / 100, 20 / 1000)
    some ⟨some (atm + smile / 100), some (1085 / 1000 + offset), false⟩
  svi := none

inductive FutureSize | full | micro
  deriving DecidableEq

/-- `FUTURE_MULTIPLIERS` -/
def FutureSize.multiplier : FutureSize → ℚ
  | .full => 125000
  | .micro => 12500

/-- `FUTURE_IB_SYMBOLS` -/
def FutureSize.ibSymbol : FutureSize → String
  | .full => "EUR"
  | .micro => "M6E"

structure Leg where
  legIdx : ℕ
  contractType : ContractType
  dte : ℕ
  strike : Option ℚ
  qtyFactor : ℤ
  side : Side
  entryIvPct : Option ℚ
  deriving DecidableEq

inductive VegaSign | positive | negative | neutral
  deriving DecidableEq

structure Structure where
  legs : List Leg
  requiresDeltaHedge : Bool
  vegaSign : VegaSign
  futureContractSize : Option FutureSize
  deriving DecidableEq

inductive LegError | unknownTenor | qtyFactorNotPositive | badDeltaPillar
  deriving DecidableEq

inductive BuildError
  | legsOrStructureTypeRequired
  | noLegs
  | leg (i : ℕ) (e : LegError)
  deriving DecidableEq

structure LegSpec where
  contractType : ContractType
  side : Side
  tenor : Named Tenor
  deltaPillar : Option (Named DeltaPillar)
  strike : Option ℚ
  qtyFactor : ℤ
  futureContractSize : Option FutureSize
  deriving DecidableEq

/-- One round of the loop of `build_from_legs`. -/
def LegSpec.build (spec : LegSpec) (s : Surface) (i : ℕ) : Except LegError Leg :=
  match spec.tenor with
  | .other => .error .unknownTenor
  | .known tenor =>
    if spec.qtyFactor ≤ 0 then .error .qtyFactorNotPositive
    else if spec.contractType = .future then
      .ok ⟨i, .future, tenor.dte, none, spec.qtyFactor, spec.side, none⟩
    else
      match spec.deltaPillar.getD (.known .atm) with
      | .other => .error .badDeltaPillar
      | .known pillar =>
        let effTenor := snapTenor tenor s
        .ok
          { legIdx := i
            contractType := spec.contractType
            dte := effTenor.dte
            strike := spec.strike.or (s.strike effTenor pillar)
            qtyFactor := spec.qtyFactor
            side := spec.side
            entryIvPct := (s.iv effTenor pillar).map (· * 100) }

def buildLegs (s : Surface) : ℕ → List LegSpec → Except BuildError (List Leg)
  | _, [] => .ok []
  | i, spec :: specs =>
    match spec.build s i with
    | .error e => .error (.leg i e)
    | .ok leg =>
      match buildLegs s (i + 1) specs with
      | .error e => .error e
      | .ok legs => .ok (leg :: legs)

/-- What a leg has of its spec. -/
theorem LegSpec.build_ok {spec : LegSpec} {s : Surface} {i : ℕ} {leg : Leg}
    (h : spec.build s i = .ok leg) :
    leg.legIdx = i ∧ leg.contractType = spec.contractType ∧ leg.side = spec.side ∧
      leg.qtyFactor = spec.qtyFactor ∧ 0 < spec.qtyFactor := by
  unfold LegSpec.build at h
  cases htenor : spec.tenor with
  | other =>
    rw [htenor] at h
    cases h
  | known tenor =>
    rw [htenor] at h
    dsimp only at h
    split_ifs at h with hqty hfuture
    · cases h
      exact ⟨rfl, hfuture.symm, rfl, rfl, not_le.mp hqty⟩
    · cases hpillar : spec.deltaPillar.getD (.known .atm) with
      | other =>
        rw [hpillar] at h
        cases h
      | known pillar =>
        rw [hpillar] at h
        cases h
        exact ⟨rfl, rfl, rfl, rfl, not_le.mp hqty⟩

theorem buildLegs_cons {s : Surface} {spec : LegSpec} {specs : List LegSpec} {i : ℕ}
    {legs : List Leg} (h : buildLegs s i (spec :: specs) = .ok legs) :
    ∃ leg rest, spec.build s i = .ok leg ∧ buildLegs s (i + 1) specs = .ok rest ∧
      legs = leg :: rest := by
  rw [buildLegs] at h
  cases hleg : spec.build s i with
  | error e =>
    rw [hleg] at h
    cases h
  | ok leg =>
    rw [hleg] at h
    cases hrest : buildLegs s (i + 1) specs with
    | error e =>
      rw [hrest] at h
      cases h
    | ok rest =>
      rw [hrest] at h
      cases h
      exact ⟨leg, rest, rfl, rfl, rfl⟩

/-- The size of a future leg; an option has none. -/
def LegSpec.futureSize (spec : LegSpec) : Option FutureSize :=
  if spec.contractType = .future then some (spec.futureContractSize.getD .full) else none

def vegaScore (legs : List Leg) : ℤ :=
  ((legs.filter (·.contractType ≠ .future)).map fun leg =>
    if leg.side = .buy then leg.qtyFactor else -leg.qtyFactor).sum

def buildFromLegs (specs : List LegSpec) (s : Surface) : Except BuildError Structure :=
  if specs = [] then .error .noLegs
  else
    match buildLegs s 0 specs with
    | .error e => .error e
    | .ok legs => .ok
        { legs := legs
          requiresDeltaHedge := legs.any (·.contractType ≠ .future)
          vegaSign :=
            if 0 < vegaScore legs then .positive
            else if vegaScore legs < 0 then .negative
            else .neutral
          futureContractSize := (specs.filterMap LegSpec.futureSize).head? }

inductive StructureType
  | straddleAtm | shortStrangle | calendarLong | calendarShort | longButterfly25d
  | shortButterfly25d | shortStraddleAtm | longStrangle25d | futureBuy | futureSell | vanillaCall
  | shortVanillaCall | vanillaPut | shortVanillaPut
  deriving DecidableEq

structure TemplateLeg where
  contractType : ContractType
  deltaPillar : DeltaPillar
  far : Bool := false
  side : Side
  qtyFactor : ℤ := 1
  overridable : Bool := true

structure Template where
  requiresDeltaHedge : Bool := true
  vegaSign : VegaSign
  legs : List TemplateLeg

/-- `TEMPLATES` -/
def StructureType.template : StructureType → Template
  | .straddleAtm =>
    { vegaSign := .positive
      legs := [{ contractType := .call, deltaPillar := .atm, side := .buy },
        { contractType := .put, deltaPillar := .atm, side := .buy }] }
  | .shortStrangle =>
    { vegaSign := .negative
      legs := [{ contractType := .call, deltaPillar := .dc25, side := .sell },
        { contractType := .put, deltaPillar := .dp25, side := .sell }] }
  | .calendarLong =>
    { vegaSign := .positive
      legs := [{ contractType := .call, deltaPillar := .atm, side := .sell },
        { contractType := .call, deltaPillar := .atm, far := true, side := .buy }] }
  | .calendarShort =>
    { vegaSign := .negative
      legs := [{ contractType := .call, deltaPillar := .atm, side := .buy },
        { contractType := .call, deltaPillar := .atm, far := true, side := .sell }] }
  | .longButterfly25d =>
    { vegaSign := .neutral
      legs := [{ contractType := .call, deltaPillar := .dc10, side := .buy },
        { contractType := .call, deltaPillar := .atm, side := .sell, qtyFactor := 2,
          overridable := false },
        { contractType := .call, deltaPillar := .dp10, side := .buy }] }
  | .shortButterfly25d =>
    { vegaSign := .neutral
      legs := [{ contractType := .call, deltaPillar := .dc10, side := .sell },
        { contractType := .call, deltaPillar := .atm, side := .buy, qtyFactor := 2,
          overridable := false },
        { contractType := .call, deltaPillar := .dp10, side := .sell }] }
  | .shortStraddleAtm =>
    { vegaSign := .negative
      legs := [{ contractType := .call, deltaPillar := .atm, side := .sell },
        { contractType := .put, deltaPillar := .atm, side := .sell }] }
  | .longStrangle25d =>
    { vegaSign := .positive
      legs := [{ contractType := .call, deltaPillar := .dc25, side := .buy },
        { contractType := .put, deltaPillar := .dp25, side := .buy }] }
  | .futureBuy =>
    { requiresDeltaHedge := false, vegaSign := .neutral
      legs := [{ contractType := .future, deltaPillar := .atm, side := .buy }] }
  | .futureSell =>
    { requiresDeltaHedge := false, vegaSign := .neutral
      legs := [{ contractType := .future, deltaPillar := .atm, side := .sell }] }
  | .vanillaCall =>
    { vegaSign := .positive
      legs := [{ contractType := .call, deltaPillar := .atm, side := .buy }] }
  | .shortVanillaCall =>
    { vegaSign := .negative
      legs := [{ contractType := .call, deltaPillar := .atm, side := .sell }] }
  | .vanillaPut =>
    { vegaSign := .positive
      legs := [{ contractType := .put, deltaPillar := .atm, side := .buy }] }
  | .shortVanillaPut =>
    { vegaSign := .negative
      legs := [{ contractType := .put, deltaPillar := .atm, side := .sell }] }

/-- The level of a delta pillar that the user picked; `other` names no pillar. -/
inductive PillarLevel | ten | twentyFive | other
  deriving DecidableEq

inductive PillarOverride
  | atm
  | wing (level : PillarLevel)
  deriving DecidableEq

def PillarLevel.call : PillarLevel → Option DeltaPillar
  | .ten => some .dc10
  | .twentyFive => some .dc25
  | .other => none

def PillarLevel.put : PillarLevel → Option DeltaPillar
  | .ten => some .dp10
  | .twentyFive => some .dp25
  | .other => none

def mirrorPillar (override : PillarOverride) (templatePillar : DeltaPillar)
    (contractType : ContractType) : Option DeltaPillar :=
  match override with
  | .atm => some .atm
  | .wing level =>
    match templatePillar with
    | .dc10 | .dc25 => level.call
    | .dp10 | .dp25 => level.put
    | .atm => if contractType = .call then level.call else level.put

structure TemplateRequest where
  structureType : StructureType
  nearTenor : Named Tenor
  farTenor : Option (Named Tenor)
  deltaPillar : Option PillarOverride
  strikeOverride : Option ℚ
  futureContractSize : Option FutureSize
  deriving DecidableEq

/-- One round of the loop of `build_structure`. -/
def TemplateLeg.build (lt : TemplateLeg) (req : TemplateRequest) (single : Bool) (s : Surface)
    (i : ℕ) : Leg :=
  let tenor := if lt.far then req.farTenor.getD req.nearTenor else req.nearTenor
  let pillar :=
    match req.deltaPillar with
    | some override =>
      if lt.overridable ∧ lt.contractType ≠ .future then
        mirrorPillar override lt.deltaPillar lt.contractType
      else some lt.deltaPillar
    | none => some lt.deltaPillar
  let node : Option Cell :=
    match tenor, pillar with
    | .known t, some d => s.cell t d
    | _, _ => none
  let isFuture := lt.contractType = .future
  { legIdx := i
    contractType := lt.contractType
    dte := match tenor with
      | .known t => t.dte
      | .other => 90
    strike :=
      if isFuture then none
      else if single ∧ req.strikeOverride.isSome then req.strikeOverride
      else node.bind (·.strike)
    qtyFactor := lt.qtyFactor
    side := lt.side
    entryIvPct := if isFuture then none else (node.bind (·.iv)).map (· * 100) }

def TemplateRequest.futureSize (req : TemplateRequest) : Option FutureSize :=
  if req.structureType = .futureBuy ∨ req.structureType = .futureSell then
    some (req.futureContractSize.getD .full)
  else none

def buildStructure (req : TemplateRequest) (s : Surface) : Structure :=
  let tpl := req.structureType.template
  { legs := tpl.legs.mapIdx fun i lt => lt.build req (tpl.legs.length == 1) s i
    requiresDeltaHedge := tpl.requiresDeltaHedge
    vegaSign := tpl.vegaSign
    futureContractSize := req.futureSize }

section NetGreeks
variable (N : Numerics)

structure LegGreeks where
  vega : ℚ
  gamma : ℚ
  theta : ℚ
  delta : ℚ

/-- `_leg_greeks`: a leg that has no strike or no volatility counts as nothing. -/
def legGreeks (leg : Leg) (spot futMult : ℚ) : LegGreeks :=
  if leg.contractType = .future then
    ⟨0, 0, 0, sideSign leg.side * leg.qtyFactor * futMult * spot⟩
  else
    match leg.strike, leg.entryIvPct with
    | some strike, some ivPct =>
      if strike = 0 ∨ ivPct = 0 then ⟨0, 0, 0, 0⟩
      else
        let g := bsGreeks N spot strike ((leg.dte : ℚ) / 365) (ivPct / 100) leg.contractType
        let mult := sideSign leg.side * leg.qtyFactor * eurFopMultiplier
        ⟨g.vega * volpt * mult, g.gamma * pipSize ^ 2 * mult, g.theta / 365 * mult,
          g.delta * spot * mult⟩
    | _, _ => ⟨0, 0, 0, 0⟩

structure NetGreeks where
  vegaUsdPerVolpt : ℚ
  gammaUsdPerPip2 : ℚ
  thetaUsdPerDay : ℚ
  deltaUnhedged : ℚ
  deltaPostHedge : ℚ
  deriving DecidableEq

def Structure.futMult (structure' : Structure) : ℚ :=
  (structure'.futureContractSize.getD .full).multiplier

def computeNetGreeks (structure' : Structure) (s : Surface) : NetGreeks :=
  let gs := structure'.legs.map fun leg =>
    legGreeks N leg (spotFromSurface s) structure'.futMult
  let delta := (gs.map (·.delta)).sum
  { vegaUsdPerVolpt := pyRound (gs.map (·.vega)).sum 4
    gammaUsdPerPip2 := pyRound (gs.map (·.gamma)).sum 6
    thetaUsdPerDay := pyRound (gs.map (·.theta)).sum 4
    deltaUnhedged := pyRound delta 4
    deltaPostHedge := pyRound (if structure'.requiresDeltaHedge then 0 else delta) 4 }

end NetGreeks

/-- `config_scalar` rows of the namespace `risk`, each absent or a number. -/
structure RiskLimits where
  baseQty : Option ℚ
  zThresholdMin : Option ℚ
  maxNotionalEur : Option ℚ
  maxRiskHeartbeatAgeSeconds : Option ℚ
  maxIvDataAgeSeconds : Option ℚ

/-- A regime snapshot; a label that is none of the three is `other`. -/
structure RegimeState where
  label : Named Regime
  eventDampener : Bool

def RegimeState.mult (r : RegimeState) : ℚ :=
  match r.label with
  | .known .calm | .other => 1
  | .known .stressed => 7 / 10
  | .known .preEvent => 0

/-- `int(x)` -/
def truncated (x : ℚ) : ℤ := if 0 ≤ x then ⌊x⌋ else ⌈x⌉

structure Sizing where
  baseQty : ℤ
  finalQtyPerLeg : ℤ
  legQuantities : List ℤ
  deriving DecidableEq

/-- `compute_sizing` as the endpoint calls it: the book is taken as empty, so that there is no
penalty, and the multiplier of the signal is capped at one. -/
def computeSizing (structure' : Structure) (baseQty : ℤ) (thresholdMin : ℚ)
    (regime : Option RegimeState) (qtyOverride : ℤ) : Sizing :=
  let zFactor : ℚ := if 0 < thresholdMin then min (3 / 2 / thresholdMin) 1 else 1
  let eventDampener : ℚ := if regime.any (·.eventDampener) then 1 / 2 else 1
  let regimeMult : ℚ := regime.elim 1 RegimeState.mult
  let sized : ℤ :=
    if 0 < regimeMult then max 1 (roundHalfEven (baseQty * zFactor * eventDampener * regimeMult))
    else 0
  let finalQty := if 0 < qtyOverride then qtyOverride else sized
  { baseQty := baseQty
    finalQtyPerLeg := finalQty
    legQuantities := structure'.legs.map fun leg => finalQty * leg.qtyFactor }

structure PayloadLeg where
  contractType : ContractType
  strike : Option ℚ
  qty : ℤ
  side : Side
  entryIvPct : Option ℚ
  dte : ℕ
  deriving DecidableEq

/-- `surface_meta` as the gate looks for it. -/
structure SurfaceMeta where
  butterflyOk : Option Bool
  deriving DecidableEq

/-- The part of `structure_full_payload` that the gate reads. -/
structure PreviewPayload where
  futureContractSize : Option FutureSize
  futureMultiplierEur : Option ℚ
  legs : List PayloadLeg
  greeksNet : NetGreeks
  surfaceAgeSeconds : ℚ
  spot : ℚ
  surfaceMeta : Option SurfaceMeta
  deriving DecidableEq

inductive PreviewBody
  | legs (specs : List LegSpec)
  | template (req : TemplateRequest)
  | neither
  deriving DecidableEq

structure PreviewRequest where
  body : PreviewBody
  qty : Option ℤ
  deriving DecidableEq

/-- What the endpoint reads besides the request; `surface` is what Redis holds, with its age where
it is dated. -/
structure PreviewInputs where
  limits : RiskLimits
  regime : Option RegimeState
  surface : Option (Surface × Option ℚ)

/-- `_read_surface_redis` and the synthetic surface of the sandbox. -/
def PreviewInputs.priced (inputs : PreviewInputs) : Surface × ℚ :=
  match inputs.surface with
  | none => (syntheticSurface, 0)
  | some (s, age) => (s, age.getD 999)

def buildRequested (body : PreviewBody) (s : Surface) : Except BuildError Structure :=
  match body with
  | .legs specs => buildFromLegs specs s
  | .template req => .ok (buildStructure req s)
  | .neither => .error .legsOrStructureTypeRequired

/-- `req.qty or limits.get("base_qty", 10)` -/
def baseQtyEff (req : PreviewRequest) (limits : RiskLimits) : ℤ :=
  match req.qty with
  | none | some 0 => truncated (limits.baseQty.getD 10)
  | some qty => qty

def previewPayload (N : Numerics) (structure' : Structure) (req : PreviewRequest)
    (inputs : PreviewInputs) : PreviewPayload :=
  let (s, age) := inputs.priced
  let greeks := computeNetGreeks N structure' s
  let baseQty := baseQtyEff req inputs.limits
  let sizing := computeSizing structure' baseQty (inputs.limits.zThresholdMin.getD (3 / 2))
    inputs.regime baseQty
  { futureContractSize := structure'.futureContractSize
    futureMultiplierEur := structure'.futureContractSize.map FutureSize.multiplier
    legs := (structure'.legs.zip sizing.legQuantities).map fun (leg, qty) =>
      { contractType := leg.contractType, strike := leg.strike, qty := qty, side := leg.side
        entryIvPct := leg.entryIvPct, dte := leg.dte }
    greeksNet :=
      { vegaUsdPerVolpt := pyRound (greeks.vegaUsdPerVolpt * sizing.baseQty) 4
        gammaUsdPerPip2 := pyRound (greeks.gammaUsdPerPip2 * sizing.baseQty) 6
        thetaUsdPerDay := pyRound (greeks.thetaUsdPerDay * sizing.baseQty) 4
        deltaUnhedged := pyRound (greeks.deltaUnhedged * sizing.baseQty) 4
        deltaPostHedge := pyRound (greeks.deltaPostHedge * sizing.baseQty) 4 }
    surfaceAgeSeconds := age
    spot := spotFromSurface s
    surfaceMeta := none }

/-- `create_preview`, as far as the payload goes. -/
def createPreview (N : Numerics) (req : PreviewRequest) (inputs : PreviewInputs) :
    Except BuildError PreviewPayload :=
  match buildRequested req.body inputs.priced.1 with
  | .error e => .error e
  | .ok structure' => .ok (previewPayload N structure' req inputs)

end FxVol.TradePreviews
