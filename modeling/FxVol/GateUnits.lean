import FxVol.PretradeGate
import FxVol.StructurePnl

/-!
# The units of the gate

The greeks the gate takes from a payload, beside those that the risk engine gives to the legs at
their full quantities.  Vega and gamma agree up to the rounding of the payload; delta is in USD
already when the gate multiplies it by the notional and the spot; and the size of one future leg
stands for the contracts of all legs.
-/
namespace FxVol.GateUnits

open Greeks TradePreviews PretradeGate

def futureSizes : PreviewBody → List (Option FutureSize)
  | .legs specs => specs.map TradePreviews.LegSpec.futureSize
  | .template req => req.structureType.template.legs.map fun lt =>
      if lt.contractType = .future then some (req.futureContractSize.getD .full) else none
  | .neither => []

def contractMult (size : Option FutureSize) : ℚ := size.elim eurFopMultiplier FutureSize.multiplier

def contractSymbol (size : Option FutureSize) : String := size.elim "EUR" FutureSize.ibSymbol

def legInstrument (leg : PayloadLeg) (size : Option FutureSize) : Instrument where
  contractType := leg.contractType
  mult := contractMult size
  strike := leg.strike
  expiryYears := some ((leg.dte : ℚ) / 365)
  iv := leg.entryIvPct.map (· / 100)

def riskLegGreeks (N : Numerics) (spot : ℚ) (leg : PayloadLeg) (size : Option FutureSize) :
    Option PositionGreeks :=
  positionGreeks N (legInstrument leg size) (sideSign leg.side * leg.qty) spot

/-- The greeks of the legs in the risk engine, none where a leg cannot be priced. -/
def riskGreeks (N : Numerics) (spot : ℚ) (legs : List PayloadLeg) (sizes : List (Option FutureSize)) :
    Option PositionGreeks :=
  ((List.zipWith (riskLegGreeks N spot) legs sizes).mapM id).map sumGreeks

/-- The gate sees what the risk engine would, the notional of every contract and its symbol. -/
def UnitsRight (N : Numerics) (payload : PreviewPayload) (sizes : List (Option FutureSize)) : Prop :=
  (∃ trade ∈ tradeGreeksFromPreview payload (some payload.spot),
    ∃ risk ∈ riskGreeks N payload.spot payload.legs sizes,
      trade.deltaUsd = risk.deltaUsd ∧ trade.vegaUsdPerVolpt = risk.vegaUsdPerVolpt ∧
      trade.gammaUsdPerPip = risk.gammaUsdPerPip ∧
      trade.notionalEur =
        (List.zipWith (fun leg size => |(leg.qty : ℚ)| * contractMult size) payload.legs sizes).sum) ∧
    ∀ size ∈ sizes, contractSymbol size ∈ legSymbols payload

def Sized : List Leg → List (Option FutureSize) → Prop :=
  List.Forall₂ fun leg size => leg.contractType = .future ↔ size.isSome = true

theorem sized_buildLegs {s : Surface} {specs : List TradePreviews.LegSpec} {i : ℕ} {legs : List Leg}
    (h : buildLegs s i specs = .ok legs) : Sized legs (specs.map TradePreviews.LegSpec.futureSize) := by
  induction specs generalizing i legs with
  | nil =>
    rw [buildLegs] at h
    cases h
    exact .nil
  | cons spec specs ih =>
    obtain ⟨leg, rest, hleg, hrest, rfl⟩ := buildLegs_cons h
    refine .cons ?_ (ih hrest)
    rw [(TradePreviews.LegSpec.build_ok hleg).2.1, TradePreviews.LegSpec.futureSize]
    split_ifs with hfuture <;> simp [hfuture]

theorem sized_buildStructure (req : TemplateRequest) (s : Surface) :
    Sized (buildStructure req s).legs (futureSizes (.template req)) := by
  have hsized (i : ℕ) (single : Bool) (tpl : List TemplateLeg) :
      Sized (tpl.mapIdx fun j lt => lt.build req single s (i + j))
        (tpl.map fun lt =>
          if lt.contractType = .future then some (req.futureContractSize.getD .full) else none) := by
    induction tpl generalizing i with
    | nil => exact .nil
    | cons lt tpl ih =>
      rw [List.mapIdx_cons, List.map_cons]
      refine .cons ?_ ?_
      · simp only [TemplateLeg.build]
        split_ifs with hfuture <;> simp [hfuture]
      · have hshift : (fun j lt => TemplateLeg.build lt req single s (i + (j + 1))) =
            fun j lt => lt.build req single s (i + 1 + j) := by
          funext j lt
          rw [add_assoc, add_comm 1 j]
        rw [hshift]
        exact ih (i + 1)
  have h := hsized 0 (req.structureType.template.legs.length == 1) req.structureType.template.legs
  simp only [zero_add] at h
  exact h

/-- The size of a structure is that of its first future leg. -/
structure Built (structure' : Structure) (sizes : List (Option FutureSize)) : Prop where
  sized : Sized structure'.legs sizes
  size : structure'.futureContractSize = (sizes.filterMap id).head?
  nonempty : structure'.legs ≠ []

theorem built_buildFromLegs {specs : List TradePreviews.LegSpec} {s : Surface} {structure' : Structure}
    (h : buildFromLegs specs s = .ok structure') :
    Built structure' (specs.map TradePreviews.LegSpec.futureSize) := by
  unfold buildFromLegs at h
  split_ifs at h with hempty
  cases hlegs : buildLegs s 0 specs with
  | error e =>
    rw [hlegs] at h
    cases h
  | ok legs =>
    rw [hlegs] at h
    cases h
    have hsized := sized_buildLegs hlegs
    refine ⟨hsized, by rw [List.filterMap_map]; rfl, ?_⟩
    intro hnil
    have hlength := hsized.length_eq
    rw [show legs = [] from hnil] at hlength
    rw [List.length_map] at hlength
    exact hempty (List.length_eq_zero_iff.mp hlength.symm)

theorem built_buildStructure (req : TemplateRequest) (s : Surface) :
    Built (buildStructure req s) (futureSizes (.template req)) := by
  refine ⟨sized_buildStructure req s, ?_, ?_⟩
  · simp only [buildStructure, futureSizes, TemplateRequest.futureSize]
    cases req.structureType <;> rfl
  · simp only [buildStructure]
    cases req.structureType <;> simp [StructureType.template]

theorem built_buildRequested {body : PreviewBody} {s : Surface} {structure' : Structure}
    (h : buildRequested body s = .ok structure') : Built structure' (futureSizes body) := by
  cases body with
  | legs specs => exact built_buildFromLegs h
  | template req =>
    cases h
    exact built_buildStructure req s
  | neither => cases h

/-- All legs trade contracts of one size. -/
def OneSize (sizes : List (Option FutureSize)) : Prop :=
  ∀ a ∈ sizes, ∀ b ∈ sizes, contractMult a = contractMult b

section Sizes
variable {sizes : List (Option FutureSize)} {structure' : Structure} {size size' : Option FutureSize}

theorem contractMult_eq_iff : contractMult size = contractMult size' ↔
    (size = some .micro ↔ size' = some .micro) := by
  rcases size with _ | _ | _ <;> rcases size' with _ | _ | _ <;>
    simp [contractMult, FutureSize.multiplier, eurFopMultiplier]

/-- The structure has the contract of every leg where they are all of one size. -/
theorem oneSize_iff (h : Built structure' sizes) : OneSize sizes ↔
    ∀ size ∈ sizes, contractMult size = contractMult structure'.futureContractSize := by
  constructor
  · intro hone size hsize
    cases hfcs : structure'.futureContractSize with
    | none =>
      rw [h.size, List.head?_eq_none_iff, List.filterMap_eq_nil_iff] at hfcs
      rw [show size = none from hfcs size hsize]
    | some first =>
      rw [h.size] at hfcs
      have hfirst := List.mem_of_mem_head? hfcs
      rw [List.mem_filterMap] at hfirst
      obtain ⟨a, ha, rfl⟩ := hfirst
      exact hone size hsize _ ha
  · intro hall a ha b hb
    rw [hall a ha, hall b hb]

theorem contractSymbol_mem {payload : PreviewPayload} : contractSymbol size ∈ legSymbols payload ↔
    contractMult size = contractMult payload.futureContractSize := by
  rw [contractMult_eq_iff, legSymbols]
  generalize payload.futureContractSize = fcs
  rcases size with _ | _ | _ <;> rcases fcs with _ | _ | _ <;>
    simp [contractSymbol, FutureSize.ibSymbol]

/-- The multiplier of the future legs is that of each. -/
theorem futMult_eq (h : Built structure' sizes) (hone : OneSize sizes) :
    ∀ size ∈ sizes, size.isSome = true → contractMult size = structure'.futMult := by
  intro size hsize hsome
  rw [(oneSize_iff h).mp hone size hsize, Structure.futMult]
  cases hfcs : structure'.futureContractSize with
  | some first => rfl
  | none => rfl

end Sizes

/-- `position_greeks` can price the leg. -/
def LegPriceable (leg : Leg) : Prop :=
  leg.contractType = .future ∨
    ∃ strike ∈ leg.strike, ∃ ivPct ∈ leg.entryIvPct, 0 < strike ∧ 0 < leg.dte ∧ 0 < ivPct

/-- A leg of the payload at `q` structure units. -/
def payloadLeg (q : ℤ) (leg : Leg) : PayloadLeg where
  contractType := leg.contractType
  strike := leg.strike
  qty := q * leg.qtyFactor
  side := leg.side
  entryIvPct := leg.entryIvPct
  dte := leg.dte

section Legs
variable (N : Numerics) (spot : ℚ) (q : ℤ) {futMult : ℚ} {leg : Leg} {size : Option FutureSize}

theorem priceable_legInstrument :
    (legInstrument (payloadLeg q leg) size).Priceable ↔ LegPriceable leg := by
  have hdte : (0 : ℚ) < leg.dte / 365 ↔ 0 < leg.dte := by
    rw [div_pos_iff_of_pos_right (by norm_num), Nat.cast_pos]
  have hiv (x : ℚ) : 0 < x / 100 ↔ 0 < x := div_pos_iff_of_pos_right (by norm_num)
  simp only [Instrument.Priceable, LegPriceable, legInstrument, payloadLeg]
  cases leg.strike <;> cases leg.entryIvPct <;> simp [hdte, hiv]

/-- The unit greeks of the preview are those of the risk engine, gamma per pip squared. -/
theorem riskLegGreeks_eq (hsized : leg.contractType = .future ↔ size.isSome = true)
    (hmult : size.isSome = true → contractMult size = futMult) (hpriceable : LegPriceable leg) :
    ∃ g, riskLegGreeks N spot (payloadLeg q leg) size = some g ∧
      g.deltaUsd = q * (legGreeks N leg spot futMult).delta ∧
      g.vegaUsdPerVolpt = q * (legGreeks N leg spot futMult).vega ∧
      g.gammaUsdPerPip = q * (legGreeks N leg spot futMult).gamma / pipSize := by
  by_cases hfuture : leg.contractType = .future
  · refine ⟨futureGreeks (sideSign leg.side * (q * leg.qtyFactor : ℤ)) (contractMult size) spot,
      ?_, ?_, ?_, ?_⟩
    · simp [riskLegGreeks, positionGreeks, legInstrument, payloadLeg, hfuture]
    · rw [hmult (hsized.mp hfuture)]
      simp only [futureGreeks, legGreeks, hfuture, if_true]
      push_cast
      ring
    · simp [futureGreeks, legGreeks, hfuture]
    · simp [futureGreeks, legGreeks, hfuture]
  · rcases hpriceable with h | ⟨K, hK, ivPct, hiv, hKpos, hdte, hivpos⟩
    · exact absurd h hfuture
    · have hnone : size = none := by
        cases size with
        | none => rfl
        | some s => exact absurd (hsized.mpr rfl) hfuture
      have hT : (0 : ℚ) < leg.dte / 365 := by positivity
      have hsigma : 0 < ivPct / 100 := by positivity
      have hlive : ¬ (K = 0 ∨ ivPct = 0) := by
        rintro (h | h) <;> linarith
      rw [Option.mem_def] at hK hiv
      refine ⟨optionGreeks N (sideSign leg.side * (q * leg.qtyFactor : ℤ)) eurFopMultiplier spot K
        (leg.dte / 365) (ivPct / 100) leg.contractType, ?_, ?_, ?_, ?_⟩
      · subst hnone
        cases htype : leg.contractType with
        | future => exact absurd htype hfuture
        | call | put =>
          simp [riskLegGreeks, positionGreeks, legInstrument, payloadLeg, htype, hK, hiv, hKpos, hT,
            hsigma, contractMult]
      · simp only [optionGreeks, legGreeks, hfuture, hK, hiv, hlive, if_false, bsGreeks_delta]
        push_cast
        ring
      · simp only [optionGreeks, legGreeks, hfuture, hK, hiv, hlive, if_false, bsGreeks_vega]
        push_cast
        ring
      · simp only [optionGreeks, legGreeks, hfuture, hK, hiv, hlive, if_false, bsGreeks_gamma,
          pipSize]
        push_cast
        ring

theorem riskLegGreeks_none (hpriceable : ¬ LegPriceable leg) :
    riskLegGreeks N spot (payloadLeg q leg) size = none := by
  rw [← Option.not_isSome_iff_eq_none, riskLegGreeks, positionGreeks_isSome,
    priceable_legInstrument q]
  exact hpriceable

end Legs

section Sums
variable (N : Numerics) (spot : ℚ) (q : ℤ) {futMult : ℚ} {legs : List Leg}
  {sizes : List (Option FutureSize)}

theorem riskLegs_some (h : Sized legs sizes)
    (hmult : ∀ size ∈ sizes, size.isSome = true → contractMult size = futMult)
    (hpriceable : ∀ leg ∈ legs, LegPriceable leg) :
    ∃ gs, (List.zipWith (riskLegGreeks N spot) (legs.map (payloadLeg q)) sizes).mapM id = some gs ∧
      (gs.map (·.deltaUsd)).sum =
        q * (legs.map fun leg => (legGreeks N leg spot futMult).delta).sum ∧
      (gs.map (·.vegaUsdPerVolpt)).sum =
        q * (legs.map fun leg => (legGreeks N leg spot futMult).vega).sum ∧
      (gs.map (·.gammaUsdPerPip)).sum =
        q * (legs.map fun leg => (legGreeks N leg spot futMult).gamma).sum / pipSize := by
  induction h with
  | nil => exact ⟨[], rfl, by simp, by simp, by simp⟩
  | @cons leg size legs sizes hleg _ ih =>
    obtain ⟨g, hg, hdelta, hvega, hgamma⟩ := riskLegGreeks_eq N spot q hleg
      (hmult size List.mem_cons_self) (hpriceable leg List.mem_cons_self)
    obtain ⟨gs, hgs, hdeltas, hvegas, hgammas⟩ := ih
      (fun size hsize => hmult size (List.mem_cons_of_mem _ hsize))
      fun leg hleg => hpriceable leg (List.mem_cons_of_mem _ hleg)
    refine ⟨g :: gs, ?_, ?_, ?_, ?_⟩
    · simp [List.mapM_cons, hg, hgs]
    · simp only [List.map_cons, List.sum_cons, hdelta, hdeltas]
      ring
    · simp only [List.map_cons, List.sum_cons, hvega, hvegas]
      ring
    · simp only [List.map_cons, List.sum_cons, hgamma, hgammas]
      ring

theorem riskLegs_none (h : Sized legs sizes) (hpriceable : ¬ ∀ leg ∈ legs, LegPriceable leg) :
    (List.zipWith (riskLegGreeks N spot) (legs.map (payloadLeg q)) sizes).mapM id = none := by
  induction h with
  | nil => exact absurd (fun _ h => absurd h List.not_mem_nil) hpriceable
  | @cons leg size legs sizes hleg _ ih =>
    by_cases hhead : LegPriceable leg
    · have htail := ih fun hall => hpriceable (List.forall_mem_cons.mpr ⟨hhead, hall⟩)
      cases hg : riskLegGreeks N spot (payloadLeg q leg) size <;>
        simp [List.mapM_cons, hg, htail]
    · simp [List.mapM_cons, riskLegGreeks_none N spot q hhead]

theorem notional_eq (h : Sized legs sizes) {mult : ℚ} (hmult : ∀ size ∈ sizes, contractMult size = mult) :
    (List.zipWith (fun leg size => |(leg.qty : ℚ)| * contractMult size) (legs.map (payloadLeg q))
      sizes).sum = ((legs.map (payloadLeg q)).map fun leg => |(leg.qty : ℚ)|).sum * mult := by
  induction h with
  | nil => simp
  | @cons leg size legs sizes _ _ ih =>
    have htail := ih fun size hsize => hmult size (List.mem_cons_of_mem _ hsize)
    simp only [List.map_cons, List.zipWith_cons_cons, List.sum_cons, htail,
      hmult size List.mem_cons_self]
    ring

end Sums

section Payload
variable (N : Numerics) (structure' : Structure) (req : PreviewRequest) (inputs : PreviewInputs)

/-- The exposures of one unit of the structure, before any rounding. -/
def unitVega : ℚ := (structure'.legs.map fun leg =>
  (legGreeks N leg (spotFromSurface inputs.priced.1) structure'.futMult).vega).sum

def unitGamma : ℚ := (structure'.legs.map fun leg =>
  (legGreeks N leg (spotFromSurface inputs.priced.1) structure'.futMult).gamma).sum

def unitDelta : ℚ := (structure'.legs.map fun leg =>
  (legGreeks N leg (spotFromSurface inputs.priced.1) structure'.futMult).delta).sum

def baseQty : ℤ := baseQtyEff req inputs.limits

def finalQty : ℤ := (computeSizing structure' (baseQty req inputs)
  (inputs.limits.zThresholdMin.getD (3 / 2)) inputs.regime (baseQty req inputs)).finalQtyPerLeg

theorem payload_legs : (previewPayload N structure' req inputs).legs =
    structure'.legs.map (payloadLeg (finalQty structure' req inputs)) := by
  have hzip (l : List Leg) (f : Leg → ℤ) (g : Leg × ℤ → PayloadLeg) :
      (l.zip (l.map f)).map g = l.map fun leg => g (leg, f leg) := by
    induction l with
    | nil => rfl
    | cons leg l ih => simp [ih]
  simp only [previewPayload, computeSizing, hzip]
  rfl

theorem pyRound_mul (x : ℚ) (n : ℤ) (digits : ℕ) :
    pyRound (pyRound x digits * n) digits = pyRound x digits * n := by
  have hgrid : pyRound x digits * n =
      ((roundHalfEven (x * 10 ^ digits) * n : ℤ) : ℚ) / 10 ^ digits := by
    rw [pyRound]
    push_cast
    ring
  rw [hgrid, pyRound_grid]

theorem payload_greeksNet : (previewPayload N structure' req inputs).greeksNet.vegaUsdPerVolpt =
      baseQty req inputs * pyRound (unitVega N structure' inputs) 4 ∧
    (previewPayload N structure' req inputs).greeksNet.gammaUsdPerPip2 =
      baseQty req inputs * pyRound (unitGamma N structure' inputs) 6 ∧
    (previewPayload N structure' req inputs).greeksNet.deltaUnhedged =
      baseQty req inputs * pyRound (unitDelta N structure' inputs) 4 := by
  refine ⟨?_, ?_, ?_⟩
  · change pyRound (pyRound _ 4 * (baseQty req inputs : ℚ)) 4 = _
    rw [pyRound_mul, mul_comm, List.map_map]
    rfl
  · change pyRound (pyRound _ 6 * (baseQty req inputs : ℚ)) 6 = _
    rw [pyRound_mul, mul_comm, List.map_map]
    rfl
  · change pyRound (pyRound _ 4 * (baseQty req inputs : ℚ)) 4 = _
    rw [pyRound_mul, mul_comm, List.map_map]
    rfl

/-- The legs trade contracts of one size, all can be priced, and the unit greeks come through the
rounding, the sizing and, for delta, a second multiplication by notional and spot as they should. -/
structure UnitsHold : Prop where
  oneSize : OneSize (futureSizes req.body)
  priceable : ∀ leg ∈ structure'.legs, LegPriceable leg
  vega : baseQty req inputs * pyRound (unitVega N structure' inputs) 4 =
    finalQty structure' req inputs * unitVega N structure' inputs
  gamma : baseQty req inputs * pyRound (unitGamma N structure' inputs) 6 =
    finalQty structure' req inputs * unitGamma N structure' inputs
  delta : baseQty req inputs * pyRound (unitDelta N structure' inputs) 4 *
      (eurFopMultiplier * spotFromSurface inputs.priced.1) =
    finalQty structure' req inputs * unitDelta N structure' inputs

variable {structure' req}

theorem unitsRight_iff (h : Built structure' (futureSizes req.body)) :
    UnitsRight N (previewPayload N structure' req inputs) (futureSizes req.body) ↔
      UnitsHold N structure' req inputs := by
  have hsymbols : (∀ size ∈ futureSizes req.body,
      contractSymbol size ∈ legSymbols (previewPayload N structure' req inputs)) ↔
        OneSize (futureSizes req.body) := by
    rw [oneSize_iff h]
    exact forall₂_congr fun _ _ => contractSymbol_mem
  have hlegs := payload_legs N structure' req inputs
  obtain ⟨hvega, hgamma, hdelta⟩ := payload_greeksNet N structure' req inputs
  have hspot : (previewPayload N structure' req inputs).spot = spotFromSurface inputs.priced.1 := rfl
  have hpip : pipSize ≠ 0 := by norm_num [pipSize]
  have htrade : tradeGreeksFromPreview (previewPayload N structure' req inputs)
      (some (previewPayload N structure' req inputs).spot) = some
      { deltaUsd := baseQty req inputs * pyRound (unitDelta N structure' inputs) 4 *
          eurFopMultiplier * spotFromSurface inputs.priced.1
        vegaUsdPerVolpt := baseQty req inputs * pyRound (unitVega N structure' inputs) 4
        gammaUsdPerPip := baseQty req inputs * pyRound (unitGamma N structure' inputs) 6 / pipSize
        notionalEur := ((structure'.legs.map (payloadLeg (finalQty structure' req inputs))).map
          fun leg => |(leg.qty : ℚ)|).sum *
            (previewPayload N structure' req inputs).futureMultiplierEur.getD eurFopMultiplier } := by
    rw [tradeGreeksFromPreview, if_neg (by rw [hlegs]; simpa using h.nonempty), hvega, hgamma,
      hdelta, hlegs, hspot]
    rfl
  have hnotional : (previewPayload N structure' req inputs).futureMultiplierEur.getD eurFopMultiplier =
      contractMult structure'.futureContractSize := by
    change (structure'.futureContractSize.map FutureSize.multiplier).getD eurFopMultiplier = _
    cases structure'.futureContractSize <;> rfl
  have hsome (hone : OneSize (futureSizes req.body)) :=
    riskLegs_some N (spotFromSurface inputs.priced.1) (finalQty structure' req inputs) h.sized
      (futMult_eq h hone)
  rw [UnitsRight, hsymbols, htrade, riskGreeks, hlegs, hspot]
  constructor
  · rintro ⟨⟨trade, htrade', risk, hrisk, hd, hv, hg, -⟩, hone⟩
    rw [← Option.some.inj htrade'] at hd hv hg
    have hpriceable : ∀ leg ∈ structure'.legs, LegPriceable leg := by
      by_contra hnot
      rw [riskLegs_none N _ _ h.sized hnot] at hrisk
      cases hrisk
    obtain ⟨gs, hgs, hds, hvs, hgs'⟩ := hsome hone hpriceable
    rw [hgs] at hrisk
    rw [← Option.some.inj hrisk] at hd hv hg
    refine ⟨hone, hpriceable, hv.trans hvs, ?_, ?_⟩
    · exact (div_left_inj' hpip).mp (hg.trans hgs')
    · rw [← mul_assoc]
      exact hd.trans hds
  · rintro ⟨hone, hpriceable, hv, hg, hd⟩
    obtain ⟨gs, hgs, hds, hvs, hgs'⟩ := hsome hone hpriceable
    refine ⟨⟨_, rfl, sumGreeks gs, by rw [hgs]; rfl, ?_, ?_, ?_, ?_⟩, hone⟩
    · exact (mul_assoc _ _ _).trans (hd.trans hds.symm)
    · exact hv.trans hvs.symm
    · exact ((div_left_inj' hpip).mpr hg).trans hgs'.symm
    · rw [notional_eq _ h.sized ((oneSize_iff h).mp hone), ← hnotional]

end Payload

section Real
variable {N : Numerics} {structure' : Structure} {req : PreviewRequest} {inputs : PreviewInputs}

/-- The exposures have the digits of the payload, and there is no delta. -/
structure UnitsExact (N : Numerics) (structure' : Structure) (req : PreviewRequest)
    (inputs : PreviewInputs) : Prop where
  oneSize : OneSize (futureSizes req.body)
  priceable : ∀ leg ∈ structure'.legs, LegPriceable leg
  vega : pyRound (unitVega N structure' inputs) 4 = unitVega N structure' inputs
  gamma : pyRound (unitGamma N structure' inputs) 6 = unitGamma N structure' inputs
  delta : unitDelta N structure' inputs = 0

theorem finalQty_of_pos (hqty : 0 < baseQty req inputs) :
    finalQty structure' req inputs = baseQty req inputs := by
  rw [finalQty, computeSizing]
  exact if_pos hqty

/-- Rounding to four digits moves a number by less than a factor of two, unless it is rounded away. -/
theorem pyRound_scaled {x c : ℚ} (hc : 2 ≤ c) : pyRound x 4 * c = x ↔ x = 0 := by
  constructor
  · intro h
    have hnear := pyRound_near x 4
    have hzero : roundHalfEven (x * 10 ^ 4) = 0 := by
      by_contra hne
      have hone : (1 : ℚ) ≤ |(roundHalfEven (x * 10 ^ 4) : ℚ)| := by
        exact_mod_cast Int.one_le_abs hne
      have hround : |pyRound x 4| = |(roundHalfEven (x * 10 ^ 4) : ℚ)| / 10 ^ 4 := by
        rw [pyRound, abs_div, abs_of_pos (by norm_num : (0 : ℚ) < 10 ^ 4)]
      have hgap : |pyRound x 4 - x| = |pyRound x 4| * (c - 1) := by
        have hfactor : pyRound x 4 - x = -(pyRound x 4 * (c - 1)) := by
          rw [mul_sub, h]
          ring
        rw [hfactor, abs_neg, abs_mul, abs_of_nonneg (by linarith : 0 ≤ c - 1)]
      have hlow : 1 / 10 ^ 4 ≤ |pyRound x 4| := by
        rw [hround]
        exact div_le_div_of_nonneg_right hone (by norm_num)
      have hmul : |pyRound x 4| ≤ |pyRound x 4| * (c - 1) :=
        le_mul_of_one_le_right (abs_nonneg _) (by linarith)
      rw [hgap] at hnear
      norm_num at hnear hlow
      linarith
    rw [pyRound, hzero] at h
    simpa using h.symm
  · rintro rfl
    simp [pyRound, roundHalfEven]

theorem unitsHold_iff_exact (hqty : 0 < baseQty req inputs)
    (hspot : 2 ≤ eurFopMultiplier * spotFromSurface inputs.priced.1) :
    UnitsHold N structure' req inputs ↔ UnitsExact N structure' req inputs := by
  have hpos : (baseQty req inputs : ℚ) ≠ 0 := by exact_mod_cast hqty.ne'
  have hfinal : (finalQty structure' req inputs : ℚ) = baseQty req inputs := by
    rw [finalQty_of_pos hqty]
  have hdelta : (baseQty req inputs * pyRound (unitDelta N structure' inputs) 4 *
      (eurFopMultiplier * spotFromSurface inputs.priced.1) =
        finalQty structure' req inputs * unitDelta N structure' inputs) ↔
          unitDelta N structure' inputs = 0 := by
    rw [hfinal, mul_assoc, mul_right_inj' hpos]
    exact pyRound_scaled hspot
  constructor
  · rintro ⟨hone, hpriceable, hv, hg, hd⟩
    rw [hfinal] at hv hg
    exact ⟨hone, hpriceable, mul_left_cancel₀ hpos hv, mul_left_cancel₀ hpos hg, hdelta.mp hd⟩
  · rintro ⟨hone, hpriceable, hv, hg, hd⟩
    exact ⟨hone, hpriceable, by rw [hv, hfinal], by rw [hg, hfinal], hdelta.mpr hd⟩

end Real

/-- The gate takes the right greeks, notional and symbols from a payload just where the legs trade
contracts of one size, all can be priced, and the unit greeks come through; at a positive quantity
and a spot that is not tiny, that is where vega and gamma have the digits of the payload and delta
vanishes. -/
theorem gate_units_iff (N : Numerics) (req : PreviewRequest) (inputs : PreviewInputs)
    (structure' : Structure) (h : buildRequested req.body inputs.priced.1 = .ok structure') :
    createPreview N req inputs = .ok (previewPayload N structure' req inputs) ∧
    (UnitsRight N (previewPayload N structure' req inputs) (futureSizes req.body) ↔
      UnitsHold N structure' req inputs) ∧
    (0 < baseQty req inputs → 2 ≤ eurFopMultiplier * spotFromSurface inputs.priced.1 →
      (UnitsRight N (previewPayload N structure' req inputs) (futureSizes req.body) ↔
        UnitsExact N structure' req inputs)) := by
  have hiff := unitsRight_iff N inputs (built_buildRequested h)
  refine ⟨by rw [createPreview, h], hiff, ?_⟩
  intro hqty hspot
  exact hiff.trans (unitsHold_iff_exact hqty hspot)

-- A future bought and sold again, a future bought, and a micro future beside an option, all on the synthetic surface; none
-- of what follows prices an option.

/-- The normal distribution over any elementary functions. -/
def ofElementary (exp log sqrt erf : ℚ → ℚ) (pi : ℚ) : Numerics where
  exp := exp
  log := log
  sqrt := sqrt
  erf := erf
  pi := pi
  normCdf x := 1 / 2 * (1 + erf (x / sqrt 2))
  normPdf x := exp (-(1 / 2) * x * x) / sqrt (2 * pi)
  normCdf_eq _ := rfl
  normPdf_eq _ := rfl

def firstTerms : Numerics :=
  ofElementary (fun x => 1 + x) (fun x => x - 1) (fun x => (1 + x) / 2) id (355 / 113)

def noSurface : PreviewInputs where
  limits := ⟨none, none, none, none, none⟩
  regime := none
  surface := none

def futureLeg (side : Side) (size : FutureSize) : TradePreviews.LegSpec :=
  ⟨.future, side, .known .m3, none, none, 1, some size⟩

def callLegSpec (side : Side) : TradePreviews.LegSpec :=
  ⟨.call, side, .known .m3, none, none, 1, none⟩

def roundTrip : PreviewRequest := ⟨.legs [futureLeg .buy .full, futureLeg .sell .full], some 1⟩

def oneFuture : PreviewRequest := ⟨.legs [futureLeg .buy .full], some 1⟩

def microBesideCall : PreviewRequest := ⟨.legs [futureLeg .buy .micro, callLegSpec .sell], some 1⟩

def builtLeg (i : ℕ) (side : Side) : Leg := ⟨i, .future, 90, none, 1, side, none⟩

def roundTripStructure : Structure := ⟨[builtLeg 0 .buy, builtLeg 1 .sell], false, .neutral, some .full⟩

def oneFutureStructure : Structure := ⟨[builtLeg 0 .buy], false, .neutral, some .full⟩

def microBesideCallStructure : Structure :=
  ⟨[builtLeg 0 .buy, ⟨1, .call, 90, some (1085 / 1000), 1, .sell, some 7⟩], true, .negative,
    some .micro⟩

theorem gate_units_iff_roundTrip :
    UnitsRight firstTerms (previewPayload firstTerms roundTripStructure roundTrip noSurface)
      (futureSizes roundTrip.body) := by
  have hbuild : buildRequested roundTrip.body noSurface.priced.1 = .ok roundTripStructure := by
    decide +kernel
  refine (gate_units_iff firstTerms roundTrip noSurface roundTripStructure hbuild).2.1.mpr
    ⟨?_, ?_, ?_, ?_, ?_⟩
  · simp [OneSize, futureSizes, roundTrip, futureLeg, TradePreviews.LegSpec.futureSize]
  · intro leg hleg
    simp only [roundTripStructure, List.mem_cons, List.not_mem_nil, or_false] at hleg
    rcases hleg with rfl | rfl <;> exact .inl rfl
  · decide +kernel
  · decide +kernel
  · decide +kernel

/-- The gate takes the USD exposure of one future times notional and spot, and lets a micro future
stand for the option beside it. -/
theorem gate_units_wrong :
    (createPreview firstTerms oneFuture noSurface =
        .ok (previewPayload firstTerms oneFutureStructure oneFuture noSurface) ∧
      ¬ UnitsRight firstTerms (previewPayload firstTerms oneFutureStructure oneFuture noSurface)
        (futureSizes oneFuture.body)) ∧
    (createPreview firstTerms microBesideCall noSurface =
        .ok (previewPayload firstTerms microBesideCallStructure microBesideCall noSurface) ∧
      ¬ UnitsRight firstTerms
        (previewPayload firstTerms microBesideCallStructure microBesideCall noSurface)
        (futureSizes microBesideCall.body)) := by
  have hone : buildRequested oneFuture.body noSurface.priced.1 = .ok oneFutureStructure := by
    decide +kernel
  have hmicro : buildRequested microBesideCall.body noSurface.priced.1 =
      .ok microBesideCallStructure := by
    decide +kernel
  refine ⟨⟨by rw [createPreview, hone], ?_⟩, by rw [createPreview, hmicro], ?_⟩
  · intro hright
    have hholds := (unitsRight_iff firstTerms noSurface (built_buildRequested hone)).mp hright
    have hdelta := hholds.delta
    revert hdelta
    decide +kernel
  · intro hright
    have hholds := (unitsRight_iff firstTerms noSurface (built_buildRequested hmicro)).mp hright
    have hmult := hholds.oneSize (some .micro) (by decide) none (by decide)
    revert hmult
    decide +kernel

end FxVol.GateUnits
