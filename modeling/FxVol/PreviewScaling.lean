import FxVol.PreviewPricing
import FxVol.HedgeConvergence
import FxVol.GreekCapRuns

/-!
# Is what a preview shows what is submitted

The checks and the premium take the numbers of one structure unit for the whole trade; the net greeks
are scaled by the base quantity, the greeks of the legs by a base quantity of at least one, and the
legs trade the final quantity.
-/
namespace FxVol.PreviewPricing

open Greeks TradePreviews GateUnits GateClosure BookExposure

/-- Legs are numbered from `i`, and each has a quantity. -/
def Numbered (i : ℕ) (legs : List Leg) : Prop :=
  ∀ (j : ℕ) (leg : Leg), legs[j]? = some leg → leg.legIdx = i + j ∧ 0 < leg.qtyFactor

theorem numbered_cons {i : ℕ} {leg : Leg} {legs : List Leg} (hidx : leg.legIdx = i)
    (hqty : 0 < leg.qtyFactor) (h : Numbered (i + 1) legs) : Numbered i (leg :: legs) := by
  intro j leg' hleg
  cases j with
  | zero =>
    obtain rfl : leg = leg' := Option.some.inj hleg
    exact ⟨hidx, hqty⟩
  | succ j =>
    obtain ⟨hidx', hqty'⟩ := h j leg' hleg
    exact ⟨by omega, hqty'⟩

theorem numbered_buildLegs {s : Surface} {specs : List TradePreviews.LegSpec} {i : ℕ}
    {legs : List Leg} (h : buildLegs s i specs = .ok legs) : Numbered i legs := by
  induction specs generalizing i legs with
  | nil =>
    rw [buildLegs] at h
    cases h
    intro j leg hleg
    cases hleg
  | cons spec specs ih =>
    obtain ⟨leg, rest, hleg, hrest, rfl⟩ := buildLegs_cons h
    obtain ⟨hidx, -, -, hqty, hpos⟩ := TradePreviews.LegSpec.build_ok hleg
    exact numbered_cons hidx (hqty ▸ hpos) (ih hrest)

theorem template_qtyFactor (t : StructureType) : ∀ lt ∈ t.template.legs, 0 < lt.qtyFactor := by
  cases t <;> decide

theorem numbered_buildRequested {body : PreviewBody} {s : Surface} {structure' : Structure}
    (h : buildRequested body s = .ok structure') : Numbered 0 structure'.legs := by
  cases body with
  | legs specs =>
    rw [buildRequested, buildFromLegs] at h
    split_ifs at h
    cases hlegs : buildLegs s 0 specs with
    | error e =>
      rw [hlegs] at h
      cases h
    | ok legs =>
      rw [hlegs] at h
      cases h
      exact numbered_buildLegs hlegs
  | template req =>
    cases h
    intro j leg hleg
    simp only [buildStructure, List.getElem?_mapIdx, Option.map_eq_some_iff] at hleg
    obtain ⟨lt, hlt, rfl⟩ := hleg
    have hqty := template_qtyFactor _ lt (List.mem_of_getElem? hlt)
    simp [TemplateLeg.build, hqty]
  | neither => cases h

section Claim
variable (N : Numerics) (structure' : Structure) (req : PreviewRequest) (inputs : PreviewInputs)
  (limits : PreviewLimits)

def unitGreeks : NetGreeks := computeNetGreeks N structure' inputs.priced.1

def unitPremiumUsd : ℚ := (priceStructure N structure' inputs.priced.1).totalPremiumUsd

/-- Greeks of the unit at a quantity. -/
def netAt (g : NetGreeks) (n : ℤ) : NetGreeks :=
  ⟨g.vegaUsdPerVolpt * n, g.gammaUsdPerPip2 * n, g.thetaUsdPerDay * n, g.deltaUnhedged * n,
    g.deltaPostHedge * n⟩

/-- The numbers of the preview are those of the legs at the quantity that is traded. -/
structure ShownIsSubmitted : Prop where
  vega : structureVegaAtSize N structure' req inputs limits =
    (unitGreeks N structure' inputs).vegaUsdPerVolpt * finalQty structure' req inputs
  greeksNet : (previewPayload N structure' req inputs).greeksNet =
    netAt (unitGreeks N structure' inputs) (finalQty structure' req inputs)
  legsGreeks : legsGreeks N structure' req inputs =
    (computeLegsGreeks N structure' inputs.priced.1).map
      (LegGreeksRow.scaled (finalQty structure' req inputs))
  premium : (sizing N structure' req inputs limits).finalPremiumUsd =
    pyRound (unitPremiumUsd N structure' inputs * finalQty structure' req inputs) 2

/-- One unit is traded; or several, with no vega and with a premium that stays the same cents; or the
quantity asked for is not positive, one unit is traded all the same, and it has no greeks. -/
def UnitTrade : Prop :=
  baseQty req inputs = 1 ∨
  (1 < baseQty req inputs ∧ (unitGreeks N structure' inputs).vegaUsdPerVolpt = 0 ∧
    pyRound (unitPremiumUsd N structure' inputs) 2 =
      pyRound (unitPremiumUsd N structure' inputs * baseQty req inputs) 2) ∨
  (baseQty req inputs < 1 ∧ 0 < inputs.regime.elim 1 RegimeState.mult ∧
    unitGreeks N structure' inputs = ⟨0, 0, 0, 0, 0⟩)

variable {N structure' req inputs limits}

/-- Without a positive quantity one unit is traded, none before an event. -/
theorem finalQty_of_nonpos (h : baseQty req inputs < 1) : finalQty structure' req inputs =
    if 0 < inputs.regime.elim 1 RegimeState.mult then 1 else 0 := by
  have hbase : (baseQty req inputs : ℚ) ≤ 0 := by exact_mod_cast Int.lt_add_one_iff.mp h
  rw [finalQty, computeSizing]
  dsimp only
  rw [if_neg (by omega)]
  by_cases hmult : 0 < inputs.regime.elim 1 RegimeState.mult
  · rw [if_pos hmult, if_pos hmult]
    have hfactor : (0 : ℚ) ≤ if 0 < inputs.limits.zThresholdMin.getD (3 / 2) then
        min (3 / 2 / inputs.limits.zThresholdMin.getD (3 / 2)) 1 else 1 := by
      split_ifs with hthr
      · exact le_min (by positivity) zero_le_one
      · exact zero_le_one
    have hdampener : (0 : ℚ) ≤ if inputs.regime.any (·.eventDampener) then 1 / 2 else 1 := by
      split_ifs <;> norm_num
    have hraw := mul_nonpos_of_nonpos_of_nonneg
      (mul_nonpos_of_nonpos_of_nonneg (mul_nonpos_of_nonpos_of_nonneg hbase hfactor) hdampener)
      hmult.le
    exact max_eq_left ((roundHalfEven_nonpos hraw).trans zero_le_one)
  · rw [if_neg hmult, if_neg hmult]

variable (limits) in
theorem structureVegaAtSize_eq : structureVegaAtSize N structure' req inputs limits =
    (unitGreeks N structure' inputs).vegaUsdPerVolpt *
      ((finalQty structure' req inputs : ℚ) / max (baseQty req inputs) 1) := by
  rw [structureVegaAtSize, sizing_finalQty]
  rfl

variable (limits) in
theorem finalPremiumUsd_eq : (sizing N structure' req inputs limits).finalPremiumUsd =
    pyRound (unitPremiumUsd N structure' inputs *
      ((finalQty structure' req inputs : ℚ) / max (baseQty req inputs) 1)) 2 := by
  rw [← sizing_finalQty N structure' req inputs limits]
  rfl

theorem greeksNet_eq : (previewPayload N structure' req inputs).greeksNet =
    netAt (unitGreeks N structure' inputs) (baseQty req inputs) := by
  rw [netAt, NetGreeks.mk.injEq]
  exact ⟨pyRound_mul _ _ _, pyRound_mul _ _ _, pyRound_mul _ _ _, pyRound_mul _ _ _,
    pyRound_mul _ _ _⟩

theorem at_inj {g : NetGreeks} {n n' : ℤ} : netAt g n = netAt g n' ↔
    n = n' ∨ g = ⟨0, 0, 0, 0, 0⟩ := by
  constructor
  · intro h
    by_cases hn : n = n'
    · exact .inl hn
    · have hne : (n : ℚ) ≠ n' := by exact_mod_cast hn
      simp only [netAt, NetGreeks.mk.injEq, mul_eq_mul_left_iff, hne, false_or] at h
      obtain ⟨h1, h2, h3, h4, h5⟩ := h
      cases g
      simp_all
  · rintro (rfl | rfl)
    · rfl
    · simp [netAt]

/-- The rows of the legs carry their quantities. -/
theorem legsGreeks_iff (h : buildRequested req.body inputs.priced.1 = .ok structure') {n n' : ℤ} :
    (computeLegsGreeks N structure' inputs.priced.1).map (LegGreeksRow.scaled n) =
      (computeLegsGreeks N structure' inputs.priced.1).map (LegGreeksRow.scaled n') ↔ n = n' := by
  constructor
  · intro hrows
    obtain ⟨leg, legs, hlegs⟩ := List.exists_cons_of_ne_nil (built_buildRequested h).nonempty
    have hqty := (numbered_buildRequested h 0 leg (by rw [hlegs]; rfl)).2
    rw [computeLegsGreeks, hlegs] at hrows
    have hfirst := congrArg LegGreeksRow.qtyFactor (List.cons.inj hrows).1
    exact mul_left_cancel₀ hqty.ne' hfirst
  · rintro rfl
    rfl

def tradedLegs (structure' : Structure) (req : PreviewRequest) (inputs : PreviewInputs) : List Leg :=
  structure'.legs.map fun leg => { leg with qtyFactor := finalQty structure' req inputs * leg.qtyFactor }

theorem legGreeks_scaled (N : Numerics) (leg : Leg) (n : ℤ) (spot futMult : ℚ) :
    legGreeks N { leg with qtyFactor := n * leg.qtyFactor } spot futMult =
      ⟨(legGreeks N leg spot futMult).vega * n, (legGreeks N leg spot futMult).gamma * n,
        (legGreeks N leg spot futMult).theta * n, (legGreeks N leg spot futMult).delta * n⟩ := by
  unfold legGreeks
  by_cases hfuture : leg.contractType = .future
  · simp only [hfuture, if_true, LegGreeks.mk.injEq]
    push_cast
    refine ⟨?_, ?_, ?_, ?_⟩ <;> ring
  · simp only [hfuture, if_false]
    cases leg.strike with
    | none => simp
    | some strike =>
      cases leg.entryIvPct with
      | none => simp
      | some ivPct =>
        dsimp only
        split_ifs
        · simp
        · simp only [LegGreeks.mk.injEq]
          push_cast
          refine ⟨?_, ?_, ?_, ?_⟩ <;> ring

theorem legPrice_scaled (N : Numerics) (leg : Leg) (n : ℤ) (spot : ℚ) :
    legPrice N spot { leg with qtyFactor := n * leg.qtyFactor } = legPrice N spot leg := rfl

variable (structure' req inputs) in
theorem sum_traded (f : Leg → ℚ) (hf : ∀ leg (n : ℤ),
    f { leg with qtyFactor := n * leg.qtyFactor } = f leg * n) :
    ((tradedLegs structure' req inputs).map f).sum =
      (structure'.legs.map f).sum * finalQty structure' req inputs := by
  rw [tradedLegs, List.map_map, ← List.sum_map_mul_right]
  congr 1
  apply List.map_congr_left
  intro leg _
  exact hf leg _

theorem round_scaled (x : ℚ) (n : ℤ) (digits : ℕ) :
    |pyRound x digits * n - x * n| ≤ |(n : ℚ)| * (1 / 2 / 10 ^ digits) := by
  rw [← sub_mul, abs_mul, mul_comm]
  exact mul_le_mul_of_nonneg_left (pyRound_near x digits) (abs_nonneg _)

/-- The numbers of the unit at the traded quantity are the sums over the traded legs, to the
rounding of the unit; the premium is what a mock submit books. -/
structure NearLegs (N : Numerics) (structure' : Structure) (req : PreviewRequest)
    (inputs : PreviewInputs) : Prop where
  greeks : ∀ (unit : ℚ) (digits : ℕ) (f : LegGreeks → ℚ),
    (unit, digits, f) ∈ [((unitGreeks N structure' inputs).vegaUsdPerVolpt, 4, LegGreeks.vega),
      ((unitGreeks N structure' inputs).gammaUsdPerPip2, 6, LegGreeks.gamma),
      ((unitGreeks N structure' inputs).thetaUsdPerDay, 4, LegGreeks.theta),
      ((unitGreeks N structure' inputs).deltaUnhedged, 4, LegGreeks.delta)] →
    |unit * finalQty structure' req inputs - ((tradedLegs structure' req inputs).map fun leg =>
        f (legGreeks N leg (spotFromSurface inputs.priced.1) structure'.futMult)).sum| ≤
      |(finalQty structure' req inputs : ℚ)| * (1 / 2 / 10 ^ digits)
  premium : |unitPremiumUsd N structure' inputs * finalQty structure' req inputs -
      unitPremium N (spotFromSurface inputs.priced.1) (tradedLegs structure' req inputs)| ≤
    |(finalQty structure' req inputs : ℚ)| * (1 / 2 / 10 ^ 4)
  booked : mockPremium (pricedLegs N structure' req inputs) =
    pyRound (unitPremium N (spotFromSurface inputs.priced.1) (tradedLegs structure' req inputs)) 4

theorem pricedLegs_price (h : Numbered 0 structure'.legs) : pricedLegs N structure' req inputs =
    structure'.legs.map fun leg =>
      { payloadLeg (finalQty structure' req inputs) leg with
        entryPricePerContractUsd := legPrice N (spotFromSurface inputs.priced.1) leg } := by
  apply List.map_congr_left
  intro leg hleg
  obtain ⟨j, hj⟩ := List.mem_iff_getElem?.mp hleg
  have hidx : leg.legIdx = j := by rw [(h j leg hj).1, Nat.zero_add]
  simp [priceStructure, hidx, hj]

theorem near_legs (h : Numbered 0 structure'.legs) : NearLegs N structure' req inputs := by
  constructor
  · intro unit digits f hf
    have hsum (f : LegGreeks → ℚ) (hlinear : ∀ leg (n : ℤ),
        f (legGreeks N { leg with qtyFactor := n * leg.qtyFactor } (spotFromSurface inputs.priced.1)
          structure'.futMult) =
        f (legGreeks N leg (spotFromSurface inputs.priced.1) structure'.futMult) * n) :=
      sum_traded structure' req inputs (fun leg => f (legGreeks N leg
        (spotFromSurface inputs.priced.1) structure'.futMult)) hlinear
    simp only [List.mem_cons, List.not_mem_nil, or_false, Prod.mk.injEq] at hf
    rcases hf with ⟨rfl, rfl, rfl⟩ | ⟨rfl, rfl, rfl⟩ | ⟨rfl, rfl, rfl⟩ | ⟨rfl, rfl, rfl⟩ <;>
    · rw [hsum _ fun leg n => by rw [legGreeks_scaled]]
      simp only [unitGreeks, computeNetGreeks, List.map_map, Function.comp_def]
      exact round_scaled _ _ _
  · have hunit := sum_traded structure' req inputs
      (fun leg => sideSign leg.side * legPrice N (spotFromSurface inputs.priced.1) leg * leg.qtyFactor)
      fun leg n => by
        rw [legPrice_scaled]
        push_cast
        ring
    rw [unitPremium, hunit]
    exact round_scaled _ _ _
  · rw [mockPremium, pricedLegs_price h, unitPremium, tradedLegs, List.map_map, List.map_map]
    rfl

theorem shown_is_submitted (h : buildRequested req.body inputs.priced.1 = .ok structure') :
    ShownIsSubmitted N structure' req inputs limits ↔ UnitTrade N structure' req inputs := by
  have hiff : ShownIsSubmitted N structure' req inputs limits ↔
      (unitGreeks N structure' inputs).vegaUsdPerVolpt *
          ((finalQty structure' req inputs : ℚ) / max (baseQty req inputs) 1) =
        (unitGreeks N structure' inputs).vegaUsdPerVolpt * finalQty structure' req inputs ∧
      (baseQty req inputs = finalQty structure' req inputs ∨
        unitGreeks N structure' inputs = ⟨0, 0, 0, 0, 0⟩) ∧
      max (baseQty req inputs) 1 = finalQty structure' req inputs ∧
      pyRound (unitPremiumUsd N structure' inputs *
          ((finalQty structure' req inputs : ℚ) / max (baseQty req inputs) 1)) 2 =
        pyRound (unitPremiumUsd N structure' inputs * finalQty structure' req inputs) 2 := by
    rw [← at_inj, ← legsGreeks_iff (N := N) h, ← structureVegaAtSize_eq limits,
      ← finalPremiumUsd_eq limits, ← greeksNet_eq]
    exact ⟨fun ⟨hv, hg, hl, hp⟩ => ⟨hv, hg, hl, hp⟩, fun ⟨hv, hg, hl, hp⟩ => ⟨hv, hg, hl, hp⟩⟩
  rw [hiff, UnitTrade]
  rcases lt_trichotomy (baseQty req inputs) 1 with hbase | hbase | hbase
  · -- no positive quantity: one unit, or none
    rw [finalQty_of_nonpos hbase, max_eq_right hbase.le]
    by_cases hmult : 0 < inputs.regime.elim 1 RegimeState.mult
    · simp [hmult, hbase.ne, hbase, hbase.le.not_gt]
    · simp [hmult, hbase.ne, hbase.le.not_gt]
  · rw [finalQty_of_pos (by omega), hbase]
    simp
  · -- several units, as asked for
    have hpos : (baseQty req inputs : ℚ) ≠ 0 := by
      have : baseQty req inputs ≠ 0 := by omega
      exact_mod_cast this
    have hone : (baseQty req inputs : ℚ) ≠ 1 := by exact_mod_cast hbase.ne'
    rw [finalQty_of_pos (by omega), max_eq_left hbase.le]
    have hsame (x : ℚ) : x = x * baseQty req inputs ↔ x = 0 := by
      constructor
      · intro hx
        by_contra hne
        exact hone (mul_left_cancel₀ hne (hx.symm.trans (mul_one x).symm))
      · rintro rfl
        rw [zero_mul]
    rw [div_self hpos, mul_one, mul_one, hsame]
    simp [hbase, hbase.ne', hbase.le.not_gt]

end Claim

/-- The vega that is checked, the greeks and the premium that are shown are those of the legs at the
quantities they trade just where one unit is traded, or scaling the unit makes no difference. -/
theorem shown_is_submitted_iff (N : Numerics) (req : PreviewRequest) (inputs : PreviewInputs)
    (limits : PreviewLimits) (structure' : Structure)
    (h : buildRequested req.body inputs.priced.1 = .ok structure') :
    NearLegs N structure' req inputs ∧
      (ShownIsSubmitted N structure' req inputs limits ↔ UnitTrade N structure' req inputs) :=
  ⟨near_legs (numbered_buildRequested h), shown_is_submitted h⟩

/-- Straddles at the money, one and six. -/
def twoThousandVega : PreviewLimits := ⟨none, some 2000, none⟩

theorem shown_is_submitted_one : ShownIsSubmitted nearTheMoney straddleStructure (straddle 1)
    (published (1 / 100)) twoThousandVega :=
  (shown_is_submitted_iff nearTheMoney (straddle 1) (published (1 / 100)) twoThousandVega
    straddleStructure (by decide +kernel)).2.mpr (.inl (by decide +kernel))

/-- Six straddles pass a vega limit of 2000, being checked as one; their vega is 3224, and the premium
shown is a sixth of what a mock submit books. -/
theorem six_checked_as_one :
    buildRequested (straddle 6).body (published (1 / 100)).priced.1 = .ok straddleStructure ∧
    ((preSubmitChecks nearTheMoney straddleStructure (straddle 6) (published (1 / 100))
      twoThousandVega 0).all fun check => check.passed) = true ∧
    structureVegaAtSize nearTheMoney straddleStructure (straddle 6) (published (1 / 100))
      twoThousandVega * 6 =
      (previewPayload nearTheMoney straddleStructure (straddle 6)
        (published (1 / 100))).greeksNet.vegaUsdPerVolpt ∧
    2000 < (previewPayload nearTheMoney straddleStructure (straddle 6)
      (published (1 / 100))).greeksNet.vegaUsdPerVolpt ∧
    5 * (sizing nearTheMoney straddleStructure (straddle 6) (published (1 / 100))
        twoThousandVega).finalPremiumUsd <
      mockPremium (pricedLegs nearTheMoney straddleStructure (straddle 6) (published (1 / 100))) ∧
    ¬ ShownIsSubmitted nearTheMoney straddleStructure (straddle 6) (published (1 / 100))
      twoThousandVega := by
  refine ⟨by decide +kernel, by decide +kernel, by decide +kernel, by decide +kernel,
    by decide +kernel, ?_⟩
  intro hshown
  have hvega := hshown.vega
  revert hvega
  decide +kernel

end FxVol.PreviewPricing
