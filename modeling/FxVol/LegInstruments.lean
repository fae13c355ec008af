import FxVol.PreviewScaling

/-!
# Does a leg keep its own instrument

A structure has one size of future, that of its first future leg.  The delta of every future leg,
the commission and the notional of every leg and the symbol of every future order are taken from it.
-/
namespace FxVol.LegInstruments

open Greeks TradePreviews PretradeGate GateUnits PreviewPricing

def futureCommissionUsd : FutureSize → ℚ
  | .full => 24 / 10
  | .micro => 6 / 10

structure Costs where
  premiumPerContractUsd : ℚ
  commissionUsd : ℚ
  totalTradeCostUsd : ℚ
  deriving DecidableEq

section Preview
variable (N : Numerics) (structure' : Structure) (req : PreviewRequest) (inputs : PreviewInputs)
  (limits : PreviewLimits) (commissionPerContractUsd : Option ℚ)

/-- The rate of all contracts of a structure; that of an option is a limit. -/
def commissionPerContract : ℚ :=
  match structure'.futureContractSize with
  | some size => futureCommissionUsd size
  | none => commissionPerContractUsd.getD 2

def totalContracts (r : SizingResult) : ℤ := (r.legQuantities.map fun qty => |qty|).sum

def costs : Costs :=
  let r := sizing N structure' req inputs limits
  let rate := commissionPerContract structure' commissionPerContractUsd
  let commission := totalContracts r * rate
  let premiumPerContract :=
    if structure'.futureContractSize.isSome then rate
    else if r.baseQty = 0 then 0
    else (priceStructure N structure' inputs.priced.1).totalPremiumUsd / max r.baseQty 1
  { premiumPerContractUsd := pyRound premiumPerContract 4
    commissionUsd := pyRound commission 2
    totalTradeCostUsd := pyRound (|r.finalPremiumUsd| + commission) 2 }

/-- What a preview says of the whole trade. -/
structure Totals where
  greeksNet : NetGreeks
  totalPremiumUsd : ℚ
  maxLossUsd : ℚ
  finalPremiumUsd : ℚ
  costs : Costs
  notionalEur : Option ℚ
  deriving DecidableEq

def totals : Totals :=
  let payload := previewPayload N structure' req inputs
  let pricing := priceStructure N structure' inputs.priced.1
  { greeksNet := payload.greeksNet
    totalPremiumUsd := pricing.totalPremiumUsd
    maxLossUsd := pricing.maxLossUsd
    finalPremiumUsd := (sizing N structure' req inputs limits).finalPremiumUsd
    costs := costs N structure' req inputs limits commissionPerContractUsd
    notionalEur := (tradeGreeksFromPreview payload (some payload.spot)).map (·.notionalEur) }

end Preview

/-- `MARKETABLE_LIMIT_BUFFER`, unless the environment sets another -/
def marketableLimitBuffer : ℚ := 25 / 100

/-- The limit of an option order with a premium of `previewPrice` points. -/
def marketableLimit (side : Side) (previewPrice : ℚ) : ℚ :=
  pyRound
    (if side = .buy then previewPrice * (1 + marketableLimitBuffer)
      else previewPrice * (1 - marketableLimitBuffer)) 4

/-- One round of the live branch of `_submit_preview_impl`; `expiry` is the date so many days on. -/
def liveLeg (fcs : Option FutureSize) (spot : ℚ) (expiry : ℕ → Date) (leg : PricedLeg) :
    FxVol.LegSpec :=
  let isFuture := leg.contractType = .future
  let previewPrice :=
    if isFuture then (if 0 < spot then spot else 1)
    else leg.entryPricePerContractUsd / eurFopMultiplier
  let limit : Option ℚ :=
    if isFuture ∨ previewPrice ≤ 0 then none
    else if 0 < marketableLimit leg.side previewPrice then
      some (marketableLimit leg.side previewPrice)
    else none
  { contractSymbol := if isFuture then (fcs.map FutureSize.ibSymbol).getD "EUR" else "EUR"
    contractType := leg.contractType
    contractExpiry := some (expiry leg.dte)
    contractStrike := leg.strike
    side := leg.side
    qty := leg.qty.toNat
    orderType := if limit.isSome then .lmt else .mkt
    limitPrice := limit
    previewIvPct := leg.entryIvPct
    previewPrice := some previewPrice }

section Rows
variable (N : Numerics) (structure' : Structure) (req : PreviewRequest) (inputs : PreviewInputs)
  (expiry : ℕ → Date)

def liveLegs : List FxVol.LegSpec :=
  (pricedLegs N structure' req inputs).map
    (liveLeg structure'.futureContractSize (spotFromSurface inputs.priced.1) expiry)

/-- The `trade_order` rows that a live submit adds. -/
def liveRows (structureId : ℕ) (now : Instant) : List StructureOrder :=
  (liveLegs N structure' req inputs expiry).mapIdx fun i leg => leg.order structureId i .entry now

theorem submitPreview_orders (db : Db) (now : Instant) :
    (submitPreview db (liveLegs N structure' req inputs expiry) now).orders =
      db.orders ++ liveRows N structure' req inputs expiry db.structures.length now := rfl

end Rows

section Claim
variable (N : Numerics) (structure' : Structure) (req : PreviewRequest) (inputs : PreviewInputs)
  (limits : PreviewLimits) (commissionPerContractUsd : Option ℚ) (expiry : ℕ → Date)
  (structureId : ℕ) (now : Instant)

def contractRate (size : Option FutureSize) : ℚ :=
  size.elim (commissionPerContractUsd.getD 2) futureCommissionUsd

/-- A leg of a structure and its order trade what the spec of the leg asked for, on the multiplier
and at the rate of that contract. -/
structure OwnInstrument (spec : TradePreviews.LegSpec) (leg : Leg) (order : StructureOrder) :
    Prop where
  symbol : order.contractSymbol = contractSymbol spec.futureSize
  contractType : order.contractType = spec.contractType
  side : order.side = spec.side
  qty : (order.qty : ℤ) = finalQty structure' req inputs * spec.qtyFactor
  delta : (legGreeks N leg (spotFromSurface inputs.priced.1) structure'.futMult).delta =
    (legGreeks N leg (spotFromSurface inputs.priced.1) (contractMult spec.futureSize)).delta
  commission : commissionPerContract structure' commissionPerContractUsd =
    contractRate commissionPerContractUsd spec.futureSize
  notional : (previewPayload N structure' req inputs).futureMultiplierEur.getD eurFopMultiplier =
    contractMult spec.futureSize

/-- A row without its place among the legs. -/
def unnumbered (o : StructureOrder) : StructureOrder := { o with legIdx := 0 }

/-- Each leg keeps its instrument, and the legs in another order have the same rows and totals. -/
structure KeepsInstruments (specs : List TradePreviews.LegSpec) : Prop where
  legs : ∀ (i : ℕ) (spec : TradePreviews.LegSpec), specs[i]? = some spec →
    ∃ leg order, structure'.legs[i]? = some leg ∧
      (liveRows N structure' req inputs expiry structureId now)[i]? = some order ∧
      OwnInstrument N structure' req inputs commissionPerContractUsd spec leg order
  permuted : ∀ specs' : List TradePreviews.LegSpec, specs'.Perm specs →
    ∃ structure'', buildFromLegs specs' inputs.priced.1 = .ok structure'' ∧
      ((liveRows N structure'' req inputs expiry structureId now).map unnumbered).Perm
        ((liveRows N structure' req inputs expiry structureId now).map unnumbered) ∧
      totals N structure'' req inputs limits commissionPerContractUsd =
        totals N structure' req inputs limits commissionPerContractUsd

/-- Only options, only futures of one size, or options and full futures where the rate of options is
that of full futures. -/
def OneContract (sizes : List (Option FutureSize)) : Prop :=
  (∀ size ∈ sizes, size = none) ∨
  (∃ first, ∀ size ∈ sizes, size = some first) ∨
  (some FutureSize.micro ∉ sizes ∧
    commissionPerContractUsd.getD 2 = futureCommissionUsd .full)

end Claim

/-- A leg without its place. -/
def unplaced (leg : Leg) : Leg := { leg with legIdx := 0 }

theorem build_unplaced {spec : TradePreviews.LegSpec} {s : Surface} {i : ℕ} {leg : Leg}
    (h : spec.build s i = .ok leg) (j : ℕ) :
    spec.build s j = .ok { leg with legIdx := j } := by
  unfold TradePreviews.LegSpec.build at h ⊢
  cases htenor : spec.tenor with
  | other =>
    rw [htenor] at h
    cases h
  | known tenor =>
    rw [htenor] at h
    dsimp only at h ⊢
    by_cases hqty : spec.qtyFactor ≤ 0
    · rw [if_pos hqty] at h
      cases h
    rw [if_neg hqty] at h ⊢
    by_cases hfuture : spec.contractType = .future
    · rw [if_pos hfuture] at h ⊢
      cases h
      rfl
    rw [if_neg hfuture] at h ⊢
    cases hpillar : spec.deltaPillar.getD (.known .atm) with
    | other =>
      rw [hpillar] at h
      cases h
    | known pillar =>
      rw [hpillar] at h
      cases h
      rfl

/-- The legs of a list of specs, each at its place. -/
theorem buildLegs_forall {s : Surface} {specs : List TradePreviews.LegSpec} {i : ℕ}
    {legs : List Leg} (h : buildLegs s i specs = .ok legs) :
    List.Forall₂ (fun spec leg => spec.build s 0 = .ok (unplaced leg)) specs legs := by
  induction specs generalizing i legs with
  | nil =>
    rw [buildLegs] at h
    cases h
    exact .nil
  | cons spec specs ih =>
    obtain ⟨leg, rest, hleg, hrest, rfl⟩ := buildLegs_cons h
    exact .cons (build_unplaced hleg 0) (ih hrest)

theorem buildLegs_getElem? {s : Surface} {specs : List TradePreviews.LegSpec} {i : ℕ}
    {legs : List Leg} (h : buildLegs s i specs = .ok legs) {j : ℕ} {spec : TradePreviews.LegSpec}
    (hspec : specs[j]? = some spec) :
    ∃ leg, legs[j]? = some leg ∧ spec.build s (i + j) = .ok leg := by
  induction specs generalizing i j legs with
  | nil => cases hspec
  | cons first specs ih =>
    obtain ⟨leg, rest, hleg, hrest, rfl⟩ := buildLegs_cons h
    cases j with
    | zero =>
      cases hspec
      exact ⟨leg, rfl, hleg⟩
    | succ j =>
      obtain ⟨leg', hleg', hbuild⟩ := ih hrest hspec
      refine ⟨leg', hleg', ?_⟩
      rw [← hbuild]
      congr 1
      omega

theorem buildFromLegs_ok {s : Surface} {specs : List TradePreviews.LegSpec} {structure' : Structure}
    (h : buildFromLegs specs s = .ok structure') : buildLegs s 0 specs = .ok structure'.legs ∧
      structure'.requiresDeltaHedge = structure'.legs.any (·.contractType ≠ .future) := by
  unfold buildFromLegs at h
  split_ifs at h
  cases hlegs : buildLegs s 0 specs with
  | error e =>
    rw [hlegs] at h
    cases h
  | ok legs =>
    rw [hlegs] at h
    cases h
    exact ⟨rfl, rfl⟩

theorem buildFromLegs_numbered {s : Surface} {specs : List TradePreviews.LegSpec}
    {structure' : Structure} (h : buildFromLegs specs s = .ok structure') :
    Numbered 0 structure'.legs :=
  numbered_buildLegs (buildFromLegs_ok h).1

theorem buildFromLegs_accepts {s : Surface} {specs : List TradePreviews.LegSpec} {legs : List Leg}
    (hne : specs ≠ []) (h : buildLegs s 0 specs = .ok legs) :
    ∃ structure', buildFromLegs specs s = .ok structure' ∧ structure'.legs = legs :=
  ⟨_, by rw [buildFromLegs, if_neg hne, h], rfl⟩

theorem buildLegs_accepts {s : Surface} {specs : List TradePreviews.LegSpec} {i : ℕ}
    (h : ∀ spec ∈ specs, ∃ leg, spec.build s 0 = .ok leg) :
    ∃ legs, buildLegs s i specs = .ok legs := by
  induction specs generalizing i with
  | nil => exact ⟨[], rfl⟩
  | cons spec specs ih =>
    obtain ⟨leg, hleg⟩ := h spec List.mem_cons_self
    obtain ⟨legs, hlegs⟩ := ih (i := i + 1) fun spec hspec => h spec (List.mem_cons_of_mem _ hspec)
    exact ⟨_, by rw [buildLegs, build_unplaced hleg i, hlegs]⟩

/-- The legs of a list in another order are the same legs. -/
theorem buildLegs_perm {s : Surface} {specs specs' : List TradePreviews.LegSpec} {i : ℕ}
    {legs : List Leg} (hperm : specs'.Perm specs) (h : buildLegs s i specs = .ok legs) :
    ∃ legs', buildLegs s i specs' = .ok legs' ∧
      (legs'.map unplaced).Perm (legs.map unplaced) := by
  have hforall := buildLegs_forall h
  have hleg (spec) (hspec : spec ∈ specs') : ∃ leg, spec.build s 0 = .ok leg := by
    obtain ⟨j, hj, rfl⟩ := List.getElem_of_mem (hperm.mem_iff.mp hspec)
    have hj' := hforall.length_eq ▸ hj
    exact ⟨_, (List.forall₂_iff_get.mp hforall).2 j hj hj'⟩
  obtain ⟨legs', hlegs'⟩ := buildLegs_accepts (i := i) hleg
  have hbuilt {l : List TradePreviews.LegSpec} {ls : List Leg}
      (h : List.Forall₂ (fun spec leg => spec.build s 0 = .ok (unplaced leg)) l ls) :
      l.filterMap (fun spec => (spec.build s 0).toOption) = ls.map unplaced := by
    induction h with
    | nil => rfl
    | @cons spec leg specs legs hhead _ ih =>
      have hsome : (spec.build s 0).toOption = some (unplaced leg) := by
        rw [hhead]
        rfl
      simp only [List.filterMap_cons, hsome, ih, List.map_cons]
  refine ⟨legs', hlegs', ?_⟩
  rw [← hbuilt (buildLegs_forall hlegs'), ← hbuilt hforall]
  exact hperm.filterMap _

/-- Structures with the same legs, but for their order. -/
structure SameLegs (a b : Structure) : Prop where
  legs : (a.legs.map unplaced).Perm (b.legs.map unplaced)
  requiresDeltaHedge : a.requiresDeltaHedge = b.requiresDeltaHedge
  futureContractSize : a.futureContractSize = b.futureContractSize

section Same
variable {N : Numerics} {a b : Structure} {req : PreviewRequest} {inputs : PreviewInputs}
  {limits : PreviewLimits} {commissionPerContractUsd : Option ℚ} {expiry : ℕ → Date}
  {structureId : ℕ} {now : Instant}

theorem map_perm {α : Type*} {f : Leg → α} (h : SameLegs a b) (hf : ∀ leg, f (unplaced leg) = f leg) :
    (a.legs.map f).Perm (b.legs.map f) := by
  have hmap (l : List Leg) : l.map f = (l.map unplaced).map f := by
    rw [List.map_map]
    exact List.map_congr_left fun leg _ => (hf leg).symm
  rw [hmap a.legs, hmap b.legs]
  exact h.legs.map f

theorem sum_same {f : Leg → ℚ} (h : SameLegs a b) (hf : ∀ leg, f (unplaced leg) = f leg) :
    (a.legs.map f).sum = (b.legs.map f).sum := (map_perm h hf).sum_eq

theorem computeNetGreeks_same (h : SameLegs a b) (s : Surface) :
    computeNetGreeks N a s = computeNetGreeks N b s := by
  have hmult : a.futMult = b.futMult := by rw [Structure.futMult, Structure.futMult, h.futureContractSize]
  have hsum (f : LegGreeks → ℚ) :
      (a.legs.map fun leg => f (legGreeks N leg (spotFromSurface s) b.futMult)).sum =
        (b.legs.map fun leg => f (legGreeks N leg (spotFromSurface s) b.futMult)).sum :=
    sum_same h fun _ => rfl
  simp only [computeNetGreeks, List.map_map, Function.comp_def, hmult, h.requiresDeltaHedge, hsum]

theorem priceStructure_same (h : SameLegs a b) (s : Surface) :
    (priceStructure N a s).totalPremiumUsd = (priceStructure N b s).totalPremiumUsd ∧
      (priceStructure N a s).maxLossUsd = (priceStructure N b s).maxLossUsd := by
  have hsum : unitPremium N (spotFromSurface s) a.legs = unitPremium N (spotFromSurface s) b.legs :=
    sum_same h fun _ => rfl
  simp only [priceStructure, hsum, and_self]

theorem totalContracts_same (h : SameLegs a b) :
    totalContracts (sizing N a req inputs limits) = totalContracts (sizing N b req inputs limits) := by
  have hsum (c : Structure) : totalContracts (sizing N c req inputs limits) =
      (c.legs.map fun leg => |finalQty c req inputs * leg.qtyFactor|).sum := by
    rw [totalContracts, ← sizing_finalQty N c req inputs limits]
    simp only [sizing, SizingRequest.result, List.map_map]
    rfl
  rw [hsum, hsum]
  exact (map_perm (f := fun leg => |finalQty b req inputs * leg.qtyFactor|) h fun _ => rfl).sum_eq

theorem totals_same (h : SameLegs a b) : totals N a req inputs limits commissionPerContractUsd =
    totals N b req inputs limits commissionPerContractUsd := by
  obtain ⟨hpremium, hloss⟩ := priceStructure_same (N := N) h inputs.priced.1
  have hfinal : (sizing N a req inputs limits).finalPremiumUsd =
      (sizing N b req inputs limits).finalPremiumUsd := by
    rw [finalPremiumUsd_eq, finalPremiumUsd_eq, unitPremiumUsd, unitPremiumUsd, hpremium]
    rfl
  have hcosts : costs N a req inputs limits commissionPerContractUsd =
      costs N b req inputs limits commissionPerContractUsd := by
    simp only [costs, commissionPerContract, totalContracts_same h, hfinal, hpremium,
      h.futureContractSize]
    rfl
  have hnet : (previewPayload N a req inputs).greeksNet = (previewPayload N b req inputs).greeksNet := by
    simp only [previewPayload, computeNetGreeks_same h]
    rfl
  have hnotional : (tradeGreeksFromPreview (previewPayload N a req inputs)
        (some (previewPayload N a req inputs).spot)).map (·.notionalEur) =
      (tradeGreeksFromPreview (previewPayload N b req inputs)
        (some (previewPayload N b req inputs).spot)).map (·.notionalEur) := by
    have hlegs := map_perm (f := payloadLeg (finalQty b req inputs)) h fun _ => rfl
    have hmult : (previewPayload N a req inputs).futureMultiplierEur =
        (previewPayload N b req inputs).futureMultiplierEur :=
      congrArg (Option.map FutureSize.multiplier) h.futureContractSize
    have hempty : (previewPayload N a req inputs).legs = [] ↔
        (previewPayload N b req inputs).legs = [] := by
      rw [payload_legs, payload_legs, ← List.length_eq_zero_iff, ← List.length_eq_zero_iff]
      exact iff_of_eq (congrArg (· = 0) hlegs.length_eq)
    rw [tradeGreeksFromPreview, tradeGreeksFromPreview]
    by_cases hnil : (previewPayload N b req inputs).legs = []
    · rw [if_pos hnil, if_pos (hempty.mpr hnil)]
    · rw [if_neg hnil, if_neg fun hnil' => hnil (hempty.mp hnil')]
      simp only [Option.map_some, hmult, payload_legs]
      congr 2
      exact (hlegs.map _).sum_eq
  simp only [totals, hnet, hpremium, hloss, hfinal, hcosts, hnotional]

/-- The rows of a structure, without their places. -/
theorem liveRows_unnumbered (hnumbered : Numbered 0 a.legs) :
    (liveRows N a req inputs expiry structureId now).map unnumbered = a.legs.map fun leg =>
      (liveLeg a.futureContractSize (spotFromSurface inputs.priced.1) expiry
        { payloadLeg (finalQty a req inputs) leg with
          entryPricePerContractUsd := legPrice N (spotFromSurface inputs.priced.1) leg }).order
        structureId 0 .entry now := by
  rw [liveRows, liveLegs, pricedLegs_price hnumbered, List.map_map]
  apply List.ext_getElem?
  intro i
  simp only [List.getElem?_map, List.getElem?_mapIdx, Option.map_map]
  rfl

theorem liveRows_getElem? (hnumbered : Numbered 0 a.legs) (i : ℕ) :
    (liveRows N a req inputs expiry structureId now)[i]? = (a.legs[i]?).map fun leg =>
      (liveLeg a.futureContractSize (spotFromSurface inputs.priced.1) expiry
        { payloadLeg (finalQty a req inputs) leg with
          entryPricePerContractUsd := legPrice N (spotFromSurface inputs.priced.1) leg }).order
        structureId i .entry now := by
  rw [liveRows, liveLegs, pricedLegs_price hnumbered, List.map_map, List.getElem?_mapIdx,
    List.getElem?_map, Option.map_map]
  rfl

theorem liveRows_perm (h : SameLegs a b) (ha : Numbered 0 a.legs) (hb : Numbered 0 b.legs) :
    ((liveRows N a req inputs expiry structureId now).map unnumbered).Perm
      ((liveRows N b req inputs expiry structureId now).map unnumbered) := by
  rw [liveRows_unnumbered ha, liveRows_unnumbered hb, h.futureContractSize]
  exact map_perm h fun _ => rfl

end Same

section OneContract
variable {structure' : Structure} {sizes : List (Option FutureSize)}
  {commissionPerContractUsd : Option ℚ}

theorem contractSymbol_eq {size size' : Option FutureSize} (h : contractMult size = contractMult size') :
    contractSymbol size = contractSymbol size' := by
  have hmicro := contractMult_eq_iff.mp h
  rcases size with _ | _ | _ <;> rcases size' with _ | _ | _ <;>
    simp_all [contractSymbol, FutureSize.ibSymbol]

theorem futureContractSize_cases (h : Built structure' sizes) :
    (structure'.futureContractSize = none ∧ ∀ size ∈ sizes, size = none) ∨
      ∃ first, structure'.futureContractSize = some first ∧ some first ∈ sizes := by
  cases hfcs : structure'.futureContractSize with
  | none =>
    rw [h.size, List.head?_eq_none_iff, List.filterMap_eq_nil_iff] at hfcs
    exact .inl ⟨rfl, hfcs⟩
  | some first =>
    rw [h.size] at hfcs
    obtain ⟨size, hsize, hid⟩ := List.mem_filterMap.mp (List.mem_of_mem_head? hfcs)
    exact .inr ⟨first, rfl, (show size = some first from hid) ▸ hsize⟩

/-- The contract of a structure stands for that of every leg just where they are all alike. -/
theorem oneContract_iff (h : Built structure' sizes) :
    OneContract commissionPerContractUsd sizes ↔ ∀ size ∈ sizes,
      contractRate commissionPerContractUsd structure'.futureContractSize =
          contractRate commissionPerContractUsd size ∧
        contractMult structure'.futureContractSize = contractMult size := by
  rcases futureContractSize_cases h with ⟨hfcs, hnone⟩ | ⟨first, hfcs, hfirst⟩
  · rw [hfcs]
    constructor
    · intro _ size hsize
      rw [hnone size hsize]
      exact ⟨rfl, rfl⟩
    · intro _
      exact .inl hnone
  rw [hfcs]
  constructor
  · rintro (hnone | ⟨first', hall⟩ | ⟨hmicro, hrate⟩) size hsize
    · cases hnone _ hfirst
    · rw [hall size hsize, hall _ hfirst]
      exact ⟨rfl, rfl⟩
    · -- full futures, at the rate of the options
      cases first with
      | micro => exact absurd hfirst hmicro
      | full =>
        rcases size with _ | _ | _
        · exact ⟨hrate.symm, rfl⟩
        · exact ⟨rfl, rfl⟩
        · exact absurd hsize hmicro
  · intro hall
    have hmicro (size) (hsize : size ∈ sizes) := contractMult_eq_iff.mp (hall size hsize).2
    by_cases hoption : none ∈ sizes
    · -- an option beside futures, which are then full
      have hfull : first = .full := by
        cases first with
        | full => rfl
        | micro => cases (hmicro none hoption).mp rfl
      subst hfull
      refine .inr (.inr ⟨fun hmem => ?_, ((hall none hoption).1).symm⟩)
      cases (hmicro _ hmem).mpr rfl
    · refine .inr (.inl ⟨first, fun size hsize => ?_⟩)
      have hiff := hmicro size hsize
      rcases size with _ | _ | _
      · exact absurd hsize hoption
      · cases first with
        | full => rfl
        | micro => cases hiff.mp rfl
      · exact (hiff.mpr rfl).symm

/-- The first size of a list does not depend on the order where the sizes are all alike. -/
theorem futureContractSize_perm {structure'' : Structure} {sizes' : List (Option FutureSize)}
    (h : Built structure' sizes) (h' : Built structure'' sizes') (hperm : sizes'.Perm sizes)
    (hone : OneContract commissionPerContractUsd sizes) :
    structure''.futureContractSize = structure'.futureContractSize := by
  rcases futureContractSize_cases h' with ⟨hfcs', hnone⟩ | ⟨first', hfcs', hfirst'⟩
  · rcases futureContractSize_cases h with ⟨hfcs, -⟩ | ⟨first, -, hfirst⟩
    · rw [hfcs, hfcs']
    · cases hnone _ (hperm.mem_iff.mpr hfirst)
  · have hmem := hperm.mem_iff.mp hfirst'
    rcases futureContractSize_cases h with ⟨-, hnone⟩ | ⟨first, hfcs, hfirst⟩
    · cases hnone _ hmem
    · have hmult := ((oneContract_iff h).mp hone _ hmem).2
      rw [hfcs, contractMult_eq_iff] at hmult
      rw [hfcs, hfcs']
      cases first <;> cases first' <;> simp_all

end OneContract

section Proof
variable {N : Numerics} {structure' : Structure} {req : PreviewRequest} {inputs : PreviewInputs}
  {limits : PreviewLimits} {commissionPerContractUsd : Option ℚ} {expiry : ℕ → Date}
  {structureId : ℕ} {now : Instant} {specs : List TradePreviews.LegSpec}

theorem finalQty_nonneg : 0 ≤ finalQty structure' req inputs := by
  rcases lt_or_ge (baseQty req inputs) 1 with hbase | hbase
  · rw [finalQty_of_nonpos hbase]
    split_ifs <;> omega
  · rw [finalQty_of_pos (by omega)]
    omega

theorem legGreeks_delta {leg : Leg} {spot m m' : ℚ} (h : leg.contractType = .future → m = m') :
    (legGreeks N leg spot m).delta = (legGreeks N leg spot m').delta := by
  by_cases hfuture : leg.contractType = .future
  · rw [h hfuture]
  · simp only [legGreeks, if_neg hfuture]

/-- What a leg has of its own: its contract stands for the whole structure. -/
theorem ownInstrument_iff {spec : TradePreviews.LegSpec} {i j : ℕ} {leg : Leg}
    (hleg : spec.build inputs.priced.1 j = .ok leg) :
    OwnInstrument N structure' req inputs commissionPerContractUsd spec leg
      ((liveLeg structure'.futureContractSize (spotFromSurface inputs.priced.1) expiry
        { payloadLeg (finalQty structure' req inputs) leg with
          entryPricePerContractUsd := legPrice N (spotFromSurface inputs.priced.1) leg }).order
        structureId i .entry now) ↔
    contractRate commissionPerContractUsd structure'.futureContractSize =
        contractRate commissionPerContractUsd spec.futureSize ∧
      contractMult structure'.futureContractSize = contractMult spec.futureSize := by
  obtain ⟨-, htype, hside, hqty, hpos⟩ := TradePreviews.LegSpec.build_ok hleg
  have hrate : commissionPerContract structure' commissionPerContractUsd =
      contractRate commissionPerContractUsd structure'.futureContractSize := by
    rw [commissionPerContract]
    cases structure'.futureContractSize <;> rfl
  have hmult : (previewPayload N structure' req inputs).futureMultiplierEur.getD eurFopMultiplier =
      contractMult structure'.futureContractSize := by
    change (structure'.futureContractSize.map FutureSize.multiplier).getD eurFopMultiplier = _
    cases structure'.futureContractSize <;> rfl
  constructor
  · intro hown
    exact ⟨hrate ▸ hown.commission, hmult ▸ hown.notional⟩
  · rintro ⟨hcommission, hnotional⟩
    refine ⟨?_, htype, hside, ?_, legGreeks_delta fun hfuture => ?_, hrate.trans hcommission,
      hmult.trans hnotional⟩
    · by_cases hfuture : spec.contractType = .future
      · have hsymbol : (structure'.futureContractSize.map FutureSize.ibSymbol).getD "EUR" =
            contractSymbol structure'.futureContractSize := by
          cases structure'.futureContractSize <;> rfl
        simp only [LegSpec.order, liveLeg, payloadLeg, htype, hfuture, if_true, hsymbol]
        exact contractSymbol_eq hnotional
      · simp only [LegSpec.order, liveLeg, payloadLeg, htype, hfuture, if_false,
          TradePreviews.LegSpec.futureSize]
        rfl
    · have hnonneg : 0 ≤ finalQty structure' req inputs * leg.qtyFactor :=
        mul_nonneg finalQty_nonneg (by omega)
      rw [← hqty]
      exact Int.toNat_of_nonneg hnonneg
    · rw [htype] at hfuture
      rw [← hnotional, Structure.futMult]
      cases structure'.futureContractSize <;> rfl

theorem keepsInstruments_iff (h : buildFromLegs specs inputs.priced.1 = .ok structure') :
    KeepsInstruments N structure' req inputs limits commissionPerContractUsd expiry structureId now
        specs ↔
      OneContract commissionPerContractUsd (specs.map TradePreviews.LegSpec.futureSize) := by
  have hbuilt := built_buildFromLegs h
  have hnumbered := buildFromLegs_numbered h
  obtain ⟨hlegs, hhedge⟩ := buildFromLegs_ok h
  have hrow {i : ℕ} {leg : Leg} (hleg : structure'.legs[i]? = some leg) :
      (liveRows N structure' req inputs expiry structureId now)[i]? = some
        ((liveLeg structure'.futureContractSize (spotFromSurface inputs.priced.1) expiry
          { payloadLeg (finalQty structure' req inputs) leg with
            entryPricePerContractUsd := legPrice N (spotFromSurface inputs.priced.1) leg }).order
          structureId i .entry now) :=
    (liveRows_getElem? hnumbered i).trans (congrArg _ hleg)
  constructor
  · intro hkeeps
    rw [oneContract_iff hbuilt]
    intro size hsize
    obtain ⟨spec, hspec, rfl⟩ := List.mem_map.mp hsize
    obtain ⟨i, hi⟩ := List.mem_iff_getElem?.mp hspec
    obtain ⟨leg, hleg, hbuild⟩ := buildLegs_getElem? hlegs hi
    obtain ⟨leg', order, hleg', horder, hown⟩ := hkeeps.legs i spec hi
    rw [hleg] at hleg'
    cases hleg'
    rw [hrow hleg] at horder
    cases horder
    exact (ownInstrument_iff hbuild).mp hown
  · intro hone
    refine ⟨?_, ?_⟩
    · intro i spec hi
      obtain ⟨leg, hleg, hbuild⟩ := buildLegs_getElem? hlegs hi
      have hsize := List.mem_map_of_mem (f := TradePreviews.LegSpec.futureSize)
        (List.mem_of_getElem? hi)
      exact ⟨leg, _, hleg, hrow hleg,
        (ownInstrument_iff hbuild).mpr ((oneContract_iff hbuilt).mp hone _ hsize)⟩
    · intro specs' hperm
      have hne : specs' ≠ [] := by
        rintro rfl
        rw [hperm.symm.eq_nil] at h
        cases h
      obtain ⟨legs', hlegs', hsame⟩ := buildLegs_perm hperm hlegs
      obtain ⟨structure'', h', rfl⟩ := buildFromLegs_accepts hne hlegs'
      have hany : structure''.requiresDeltaHedge = structure'.requiresDeltaHedge := by
        have hunplaced (l : List Leg) : l.any (·.contractType ≠ .future) =
            (l.map unplaced).any (·.contractType ≠ .future) := by
          rw [List.any_map]
          rfl
        rw [hhedge, (buildFromLegs_ok h').2, hunplaced structure''.legs, hunplaced structure'.legs]
        exact hsame.any_eq
      have hsameLegs : SameLegs structure'' structure' := ⟨hsame, hany,
        futureContractSize_perm hbuilt (built_buildFromLegs h') (hperm.map _) hone⟩
      exact ⟨structure'', h',
        liveRows_perm hsameLegs (buildFromLegs_numbered h') hnumbered,
        totals_same hsameLegs⟩

end Proof

/-- After a preview of free legs and its live submit every row trades the contract its spec asked for,
on that contract's multiplier and at its rate, and the order of the legs changes nothing but the order
of the rows, just where one contract stands for all legs. -/
theorem legs_keep_instruments_iff (N : Numerics) (specs : List TradePreviews.LegSpec) (qty : Option ℤ)
    (inputs : PreviewInputs) (limits : PreviewLimits) (commissionPerContractUsd : Option ℚ)
    (expiry : ℕ → Date) (db : Db) (now : Instant) (structure' : Structure)
    (h : buildFromLegs specs inputs.priced.1 = .ok structure') :
    (submitPreview db (liveLegs N structure' ⟨.legs specs, qty⟩ inputs expiry) now).orders =
      db.orders ++ liveRows N structure' ⟨.legs specs, qty⟩ inputs expiry db.structures.length now ∧
    (KeepsInstruments N structure' ⟨.legs specs, qty⟩ inputs limits commissionPerContractUsd expiry
        db.structures.length now specs ↔
      OneContract commissionPerContractUsd (specs.map TradePreviews.LegSpec.futureSize)) :=
  ⟨rfl, keepsInstruments_iff h⟩

/-- A micro future beside a full one. -/
def fullAndMicro : List TradePreviews.LegSpec := [futureLeg .buy .full, futureLeg .sell .micro]

def fullAndMicroStructure : Structure :=
  ⟨[builtLeg 0 .buy, builtLeg 1 .sell], false, .neutral, some .full⟩

/-- A calendar that puts all legs into one month. -/
def june (_ : ℕ) : Date := ⟨2026, 6, 15⟩

theorem legs_keep_instruments_roundTrip : KeepsInstruments firstTerms roundTripStructure
    ⟨.legs [futureLeg .buy .full, futureLeg .sell .full], some 1⟩ noSurface ⟨none, none, none⟩ none
    june 0 0 [futureLeg .buy .full, futureLeg .sell .full] :=
  (legs_keep_instruments_iff firstTerms [futureLeg .buy .full, futureLeg .sell .full] (some 1) noSurface
    ⟨none, none, none⟩ none june Db.empty 0 roundTripStructure (by decide +kernel)).2.mpr
    (.inr (.inl ⟨.full, by decide⟩))

/-- The micro future that is sold goes out as a full one, and with the legs the other way round the
full one that is bought goes out as a micro future. -/
theorem micro_goes_out_full :
    buildFromLegs fullAndMicro noSurface.priced.1 = .ok fullAndMicroStructure ∧
    (submitPreview Db.empty (liveLegs firstTerms fullAndMicroStructure ⟨.legs fullAndMicro, some 1⟩
        noSurface june) 0).orders.map (fun o => (o.side, o.contractSymbol)) =
      [(.buy, "EUR"), (.sell, "EUR")] ∧
    (buildFromLegs fullAndMicro.reverse noSurface.priced.1).toOption.map (fun structure'' =>
        (submitPreview Db.empty (liveLegs firstTerms structure''
          ⟨.legs fullAndMicro.reverse, some 1⟩ noSurface june) 0).orders.map
            fun o => (o.side, o.contractSymbol)) =
      some [(.sell, "M6E"), (.buy, "M6E")] ∧
    ¬ KeepsInstruments firstTerms fullAndMicroStructure ⟨.legs fullAndMicro, some 1⟩ noSurface
      ⟨none, none, none⟩ none june 0 0 fullAndMicro := by
  refine ⟨by decide +kernel, by decide +kernel, by decide +kernel, ?_⟩
  intro hkeeps
  obtain ⟨leg, order, -, horder, hown⟩ := hkeeps.legs 1 (futureLeg .sell .micro) rfl
  have hsymbol := hown.symbol
  have hrow : (liveRows firstTerms fullAndMicroStructure ⟨.legs fullAndMicro, some 1⟩ noSurface june 0
      0)[1]?.map (·.contractSymbol) = some "EUR" := by
    decide +kernel
  rw [horder] at hrow
  rw [Option.map_some, Option.some.injEq, hsymbol] at hrow
  revert hrow
  decide +kernel

end FxVol.LegInstruments
