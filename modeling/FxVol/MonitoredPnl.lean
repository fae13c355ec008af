import FxVol.PositionMarks
import FxVol.BookingPaths

/-!
# The monitored P&L against the ledger

A cycle marks the entry orders that have a strike and an expiry, and takes off a premium that has no
futures: what the futures of a position have made since they were filled is in neither.
-/
namespace FxVol.MonitoredPnl

open Greeks VolSurface BookState BookingPaths PositionMarks Ledger

def entryLegs (db : Db) (structureId : ℕ) : List (StructureOrder × ℕ) :=
  (db.ordersOf structureId).filter fun p => p.1.orderRole = .entry

def fillsPnl (o : StructureOrder) (mark : ℚ) (fills : List StructureFill) : ℚ :=
  (fills.map fun f => sideSign o.side * f.qtyFilled * (mark - f.fillPrice) * o.multiplier).sum

/-- The mark of an entry order: the spot for a future, for an option its price on the surface. -/
def legMark (N : VolSurface.Numerics) (q : Quotes) (o : StructureOrder) : ℚ :=
  if o.contractType = .future then q.spot
  else (o.legSpec.bind fun leg => (legIv N q leg).map fun res => legPrice N q leg res.iv).getD 0

def ledgerPnl (N : VolSurface.Numerics) (q : Quotes) (db : Db) (structureId : ℕ) : ℚ :=
  ((entryLegs db structureId).map fun p => fillsPnl p.1 (legMark N q p.1) (db.fillsOf p.2)).sum

def futuresPnl (spot : ℚ) (db : Db) (structureId : ℕ) : ℚ :=
  (((entryLegs db structureId).filter fun p => p.1.contractType = .future).map
    fun p => fillsPnl p.1 spot (db.fillsOf p.2)).sum

def premiumRounding (db : Db) (pos : PositionRow) : ℚ :=
  totalPremium ((entryLegs db pos.structureId).map (·.1)) - pos.entryPremiumUsd

/-- An open position whose entry legs are filled, as both ways of booking leave it. -/
structure FilledEntry (db : Db) (pos : PositionRow) : Prop where
  isOpen : pos.state = .open
  filled : ∀ p ∈ entryLegs db pos.structureId, p.1.state = .filled ∧ 0 < db.recorded p.2
  folded : ∀ p ∈ entryLegs db pos.structureId, Aggregated p.1 (db.fillsOf p.2)
  future : ∀ p ∈ entryLegs db pos.structureId, p.1.contractType = .future → p.1.contractStrike = none
  option : ∀ p ∈ entryLegs db pos.structureId, p.1.contractType ≠ .future →
    p.1.contractStrike.isSome ∧ p.1.contractExpiry.isSome
  premium : pos.entryPremiumUsd = pyRound (totalPremium ((entryLegs db pos.structureId).map (·.1))) 4
  greeks : (∀ p ∈ entryLegs db pos.structureId, p.1.contractType = .future) →
    pos.entryGreeks.read = (0, 0, 0)

/-- The surface prices every option leg. -/
def AllPriced (N : VolSurface.Numerics) (q : Quotes) (db : Db) (structureId : ℕ) : Prop :=
  ∀ p ∈ entryLegs db structureId, ∀ leg, p.1.legSpec = some leg → (legIv N q leg).isSome

section Mark
variable {N : VolSurface.Numerics} {q : Quotes} {db : Db} {pos : PositionRow} {o : StructureOrder}
  {fills : List StructureFill}

def worth (N : VolSurface.Numerics) (q : Quotes) (leg : PositionPricing.LegSpec) : ℚ :=
  sideSign leg.side * ((legIv N q leg).map fun res => legPrice N q leg res.iv).getD 0 * leg.qty *
    eurFopMultiplier

theorem addLeg_priced (m : PositionMark) {leg : PositionPricing.LegSpec} {res : IvResult}
    (h : legIv N q leg = some res) : PositionMark.addLeg N q m leg = m.priced N q leg res.iv := by
  have hpos : ¬ res.iv ≤ 0 := not_le.mpr (ivAtStrike_pos h)
  simp only [PositionMark.addLeg, h, if_neg hpos]

/-- Where the surface prices every leg, a column that each priced leg adds to holds their sum. -/
theorem pricePosition_column {M : Type*} [AddCommMonoid M] {legs : List PositionPricing.LegSpec}
    (h : ∀ leg ∈ legs, (legIv N q leg).isSome) (column : PositionMark → M)
    (value : PositionPricing.LegSpec → M)
    (hpriced : ∀ m leg res, legIv N q leg = some res → column (m.priced N q leg res.iv) = column m + value leg) :
    column (pricePosition N q legs) = column .zero + (legs.map value).sum := by
  refine TableTotals.foldl_sum legs column (fun m leg hleg => ?_) .zero
  obtain ⟨res, hres⟩ := Option.isSome_iff_exists.mp (h leg hleg)
  rw [addLeg_priced m hres]
  exact hpriced m leg res hres

/-- Where the surface prices every leg the mark is what they are worth. -/
theorem pricePosition_priced {legs : List PositionPricing.LegSpec}
    (h : ∀ leg ∈ legs, (legIv N q leg).isSome) :
    (pricePosition N q legs).nSurfaceMissing = 0 ∧
      (pricePosition N q legs).markValueUsd = (legs.map (worth N q)).sum := by
  constructor
  · have hmissing := pricePosition_column h PositionMark.nSurfaceMissing (fun _ => 0) fun _ _ _ _ => rfl
    simpa [PositionMark.zero] using hmissing
  · have hmark := pricePosition_column h PositionMark.markValueUsd (worth N q) fun m leg res hres => by
      simp only [PositionMark.priced, worth, hres, Option.map_some, Option.getD_some]
    exact hmark.trans (zero_add _)

theorem fillsPnl_eq (o : StructureOrder) (mark : ℚ) (fills : List StructureFill) :
    fillsPnl o mark fills =
      sideSign o.side * (mark * (fills.map (·.qtyFilled)).sum - notional fills) * o.multiplier := by
  rw [fillsPnl, notional]
  induction fills with
  | nil => simp
  | cons f fills ih =>
    rw [List.map_cons, List.sum_cons, ih, List.map_cons, List.sum_cons, List.map_cons, List.sum_cons]
    push_cast
    ring

/-- A filled option is re-priced at what it filled, and what it is worth over its premium is what its
fills have made. -/
theorem option_worth (hfolded : Aggregated o fills) (hqty : 0 < (fills.map (·.qtyFilled)).sum)
    (hoption : o.contractType ≠ .future) (hterms : o.contractStrike.isSome ∧ o.contractExpiry.isSome)
    (hpriced : ∀ leg, o.legSpec = some leg → (legIv N q leg).isSome) :
    ∃ leg, o.legSpec = some leg ∧ worth N q leg - o.premium = fillsPnl o (legMark N q o) fills := by
  obtain ⟨strike, hstrike⟩ := Option.isSome_iff_exists.mp hterms.1
  obtain ⟨expiry, hexpiry⟩ := Option.isSome_iff_exists.mp hterms.2
  have hfill : o.qtyFilled = (fills.map (·.qtyFilled)).sum := by
    have h := congrArg StructureOrder.qtyFilled hfolded
    rw [StructureOrder.withAggregates, updateOrderAggregates_qtyFilled] at h
    exact h.symm
  have hleg : ∃ leg, o.legSpec = some leg ∧ leg.side = o.side ∧ leg.qty = o.qtyFilled := by
    have hpos : 0 < o.qtyFilled := hfill ▸ hqty
    have hne : o.qtyFilled ≠ 0 := hpos.ne'
    simp only [StructureOrder.legSpec, hstrike, hexpiry, if_pos hpos, if_neg hne]
    exact ⟨_, rfl, rfl, rfl⟩
  obtain ⟨leg, hspec, hside, hlegQty⟩ := hleg
  obtain ⟨res, hres⟩ := Option.isSome_iff_exists.mp (hpriced leg hspec)
  refine ⟨leg, hspec, ?_⟩
  have hmark : legMark N q o = legPrice N q leg res.iv := by
    simp [legMark, if_neg hoption, hspec, hres]
  rw [fillsPnl_eq, hmark, premium_folded hfolded, if_neg hoption, worth, hres, hside, hlegQty, hfill,
    StructureOrder.multiplier, if_neg hoption]
  simp only [Option.map_some, Option.getD_some]
  ring

/-- What the re-priced legs are worth over the premium of the entry orders is what the options have
made. -/
theorem legs_worth (legs : List (StructureOrder × ℕ))
    (hfilled : ∀ p ∈ legs, 0 < db.recorded p.2) (hfolded : ∀ p ∈ legs, Aggregated p.1 (db.fillsOf p.2))
    (hfuture : ∀ p ∈ legs, p.1.contractType = .future → p.1.contractStrike = none)
    (hoption : ∀ p ∈ legs, p.1.contractType ≠ .future →
      p.1.contractStrike.isSome ∧ p.1.contractExpiry.isSome)
    (hpriced : ∀ p ∈ legs, ∀ leg, p.1.legSpec = some leg → (legIv N q leg).isSome) :
    ((legs.filterMap fun p => p.1.legSpec).map (worth N q)).sum - totalPremium (legs.map (·.1)) +
        ((legs.filter fun p => p.1.contractType = .future).map
          fun p => fillsPnl p.1 q.spot (db.fillsOf p.2)).sum =
      (legs.map fun p => fillsPnl p.1 (legMark N q p.1) (db.fillsOf p.2)).sum := by
  induction legs with
  | nil => simp [totalPremium]
  | cons p legs ih =>
    have hrest := ih (fun p hp => hfilled p (List.mem_cons_of_mem _ hp))
      (fun p hp => hfolded p (List.mem_cons_of_mem _ hp))
      (fun p hp => hfuture p (List.mem_cons_of_mem _ hp))
      (fun p hp => hoption p (List.mem_cons_of_mem _ hp))
      (fun p hp => hpriced p (List.mem_cons_of_mem _ hp))
    rw [totalPremium] at hrest ⊢
    have hhead := hfolded p List.mem_cons_self
    by_cases htype : p.1.contractType = .future
    · have hnone : p.1.legSpec = none := by
        simp [StructureOrder.legSpec, hfuture p List.mem_cons_self htype]
      have hmark : legMark N q p.1 = q.spot := if_pos htype
      have hpremium : p.1.premium = 0 := if_pos htype
      simp only [List.filterMap_cons, hnone]
      rw [List.filter_cons_of_pos (by simpa using htype), List.map_cons, List.map_cons, List.map_cons, List.map_cons, List.sum_cons, List.sum_cons,
        List.sum_cons, hpremium, hmark, ← hrest]
      ring
    · obtain ⟨leg, hspec, hworth⟩ := option_worth hhead (hfilled p List.mem_cons_self) htype
        (hoption p List.mem_cons_self htype) (hpriced p List.mem_cons_self)
      simp only [List.filterMap_cons, hspec]
      rw [List.filter_cons_of_neg (by simpa using htype), List.map_cons, List.map_cons, List.map_cons, List.map_cons, List.sum_cons, List.sum_cons,
        List.sum_cons, ← hrest, ← hworth]
      ring

end Mark

section Gross
variable {N : VolSurface.Numerics} {db : Db} {pos : PositionRow} {m : Market} {now : Instant}

theorem FilledEntry.worth (h : FilledEntry db pos) {q : Quotes}
    (hpriced : AllPriced N q db pos.structureId) :
    (((entryLegs db pos.structureId).filterMap fun p => p.1.legSpec).map (worth N q)).sum -
        totalPremium ((entryLegs db pos.structureId).map (·.1)) + futuresPnl q.spot db pos.structureId =
      ledgerPnl N q db pos.structureId :=
  legs_worth _ (fun p hp => (h.filled p hp).2) h.folded h.future h.option hpriced

/-- Where nothing is re-priced the position is in futures alone. -/
theorem FilledEntry.onlyFutures (h : FilledEntry db pos)
    (hnone : ((entryLegs db pos.structureId).filterMap fun p => p.1.legSpec) = []) :
    ∀ p ∈ entryLegs db pos.structureId, p.1.contractType = .future := by
  intro p hp
  by_contra htype
  obtain ⟨hstrike, hexpiry⟩ := h.option p hp htype
  have hfill : p.1.qtyFilled = db.recorded p.2 := by
    have hqty := congrArg StructureOrder.qtyFilled (h.folded p hp)
    rw [StructureOrder.withAggregates, updateOrderAggregates_qtyFilled] at hqty
    exact hqty.symm
  have hpos : 0 < p.1.qtyFilled := hfill ▸ (h.filled p hp).2
  have hspec := List.filterMap_eq_nil_iff.mp hnone p hp
  obtain ⟨strike, hstrike⟩ := Option.isSome_iff_exists.mp hstrike
  obtain ⟨expiry, hexpiry⟩ := Option.isSome_iff_exists.mp hexpiry
  simp only [StructureOrder.legSpec, hstrike, hexpiry, if_pos hpos, if_neg hpos.ne'] at hspec
  cases hspec

/-- The gross P&L of a cycle is what the ledger shows without the futures, but for the rounding of the
premium. -/
theorem gross_eq (h : FilledEntry db pos) (hpriced : AllPriced N (m.quotes now) db pos.structureId)
    (hedgeCost : ℚ) : (monitoredMtm N db pos m now hedgeCost).pnlGrossUsd =
      ledgerPnl N (m.quotes now) db pos.structureId -
        futuresPnl (m.quotes now).spot db pos.structureId + premiumRounding db pos := by
  have hworth := h.worth hpriced
  by_cases hnone : ((entryLegs db pos.structureId).filterMap fun p => p.1.legSpec) = []
  · have hall := h.onlyFutures hnone
    have hpremium : totalPremium ((entryLegs db pos.structureId).map (·.1)) = 0 := by
      rw [totalPremium]
      apply List.sum_eq_zero
      intro x hx
      obtain ⟨o, ho, rfl⟩ := List.mem_map.mp hx
      obtain ⟨p, hp, rfl⟩ := List.mem_map.mp ho
      exact if_pos (hall p hp)
    have hentry : pos.entryPremiumUsd = 0 := by
      rw [h.premium, hpremium]
      decide +kernel
    have hread := h.greeks hall
    simp only [EntryGreeks.read, Prod.mk.injEq] at hread
    obtain ⟨hvega, hgamma, htheta⟩ := hread
    have hlive : liveMark N db pos m now = none := by
      have hreprice : PositionMarks.repricePosition N (m.quotes now) db pos.structureId = none := if_pos hnone
      rw [liveMark, hreprice]
      rfl
    rw [hnone, List.map_nil, List.sum_nil, hpremium] at hworth
    simp only [monitoredMtm, computeMtm, markValue, hlive, attribution, attributePnl, hvega, hgamma,
      htheta, premiumRounding, hpremium, hentry]
    linarith
  · have hall : ∀ leg ∈ (entryLegs db pos.structureId).filterMap fun p => p.1.legSpec,
        (legIv N (m.quotes now) leg).isSome := by
      intro leg hleg
      obtain ⟨p, hp, hspec⟩ := List.mem_filterMap.mp hleg
      exact hpriced p hp leg hspec
    obtain ⟨hmissing, hmark⟩ := pricePosition_priced hall
    have hlive : liveMark N db pos m now = some (pricePosition N (m.quotes now)
        ((entryLegs db pos.structureId).filterMap fun p => p.1.legSpec)) := by
      have hreprice : PositionMarks.repricePosition N (m.quotes now) db pos.structureId =
          some (pricePosition N (m.quotes now)
            ((entryLegs db pos.structureId).filterMap fun p => p.1.legSpec)) := if_neg hnone
      rw [liveMark, hreprice, Option.filter_some, if_pos (decide_eq_true hmissing)]
    simp only [monitoredMtm, computeMtm, markValue, hlive, hmark, premiumRounding]
    linarith

end Gross

/-- Up to the rounding of the entry premium the gross P&L that a cycle persists is that of the
ledger just where the futures of the position have made nothing at the spot of the cycle. -/
theorem monitored_pnl_iff (N : VolSurface.Numerics) (db : Db) (pos : PositionRow) (m : Market)
    (now : Instant) (hedgeCost : ℚ) (h : FilledEntry db pos)
    (hpriced : AllPriced N (m.quotes now) db pos.structureId) :
    |premiumRounding db pos| ≤ 1 / 20000 ∧
      ((monitoredMtm N db pos m now hedgeCost).pnlGrossUsd =
          ledgerPnl N (m.quotes now) db pos.structureId + premiumRounding db pos ↔
        futuresPnl (m.quotes now).spot db pos.structureId = 0) := by
  constructor
  · have hnear := pyRound_near (totalPremium ((entryLegs db pos.structureId).map (·.1))) 4
    rw [← h.premium, abs_sub_comm] at hnear
    rw [premiumRounding]
    refine hnear.trans (le_of_eq ?_)
    norm_num
  · rw [gross_eq h hpriced]
    constructor <;> intro heq <;> linarith

/-- What the fills of a leg have made is what the ledger shows of them before commissions. -/
theorem fillsPnl_ledger (leg : TradedLeg) (mark : ℚ) : ∃ unrealized,
    unrealizedPnl (leg.ledgerFills.foldl apply (.new leg.contract leg.order.multiplier)) (some mark) =
        some unrealized ∧
      fillsPnl leg.order mark leg.fills =
        (leg.ledgerFills.foldl apply (.new leg.contract leg.order.multiplier)).realizedPnl +
          commissionOf leg.ledgerFills + unrealized := by
  have hq : ∀ f ∈ leg.ledgerFills, 0 < f.qty := by
    intro f hf
    obtain ⟨g, hg, rfl⟩ := List.mem_map.mp hf
    exact Nat.cast_pos.mpr (leg.positive g hg)
  have hm : ∀ f ∈ leg.ledgerFills, f.multiplier = leg.order.multiplier := by
    intro f hf
    obtain ⟨g, hg, rfl⟩ := List.mem_map.mp hf
    rfl
  have hfolded : Folded leg.order.multiplier leg.ledgerFills
      (leg.ledgerFills.foldl apply (.new leg.contract leg.order.multiplier)) := folded_foldl hq hm
  obtain ⟨unrealized, hmark, hworth⟩ := hfolded.conserves.worth mark
  have hnet : netQtyOf leg.ledgerFills = sideSign leg.order.side * (leg.fills.map (·.qtyFilled)).sum := by
    have hside := leg.side
    rw [TradedLeg.ledgerFills, netQtyOf]
    generalize leg.fills = fills at hside ⊢
    induction fills with
    | nil => simp
    | cons f fills ih =>
      rw [List.map_cons, List.map_cons, List.sum_cons, ih fun g hg => hside g (List.mem_cons_of_mem _ hg),
        List.map_cons, List.sum_cons, LedgerFill.signedQty, hside f List.mem_cons_self]
      cases leg.order.side <;> simp only [sideSign] <;> push_cast <;> ring
  refine ⟨unrealized, hmark, ?_⟩
  rw [hfolded.netQty, hfolded.multiplier, cash_leg, hnet, TradedLeg.outlay] at hworth
  rw [fillsPnl_eq]
  linarith

section Booked
variable {db : Db} {s : ℕ} {row : TradeStructure}

theorem entryLegs_rows (db : Db) (s : ℕ) : (entryLegs db s).map (·.1) =
    ((db.ordersOf s).map (·.1)).filter fun o => o.orderRole = .entry := by
  rw [entryLegs, List.filter_map]
  rfl

/-- The position that a completion books is one with filled entry legs. -/
theorem filledEntry_completed (now : Instant) (hrow : db.structures[s]? = some row)
    (hstate : row.state ≠ .fullyFilled) (hsome : entryLegs db s ≠ [])
    (hfilled : ∀ p ∈ entryLegs db s, p.1.state = .filled ∧ 0 < db.recorded p.2)
    (hfolded : ∀ p ∈ entryLegs db s, Aggregated p.1 (db.fillsOf p.2))
    (hfuture : ∀ p ∈ entryLegs db s, p.1.contractType = .future → p.1.contractStrike = none)
    (hoption : ∀ p ∈ entryLegs db s, p.1.contractType ≠ .future →
      p.1.contractStrike.isSome ∧ p.1.contractExpiry.isSome)
    (hfree : ∀ p ∈ db.bookedPositions, p.structureId ≠ s) :
    ∃ pos ∈ (maybeCompleteStructure db s now).1.bookedPositions, pos.structureId = s ∧
      FilledEntry (maybeCompleteStructure db s now).1 ⟨pos, liveGreeks⟩ := by
  have hopening : ¬ (((db.ordersOf s).map (·.1)).all fun o => o.orderRole = .closing) = true := by
    obtain ⟨p, hp⟩ := List.exists_mem_of_ne_nil _ hsome
    obtain ⟨hmem, hrole⟩ := List.mem_filter.mp hp
    intro hall
    have hclosing := of_decide_eq_true (List.all_eq_true.mp hall p.1 (List.mem_map_of_mem hmem))
    rw [of_decide_eq_true hrole] at hclosing
    cases hclosing
  have hprimary : primaryOrders ((db.ordersOf s).map (·.1)) = (entryLegs db s).map (·.1) := by
    rw [primaryOrders, if_neg hopening, entryLegs_rows]
  have hcomplete : ¬ (row.state = .fullyFilled ∨ (entryLegs db s).map (·.1) = [] ∨
      ¬ (((entryLegs db s).map (·.1)).all fun o => o.state = .filled) = true) := by
    rintro (hfull | hnil | hall)
    · exact hstate hfull
    · exact hsome (List.map_eq_nil_iff.mp hnil)
    · apply hall
      rw [List.all_eq_true]
      intro o ho
      obtain ⟨p, hp, rfl⟩ := List.mem_map.mp ho
      exact decide_eq_true (hfilled p hp).1
  have htables : (maybeCompleteStructure db s now).1 =
      bookPosition (db.setStructure s (row.completed ((entryLegs db s).map (·.1)) now)) s
        (row.completed ((entryLegs db s).map (·.1)) now) now := by
    unfold maybeCompleteStructure
    rw [hrow]
    dsimp only
    rw [hprimary, if_neg hcomplete, if_neg hopening]
  obtain ⟨horders, hfills, -⟩ := maybeCompleteStructure_frame db s now
  have hlegs : entryLegs (maybeCompleteStructure db s now).1 s = entryLegs db s := by
    rw [entryLegs, entryLegs, Db.ordersOf, Db.ordersOf, horders]
  refine ⟨⟨s, now, pyRound (totalPremium ((entryLegs db s).map (·.1))) 4,
    pyRound (totalSlippage ((entryLegs db s).map (·.1)) +
      totalCommission ((entryLegs db s).map (·.1))) 2, .open⟩, ?_, rfl, ?_⟩
  · have hfree' : ∀ p ∈ (db.setStructure s
        (row.completed ((entryLegs db s).map (·.1)) now)).bookedPositions, p.structureId ≠ s := hfree
    rw [htables, bookPosition_new _ hfree']
    exact List.mem_append_right _ List.mem_cons_self
  · refine ⟨rfl, ?_, ?_, ?_, ?_, ?_, fun _ => rfl⟩
    all_goals rw [hlegs]
    · intro p hp
      rw [Db.recorded_congr hfills]
      exact hfilled p hp
    · intro p hp
      rw [Db.fillsOf_congr hfills]
      exact hfolded p hp
    · exact hfuture
    · exact hoption

end Booked

/-- A mock straddle, and a call that filled in parts against a future. -/
def surfaceNumerics : VolSurface.Numerics :=
  { BookExposure.nearTheMoney with invCdf := fun x => 5 / 2 * (x - 1 / 2) }

/-- Ninety days before the options expire -/
def march : Instant := 20529 * 86400000000

def quoted : Market := ⟨some TradePreviews.syntheticSurface, some (112 / 100), some 7⟩

def bookedStraddle : Db := mockSubmit Db.empty straddleLegs LegInstruments.june (1 / 2) 2 march

def straddlePosition : PositionRow :=
  ⟨⟨0, march, PreviewPricing.mockPremium straddleLegs, pyRound (0 + mockCommission 2 straddleLegs) 2,
    .open⟩, liveGreeks⟩

instance (db : Db) (pos : PositionRow) : Decidable (FilledEntry db pos) :=
  decidable_of_iff (pos.state = .open ∧
    (∀ p ∈ entryLegs db pos.structureId,
      (p.1.state = .filled ∧ 0 < db.recorded p.2) ∧
      p.1.withAggregates
        (updateOrderAggregates (db.fillsOf p.2) p.1.qty p.1.side p.1.previewPrice) = p.1 ∧
      (p.1.contractType = .future → p.1.contractStrike = none) ∧
      (p.1.contractType ≠ .future → p.1.contractStrike.isSome ∧ p.1.contractExpiry.isSome)) ∧
    pos.entryPremiumUsd = pyRound (totalPremium ((entryLegs db pos.structureId).map (·.1))) 4 ∧
    ((∀ p ∈ entryLegs db pos.structureId, p.1.contractType = .future) →
      pos.entryGreeks.read = (0, 0, 0))) <| by
    constructor
    · rintro ⟨hopen, hlegs, hpremium, hgreeks⟩
      exact ⟨hopen, fun p hp => (hlegs p hp).1, fun p hp => (hlegs p hp).2.1,
        fun p hp => (hlegs p hp).2.2.1, fun p hp => (hlegs p hp).2.2.2, hpremium, hgreeks⟩
    · intro h
      exact ⟨h.isOpen, fun p hp => ⟨h.filled p hp, h.folded p hp, h.future p hp, h.option p hp⟩,
        h.premium, h.greeks⟩

instance (N : VolSurface.Numerics) (q : Quotes) (db : Db) (s : ℕ) : Decidable (AllPriced N q db s) :=
  decidable_of_iff (∀ p ∈ entryLegs db s, ∀ leg ∈ p.1.legSpec, (legIv N q leg).isSome) Iff.rfl

theorem monitored_pnl_iff_straddle :
    (monitoredMtm surfaceNumerics bookedStraddle straddlePosition quoted march 0).pnlGrossUsd =
      ledgerPnl surfaceNumerics (quoted.quotes march) bookedStraddle 0 +
        premiumRounding bookedStraddle straddlePosition := by
  have hfilled : FilledEntry bookedStraddle straddlePosition := by decide +kernel
  have hpriced : AllPriced surfaceNumerics (quoted.quotes march) bookedStraddle 0 := by decide +kernel
  have hfutures : futuresPnl (quoted.quotes march).spot bookedStraddle 0 = 0 := by decide +kernel
  exact (monitored_pnl_iff surfaceNumerics bookedStraddle straddlePosition quoted march 0 hfilled
    hpriced).2.mpr hfutures

def coveredLegs : List LegSpec :=
  [⟨"EUR", .call, some ⟨2026, 6, 15⟩, some (1085 / 1000), .buy, 2, .lmt, none, some 7, none⟩,
    ⟨"EUR", .future, some ⟨2026, 6, 15⟩, none, .sell, 1, .lmt, none, none, none⟩]

def coveredCall : Db :=
  (maybeCompleteStructure
    ([.execution 0 (execution "a" "BOT" 1 none) march, .execution 0 (execution "b" "BOT" 1 none) march,
      .execution 1 { execution "c" "SLD" 1 none with price := 11 / 10 } march].foldl step
        (submitPreview Db.empty coveredLegs march)) 0 march).1

def coveredPosition : PositionRow :=
  ⟨⟨0, march, pyRound (totalPremium ((entryLegs coveredCall 0).map (·.1))) 4, 0, .open⟩, liveGreeks⟩

/-- The sold future lost two and a half thousand dollars, and the P&L that the cycle persists is that
much too high. -/
theorem future_left_out :
    FilledEntry coveredCall coveredPosition ∧
    AllPriced surfaceNumerics (quoted.quotes march) coveredCall 0 ∧
    futuresPnl (quoted.quotes march).spot coveredCall 0 = -2500 ∧
    ¬ ∀ (N : VolSurface.Numerics) (db : Db) (pos : PositionRow) (m : Market) (now : Instant)
      (hedgeCost : ℚ), FilledEntry db pos → AllPriced N (m.quotes now) db pos.structureId →
        |(monitoredMtm N db pos m now hedgeCost).pnlGrossUsd -
          ledgerPnl N (m.quotes now) db pos.structureId| ≤ 1 / 100 := by
  have hfilled : FilledEntry coveredCall coveredPosition := by decide +kernel
  have hpriced : AllPriced surfaceNumerics (quoted.quotes march) coveredCall 0 := by decide +kernel
  refine ⟨hfilled, hpriced, by decide +kernel, ?_⟩
  intro hall
  have hclose := hall surfaceNumerics coveredCall coveredPosition quoted march 0 hfilled hpriced
  revert hclose
  decide +kernel

end FxVol.MonitoredPnl
