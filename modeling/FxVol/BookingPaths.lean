import FxVol.BookState
import FxVol.LegInstruments
import FxVol.TableGrowth

/-!
# Do mock and live booking agree

A mock submit books the payload of a preview at once; a live submit books what its legs filled, when
they are all filled.  At the preview prices both come to the same premium, cost and totals, and only
the mock submit writes the entry greeks.
-/
namespace FxVol.BookingPaths

open Greeks TradePreviews GateUnits GateClosure BookExposure PreviewPricing LegInstruments BookState
open GuardedRuns

/-- `compute_limit_price`, none where it raises -/
def computeLimitPrice (previewPrice : ℚ) (side : Side) (slippageTolerancePct : ℚ) : Option ℚ :=
  if previewPrice ≤ 0 ∨ slippageTolerancePct < 0 then none
  else match side with
    | .buy => some (previewPrice * (1 + slippageTolerancePct / 100))
    | .sell => some (previewPrice * (1 - slippageTolerancePct / 100))

section Mock
variable (expiry : ℕ → Date) (slippageTolerancePct commissionPerContract : ℚ) (structureId : ℕ)
  (now : Instant)

/-- The order of a leg, filled at the preview price; its made-up IB ids are left out. -/
def mockOrder (i : ℕ) (leg : PricedLeg) : StructureOrder :=
  let previewPrice := leg.entryPricePerContractUsd / eurFopMultiplier
  { StructureOrder.new structureId i .entry leg.side leg.qty.toNat now with
    contractType := leg.contractType
    contractExpiry := some (expiry leg.dte)
    contractStrike := leg.strike
    limitPrice := some ((computeLimitPrice previewPrice leg.side slippageTolerancePct).getD previewPrice)
    previewIvPct := leg.entryIvPct
    previewPrice := some previewPrice
    state := .filled
    submittedAt := some now
    acknowledgedAt := some now
    fullyFilledAt := some now
    qtyFilled := leg.qty.toNat
    avgFillPrice := some previewPrice
    slippagePerContract := some 0
    totalSlippageUsd := some 0
    totalCommissionUsd := leg.qty * commissionPerContract }

def mockFill (orderId i : ℕ) (leg : PricedLeg) : StructureFill where
  orderId := orderId
  ibExecutionId := .ib ("mock_exec_" ++ toString structureId ++ "_" ++ toString i)
  timestamp := now
  qtyFilled := leg.qty.toNat
  fillPrice := leg.entryPricePerContractUsd / eurFopMultiplier
  commissionUsd := leg.qty * commissionPerContract
  currency := none
  exchange := some "MOCK"
  side := leg.side

def mockCommission (legs : List PricedLeg) : ℚ := (legs.map fun leg => leg.qty * commissionPerContract).sum

def mockStructure (legs : List PricedLeg) : TradeStructure :=
  { TradeStructure.new now with
    state := .fullyFilled
    firstFillAt := some now
    fullyFilledAt := some now
    totalPremiumPaidUsd := some (mockPremium legs)
    totalSlippageUsd := some (pyRound 0 4)
    totalCommissionUsd := some (pyRound (mockCommission commissionPerContract legs) 2)
    totalEntryCostUsd := some (pyRound (0 + mockCommission commissionPerContract legs) 2) }

end Mock

/-- The mock branch of `_submit_preview_impl` -/
def mockSubmit (db : Db) (legs : List PricedLeg) (expiry : ℕ → Date)
    (slippageTolerancePct commissionPerContract : ℚ) (now : Instant) : Db :=
  let s := db.structures.length
  let row := mockStructure commissionPerContract now legs
  { db with
    structures := db.structures ++ [row]
    orders := db.orders ++
      legs.mapIdx fun i leg => mockOrder expiry slippageTolerancePct commissionPerContract s now i leg
    fills := db.fills ++ legs.mapIdx fun i leg =>
      mockFill commissionPerContract s now (db.orders.length + i) i leg
    bookedPositions := db.bookedPositions ++
      [{ structureId := s
         openedAt := now
         entryPremiumUsd := row.totalPremiumPaidUsd.getD 0
         entryTotalCostUsd := row.totalEntryCostUsd.getD 0
         state := .open }] }

def mockGreeks (payload : PreviewPayload) : EntryGreeks :=
  ⟨some payload.greeksNet.vegaUsdPerVolpt, some payload.greeksNet.gammaUsdPerPip2,
    some payload.greeksNet.thetaUsdPerDay⟩

/-- `maybe_complete_structure` writes none of them. -/
def liveGreeks : EntryGreeks := ⟨none, none, none⟩

structure Booking where
  totals : TradeStructure
  position : PositionRow

def bookingOf (db : Db) (greeks : EntryGreeks) (structureId : ℕ) : Option Booking :=
  match db.structures[structureId]?, db.bookedPositions.find? (·.structureId = structureId) with
  | some row, some position => some ⟨row, ⟨position, greeks⟩⟩
  | _, _ => none

/-- All columns but the greeks. -/
structure AmountsAgree (mock live : Booking) : Prop where
  structureId : mock.position.structureId = live.position.structureId
  state : mock.position.state = live.position.state
  entryPremium : mock.position.entryPremiumUsd = live.position.entryPremiumUsd
  entryCost : mock.position.entryTotalCostUsd = live.position.entryTotalCostUsd
  structureState : mock.totals.state = live.totals.state
  totalPremium : mock.totals.totalPremiumPaidUsd = live.totals.totalPremiumPaidUsd
  totalSlippage : mock.totals.totalSlippageUsd = live.totals.totalSlippageUsd
  totalCommission : mock.totals.totalCommissionUsd = live.totals.totalCommissionUsd
  totalEntryCost : mock.totals.totalEntryCostUsd = live.totals.totalEntryCostUsd

/-- The same rows, and the same book state beside the positions booked `earlier`. -/
structure BookingsAgree (mock live : Booking) (earlier : List PositionRow) : Prop extends
    AmountsAgree mock live where
  entryGreeks : mock.position.entryGreeks = live.position.entryGreeks
  bookState : bookTotals (earlier ++ [mock.position]) = bookTotals (earlier ++ [live.position])

/-- The same where every reader takes a null for zero. -/
structure BookingsReadAlike (mock live : Booking) (earlier : List PositionRow) : Prop extends
    AmountsAgree mock live where
  entryGreeks : mock.position.entryGreeks.read = live.position.entryGreeks.read
  bookState : bookTotals (earlier ++ [mock.position]) = bookTotals (earlier ++ [live.position])

/-- The keys that the schema declares. -/
structure KeysHold (db : Db) : Prop where
  orders : ∀ o ∈ db.orders, o.structureId < db.structures.length
  fills : ∀ f ∈ db.fills, f.orderId < db.orders.length
  positions : ∀ p ∈ db.bookedPositions, p.structureId < db.structures.length

/-- What happens to the legs of a live submit on the way to their fills. -/
def FillsLegs (_ : Db) : Event → Prop
  | .stampLive .. | .stampPlacement .. | .orderStatus .. | .execution .. | .commissionReport .. => True
  | _ => False

/-- The legs of a structure are filled, by any executions, at their preview prices and at one
commission for a contract. -/
def FilledAtPreview (commissionPerContract : ℚ) (db : Db) (structureId : ℕ) : Prop :=
  ∀ i o, db.orders[i]? = some o → o.structureId = structureId →
    o.state = .filled ∧ db.recorded i = o.qty ∧
      ∀ f ∈ db.fillsOf i, o.previewPrice = some f.fillPrice ∧
        f.commissionUsd = f.qtyFilled * commissionPerContract

/-- The row of an order has the aggregates of its fills. -/
def Aggregated (o : StructureOrder) (fills : List StructureFill) : Prop :=
  o.withAggregates (updateOrderAggregates fills o.qty o.side o.previewPrice) = o

/-- The columns that the fills of an order fold into, and the one they are priced against. -/
def folded (o : StructureOrder) : Option ℚ × ℕ × Option ℚ × ℚ × Option ℚ × Option ℚ :=
  (o.previewPrice, o.qtyFilled, o.avgFillPrice, o.totalCommissionUsd, o.slippagePerContract,
    o.totalSlippageUsd)

section Leg
variable {o : StructureOrder} {fills : List StructureFill} {price rate : ℚ}

/-- What each fill has a rate for, in all of them -/
theorem sum_at {value : StructureFill → ℚ} (h : ∀ f ∈ fills, value f = f.qtyFilled * rate) :
    (fills.map value).sum = ((fills.map (·.qtyFilled)).sum : ℕ) * rate := by
  rw [List.map_congr_left h, List.sum_map_mul_right, Nat.cast_list_sum, List.map_map]
  rfl

theorem notional_at (h : ∀ f ∈ fills, f.fillPrice = price) :
    notional fills = ((fills.map (·.qtyFilled)).sum : ℕ) * price := by
  exact sum_at fun f hf => by rw [h f hf]

theorem commission_at (h : ∀ f ∈ fills, f.commissionUsd = f.qtyFilled * rate) :
    (fills.map (·.commissionUsd)).sum = ((fills.map (·.qtyFilled)).sum : ℕ) * rate := sum_at h

/-- What a leg filled at its preview price comes to. -/
theorem leg_at_preview (hagg : Aggregated o fills) (hpreview : o.previewPrice = some price)
    (hprice : ∀ f ∈ fills, f.fillPrice = price)
    (hrate : ∀ f ∈ fills, f.commissionUsd = f.qtyFilled * rate) :
    o.premium = (if o.contractType = .future then 0
      else sideSign o.side * price * o.qtyFilled * eurFopMultiplier) ∧
    o.totalCommissionUsd = o.qtyFilled * rate ∧ o.totalSlippageUsd.getD 0 = 0 := by
  have hqty : (fills.map (·.qtyFilled)).sum = o.qtyFilled := by
    have h := congrArg StructureOrder.qtyFilled hagg
    rwa [StructureOrder.withAggregates, updateOrderAggregates_qtyFilled] at h
  have hcommission := congrArg StructureOrder.totalCommissionUsd hagg
  have hslip := congrArg StructureOrder.totalSlippageUsd hagg
  simp only [StructureOrder.withAggregates, updateOrderAggregates, hpreview, Option.bind_some]
    at hcommission hslip
  have hpremium : o.premium = if o.contractType = .future then 0
      else sideSign o.side * price * o.qtyFilled * eurFopMultiplier := by
    rw [premium_folded hagg, notional_at hprice, hqty]
    split_ifs
    · rfl
    · ring
  refine ⟨hpremium, ?_⟩
  by_cases hzero : (fills.map (·.qtyFilled)).sum = 0
  · -- nothing filled, and nothing paid
    rw [if_pos hzero] at hcommission hslip
    rw [hzero] at hqty
    constructor
    · rw [← hcommission, ← hqty]
      simp
    · rw [← hslip]
      rfl
  · rw [if_neg hzero] at hcommission hslip
    have hne : (((fills.map (·.qtyFilled)).sum : ℕ) : ℚ) ≠ 0 := Nat.cast_ne_zero.mpr hzero
    rw [notional_at hprice, mul_div_cancel_left₀ _ hne] at hslip
    constructor
    · rw [← hcommission, commission_at hrate, hqty]
    · rw [← hslip]
      split_ifs <;> cases o.side <;> simp [computeSlippagePerContract]

end Leg

section Run
variable {db db' : Db} {i : ℕ} {o o' : StructureOrder} {e : Event} {fills : List StructureFill}

theorem onStatus_folded (o : StructureOrder) (status : IbStatus) (reason : Option String)
    (now : Instant) : folded (o.onStatus status reason now) = folded o := by
  unfold StructureOrder.onStatus
  dsimp only
  split
  case h_7 => split_ifs <;> rfl
  all_goals rfl

theorem booked_folded (o : StructureOrder) (fill : IbFill) (agg : OrderAggregate) (now : Instant) :
    folded (o.booked fill agg now) = folded ((o.stampLocalSymbol fill).withAggregates agg) := by
  unfold StructureOrder.booked StructureOrder.afterFill
  split_ifs <;> rfl

theorem Aggregated.of_folded (h : Aggregated o fills) (hleg : o'.leg = o.leg)
    (hfolded : folded o' = folded o) : Aggregated o' fills := by
  simp only [folded, Prod.mk.injEq] at hfolded
  obtain ⟨hpreview, hqty, havg, hcommission, hslip, htotal⟩ := hfolded
  have hagg : updateOrderAggregates fills o'.qty o'.side o'.previewPrice =
      updateOrderAggregates fills o.qty o.side o.previewPrice := by
    rw [leg_qty hleg, leg_side hleg, hpreview]
  have hqty' := congrArg StructureOrder.qtyFilled h
  have havg' := congrArg StructureOrder.avgFillPrice h
  have hcommission' := congrArg StructureOrder.totalCommissionUsd h
  have hslip' := congrArg StructureOrder.slippagePerContract h
  have htotal' := congrArg StructureOrder.totalSlippageUsd h
  simp only [StructureOrder.withAggregates] at hqty' havg' hcommission' hslip' htotal'
  rw [Aggregated, hagg, StructureOrder.withAggregates, hqty', havg', hcommission', hslip', htotal',
    ← hqty, ← havg, ← hcommission, ← hslip, ← htotal]

/-- An event of a leg keeps its preview price, and its aggregates those of its fills. -/
theorem row_aggregated (he : FillsLegs db e) (h : RowChange db i o e o' fills) :
    o'.previewPrice = o.previewPrice ∧ (Aggregated o (db.fillsOf i) → Aggregated o' fills) := by
  have hleg := h.leg
  have hkept (hfolded : folded o' = folded o) : o'.previewPrice = o.previewPrice ∧
      (Aggregated o (db.fillsOf i) → Aggregated o' (db.fillsOf i)) :=
    ⟨congrArg Prod.fst hfolded, fun hagg => hagg.of_folded hleg hfolded⟩
  cases h with
  | same | stampedLive | stamped => exact hkept rfl
  | onStatus status reason now => exact hkept (onStatus_folded o status reason now)
  | @booked fill now hnew =>
    have hfolded := booked_folded o fill (aggregatesWith db i o fill) now
    have hrefold : Aggregated ((o.stampLocalSymbol fill).withAggregates (aggregatesWith db i o fill))
        (db.fillsOf i ++ [fillRow i fill]) := rfl
    exact ⟨congrArg Prod.fst hfolded, fun _ => hrefold.of_folded booked_leg hfolded⟩
  | reported x c cur cur' =>
    refine ⟨rfl, fun _ => ?_⟩
    rw [Aggregated, recomputeAggregates, reportFill_fillsOf]
    rfl
  | comboCancelled | comboBooked | repaired | mirrored | adopted | expired | rewired | answered
  | cancelled => exact he.elim

/-- What the filling of legs keeps: which rows there are, what they trade, and their aggregates. -/
structure Filling (db₀ db : Db) : Prop where
  structures : db.structures = db₀.structures
  booked : db.bookedPositions = db₀.bookedPositions
  length : db.orders.length = db₀.orders.length
  rows : ∀ i o, db₀.orders[i]? = some o → ∃ o', db.orders[i]? = some o' ∧ o'.leg = o.leg ∧
    o'.previewPrice = o.previewPrice ∧ (Aggregated o (db₀.fillsOf i) → Aggregated o' (db.fillsOf i))

theorem fillsLegs_tables (he : FillsLegs db e) : (step db e).structures = db.structures ∧
    (step db e).bookedPositions = db.bookedPositions := by
  cases e with
  | stampLive | stampPlacement | orderStatus => exact ⟨rfl, rfl⟩
  | execution j fill now =>
    rcases deliverFill_cases db j fill now with h | ⟨o₁, -, -, h⟩
    · rw [step, h]
      exact ⟨rfl, rfl⟩
    · have hrow : (db.addFill (fillRow j fill)).bookedPositions = db.bookedPositions := rfl
      rw [step, h, bookFill]
      simp [hrow]
  | commissionReport j x c cur =>
    rcases onCommissionReport_cases db j x cur c with h | ⟨cur', h⟩
    · rw [step, h]
      exact ⟨rfl, rfl⟩
    · rw [step, h]
      exact ⟨rfl, rfl⟩
  | submitPreview | createUnwind | comboStatus | completeStructure | reconcile | reap | reconnect
  | syncPositions | closeRequest | closeAnswer | cancelTrade | positionClose => exact he.elim

theorem Filling.refl (db : Db) : Filling db db :=
  ⟨rfl, rfl, rfl, fun _ o ho => ⟨o, ho, rfl, rfl, id⟩⟩

theorem Filling.trans {db'' : Db} (h : Filling db db') (h' : Filling db' db'') : Filling db db'' := by
  refine ⟨h'.structures.trans h.structures, h'.booked.trans h.booked, h'.length.trans h.length, ?_⟩
  intro i o ho
  obtain ⟨o', ho', hleg, hpreview, hagg⟩ := h.rows i o ho
  obtain ⟨o'', ho'', hleg', hpreview', hagg'⟩ := h'.rows i o' ho'
  exact ⟨o'', ho'', hleg'.trans hleg, hpreview'.trans hpreview, hagg' ∘ hagg⟩

theorem filling_step (he : FillsLegs db e) : Filling db (step db e) := by
  obtain ⟨hstructures, hbooked⟩ := fillsLegs_tables he
  have hinserts : e.inserts = false := by
    cases e <;> first | rfl | exact he.elim
  refine ⟨hstructures, hbooked, step_length hinserts, ?_⟩
  intro i o ho
  obtain ⟨o', ho', hchange⟩ := step_row e ho
  obtain ⟨hpreview, hagg⟩ := row_aggregated he hchange
  exact ⟨o', ho', hchange.leg, hpreview, hagg⟩

theorem filling_run (hrun : Run step FillsLegs db db') : Filling db db' :=
  hrun.rel (I := fun _ => True) Filling.refl (fun _ _ _ h h' => h.trans h') (fun _ _ _ _ => trivial)
    (fun _ _ _ he => filling_step he) trivial

end Run

section Completion
variable {N : Numerics} {structure' : Structure} {req : PreviewRequest} {inputs : PreviewInputs}
  {expiry : ℕ → Date} {db db' : Db} {rate : ℚ} {submitted now : Instant}

/-- An entry order that filled its leg at the preview price. -/
structure FilledRow (rate : ℚ) (leg : PricedLeg) (o : StructureOrder) : Prop where
  role : o.orderRole = .entry
  state : o.state = .filled
  premium : o.premium = sideSign leg.side * leg.entryPricePerContractUsd * leg.qty
  commission : o.totalCommissionUsd = leg.qty * rate
  slippage : o.totalSlippageUsd.getD 0 = 0

/-- A priced leg has a quantity, and a future has no premium. -/
theorem pricedLegs_sound (h : Numbered 0 structure'.legs) {leg : PricedLeg}
    (hleg : leg ∈ pricedLegs N structure' req inputs) :
    0 ≤ leg.qty ∧ (leg.contractType = .future → leg.entryPricePerContractUsd = 0) := by
  rw [pricedLegs_price h] at hleg
  obtain ⟨l, hl, rfl⟩ := List.mem_map.mp hleg
  obtain ⟨j, hj⟩ := List.mem_iff_getElem?.mp hl
  refine ⟨mul_nonneg finalQty_nonneg (h j l hj).2.le, ?_⟩
  intro hfuture
  exact if_pos hfuture

/-- The order of a leg that filled as it was previewed. -/
theorem filledRow {leg : PricedLeg} {o o' : StructureOrder} {s i : ℕ} {fcs : Option FutureSize}
    {spot : ℚ} {fills : List StructureFill}
    (hsound : 0 ≤ leg.qty ∧ (leg.contractType = .future → leg.entryPricePerContractUsd = 0))
    (ho : o = (liveLeg fcs spot expiry leg).order s i .entry submitted)
    (hleg : o'.leg = o.leg) (hpreview : o'.previewPrice = o.previewPrice) (hagg : Aggregated o' fills)
    (hstate : o'.state = .filled) (hqty : (fills.map (·.qtyFilled)).sum = o'.qty)
    (hfills : ∀ f ∈ fills, o'.previewPrice = some f.fillPrice ∧ f.commissionUsd = f.qtyFilled * rate) :
    FilledRow rate leg o' := by
  subst ho
  have hcontract : o'.contractType = leg.contractType :=
    congrArg (fun c => c.2.1) (leg_contract hleg)
  have hside : o'.side = leg.side := leg_side hleg
  have hfilled : (o'.qtyFilled : ℚ) = leg.qty := by
    have hcount : o'.qtyFilled = leg.qty.toNat := by
      have h := congrArg StructureOrder.qtyFilled hagg
      rw [StructureOrder.withAggregates, updateOrderAggregates_qtyFilled, hqty, leg_qty hleg] at h
      exact h.symm
    have hcast : ((leg.qty.toNat : ℤ) : ℚ) = leg.qty := by rw [Int.toNat_of_nonneg hsound.1]
    rw [hcount, ← hcast]
    rfl
  obtain ⟨price, hprice⟩ : ∃ price, o'.previewPrice = some price := ⟨_, hpreview⟩
  have hat (f) (hf : f ∈ fills) : f.fillPrice = price :=
    Option.some.inj ((hfills f hf).1.symm.trans hprice)
  obtain ⟨hpremium, hcommission, hslippage⟩ :=
    leg_at_preview hagg hprice hat fun f hf => (hfills f hf).2
  refine ⟨leg_orderRole hleg, hstate, ?_, hfilled ▸ hcommission, hslippage⟩
  rw [hpremium, hcontract, hside, hfilled]
  by_cases hfuture : leg.contractType = .future
  · rw [if_pos hfuture, hsound.2 hfuture]
    ring
  · have hpoints : price = leg.entryPricePerContractUsd / eurFopMultiplier := by
      have h := hprice.symm.trans hpreview
      simpa [LegSpec.order, liveLeg, hfuture] using h
    have hmult : eurFopMultiplier ≠ 0 := by norm_num [eurFopMultiplier]
    rw [if_neg hfuture, hpoints]
    field_simp

/-- The orders of the structure are its legs, all filled as previewed. -/
theorem filledRows (hnumbered : Numbered 0 structure'.legs) (hkeys : KeysHold db)
    (hrun : Run step FillsLegs (submitPreview db (liveLegs N structure' req inputs expiry) submitted) db')
    (hfilled : FilledAtPreview rate db' db.structures.length) :
    List.Forall₂ (FilledRow rate) (pricedLegs N structure' req inputs)
      (db'.orders.filter fun o => o.structureId = db.structures.length) := by
  have hfilling := filling_run hrun
  have horders := submitPreview_orders N structure' req inputs expiry db submitted
  have hlength : (liveRows N structure' req inputs expiry db.structures.length submitted).length =
      (pricedLegs N structure' req inputs).length := by
    rw [liveRows, List.length_mapIdx, liveLegs, List.length_map]
  have htotal : db'.orders.length =
      db.orders.length + (pricedLegs N structure' req inputs).length := by
    rw [hfilling.length, horders, List.length_append, hlength]
  -- the rows before are of other structures, the rows after are the legs
  have hold : (db'.orders.take db.orders.length).filter
      (fun o => o.structureId = db.structures.length) = [] := by
    rw [List.filter_eq_nil_iff]
    intro o' ho'
    obtain ⟨i, hi⟩ := List.mem_iff_getElem?.mp ho'
    rw [List.getElem?_take] at hi
    split_ifs at hi with hlt
    have ho := List.getElem?_eq_getElem hlt
    have hrow : (submitPreview db (liveLegs N structure' req inputs expiry) submitted).orders[i]? =
        some db.orders[i] := by
      rw [horders, List.getElem?_append_left hlt, ho]
    obtain ⟨o'', ho'', hleg, -, -⟩ := hfilling.rows i _ hrow
    obtain rfl := Option.some.inj (ho''.symm.trans hi)
    have hid : o''.structureId = db.orders[i].structureId := congrArg Prod.fst hleg
    have hknown := hkeys.orders _ (List.mem_of_getElem? ho)
    rw [decide_eq_true_eq, hid]
    omega
  have hnew (j : ℕ) (hj : j < (pricedLegs N structure' req inputs).length) : ∃ o',
      db'.orders[db.orders.length + j]? = some o' ∧ o'.structureId = db.structures.length ∧
      FilledRow rate ((pricedLegs N structure' req inputs).get ⟨j, hj⟩) o' := by
    have hrow : (submitPreview db (liveLegs N structure' req inputs expiry)
        submitted).orders[db.orders.length + j]? = some
          ((liveLeg structure'.futureContractSize (spotFromSurface inputs.priced.1) expiry
            ((pricedLegs N structure' req inputs).get ⟨j, hj⟩)).order db.structures.length j .entry
              submitted) := by
      rw [horders, List.getElem?_append_right (by omega), Nat.add_sub_cancel_left, liveRows, liveLegs,
        List.getElem?_mapIdx, List.getElem?_map, List.getElem?_eq_getElem hj]
      rfl
    obtain ⟨o', ho', hleg, hpreview, hagg⟩ := hfilling.rows _ _ hrow
    have hid : o'.structureId = db.structures.length := congrArg Prod.fst hleg
    have hunfilled : (submitPreview db (liveLegs N structure' req inputs expiry)
        submitted).fillsOf (db.orders.length + j) = [] := by
      rw [Db.fillsOf, List.filter_eq_nil_iff]
      intro f hf
      have hlt := hkeys.fills f hf
      rw [decide_eq_true_eq]
      omega
    obtain ⟨hstate, hqty, hfills⟩ := hfilled _ _ ho' hid
    refine ⟨o', ho', hid, filledRow (pricedLegs_sound hnumbered (List.getElem_mem hj)) rfl hleg hpreview
      (hagg ?_) hstate hqty hfills⟩
    rw [hunfilled]
    rfl
  have hrows : db'.orders.filter (fun o => o.structureId = db.structures.length) =
      db'.orders.drop db.orders.length := by
    conv_lhs => rw [← List.take_append_drop db.orders.length db'.orders]
    rw [List.filter_append, hold, List.nil_append, List.filter_eq_self]
    intro o' ho'
    obtain ⟨j, hj⟩ := List.mem_iff_getElem?.mp ho'
    rw [List.getElem?_drop] at hj
    have hlt := (List.getElem?_eq_some_iff.mp hj).1
    obtain ⟨o'', ho'', hid, -⟩ := hnew j (by omega)
    obtain rfl := Option.some.inj (ho''.symm.trans hj)
    rw [hid, decide_eq_true_eq]
  rw [hrows, List.forall₂_iff_get]
  refine ⟨by rw [List.length_drop, htotal, Nat.add_sub_cancel_left], ?_⟩
  intro j hj hj'
  obtain ⟨o', ho', -, hrow⟩ := hnew j hj
  have hget : (db'.orders.drop db.orders.length)[j]? = some o' := by rw [List.getElem?_drop, ho']
  rw [List.getElem?_eq_getElem hj', Option.some.injEq] at hget
  rw [List.get_eq_getElem, List.get_eq_getElem, hget]
  exact hrow

theorem exists_leg {legs : List PricedLeg} {orders : List StructureOrder}
    (h : List.Forall₂ (FilledRow rate) legs orders) {o : StructureOrder} (ho : o ∈ orders) :
    ∃ leg ∈ legs, FilledRow rate leg o := by
  induction h with
  | nil => cases ho
  | cons hrow _ ih =>
    rcases List.mem_cons.mp ho with rfl | ho
    · exact ⟨_, List.mem_cons_self, hrow⟩
    · obtain ⟨leg, hleg, hrow'⟩ := ih ho
      exact ⟨leg, List.mem_cons_of_mem _ hleg, hrow'⟩

/-- Filled rows come to the sums of their legs. -/
theorem filledRows_totals {legs : List PricedLeg} {orders : List StructureOrder}
    (h : List.Forall₂ (FilledRow rate) legs orders) :
    totalPremium orders =
        (legs.map fun leg => sideSign leg.side * leg.entryPricePerContractUsd * leg.qty).sum ∧
      totalCommission orders = mockCommission rate legs ∧ totalSlippage orders = 0 := by
  induction h with
  | nil => exact ⟨rfl, rfl, rfl⟩
  | cons hrow _ ih =>
    obtain ⟨hpremium, hcommission, hslippage⟩ := ih
    rw [totalPremium] at hpremium
    rw [totalCommission, mockCommission] at hcommission
    rw [totalSlippage] at hslippage
    refine ⟨?_, ?_, ?_⟩
    · rw [totalPremium, List.map_cons, List.map_cons, List.sum_cons, List.sum_cons, hrow.premium, hpremium]
    · rw [totalCommission, mockCommission, List.map_cons, List.map_cons, List.sum_cons, List.sum_cons,
        hrow.commission, hcommission]
    · rw [totalSlippage, List.map_cons, List.sum_cons, hrow.slippage, hslippage]
      ring

variable (db) in
theorem bookPosition_new {s : ℕ} {row : TradeStructure}
    (h : ∀ p ∈ db.bookedPositions, p.structureId ≠ s) :
    (bookPosition db s row now).bookedPositions = db.bookedPositions ++
      [⟨s, now, row.totalPremiumPaidUsd.getD 0, row.totalEntryCostUsd.getD 0, .open⟩] := by
  have hany : ¬ (db.bookedPositions.any fun p => p.structureId = s) = true := by
    rw [List.any_eq_true]
    rintro ⟨p, hp, hid⟩
    exact h p hp (of_decide_eq_true hid)
  rw [bookPosition, if_neg hany]

/-- The booking of a structure whose position is new. -/
theorem bookingOf_new {s : ℕ} {row : TradeStructure} {pos : BookedPosition} {greeks : EntryGreeks}
    (earlier : List BookedPosition) (hrow : db.structures[s]? = some row)
    (hbooked : db.bookedPositions = earlier ++ [pos]) (hpos : pos.structureId = s)
    (hnew : ∀ p ∈ earlier, p.structureId ≠ s) :
    bookingOf db greeks s = some ⟨row, ⟨pos, greeks⟩⟩ := by
  have hearlier : earlier.find? (fun p => p.structureId = s) = none := by
    rw [List.find?_eq_none]
    intro p hp hid
    exact hnew p hp (of_decide_eq_true hid)
  rw [bookingOf, hrow, hbooked, List.find?_append, hearlier]
  simp [hpos]

variable (expiry rate now) in
theorem bookingOf_mock (hkeys : KeysHold db) (legs : List PricedLeg) (tolerance : ℚ)
    (greeks : EntryGreeks) :
    bookingOf (mockSubmit db legs expiry tolerance rate now) greeks db.structures.length = some
      ⟨mockStructure rate now legs, ⟨⟨db.structures.length, now, mockPremium legs,
        pyRound (0 + mockCommission rate legs) 2, .open⟩, greeks⟩⟩ := by
  refine bookingOf_new db.bookedPositions ?_ rfl rfl ?_
  · simp [mockSubmit]
  · intro p hp
    exact (hkeys.positions p hp).ne

theorem primaryOrders_entry {orders : List StructureOrder} (hne : orders ≠ [])
    (h : ∀ o ∈ orders, o.orderRole = .entry) :
    ¬ (orders.all fun o => o.orderRole = .closing) = true ∧ primaryOrders orders = orders := by
  have hnot : ¬ (orders.all fun o => o.orderRole = .closing) = true := by
    rw [List.all_eq_true]
    intro hall
    obtain ⟨o, ho⟩ := List.exists_mem_of_ne_nil orders hne
    have hclosing := of_decide_eq_true (hall o ho)
    rw [h o ho] at hclosing
    cases hclosing
  refine ⟨hnot, ?_⟩
  rw [primaryOrders, if_neg hnot, List.filter_eq_self]
  intro o ho
  exact decide_eq_true (h o ho)

variable (now) in
/-- A live structure that filled as previewed is booked. -/
theorem bookingOf_live (hnumbered : Numbered 0 structure'.legs) (hne : structure'.legs ≠ [])
    (hkeys : KeysHold db)
    (hrun : Run step FillsLegs (submitPreview db (liveLegs N structure' req inputs expiry) submitted) db')
    (hfilled : FilledAtPreview rate db' db.structures.length) :
    ∃ row : TradeStructure,
      bookingOf (maybeCompleteStructure db' db.structures.length now).1 liveGreeks db.structures.length =
        some ⟨row, ⟨⟨db.structures.length, now, mockPremium (pricedLegs N structure' req inputs),
          pyRound (0 + mockCommission rate (pricedLegs N structure' req inputs)) 2, .open⟩, liveGreeks⟩⟩ ∧
      row.state = .fullyFilled ∧
      row.totalPremiumPaidUsd = some (mockPremium (pricedLegs N structure' req inputs)) ∧
      row.totalSlippageUsd = some (pyRound 0 4) ∧
      row.totalCommissionUsd =
        some (pyRound (mockCommission rate (pricedLegs N structure' req inputs)) 2) ∧
      row.totalEntryCostUsd =
        some (pyRound (0 + mockCommission rate (pricedLegs N structure' req inputs)) 2) := by
  have hfilling := filling_run hrun
  have hrows := filledRows hnumbered hkeys hrun hfilled
  obtain ⟨hpremium, hcommission, hslippage⟩ := filledRows_totals hrows
  have hrow : db'.structures[db.structures.length]? = some (TradeStructure.new submitted) := by
    rw [hfilling.structures]
    simp [submitPreview, Db.addStructure]
  have hfree : ∀ p ∈ db'.bookedPositions, p.structureId ≠ db.structures.length := by
    intro p hp
    rw [hfilling.booked] at hp
    exact (hkeys.positions p hp).ne
  have hmem {o : StructureOrder} (ho : o ∈ db'.orders.filter fun o => o.structureId = db.structures.length) :
      o.orderRole = .entry ∧ o.state = .filled := by
    obtain ⟨leg, -, hleg⟩ := exists_leg hrows ho
    exact ⟨hleg.role, hleg.state⟩
  have hnonempty : (db'.orders.filter fun o => o.structureId = db.structures.length) ≠ [] := by
    intro hnil
    have hlength := hrows.length_eq
    rw [hnil, pricedLegs, List.length_map, List.length_nil, List.length_eq_zero_iff] at hlength
    exact hne hlength
  obtain ⟨hopen, hprimary⟩ := primaryOrders_entry hnonempty fun o ho => (hmem ho).1
  have hcomplete : ¬ ((TradeStructure.new submitted).state = .fullyFilled ∨
      (db'.orders.filter fun o => o.structureId = db.structures.length) = [] ∨
      ¬ ((db'.orders.filter fun o => o.structureId = db.structures.length).all
        fun o => o.state = .filled) = true) := by
    rintro (hstate | hnil | hall)
    · cases hstate
    · exact hnonempty hnil
    · exact hall (List.all_eq_true.mpr fun o ho => decide_eq_true (hmem ho).2)
  refine ⟨(TradeStructure.new submitted).completed
    (db'.orders.filter fun o => o.structureId = db.structures.length) now, ?_, rfl, ?_, ?_, ?_, ?_⟩
  · have htables : (maybeCompleteStructure db' db.structures.length now).1 =
        bookPosition (db'.setStructure db.structures.length
          ((TradeStructure.new submitted).completed
            (db'.orders.filter fun o => o.structureId = db.structures.length) now))
          db.structures.length
          ((TradeStructure.new submitted).completed
            (db'.orders.filter fun o => o.structureId = db.structures.length) now) now := by
      unfold maybeCompleteStructure
      rw [hrow]
      dsimp only
      rw [Db.ordersOf_rows, hprimary, if_neg hcomplete, if_neg hopen]
    have hlt := (List.getElem?_eq_some_iff.mp hrow).1
    rw [htables]
    refine bookingOf_new db'.bookedPositions ?_ ?_ rfl hfree
    · rw [bookPosition_structures]
      exact List.getElem?_set_self hlt
    · refine (bookPosition_new (db'.setStructure _ _) hfree).trans ?_
      rw [TradeStructure.completed, hpremium, hcommission, hslippage]
      rfl
  · rw [TradeStructure.completed, hpremium]
    rfl
  · rw [TradeStructure.completed, hslippage]
  · rw [TradeStructure.completed, hcommission]
  · rw [TradeStructure.completed, hslippage, hcommission]

end Completion

/-- At the preview prices and one commission for a contract a mock and a live submit of a preview book
the same amounts, however the legs filled; the live position has no entry greeks, so the rows are
never the same, and they read alike just where the preview has no vega, gamma and theta. -/
theorem bookings_agree_iff (N : Numerics) (req : PreviewRequest) (inputs : PreviewInputs)
    (structure' : Structure) (expiry : ℕ → Date) (tolerance rate : ℚ) (db db' : Db)
    (submitted now : Instant) (earlier : List PositionRow)
    (h : buildRequested req.body inputs.priced.1 = .ok structure') (hkeys : KeysHold db)
    (hrun : Run step FillsLegs (submitPreview db (liveLegs N structure' req inputs expiry) submitted) db')
    (hfilled : FilledAtPreview rate db' db.structures.length) :
    ∃ mock live,
      bookingOf (mockSubmit db (pricedLegs N structure' req inputs) expiry tolerance rate now)
        (mockGreeks (previewPayload N structure' req inputs)) db.structures.length = some mock ∧
      bookingOf (maybeCompleteStructure db' db.structures.length now).1 liveGreeks db.structures.length =
        some live ∧
      AmountsAgree mock live ∧ ¬ BookingsAgree mock live earlier ∧
      (BookingsReadAlike mock live earlier ↔
        (previewPayload N structure' req inputs).greeksNet.vegaUsdPerVolpt = 0 ∧
        (previewPayload N structure' req inputs).greeksNet.gammaUsdPerPip2 = 0 ∧
        (previewPayload N structure' req inputs).greeksNet.thetaUsdPerDay = 0) := by
  have hbuilt := built_buildRequested h
  obtain ⟨row, hlive, hstate, hpremium, hslippage, hcommission, hcost⟩ :=
    bookingOf_live now (numbered_buildRequested h) hbuilt.nonempty hkeys hrun hfilled
  have hmock := bookingOf_mock expiry rate now hkeys
    (pricedLegs N structure' req inputs) tolerance (mockGreeks (previewPayload N structure' req inputs))
  have hamounts : AmountsAgree
      ⟨mockStructure rate now (pricedLegs N structure' req inputs), ⟨⟨db.structures.length, now,
        mockPremium (pricedLegs N structure' req inputs),
        pyRound (0 + mockCommission rate (pricedLegs N structure' req inputs)) 2, .open⟩,
        mockGreeks (previewPayload N structure' req inputs)⟩⟩
      ⟨row, ⟨⟨db.structures.length, now, mockPremium (pricedLegs N structure' req inputs),
        pyRound (0 + mockCommission rate (pricedLegs N structure' req inputs)) 2, .open⟩, liveGreeks⟩⟩ :=
    ⟨rfl, rfl, rfl, rfl, hstate.symm, hpremium.symm, hslippage.symm, hcommission.symm, hcost.symm⟩
  refine ⟨_, _, hmock, hlive, hamounts, ?_, ?_⟩
  · intro hagree
    have hgreeks := hagree.entryGreeks
    cases hgreeks
  · constructor
    · intro hread
      have hgreeks := hread.entryGreeks
      simp only [EntryGreeks.read, mockGreeks, liveGreeks, Option.getD_some, Option.getD_none,
        Prod.mk.injEq] at hgreeks
      exact hgreeks
    · rintro ⟨hvega, hgamma, htheta⟩
      have hgreeks : (mockGreeks (previewPayload N structure' req inputs)).read = liveGreeks.read := by
        simp only [EntryGreeks.read, mockGreeks, liveGreeks, hvega, hgamma, htheta, Option.getD_some,
          Option.getD_none]
      exact ⟨hamounts, hgreeks, bookTotals_congr rfl rfl rfl hgreeks⟩

/-- Two straddles at the money, each leg filled in two executions at its preview price. -/
instance (db : Db) : ∀ e, Decidable (FillsLegs db e)
  | .stampLive .. | .stampPlacement .. | .orderStatus .. | .execution .. | .commissionReport .. =>
    .isTrue trivial
  | .submitPreview .. | .createUnwind .. | .comboStatus .. | .completeStructure .. | .reconcile ..
  | .reap .. | .reconnect .. | .syncPositions .. | .closeRequest .. | .closeAnswer .. | .cancelTrade ..
  | .positionClose .. => .isFalse id

instance (rate : ℚ) (db : Db) (s : ℕ) : Decidable (FilledAtPreview rate db s) :=
  decidable_of_iff (∀ p ∈ db.orders.zipIdx, p.1.structureId = s →
    p.1.state = .filled ∧ db.recorded p.2 = p.1.qty ∧
      ∀ f ∈ db.fillsOf p.2, p.1.previewPrice = some f.fillPrice ∧
        f.commissionUsd = f.qtyFilled * rate) <| by
    constructor
    · intro h i o ho
      exact h (o, i) (List.mem_zipIdx_iff_getElem?.mpr ho)
    · intro h p hp
      exact h p.2 p.1 (List.mem_zipIdx_iff_getElem?.mp hp)

theorem keysHold_empty : KeysHold Db.empty := by
  constructor <;> simp [Db.empty]

def straddleLegs : List PricedLeg :=
  pricedLegs nearTheMoney straddleStructure (straddle 2) (published (1 / 100))

def submittedStraddle : Db :=
  submitPreview Db.empty (liveLegs nearTheMoney straddleStructure (straddle 2) (published (1 / 100)) june) 0

/-- One contract of leg `i`, at its preview price and for two dollars. -/
def oneContract (execId : String) (i : ℕ) : Event :=
  .execution i { execution execId "BOT" 1 (some 2) with
    price := ((submittedStraddle.orders[i]?).bind (·.previewPrice)).getD 0 } 1

def straddleFills : List Event :=
  [oneContract "a" 0, oneContract "b" 1, oneContract "c" 1, oneContract "d" 0]

def filledStraddle : Db := straddleFills.foldl step submittedStraddle

def mockStraddle : Option Booking :=
  bookingOf (mockSubmit Db.empty straddleLegs june (1 / 2) 2 1)
    (mockGreeks (previewPayload nearTheMoney straddleStructure (straddle 2) (published (1 / 100))))
    Db.empty.structures.length

def liveStraddle : Option Booking :=
  bookingOf (maybeCompleteStructure filledStraddle Db.empty.structures.length 1).1 liveGreeks
    Db.empty.structures.length

theorem bookings_agree_iff_straddle : ∃ mock live, mockStraddle = some mock ∧
    liveStraddle = some live ∧ AmountsAgree mock live ∧ ¬ BookingsAgree mock live [] := by
  have hbuild : buildRequested (straddle 2).body (published (1 / 100)).priced.1 =
      .ok straddleStructure := by
    decide +kernel
  have hguard : Guarded step FillsLegs submittedStraddle straddleFills := by decide +kernel
  have hrun : Run step FillsLegs submittedStraddle filledStraddle := Run.of_foldl straddleFills hguard
  have hfilled : FilledAtPreview 2 filledStraddle Db.empty.structures.length := by decide +kernel
  obtain ⟨mock, live, hmock, hlive, hamounts, hnot, -⟩ :=
    bookings_agree_iff nearTheMoney (straddle 2) (published (1 / 100)) straddleStructure june (1 / 2) 2
      Db.empty filledStraddle 0 1 [] hbuild keysHold_empty hrun hfilled
  exact ⟨mock, live, hmock, hlive, hamounts, hnot⟩

/-- Two straddles that filled live are booked with no vega; booked in mock they have over a thousand
dollars of it, and so has the book. -/
theorem live_booked_without_vega :
    FilledAtPreview 2 filledStraddle 0 ∧
    (liveStraddle.map fun live => (live.position.entryGreeks.vegaUsdPerVolpt,
      (bookTotals [live.position]).totalVegaUsd)) = some (none, 0) ∧
    (mockStraddle.any fun mock => 1000 < (bookTotals [mock.position]).totalVegaUsd) = true ∧
    ¬ ∀ mock live, mockStraddle = some mock → liveStraddle = some live →
      BookingsAgree mock live [] := by
  refine ⟨by decide +kernel, by decide +kernel, by decide +kernel, ?_⟩
  intro hagree
  have hmock : mockStraddle.isSome = true := by decide +kernel
  have hlive : liveStraddle.isSome = true := by decide +kernel
  have hdiffer : mockStraddle.map (·.position.entryGreeks) ≠ liveStraddle.map (·.position.entryGreeks) := by
    decide +kernel
  obtain ⟨mock, hm⟩ := Option.isSome_iff_exists.mp hmock
  obtain ⟨live, hl⟩ := Option.isSome_iff_exists.mp hlive
  rw [hm, hl, Option.map_some, Option.map_some, (hagree mock live hm hl).entryGreeks] at hdiffer
  exact hdiffer rfl

end FxVol.BookingPaths
