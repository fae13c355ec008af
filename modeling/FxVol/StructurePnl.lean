import FxVol.Ledger
import FxVol.OrderEvents
import FxVol.PositionCloseFinaliser
import FxVol.TableTotals

/-!
# The P&L of a closed position against the ledger

The same fills are accounted for twice: `finalise_position_close` nets the premiums and costs
two structures were completed with, the ledger folds the fills themselves.  The stamp takes
the slippage of every leg off a premium that is already at fill prices, and has no premium
for a future; what these two and the rounding of the stored aggregates add up to is its drift
from the ledger.
-/
namespace FxVol

open Ledger

/-- A leg that traded, with its fills, all on its side, and their aggregates on its row. -/
structure TradedLeg where
  order : StructureOrder
  contract : String
  fills : List StructureFill
  symbol : order.ibLocalSymbol = some contract
  side : ∀ f ∈ fills, f.side = order.side
  positive : ∀ f ∈ fills, 0 < f.qtyFilled
  aggregates : order = order.withAggregates
    (updateOrderAggregates fills order.qty order.side order.previewPrice)

namespace TradedLeg
variable (leg : TradedLeg)

def ledgerFills : List LedgerFill :=
  leg.fills.map fun f =>
    ⟨leg.contract, f.side, f.qtyFilled, f.fillPrice, f.commissionUsd, leg.order.multiplier⟩

def outlay : ℚ := sideSign leg.order.side * notional leg.fills * leg.order.multiplier

def commission : ℚ := (leg.fills.map (·.commissionUsd)).sum

/-- What the fills paid over the preview price; nothing without one. -/
def overPreview : ℚ :=
  match leg.order.previewPrice with
  | none => 0
  | some p =>
    if p ≤ 0 then 0
    else sideSign leg.order.side * (notional leg.fills - p * (leg.fills.map (·.qtyFilled)).sum) *
      leg.order.multiplier

def isFuture : Bool := leg.order.contractType = .future

end TradedLeg

def orders (legs : List TradedLeg) : List StructureOrder := legs.map (·.order)

def ledgerFills (legs : List TradedLeg) : List LedgerFill := legs.flatMap (·.ledgerFills)

/-- A position opened by the fills of its entry legs and closed by those of its closing legs. -/
structure ClosedTrade where
  entry : List TradedLeg
  closing : List TradedLeg
  oneMultiplier : OneMultiplier (ledgerFills (entry ++ closing))
  flat : ∀ f ∈ ledgerFills (entry ++ closing),
    netQtyOf (fillsOn f.contract (ledgerFills (entry ++ closing))) = 0

def premiumOf (legs : List TradedLeg) : ℚ :=
  ((legs.filter fun leg => !leg.isFuture).map (·.outlay)).sum

def futuresOf (legs : List TradedLeg) : ℚ := ((legs.filter (·.isFuture)).map (·.outlay)).sum

def overPreviewOf (legs : List TradedLeg) : ℚ := (legs.map (·.overPreview)).sum

def commissionsOf (legs : List TradedLeg) : ℚ := (legs.map (·.commission)).sum

/-- What rounding the stored premium and cost of a structure adds to them. -/
def roundingOf (legs : List TradedLeg) : ℚ :=
  (pyRound (premiumOf legs) 4 - premiumOf legs) +
    (pyRound (overPreviewOf legs + commissionsOf legs) 2 - (overPreviewOf legs + commissionsOf legs))

/-- What the stamp takes off the ledger's P&L: the slippages, less what the futures paid, and
the rounding of the stored aggregates. -/
def ClosedTrade.drift (t : ClosedTrade) : ℚ :=
  overPreviewOf (t.entry ++ t.closing) - futuresOf (t.entry ++ t.closing) +
    (roundingOf t.entry + roundingOf t.closing)

/-- The premium of a row that its fills are folded into. -/
theorem premium_folded {o : StructureOrder} {fills : List StructureFill}
    (h : o.withAggregates (updateOrderAggregates fills o.qty o.side o.previewPrice) = o) :
    o.premium = if o.contractType = .future then 0
      else sideSign o.side * notional fills * eurFopMultiplier := by
  have hqty := congrArg StructureOrder.qtyFilled h
  have havg := congrArg StructureOrder.avgFillPrice h
  simp only [StructureOrder.withAggregates, updateOrderAggregates_qtyFilled] at hqty havg
  rw [StructureOrder.premium, ← hqty, ← havg, updateOrderAggregates]
  by_cases hzero : (fills.map (·.qtyFilled)).sum = 0
  · have hnone : notional fills = 0 := by
      rw [notional]
      apply List.sum_eq_zero
      intro x hx
      obtain ⟨f, hf, rfl⟩ := List.mem_map.mp hx
      have hf : f.qtyFilled = 0 := List.sum_eq_zero_iff.mp hzero _ (List.mem_map_of_mem hf)
      simp [hf]
    simp [hzero, hnone]
  · have hne : (((fills.map (·.qtyFilled)).sum : ℕ) : ℚ) ≠ 0 := Nat.cast_ne_zero.mpr hzero
    rw [if_neg hzero, Option.getD_some]
    by_cases hfuture : o.contractType = .future
    · rw [if_pos hfuture, if_pos hfuture]
    · rw [if_neg hfuture, if_neg hfuture, mul_assoc (sideSign o.side), div_mul_cancel₀ _ hne]

section Legs
variable (leg : TradedLeg) (legs legs' : List TradedLeg)

theorem aggregates_empty (h : (leg.fills.map (·.qtyFilled)).sum = 0) : leg.fills = [] := by
  cases hfills : leg.fills with
  | nil => rfl
  | cons f fs =>
    have hpos := leg.positive f (by simp [hfills])
    simp [hfills] at h
    omega

theorem premium_order :
    leg.order.premium = if leg.isFuture then 0 else leg.outlay := by
  rw [premium_folded leg.aggregates.symm]
  unfold TradedLeg.outlay TradedLeg.isFuture StructureOrder.multiplier
  by_cases hfuture : leg.order.contractType = .future <;> simp [hfuture]

theorem slippage_order :
    leg.order.totalSlippageUsd.getD 0 * leg.order.multiplier = leg.overPreview := by
  have hslip := congrArg StructureOrder.totalSlippageUsd leg.aggregates
  simp only [StructureOrder.withAggregates] at hslip
  unfold TradedLeg.overPreview
  by_cases hzero : (leg.fills.map (·.qtyFilled)).sum = 0
  · rw [hslip, updateOrderAggregates, if_pos hzero, aggregates_empty leg hzero]
    cases leg.order.previewPrice <;> simp [notional]
  · rw [hslip, updateOrderAggregates, if_neg hzero]
    cases leg.order.previewPrice with
    | none => simp
    | some p =>
      by_cases hp : p ≤ 0
      · simp [hp]
      · have hne : (((leg.fills.map (·.qtyFilled)).sum : ℕ) : ℚ) ≠ 0 := Nat.cast_ne_zero.mpr hzero
        simp only [Option.bind_some, hp, if_false, Option.map_some, Option.getD_some]
        cases leg.order.side with
        | buy =>
          simp only [computeSlippagePerContract, sideSign]
          field_simp
        | sell =>
          simp only [computeSlippagePerContract, sideSign]
          field_simp
          ring

theorem commission_order : leg.order.totalCommissionUsd = leg.commission := by
  have hcomm := congrArg StructureOrder.totalCommissionUsd leg.aggregates
  simp only [StructureOrder.withAggregates] at hcomm
  unfold TradedLeg.commission
  by_cases hzero : (leg.fills.map (·.qtyFilled)).sum = 0
  · rw [hcomm, updateOrderAggregates, if_pos hzero, aggregates_empty leg hzero]
    rfl
  · rw [hcomm, updateOrderAggregates, if_neg hzero]

theorem notional_signed : ∀ fills : List StructureFill, (∀ f ∈ fills, f.side = leg.order.side) →
    cashOf (fills.map fun f =>
      ⟨leg.contract, f.side, f.qtyFilled, f.fillPrice, f.commissionUsd, leg.order.multiplier⟩) =
      -(sideSign leg.order.side * notional fills * leg.order.multiplier) := by
  intro fills hside
  induction fills with
  | nil => simp [cashOf, notional]
  | cons f fills ih =>
    have hrest := ih fun g hg => hside g (List.mem_cons_of_mem _ hg)
    simp only [cashOf, notional, List.map_cons, List.sum_cons] at hrest ⊢
    rw [hrest, LedgerFill.cash, LedgerFill.signedQty, hside f List.mem_cons_self]
    cases leg.order.side <;> simp only [sideSign] <;> ring

theorem cash_leg : cashOf leg.ledgerFills = -leg.outlay :=
  notional_signed leg leg.fills leg.side

theorem commission_leg : commissionOf leg.ledgerFills = leg.commission := by
  simp [commissionOf, TradedLeg.ledgerFills, TradedLeg.commission, Function.comp_def]

/-- What all legs paid: the premiums and the futures. -/
theorem cashOf_ledgerFills : cashOf (ledgerFills legs) = -(premiumOf legs + futuresOf legs) := by
  induction legs with
  | nil => simp [ledgerFills, cashOf, premiumOf, futuresOf]
  | cons leg legs ih =>
    have hsplit : cashOf (ledgerFills (leg :: legs)) =
        cashOf leg.ledgerFills + cashOf (ledgerFills legs) := by
      simp [cashOf, ledgerFills]
    rw [hsplit, ih, cash_leg]
    unfold premiumOf futuresOf
    cases hfuture : leg.isFuture
    · simp only [hfuture, List.filter_cons, Bool.not_false, if_true, List.map_cons, List.sum_cons,
        Bool.false_eq_true, if_false]
      ring
    · simp only [hfuture, List.filter_cons, Bool.not_true, if_true, List.map_cons, List.sum_cons,
        Bool.false_eq_true, if_false]
      ring

theorem commissionOf_ledgerFills : commissionOf (ledgerFills legs) = commissionsOf legs := by
  induction legs with
  | nil => rfl
  | cons leg legs ih =>
    have hsplit : commissionOf (ledgerFills (leg :: legs)) =
        commissionOf leg.ledgerFills + commissionOf (ledgerFills legs) := by
      simp [commissionOf, ledgerFills]
    rw [hsplit, ih, commission_leg]
    rfl

theorem totalPremium_orders : totalPremium (orders legs) = premiumOf legs := by
  unfold totalPremium premiumOf orders
  rw [List.map_map, ← TableTotals.sum_selected]
  congr 1
  apply List.map_congr_left
  intro leg _
  rw [Function.comp_apply, premium_order]
  cases leg.isFuture <;> rfl

theorem totalSlippage_orders : totalSlippage (orders legs) = overPreviewOf legs := by
  unfold totalSlippage overPreviewOf orders
  rw [List.map_map]
  congr 1
  apply List.map_congr_left
  intro leg _
  exact slippage_order leg

theorem totalCommission_orders : totalCommission (orders legs) = commissionsOf legs := by
  unfold totalCommission commissionsOf orders
  rw [List.map_map]
  congr 1
  apply List.map_congr_left
  intro leg _
  exact commission_order leg

end Legs

theorem roundHalfEven_near (x : ℚ) : |(roundHalfEven x : ℚ) - x| ≤ 1 / 2 := by
  have hle := Int.floor_le x
  have hlt := Int.lt_floor_add_one x
  unfold roundHalfEven
  rw [abs_le]
  split_ifs with hdown hup heven <;> push_cast <;> constructor <;> linarith

theorem roundHalfEven_int (n : ℤ) : roundHalfEven (n : ℚ) = n := by
  rw [roundHalfEven, Int.floor_intCast]
  simp

/-- What has the digits already is not rounded. -/
theorem pyRound_grid (n : ℤ) (digits : ℕ) :
    pyRound ((n : ℚ) / 10 ^ digits) digits = (n : ℚ) / 10 ^ digits := by
  have hpow : (10 : ℚ) ^ digits ≠ 0 := by positivity
  rw [pyRound, div_mul_cancel₀ _ hpow, roundHalfEven_int]

theorem pyRound_near (x : ℚ) (digits : ℕ) : |pyRound x digits - x| ≤ 1 / 2 / 10 ^ digits := by
  have hpow : (0 : ℚ) < 10 ^ digits := by positivity
  have hscaled : pyRound x digits - x =
      (roundHalfEven (x * 10 ^ digits) - x * 10 ^ digits) / 10 ^ digits := by
    unfold pyRound
    field_simp
  rw [hscaled, abs_div, abs_of_pos hpow]
  exact div_le_div_of_nonneg_right (roundHalfEven_near _) hpow.le

/-- Numbers that round to the same cents are at most a cent apart. -/
theorem pyRound_cents_eq {x y : ℚ} (h : pyRound x 2 = pyRound y 2) : |x - y| ≤ 1 / 100 := by
  have hx := abs_le.mp (pyRound_near x 2)
  have hy := abs_le.mp (pyRound_near y 2)
  rw [h] at hx
  rw [abs_le]
  constructor <;> linarith [hx.1, hx.2, hy.1, hy.2]

/-- The closing structure is complete and its alert names an open position; the position was
booked and the structure completed from the rows of the trade's legs. -/
structure ReadyToClose (db : Db) (closingStructureId : ℕ) (t : ClosedTrade) : Prop where
  closing : ∃ s now, db.structures[closingStructureId]? =
    some (TradeStructure.completed s (orders t.closing) now)
  position : ∃ p pos s now,
    (db.exitAlerts.zipIdx.find? fun p => p.1.closingStructureId = some closingStructureId) =
      some p ∧
    db.bookedPositions[p.1.positionId]? = some pos ∧ pos.state ≠ .closed ∧
    pos.entryPremiumUsd =
      (TradeStructure.completed s (orders t.entry) now).totalPremiumPaidUsd.getD 0 ∧
    pos.entryTotalCostUsd =
      (TradeStructure.completed s (orders t.entry) now).totalEntryCostUsd.getD 0

section Stamp
variable {t : ClosedTrade} {fills : List LedgerFill}

theorem premiumOf_append (legs legs' : List TradedLeg) :
    premiumOf (legs ++ legs') = premiumOf legs + premiumOf legs' := by
  simp [premiumOf]

theorem overPreviewOf_append (legs legs' : List TradedLeg) :
    overPreviewOf (legs ++ legs') = overPreviewOf legs + overPreviewOf legs' := by
  simp [overPreviewOf]

theorem commissionsOf_append (legs legs' : List TradedLeg) :
    commissionsOf (legs ++ legs') = commissionsOf legs + commissionsOf legs' := by
  simp [commissionsOf]

theorem ledgerFills_positive {f : LedgerFill} {legs : List TradedLeg}
    (h : f ∈ ledgerFills legs) : 0 < f.qty := by
  obtain ⟨leg, _, hf⟩ := List.mem_flatMap.mp h
  obtain ⟨g, hg, rfl⟩ := List.mem_map.mp hf
  exact Nat.cast_pos.mpr (leg.positive g hg)

/-- Folded in any order, the fills of a closed trade realise what they brought in, less the
commissions. -/
theorem realizedTotal_closed (horder : fills.Perm (ledgerFills (t.entry ++ t.closing))) :
    realizedTotal fills = cashOf fills - commissionOf fills := by
  apply realizedTotal_flat
  · intro f hf
    exact ledgerFills_positive (horder.mem_iff.mp hf)
  · intro f hf g hg
    exact t.oneMultiplier f (horder.mem_iff.mp hf) g (horder.mem_iff.mp hg)
  · intro f hf
    rw [← t.flat f (horder.mem_iff.mp hf)]
    exact ((horder.filter _).map _).sum_eq

theorem realizedTotal_legs (horder : fills.Perm (ledgerFills (t.entry ++ t.closing))) :
    realizedTotal fills = -(premiumOf (t.entry ++ t.closing) + futuresOf (t.entry ++ t.closing)) -
      commissionsOf (t.entry ++ t.closing) := by
  have hcash : cashOf fills = _ := (horder.map _).sum_eq
  have hcomm : commissionOf fills = _ := (horder.map _).sum_eq
  rw [realizedTotal_closed horder, hcash, hcomm]
  exact congrArg₂ (· - ·) (cashOf_ledgerFills _) (commissionOf_ledgerFills _)

theorem finalise_ready {db : Db} {closingStructureId : ℕ} {now : Instant}
    {closing : TradeStructure} {p : ExitAlert × ℕ} {pos : BookedPosition}
    (hclosing : db.structures[closingStructureId]? = some closing)
    (hstate : closing.state = .fullyFilled)
    (halert : (db.exitAlerts.zipIdx.find? fun p =>
      p.1.closingStructureId = some closingStructureId) = some p)
    (hpos : db.bookedPositions[p.1.positionId]? = some pos) (hopen : pos.state ≠ .closed) :
    ∃ db', finalisePositionClose db closingStructureId 0 now =
      some (db', closeStamp closing p.1 pos 0 now) := by
  obtain ⟨alert, k⟩ := p
  simp only [finalisePositionClose, hclosing, hstate, halert, hpos, hopen, ne_eq,
    not_true_eq_false, if_false]
  exact ⟨_, rfl⟩

/-- The net of a stamp, from the stored aggregates of the two structures. -/
theorem closeStamp_net {s s' : TradeStructure} {alert : ExitAlert} {pos : BookedPosition}
    {completedAt bookedAt now : Instant}
    (hpremium : pos.entryPremiumUsd =
      (s'.completed (orders t.entry) bookedAt).totalPremiumPaidUsd.getD 0)
    (hcost : pos.entryTotalCostUsd =
      (s'.completed (orders t.entry) bookedAt).totalEntryCostUsd.getD 0) :
    (closeStamp (s.completed (orders t.closing) completedAt) alert pos 0 now).netPnlUsd =
      pyRound (-pyRound (premiumOf t.closing) 4 - pyRound (premiumOf t.entry) 4 -
        pyRound (overPreviewOf t.entry + commissionsOf t.entry) 2 -
        pyRound (overPreviewOf t.closing + commissionsOf t.closing) 2 - 0) 2 := by
  rw [closeStamp, hpremium, hcost]
  simp only [TradeStructure.completed, Option.getD_some, totalPremium_orders,
    totalSlippage_orders, totalCommission_orders]

/-- The stamp is the ledger's P&L less the drift, rounded. -/
theorem finalise_net {db : Db} {closingStructureId : ℕ} {now : Instant}
    (h : ReadyToClose db closingStructureId t)
    (horder : fills.Perm (ledgerFills (t.entry ++ t.closing))) :
    ∃ db' stamp, finalisePositionClose db closingStructureId 0 now = some (db', stamp) ∧
      stamp.netPnlUsd = pyRound (realizedTotal fills - t.drift) 2 := by
  obtain ⟨s, completedAt, hclosing⟩ := h.closing
  obtain ⟨p, pos, s', bookedAt, halert, hpos, hopen, hpremium, hcost⟩ := h.position
  obtain ⟨db', hfinal⟩ : ∃ db', finalisePositionClose db closingStructureId 0 now = some (db', _) :=
    finalise_ready hclosing rfl halert hpos hopen
  refine ⟨db', _, hfinal, ?_⟩
  rw [closeStamp_net hpremium hcost, realizedTotal_legs horder, ClosedTrade.drift,
    premiumOf_append, overPreviewOf_append, commissionsOf_append, roundingOf, roundingOf]
  congr 1
  ring

/-- The stamped P&L agrees with the ledger exactly where the drift changes no cent: always
without a drift, never with one of more than a cent. -/
theorem stamp_agrees_iff {db : Db} {closingStructureId : ℕ} {now : Instant}
    (h : ReadyToClose db closingStructureId t)
    (horder : fills.Perm (ledgerFills (t.entry ++ t.closing))) :
    realizedTotal fills = cashOf fills - commissionOf fills ∧
    ∃ db' stamp, finalisePositionClose db closingStructureId 0 now = some (db', stamp) ∧
      (stamp.netPnlUsd = pyRound (realizedTotal fills) 2 ↔
        pyRound (realizedTotal fills - t.drift) 2 = pyRound (realizedTotal fills) 2) ∧
      (t.drift = 0 → stamp.netPnlUsd = pyRound (realizedTotal fills) 2) ∧
      (1 / 100 < |t.drift| → stamp.netPnlUsd ≠ pyRound (realizedTotal fills) 2) := by
  obtain ⟨db', stamp, hfinal, hnet⟩ := finalise_net h horder
  refine ⟨realizedTotal_closed horder, db', stamp, hfinal, ?_, ?_, ?_⟩
  · rw [hnet]
  · intro hdrift
    rw [hnet, hdrift, sub_zero]
  · intro hdrift hagree
    have hnear := pyRound_cents_eq (hnet.symm.trans hagree)
    rw [sub_sub_cancel_left, abs_neg] at hnear
    exact absurd hnear (not_le.mpr hdrift)

/-- A call bought at its preview price and closed at `exitPrice`. -/
def closedCall (exitPrice : ℚ) : Db :=
  [Event.submitPreview [callLeg .buy 1] 0, .execution 0 (execution "a" "BOT" 1 (some (5 / 2))) 1,
    .completeStructure 0 2, .positionClose 0 (some 0) 3,
    .execution 1 { execution "b" "SLD" 1 (some (5 / 2)) with price := exitPrice } 4,
    .completeStructure 1 5].foldl step
    { Db.empty with exitAlerts := [⟨0, "take_profit", false, none, none⟩] }

/-- The entry leg of `closedCall`. -/
def boughtCall : TradedLeg where
  order := (closedCall (1 / 100)).orders.get ⟨0, by decide +kernel⟩
  contract := "EUUU6 C1150"
  fills := (closedCall (1 / 100)).fillsOf 0
  symbol := by decide +kernel
  side := by decide +kernel
  positive := by decide +kernel
  aggregates := by decide +kernel

/-- The closing leg of `closedCall`, sold at the preview price. -/
def soldFlat : TradedLeg where
  order := (closedCall (1 / 100)).orders.get ⟨1, by decide +kernel⟩
  contract := "EUUU6 C1150"
  fills := (closedCall (1 / 100)).fillsOf 1
  symbol := by decide +kernel
  side := by decide +kernel
  positive := by decide +kernel
  aggregates := by decide +kernel

/-- The closing leg of `closedCall`, sold higher. -/
def soldHigher : TradedLeg where
  order := (closedCall (12 / 1000)).orders.get ⟨1, by decide +kernel⟩
  contract := "EUUU6 C1150"
  fills := (closedCall (12 / 1000)).fillsOf 1
  symbol := by decide +kernel
  side := by decide +kernel
  positive := by decide +kernel
  aggregates := by decide +kernel

def flatTrade : ClosedTrade where
  entry := [boughtCall]
  closing := [soldFlat]
  oneMultiplier := by
    unfold OneMultiplier
    decide +kernel
  flat := by decide +kernel

def gainingTrade : ClosedTrade where
  entry := [boughtCall]
  closing := [soldHigher]
  oneMultiplier := by
    unfold OneMultiplier
    decide +kernel
  flat := by decide +kernel

theorem readyToClose_flat : ReadyToClose (closedCall (1 / 100)) 1 flatTrade where
  closing := ⟨(closedCall (1 / 100)).structures.get ⟨1, by decide +kernel⟩, 5, by decide +kernel⟩
  position := ⟨((closedCall (1 / 100)).exitAlerts.get ⟨0, by decide +kernel⟩, 0),
    (closedCall (1 / 100)).bookedPositions.get ⟨0, by decide +kernel⟩,
    (closedCall (1 / 100)).structures.get ⟨0, by decide +kernel⟩, 2, by decide +kernel⟩

theorem readyToClose_gaining : ReadyToClose (closedCall (12 / 1000)) 1 gainingTrade where
  closing := ⟨(closedCall (12 / 1000)).structures.get ⟨1, by decide +kernel⟩, 5, by decide +kernel⟩
  position := ⟨((closedCall (12 / 1000)).exitAlerts.get ⟨0, by decide +kernel⟩, 0),
    (closedCall (12 / 1000)).bookedPositions.get ⟨0, by decide +kernel⟩,
    (closedCall (12 / 1000)).structures.get ⟨0, by decide +kernel⟩, 2, by decide +kernel⟩

theorem stamp_agrees_iff_flatTrade :
    realizedTotal (ledgerFills [boughtCall, soldFlat]) =
      cashOf (ledgerFills [boughtCall, soldFlat]) -
        commissionOf (ledgerFills [boughtCall, soldFlat]) ∧
    ∃ db' stamp, finalisePositionClose (closedCall (1 / 100)) 1 0 6 = some (db', stamp) ∧
      (stamp.netPnlUsd = pyRound (realizedTotal (ledgerFills [boughtCall, soldFlat])) 2 ↔
        pyRound (realizedTotal (ledgerFills [boughtCall, soldFlat]) - flatTrade.drift) 2 =
          pyRound (realizedTotal (ledgerFills [boughtCall, soldFlat])) 2) ∧
      (flatTrade.drift = 0 →
        stamp.netPnlUsd = pyRound (realizedTotal (ledgerFills [boughtCall, soldFlat])) 2) ∧
      (1 / 100 < |flatTrade.drift| →
        stamp.netPnlUsd ≠ pyRound (realizedTotal (ledgerFills [boughtCall, soldFlat])) 2) :=
  stamp_agrees_iff readyToClose_flat (List.Perm.refl _)

/-- A gain of 250 is stamped twice: the closing leg sells above its preview price, and that
negative slippage is taken off the premium it is already part of. -/
theorem stamp_counts_gain_twice : ¬ ∀ (t : ClosedTrade) (db : Db) (closingStructureId : ℕ)
    (now : Instant) (fills : List LedgerFill), ReadyToClose db closingStructureId t →
    fills.Perm (ledgerFills (t.entry ++ t.closing)) →
    ∃ db' stamp, finalisePositionClose db closingStructureId 0 now = some (db', stamp) ∧
      stamp.netPnlUsd = pyRound (realizedTotal fills) 2 := by
  intro h
  obtain ⟨db', stamp, hfinal, hnet⟩ := h gainingTrade (closedCall (12 / 1000)) 1 6 _
    readyToClose_gaining (List.Perm.refl _)
  have hstamp : (finalisePositionClose (closedCall (12 / 1000)) 1 0 6).map (·.2.netPnlUsd) =
      some 495 := by decide +kernel
  have hledger : pyRound (realizedTotal (ledgerFills [boughtCall, soldHigher])) 2 = 245 := by
    decide +kernel
  rw [hfinal, Option.map_some, Option.some.injEq] at hstamp
  rw [hstamp] at hnet
  have heq : (495 : ℚ) = 245 := hnet.trans hledger
  norm_num at heq

end Stamp

end FxVol
