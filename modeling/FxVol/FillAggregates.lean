import FxVol.TradeTables
import Mathlib.Algebra.Order.Field.Rat
import Mathlib.Algebra.Order.Floor.Defs

/-!
# Folding the fills of a leg

The aggregates an order row keeps of its fills, and the position of a leg as the signed fold
of its fills.  Both are pure folds of the fill rows of one order.
-/
namespace FxVol

/-- `apply_fill_idempotent`: is this execution new? -/
def applyFillIdempotent (seenExecutionIds : List ExecId) (newId : ExecId) : Bool :=
  newId ∉ seenExecutionIds

/-- `state_from_recorded_fills`: the state a stuck order's own fills prove, if any. -/
def stateFromRecordedFills (recordedFilled targetQty : ℕ) (currentState : OrderState) :
    Option OrderState :=
  if recordedFilled = 0 then none
  else if targetQty ≤ recordedFilled ∧ currentState ≠ .filled then some .filled
  else if currentState = .submitted then some .partiallyFilled
  else none

/-- `compute_slippage_per_contract`: positive when the fill is worse than the preview. -/
def computeSlippagePerContract (previewPrice avgFillPrice : ℚ) : Side → ℚ
  | .buy => avgFillPrice - previewPrice
  | .sell => previewPrice - avgFillPrice

structure OrderAggregate where
  qtyFilled : ℕ
  avgFillPrice : Option ℚ
  totalCommissionUsd : ℚ
  slippagePerContract : Option ℚ
  totalSlippageUsd : Option ℚ
  fullyFilled : Bool
  deriving DecidableEq

/-- `Σ qty × price` -/
def notional (fills : List StructureFill) : ℚ :=
  (fills.map fun f => (f.qtyFilled : ℚ) * f.fillPrice).sum

def updateOrderAggregates (fills : List StructureFill) (targetQty : ℕ) (side : Side)
    (previewPrice : Option ℚ) : OrderAggregate :=
  let qtyTotal := (fills.map (·.qtyFilled)).sum
  if qtyTotal = 0 then ⟨0, none, 0, none, none, false⟩
  else
    let avg := notional fills / qtyTotal
    let commission := (fills.map (·.commissionUsd)).sum
    let slipPer := previewPrice.bind fun p =>
      if p ≤ 0 then none else some (computeSlippagePerContract p avg side)
    { qtyFilled := qtyTotal
      avgFillPrice := some avg
      totalCommissionUsd := commission
      slippagePerContract := slipPer
      totalSlippageUsd := slipPer.map (· * qtyTotal)
      fullyFilled := targetQty ≤ qtyTotal }

def signed (side : Side) (qty : ℕ) : ℤ :=
  match side with
  | .buy => qty
  | .sell => -qty

structure LegFold where
  openQty : ℤ
  avgPrice : Option ℚ
  filledQty : ℕ
  deriving DecidableEq

def foldFills (fills : List StructureFill) : LegFold :=
  let openQty := (fills.map fun f => signed f.side f.qtyFilled).sum
  let filledQty := (fills.map (·.qtyFilled)).sum
  if filledQty = 0 then ⟨openQty, none, filledQty⟩
  else ⟨openQty, some (notional fills / filledQty), filledQty⟩

section Aggregates
variable (fills : List StructureFill) (qty : ℕ) (side : Side) (preview : Option ℚ)

@[simp] theorem updateOrderAggregates_qtyFilled :
    (updateOrderAggregates fills qty side preview).qtyFilled = (fills.map (·.qtyFilled)).sum := by
  unfold updateOrderAggregates
  dsimp only
  split_ifs with h
  · exact h.symm
  · rfl

/-- The order is fully filled when the recorded quantity is positive and reaches its own. -/
theorem updateOrderAggregates_fullyFilled :
    (updateOrderAggregates fills qty side preview).fullyFilled = true ↔
      0 < (fills.map (·.qtyFilled)).sum ∧ qty ≤ (fills.map (·.qtyFilled)).sum := by
  unfold updateOrderAggregates
  dsimp only
  split_ifs with h
  · simp [h]
  · simp [Nat.pos_of_ne_zero h]

@[simp] theorem foldFills_openQty :
    (foldFills fills).openQty = (fills.map fun f => signed f.side f.qtyFilled).sum := by
  unfold foldFills
  dsimp only
  split_ifs <;> rfl

@[simp] theorem foldFills_filledQty :
    (foldFills fills).filledQty = (fills.map (·.qtyFilled)).sum := by
  unfold foldFills
  dsimp only
  split_ifs <;> rfl

/-- A change to other columns than side, quantity and price does not change the fold. -/
theorem foldFills_map (g : StructureFill → StructureFill) (hs : ∀ f, (g f).side = f.side)
    (hq : ∀ f, (g f).qtyFilled = f.qtyFilled) (hp : ∀ f, (g f).fillPrice = f.fillPrice) :
    foldFills (fills.map g) = foldFills fills := by
  simp only [foldFills, notional, List.map_map, Function.comp_def, hs, hq, hp]

variable {fills} {fills' : List StructureFill} (h : fills.Perm fills')
include h

theorem notional_perm : notional fills = notional fills' := (h.map _).sum_eq

/-- The aggregates do not depend on the order of the fills. -/
theorem updateOrderAggregates_perm :
    updateOrderAggregates fills qty side preview =
      updateOrderAggregates fills' qty side preview := by
  have hq := (h.map (·.qtyFilled)).sum_eq
  have hc := (h.map (·.commissionUsd)).sum_eq
  simp only [updateOrderAggregates, hq, hc, notional_perm h]

theorem foldFills_perm : foldFills fills = foldFills fills' := by
  have hq := (h.map (·.qtyFilled)).sum_eq
  have ho := (h.map fun f => signed f.side f.qtyFilled).sum_eq
  simp only [foldFills, hq, ho, notional_perm h]

end Aggregates

end FxVol
