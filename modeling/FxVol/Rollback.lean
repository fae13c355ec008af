import FxVol.CloseRequests

/-!
# Rollback decisions

`decide_rollback` turns the entry legs of a structure and its prior unwinds into the orders to
cancel and the fills still to unwind; `run_rollback` inserts one order for each unwind.
-/
namespace FxVol

structure UnwindAction where
  legIdx : ℕ
  side : Side
  qty : ℕ
  deriving DecidableEq

structure RollbackPlan where
  cancels : List ℕ
  unwinds : List UnwindAction
  deriving DecidableEq

def RollbackPlan.isNoop (plan : RollbackPlan) : Bool := plan.cancels = [] ∧ plan.unwinds = []

/-- The quantity that prior unwinds of a leg, failed ones apart, cover. -/
def coveredQty (unwinds : List StructureOrder) (legIdx : ℕ) : ℕ :=
  ((unwinds.filter fun u =>
    u.legIdx = legIdx ∧ u.state ∉ [OrderState.rejected, .cancelled, .expired]).map (·.qty)).sum

def unwindOf (unwinds : List StructureOrder) (o : StructureOrder) : Option UnwindAction :=
  if 0 < o.qtyFilled ∧ o.state ∈ [OrderState.partiallyFilled, .filled] then
    let residual := o.qtyFilled - coveredQty unwinds o.legIdx
    if 0 < residual then some ⟨o.legIdx, o.side.opposite, residual⟩ else none
  else none

def decideRollback (entries unwinds : List StructureOrder) : RollbackPlan where
  cancels := (entries.filter fun o => o.state.isNonTerminal).map (·.legIdx)
  unwinds := entries.filterMap (unwindOf unwinds)

/-- The plan of a structure as `load_order_states` finds it. -/
def rollbackPlan (db : Db) (structureId : ℕ) : RollbackPlan :=
  let rows := (db.ordersOf structureId).map (·.1)
  decideRollback (rows.filter fun o => o.orderRole = .entry)
    (rows.filter fun o => o.orderRole = .unwind)

/-- The entry leg with this `leg_idx`. -/
def entryOfLeg (db : Db) (structureId legIdx : ℕ) : Option StructureOrder :=
  (((db.ordersOf structureId).filter fun p =>
    p.1.orderRole = .entry ∧ p.1.legIdx = legIdx).map (·.1)).getLast?

def unwindOrder (structureId : ℕ) (entry : StructureOrder) (action : UnwindAction) (limit : ℚ)
    (now : Instant) : StructureOrder :=
  { StructureOrder.new structureId action.legIdx .unwind action.side action.qty now with
    contractSymbol := entry.contractSymbol
    contractType := entry.contractType
    contractExpiry := entry.contractExpiry
    contractStrike := entry.contractStrike
    contractExchange := entry.contractExchange
    contractCurrency := entry.contractCurrency
    limitPrice := some limit }

end FxVol
