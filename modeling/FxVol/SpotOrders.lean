import FxVol.FillHandlers
import FxVol.ReadModifyWrite

/-!
# Spot orders

One `spot_order` row for each cash ticket.  The status and fill callbacks of a placed order, and
the replay of its executions after a reconnect, are tasks that read the row, change it in memory
and write back the columns they have changed.
-/
namespace FxVol

open GuardedRuns ReadModifyWrite

inductive SpotState | pending | submitted | partiallyFilled | filled | cancelled | rejected
  deriving DecidableEq

/-- `_TERMINAL` -/
def SpotState.isTerminal : SpotState → Bool
  | .filled | .cancelled | .rejected => true
  | .pending | .submitted | .partiallyFilled => false

/-- One row of `spot_order`. -/
structure SpotOrder where
  qty : ℕ
  limitPrice : Option ℚ
  ibOrderId : Option ℕ
  ibPermId : Option ℕ
  ibLocalSymbol : Option String
  state : SpotState
  stateUpdatedAt : Instant
  qtyFilled : ℕ
  avgFillPrice : Option ℚ
  commissionUsd : Option ℚ
  filledAt : Option Instant
  rejectionText : Option String
  ibStatus : Option String
  whyHeld : Option String
  deriving DecidableEq

/-- `create_spot_order` -/
def SpotOrder.new (qty : ℕ) (limitPrice : Option ℚ) (now : Instant) : SpotOrder where
  qty := qty
  limitPrice := limitPrice
  ibOrderId := none
  ibPermId := none
  ibLocalSymbol := none
  state := .pending
  stateUpdatedAt := now
  qtyFilled := 0
  avgFillPrice := none
  commissionUsd := none
  filledAt := none
  rejectionText := none
  ibStatus := none
  whyHeld := none

def mapSpotStatus : IbStatus → Option SpotState
  | .pendingSubmit | .apiPending | .preSubmitted | .submitted | .pendingCancel => some .submitted
  | .filled => some .filled
  | .cancelled | .apiCancelled => some .cancelled
  | .inactive => some .rejected
  | .other _ => none

/-- What the handlers read of a trade's `orderStatus` and log. -/
structure SpotStatus where
  ibStatus : Option IbStatus
  reason : Option String
  whyHeld : Option String
  deriving DecidableEq

def SpotStatus.text (s : SpotStatus) : Option String := s.ibStatus.bind fun i => nonEmpty i.text

/-- The state a status asks for: a cancel that comes with an error is a reject. -/
def SpotStatus.newState (s : SpotStatus) : Option SpotState :=
  (s.ibStatus.bind mapSpotStatus).map fun new =>
    if new = .cancelled ∧ (s.reason.bind nonEmpty).isSome then .rejected else new

def SpotOrder.applyStatus (row : SpotOrder) (s : SpotStatus) (now : Instant) : SpotOrder :=
  let row₁ := { row with
    ibStatus := (s.text.map (truncate 20)).or row.ibStatus
    whyHeld := s.whyHeld.bind nonEmpty }
  match s.newState with
  | none | some .filled => row₁
  | some new =>
    if row.state.isTerminal then row₁
    else if new = .submitted ∧ row.state = .partiallyFilled then row₁
    else if new = row.state then row₁
    else { row₁ with
      state := new
      stateUpdatedAt := now
      rejectionText :=
        if new = .rejected then
          some (truncate 300 (((s.reason.bind nonEmpty).or s.text).getD ""))
        else row.rejectionText }

structure SpotFill where
  shares : ℕ
  price : ℚ
  commission : Option ℚ
  deriving DecidableEq

def spotQty (fills : List SpotFill) : ℕ := (fills.map (·.shares)).sum

def spotNotional (fills : List SpotFill) : ℚ := (fills.map fun f => (f.shares : ℚ) * f.price).sum

def spotCommission (fills : List SpotFill) : ℚ := (fills.map fun f => f.commission.getD 0).sum

def spotVwap (fills : List SpotFill) : Option ℚ :=
  if spotQty fills = 0 then none else some (spotNotional fills / spotQty fills)

/-- `fold_spot_fills` -/
def SpotOrder.foldFills (row : SpotOrder) (fills : List SpotFill) (localSymbol : Option String)
    (now : Instant) : SpotOrder :=
  let qty := spotQty fills
  if qty < row.qtyFilled then row
  else { row with
    qtyFilled := qty
    avgFillPrice := spotVwap fills
    commissionUsd := some (spotCommission fills)
    state :=
      if row.qty ≤ qty then .filled
      else if 0 < qty ∧ ¬ row.state.isTerminal then .partiallyFilled
      else row.state
    filledAt := if row.qty ≤ qty then some (row.filledAt.getD now) else row.filledAt
    stateUpdatedAt := now
    ibLocalSymbol := row.ibLocalSymbol.or ((localSymbol.bind nonEmpty).map (truncate 20)) }

/-- `stamp_ib_ids` -/
def SpotOrder.stampIds (row : SpotOrder) (ibOrderId ibPermId : Option ℕ) (limitPrice : Option ℚ)
    (localSymbol : Option String) (s : SpotStatus) (now : Instant) : SpotOrder :=
  { row with
    ibOrderId := ibOrderId.filter (· ≠ 0)
    ibPermId := ibPermId.filter (· ≠ 0)
    limitPrice := (limitPrice.filter (· ≠ 0)).or row.limitPrice
    ibLocalSymbol := ((localSymbol.bind nonEmpty).map (truncate 20)).or row.ibLocalSymbol
    : SpotOrder }.applyStatus s now

inductive SpotTask
  | status (s : SpotStatus) (now : Instant)
  | stamp (ibOrderId ibPermId : Option ℕ) (limitPrice : Option ℚ) (localSymbol : Option String)
      (s : SpotStatus) (now : Instant)
  | fold (fills : List SpotFill) (localSymbol : Option String) (now : Instant)

def SpotOrder.apply (row : SpotOrder) : SpotTask → SpotOrder
  | .status s now => row.applyStatus s now
  | .stamp ibOrderId ibPermId limitPrice localSymbol s now =>
    row.stampIds ibOrderId ibPermId limitPrice localSymbol s now
  | .fold fills localSymbol now => row.foldFills fills localSymbol now

/-- A column of an `UPDATE`: only what differs from what was loaded is written. -/
def writtenColumn {α : Type*} [DecidableEq α] (loaded new current : α) : α :=
  if new = loaded then current else new

/-- The row after the commit of a task that had loaded `loaded` and changed it to `new`. -/
def SpotOrder.written (loaded new current : SpotOrder) : SpotOrder where
  qty := writtenColumn loaded.qty new.qty current.qty
  limitPrice := writtenColumn loaded.limitPrice new.limitPrice current.limitPrice
  ibOrderId := writtenColumn loaded.ibOrderId new.ibOrderId current.ibOrderId
  ibPermId := writtenColumn loaded.ibPermId new.ibPermId current.ibPermId
  ibLocalSymbol := writtenColumn loaded.ibLocalSymbol new.ibLocalSymbol current.ibLocalSymbol
  state := writtenColumn loaded.state new.state current.state
  stateUpdatedAt := writtenColumn loaded.stateUpdatedAt new.stateUpdatedAt current.stateUpdatedAt
  qtyFilled := writtenColumn loaded.qtyFilled new.qtyFilled current.qtyFilled
  avgFillPrice := writtenColumn loaded.avgFillPrice new.avgFillPrice current.avgFillPrice
  commissionUsd := writtenColumn loaded.commissionUsd new.commissionUsd current.commissionUsd
  filledAt := writtenColumn loaded.filledAt new.filledAt current.filledAt
  rejectionText := writtenColumn loaded.rejectionText new.rejectionText current.rejectionText
  ibStatus := writtenColumn loaded.ibStatus new.ibStatus current.ibStatus
  whyHeld := writtenColumn loaded.whyHeld new.whyHeld current.whyHeld

/-- What the row says of its fills. -/
structure SpotBook where
  qty : ℕ
  state : SpotState
  qtyFilled : ℕ
  avgFillPrice : Option ℚ
  deriving DecidableEq

def SpotOrder.book (row : SpotOrder) : SpotBook :=
  ⟨row.qty, row.state, row.qtyFilled, row.avgFillPrice⟩

end FxVol
