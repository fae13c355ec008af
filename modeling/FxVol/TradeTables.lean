import Mathlib.Algebra.BigOperators.Group.List.Basic
import Mathlib.Algebra.GroupWithZero.Nat
import Mathlib.Data.Rat.Defs

/-!
# The trading tables

Rows of `trade_structure`, `trade_order`, `trade_fill`, `leg_position`,
`booked_position`, `exit_alert` and `open_position`, with the columns the execution path
reads or writes.  Keys are autoincremented and rows of the first tables are never deleted,
so a table is the list of its rows and a row's key is its position in the list.
Instants are microseconds, prices and money are exact rationals.
-/
namespace FxVol

abbrev Instant := ℤ

inductive Side | buy | sell
  deriving DecidableEq

def Side.opposite : Side → Side
  | .buy => .sell
  | .sell => .buy

@[simp] theorem Side.opposite_opposite (s : Side) : s.opposite.opposite = s := by cases s <;> rfl

theorem Side.opposite_ne (s : Side) : s.opposite ≠ s := by cases s <;> decide

inductive OrderState
  | pending | submitted | acknowledged | partiallyFilled | filled | rejected | cancelled | expired
  deriving DecidableEq

inductive OrderRole | entry | closing | unwind | hedge
  deriving DecidableEq

inductive ContractType | call | put | future
  deriving DecidableEq

inductive OrderType | lmt | mkt
  deriving DecidableEq

inductive StructureState
  | submitted | partialFill | fullyFilled | partialFail | fullyFailed | closed
  deriving DecidableEq

inductive PositionState | open | closing | closed | expired
  deriving DecidableEq

structure Date where
  year : ℕ
  month : ℕ
  day : ℕ
  deriving DecidableEq

/-- An id IB gave to an execution, or the id `combo-{permId}-{orderId}` that the aggregate
booking of a filled BAG makes up for one of its legs. -/
inductive ExecId
  | ib (execId : String)
  | combo (perm : String) (orderId : ℕ)
  deriving DecidableEq

/-- One row of `trade_structure`. -/
structure TradeStructure where
  state : StructureState
  stateUpdatedAt : Instant
  submitClaimedAt : Option Instant
  rollbackStartedAt : Option Instant
  totalPremiumPaidUsd : Option ℚ
  totalSlippageUsd : Option ℚ
  totalCommissionUsd : Option ℚ
  totalEntryCostUsd : Option ℚ
  firstFillAt : Option Instant
  fullyFilledAt : Option Instant
  deriving DecidableEq

/-- One row of `trade_order`: a leg of a structure. -/
structure StructureOrder where
  structureId : ℕ
  legIdx : ℕ
  orderRole : OrderRole
  ibOrderId : Option ℕ
  ibPermId : Option ℕ
  ibLocalSymbol : Option String
  contractSymbol : String
  contractType : ContractType
  contractExpiry : Option Date
  contractStrike : Option ℚ
  contractExchange : String
  contractCurrency : String
  side : Side
  qty : ℕ
  orderType : OrderType
  limitPrice : Option ℚ
  previewIvPct : Option ℚ
  previewPrice : Option ℚ
  state : OrderState
  stateUpdatedAt : Instant
  submittedAt : Option Instant
  submitClaimedAt : Option Instant
  acknowledgedAt : Option Instant
  rejectedAt : Option Instant
  rejectionText : Option String
  qtyFilled : ℕ
  avgFillPrice : Option ℚ
  totalCommissionUsd : ℚ
  fullyFilledAt : Option Instant
  slippagePerContract : Option ℚ
  totalSlippageUsd : Option ℚ
  closesOrderId : Option ℕ
  deriving DecidableEq

/-- One row of `trade_fill`: an execution booked on a leg. -/
structure StructureFill where
  orderId : ℕ
  ibExecutionId : ExecId
  timestamp : Instant
  qtyFilled : ℕ
  fillPrice : ℚ
  commissionUsd : ℚ
  currency : Option String
  exchange : Option String
  side : Side
  deriving DecidableEq

/-- One row of `leg_position`, the book of a leg. -/
structure LegPosition where
  openQty : ℤ
  reservedQty : ℕ
  avgPrice : Option ℚ
  deriving DecidableEq

/-- One row of `booked_position`. -/
structure BookedPosition where
  structureId : ℕ
  openedAt : Instant
  entryPremiumUsd : ℚ
  entryTotalCostUsd : ℚ
  state : PositionState
  deriving DecidableEq

/-- One row of `exit_alert`, as far as the close of a position uses it. -/
structure ExitAlert where
  positionId : ℕ
  ruleTriggered : String
  autoExecuted : Bool
  executionStatus : Option String
  closingStructureId : Option ℕ
  deriving DecidableEq

/-- One row of `open_position`, the netted IB mirror: one row for a contract held. -/
structure OpenPosition where
  id : ℕ
  localSymbol : String
  side : Side
  quantity : ℕ
  expiry : Option Date
  tradeId : Option ℕ
  marketPrice : Option ℚ
  deriving DecidableEq

structure Db where
  structures : List TradeStructure
  orders : List StructureOrder
  fills : List StructureFill
  legPositions : ℕ → Option LegPosition
  bookedPositions : List BookedPosition
  exitAlerts : List ExitAlert
  openPositions : List OpenPosition

namespace Db

def empty : Db where
  structures := []
  orders := []
  fills := []
  legPositions := fun _ => none
  bookedPositions := []
  exitAlerts := []
  openPositions := []

/-- `select(StructureFill).where(order_id == …)` -/
def fillsOf (db : Db) (orderId : ℕ) : List StructureFill :=
  db.fills.filter fun f => f.orderId = orderId

def setOrder (db : Db) (orderId : ℕ) (o : StructureOrder) : Db :=
  { db with orders := db.orders.set orderId o }

/-- A write to the columns of one order row; nothing when there is no such row. -/
def updateOrder (db : Db) (orderId : ℕ) (change : StructureOrder → StructureOrder) : Db :=
  { db with orders := db.orders.modify orderId change }

def setStructure (db : Db) (structureId : ℕ) (s : TradeStructure) : Db :=
  { db with structures := db.structures.set structureId s }

def setLegPosition (db : Db) (orderId : ℕ) (lp : LegPosition) : Db :=
  { db with legPositions := Function.update db.legPositions orderId (some lp) }

/-- `select(StructureOrder).where(structure_id == …)`, each row with its key. -/
def ordersOf (db : Db) (structureId : ℕ) : List (StructureOrder × ℕ) :=
  db.orders.zipIdx.filter fun p => p.1.structureId = structureId

/-- The keys of the order rows a query selects, in key order. -/
def orderIds (db : Db) (p : StructureOrder → Bool) : List ℕ :=
  (db.orders.zipIdx.filter fun x => p x.1).map (·.2)

/-- The quantity recorded on an order: the sum of `qty_filled` over its fill rows. -/
def recorded (db : Db) (orderId : ℕ) : ℕ := ((db.fillsOf orderId).map (·.qtyFilled)).sum

theorem mem_orderIds {db : Db} {p : StructureOrder → Bool} {i : ℕ} :
    i ∈ db.orderIds p ↔ ∃ o, db.orders[i]? = some o ∧ p o := by
  simp only [orderIds, List.mem_map, List.mem_filter, Prod.exists, exists_eq_right]
  constructor
  · rintro ⟨o, hmem, hp⟩
    exact ⟨o, List.mem_zipIdx_iff_getElem?.mp hmem, hp⟩
  · rintro ⟨o, ho, hp⟩
    exact ⟨o, List.mem_zipIdx_iff_getElem?.mpr ho, hp⟩

theorem ordersOf_rows (db : Db) (s : ℕ) :
    (db.ordersOf s).map (·.1) = db.orders.filter fun o => o.structureId = s := by
  have hrows : db.orders.zipIdx.map (·.1) = db.orders := List.zipIdx_map_fst 0 db.orders
  rw [ordersOf]
  conv_rhs => rw [← hrows, List.filter_map]
  rfl

theorem keys_nodup (db : Db) : (db.orders.zipIdx.map (·.2)).Nodup := by
  have hrange : db.orders.zipIdx.map (·.2) = List.range db.orders.length := by
    simp [List.range_eq_range']
  rw [hrange]
  exact List.nodup_range

theorem orderIds_nodup (db : Db) (p : StructureOrder → Bool) : (db.orderIds p).Nodup := by
  have hsub : (db.orderIds p).Sublist (db.orders.zipIdx.map (·.2)) :=
    List.filter_sublist.map _
  exact hsub.nodup db.keys_nodup

section Frames
variable (db : Db) (i : ℕ) (o : StructureOrder) (s : TradeStructure) (lp : LegPosition)

@[simp] theorem setOrder_orders : (db.setOrder i o).orders = db.orders.set i o := rfl
@[simp] theorem setOrder_fills : (db.setOrder i o).fills = db.fills := rfl
@[simp] theorem setOrder_legPositions : (db.setOrder i o).legPositions = db.legPositions := rfl
@[simp] theorem setOrder_structures : (db.setOrder i o).structures = db.structures := rfl
@[simp] theorem setOrder_bookedPositions :
    (db.setOrder i o).bookedPositions = db.bookedPositions := rfl
@[simp] theorem setOrder_openPositions : (db.setOrder i o).openPositions = db.openPositions := rfl
@[simp] theorem updateOrder_fills (g : StructureOrder → StructureOrder) :
    (db.updateOrder i g).fills = db.fills := rfl
@[simp] theorem updateOrder_legPositions (g : StructureOrder → StructureOrder) :
    (db.updateOrder i g).legPositions = db.legPositions := rfl
@[simp] theorem updateOrder_structures (g : StructureOrder → StructureOrder) :
    (db.updateOrder i g).structures = db.structures := rfl
@[simp] theorem updateOrder_openPositions (g : StructureOrder → StructureOrder) :
    (db.updateOrder i g).openPositions = db.openPositions := rfl
@[simp] theorem setStructure_orders : (db.setStructure i s).orders = db.orders := rfl
@[simp] theorem setStructure_fills : (db.setStructure i s).fills = db.fills := rfl
@[simp] theorem setStructure_legPositions :
    (db.setStructure i s).legPositions = db.legPositions := rfl
@[simp] theorem setLegPosition_orders : (db.setLegPosition i lp).orders = db.orders := rfl
@[simp] theorem setLegPosition_fills : (db.setLegPosition i lp).fills = db.fills := rfl
@[simp] theorem setLegPosition_structures :
    (db.setLegPosition i lp).structures = db.structures := rfl
@[simp] theorem setLegPosition_bookedPositions :
    (db.setLegPosition i lp).bookedPositions = db.bookedPositions := rfl
@[simp] theorem setLegPosition_openPositions :
    (db.setLegPosition i lp).openPositions = db.openPositions := rfl

@[simp] theorem setLegPosition_self : (db.setLegPosition i lp).legPositions i = some lp := by
  simp [setLegPosition]

theorem setLegPosition_ne {j : ℕ} (h : j ≠ i) :
    (db.setLegPosition i lp).legPositions j = db.legPositions j := by
  simp [setLegPosition, Function.update_of_ne h]

theorem setOrder_getElem?_self (h : db.orders[i]?.isSome) :
    (db.setOrder i o).orders[i]? = some o := by
  have hi : i < db.orders.length := by
    by_contra hle
    simp [List.getElem?_eq_none (Nat.le_of_not_lt hle)] at h
  simp [hi]

theorem setOrder_getElem?_ne {j : ℕ} (h : j ≠ i) :
    (db.setOrder i o).orders[j]? = db.orders[j]? := by
  simp [Ne.symm h]

@[simp] theorem updateOrder_getElem?_self (g : StructureOrder → StructureOrder) :
    (db.updateOrder i g).orders[i]? = (db.orders[i]?).map g := by
  simp [updateOrder]

theorem updateOrder_getElem?_ne (g : StructureOrder → StructureOrder) {j : ℕ} (h : j ≠ i) :
    (db.updateOrder i g).orders[j]? = db.orders[j]? := by
  simp [updateOrder, Ne.symm h]

/-- Two databases with the same fill table have the same fills of each order. -/
theorem fillsOf_congr {db db' : Db} (h : db'.fills = db.fills) (i : ℕ) :
    db'.fillsOf i = db.fillsOf i := by simp [fillsOf, h]

theorem recorded_congr {db db' : Db} (h : db'.fills = db.fills) (i : ℕ) :
    db'.recorded i = db.recorded i := by simp [recorded, fillsOf_congr h]

end Frames

end Db

end FxVol
