import FxVol.TradeTables
import Mathlib.Algebra.Order.Floor.Ring
import Mathlib.Data.Rat.Floor
import Mathlib.Algebra.Ring.Int.Parity

/-!
# The structure cascade

When every order of a structure's primary role is filled, `maybe_complete_structure` flips
the structure to `fully_filled`, stamps its cross-leg aggregates and, for an entry
structure, books the position.
-/
namespace FxVol

/-- Nearest integer, ties to even. -/
def roundHalfEven (x : ℚ) : ℤ :=
  if x - ⌊x⌋ < 1 / 2 then ⌊x⌋
  else if 1 / 2 < x - ⌊x⌋ then ⌊x⌋ + 1
  else if Even ⌊x⌋ then ⌊x⌋ else ⌊x⌋ + 1

/-- `round(x, digits)` in exact decimal arithmetic. -/
def pyRound (x : ℚ) (digits : ℕ) : ℚ := roundHalfEven (x * 10 ^ digits) / 10 ^ digits

def eurFopMultiplier : ℚ := 125000

/-- `FUTURE_MULTIPLIERS`: `full` and `micro`. -/
def futureMultiplier (contractSymbol : String) : ℚ :=
  if contractSymbol = "M6E" then 12500 else 125000

def StructureOrder.multiplier (o : StructureOrder) : ℚ :=
  if o.contractType = .future then futureMultiplier o.contractSymbol else eurFopMultiplier

def sideSign : Side → ℚ
  | .buy => 1
  | .sell => -1

/-- The premium a leg adds to its structure; a future carries none. -/
def StructureOrder.premium (o : StructureOrder) : ℚ :=
  if o.contractType = .future then 0
  else sideSign o.side * o.avgFillPrice.getD 0 * o.qtyFilled * eurFopMultiplier

def totalPremium (orders : List StructureOrder) : ℚ := (orders.map (·.premium)).sum

def totalCommission (orders : List StructureOrder) : ℚ :=
  (orders.map (·.totalCommissionUsd)).sum

def totalSlippage (orders : List StructureOrder) : ℚ :=
  (orders.map fun o => o.totalSlippageUsd.getD 0 * o.multiplier).sum

/-- The orders whose fills complete a structure: its closing orders when it has no others,
else its entry orders. -/
def primaryOrders (orders : List StructureOrder) : List StructureOrder :=
  let primaryRole : OrderRole :=
    if orders.all fun o => o.orderRole = .closing then .closing else .entry
  orders.filter fun o => o.orderRole = primaryRole

def TradeStructure.completed (s : TradeStructure) (orders : List StructureOrder) (now : Instant) :
    TradeStructure :=
  let filledAt := orders.filterMap (·.fullyFilledAt)
  { s with
    state := .fullyFilled
    firstFillAt := some (filledAt.min?.getD now)
    fullyFilledAt := some (filledAt.max?.getD now)
    totalPremiumPaidUsd := some (pyRound (totalPremium orders) 4)
    totalSlippageUsd := some (pyRound (totalSlippage orders) 4)
    totalCommissionUsd := some (pyRound (totalCommission orders) 2)
    totalEntryCostUsd := some (pyRound (totalSlippage orders + totalCommission orders) 2) }

def bookPosition (db : Db) (structureId : ℕ) (s : TradeStructure) (now : Instant) : Db :=
  if db.bookedPositions.any fun p => p.structureId = structureId then db
  else
    { db with
      bookedPositions := db.bookedPositions ++
        [{ structureId := structureId
           openedAt := now
           entryPremiumUsd := s.totalPremiumPaidUsd.getD 0
           entryTotalCostUsd := s.totalEntryCostUsd.getD 0
           state := .open }] }

/-- `maybe_complete_structure`: the new tables, and whether a closing structure is now to be
finalised. -/
def maybeCompleteStructure (db : Db) (structureId : ℕ) (now : Instant) : Db × Bool :=
  match db.structures[structureId]? with
  | none => (db, false)
  | some s =>
    let allOrders := (db.ordersOf structureId).map (·.1)
    let orders := primaryOrders allOrders
    if s.state = .fullyFilled ∨ orders = [] ∨ ¬ (orders.all fun o => o.state = .filled) then
      (db, false)
    else
      let s' := s.completed orders now
      let db₁ := db.setStructure structureId s'
      if allOrders.all fun o => o.orderRole = .closing then (db₁, true)
      else (bookPosition db₁ structureId s' now, false)

section Frames
variable (db : Db) (structureId : ℕ) (now : Instant)

@[simp] theorem bookPosition_orders (s : TradeStructure) :
    (bookPosition db structureId s now).orders = db.orders := by
  unfold bookPosition
  split <;> rfl

@[simp] theorem bookPosition_structures (s : TradeStructure) :
    (bookPosition db structureId s now).structures = db.structures := by
  unfold bookPosition
  split <;> rfl

@[simp] theorem bookPosition_fills (s : TradeStructure) :
    (bookPosition db structureId s now).fills = db.fills := by
  unfold bookPosition
  split <;> rfl

@[simp] theorem bookPosition_legPositions (s : TradeStructure) :
    (bookPosition db structureId s now).legPositions = db.legPositions := by
  unfold bookPosition
  split <;> rfl

/-- The cascade writes structures and booked positions only. -/
theorem maybeCompleteStructure_frame :
    (maybeCompleteStructure db structureId now).1.orders = db.orders ∧
    (maybeCompleteStructure db structureId now).1.fills = db.fills ∧
    (maybeCompleteStructure db structureId now).1.legPositions = db.legPositions := by
  unfold maybeCompleteStructure
  split
  · exact ⟨rfl, rfl, rfl⟩
  · dsimp only
    split_ifs <;> simp

end Frames

end FxVol
