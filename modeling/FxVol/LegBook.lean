import FxVol.OrderStateMachine
import FxVol.FillAggregates
import Mathlib.Tactic.Linarith

/-!
# Materialising `leg_position`

Two single writers, one for each half of the row: `rebuild_leg` folds the fills of a leg
into `open_qty` and `avg_price`, `recompute_reservation` sums what the working closing
orders of a leg have left into `reserved_qty`.  The pure admission law of the reservation
ledger (`available`, `try_reserve`) stands beside them.
-/
namespace FxVol

def LegPosition.default : LegPosition := ⟨0, 0, none⟩

/-- The row of a leg, created with its column defaults when there is none. -/
def legRow (db : Db) (orderId : ℕ) : LegPosition :=
  (db.legPositions orderId).getD LegPosition.default

def rebuildLeg (db : Db) (orderId : ℕ) : Db :=
  let fold := foldFills (db.fillsOf orderId)
  db.setLegPosition orderId
    { legRow db orderId with openQty := fold.openQty, avgPrice := fold.avgPrice }

/-- `_NON_TERMINAL`: an in-flight close still holding a reservation. -/
def OrderState.isNonTerminal : OrderState → Bool
  | .pending | .submitted | .acknowledged | .partiallyFilled => true
  | .filled | .rejected | .cancelled | .expired => false

theorem OrderState.isNonTerminal_eq (s : OrderState) : s.isNonTerminal = !s.isTerminal := by
  cases s <;> rfl

/-- What one order reserves on an entry leg: its unfilled rest, while it is a working
closing order of that leg. -/
def StructureOrder.reserves (o : StructureOrder) (entryOrderId : ℕ) : ℕ :=
  if o.closesOrderId = some entryOrderId ∧ o.orderRole = .closing ∧ o.state.isNonTerminal then
    o.qty - o.qtyFilled
  else 0

/-- `Σ max(qty - qty_filled, 0)` over the working closing orders of an entry leg. -/
def inFlight (db : Db) (entryOrderId : ℕ) : ℕ :=
  (db.orders.map (·.reserves entryOrderId)).sum

def recomputeReservation (db : Db) (entryOrderId : ℕ) : Db :=
  db.setLegPosition entryOrderId
    { legRow db entryOrderId with reservedQty := inFlight db entryOrderId }

/-- The call the fill paths make after they touched a closing order. -/
def releaseReservation (db : Db) (o : StructureOrder) : Db :=
  match o.orderRole, o.closesOrderId with
  | .closing, some entryOrderId => recomputeReservation db entryOrderId
  | _, _ => db

/-- `available`: headroom left to close. -/
def available (openQty reservedQty : ℚ) : ℚ := |openQty| - reservedQty

inductive ReserveError
  | valueError
  | overReserve (requested availableQty openQty reservedQty : ℚ)
  deriving DecidableEq

def tryReserve (openQty reservedQty requested : ℚ) : Except ReserveError ℚ :=
  if requested < 0 then .error .valueError
  else if available openQty reservedQty + 1 / 10 ^ 9 < requested then
    .error (.overReserve requested (available openQty reservedQty) openQty reservedQty)
  else .ok (reservedQty + requested)

section Frames
variable (db : Db) (i : ℕ)

@[simp] theorem rebuildLeg_orders : (rebuildLeg db i).orders = db.orders := rfl
@[simp] theorem rebuildLeg_fills : (rebuildLeg db i).fills = db.fills := rfl
@[simp] theorem rebuildLeg_structures : (rebuildLeg db i).structures = db.structures := rfl
@[simp] theorem rebuildLeg_bookedPositions :
    (rebuildLeg db i).bookedPositions = db.bookedPositions := rfl
@[simp] theorem rebuildLeg_openPositions : (rebuildLeg db i).openPositions = db.openPositions := rfl
@[simp] theorem recomputeReservation_openPositions :
    (recomputeReservation db i).openPositions = db.openPositions := rfl
@[simp] theorem recomputeReservation_orders : (recomputeReservation db i).orders = db.orders := rfl
@[simp] theorem recomputeReservation_fills : (recomputeReservation db i).fills = db.fills := rfl
@[simp] theorem recomputeReservation_structures :
    (recomputeReservation db i).structures = db.structures := rfl
@[simp] theorem recomputeReservation_bookedPositions :
    (recomputeReservation db i).bookedPositions = db.bookedPositions := rfl

variable (o : StructureOrder)

@[simp] theorem releaseReservation_orders : (releaseReservation db o).orders = db.orders := by
  unfold releaseReservation
  split <;> rfl

@[simp] theorem releaseReservation_fills : (releaseReservation db o).fills = db.fills := by
  unfold releaseReservation
  split <;> rfl

@[simp] theorem releaseReservation_structures :
    (releaseReservation db o).structures = db.structures := by
  unfold releaseReservation
  split <;> rfl

@[simp] theorem releaseReservation_openPositions :
    (releaseReservation db o).openPositions = db.openPositions := by
  unfold releaseReservation
  split <;> rfl

@[simp] theorem releaseReservation_bookedPositions :
    (releaseReservation db o).bookedPositions = db.bookedPositions := by
  unfold releaseReservation
  split <;> rfl

end Frames

section Columns
variable {db : Db} {i j : ℕ}

/-- The fill-derived half of a leg's row, `none` when the row is missing. -/
def foldOf (db : Db) (i : ℕ) : Option (ℤ × Option ℚ) :=
  (db.legPositions i).map fun lp => (lp.openQty, lp.avgPrice)

def reservedOf (db : Db) (i : ℕ) : ℕ := (legRow db i).reservedQty

theorem foldOf_rebuildLeg_self : foldOf (rebuildLeg db i) i =
    some ((foldFills (db.fillsOf i)).openQty, (foldFills (db.fillsOf i)).avgPrice) := by
  simp [foldOf, rebuildLeg]

theorem foldOf_rebuildLeg_ne (h : j ≠ i) : foldOf (rebuildLeg db i) j = foldOf db j := by
  simp [foldOf, rebuildLeg, Db.setLegPosition_ne _ _ _ h]

/-- The reservation ledger never writes the fill-derived half of an existing row; a row it
creates has none. -/
theorem foldOf_recomputeReservation (db : Db) (i j : ℕ) :
    foldOf (recomputeReservation db i) j = foldOf db j ∨
      foldOf db j = none ∧ foldOf (recomputeReservation db i) j = some (0, none) := by
  by_cases hji : j = i
  · subst hji
    cases hlp : db.legPositions j with
    | none => right; simp [foldOf, recomputeReservation, legRow, hlp, LegPosition.default]
    | some lp => left; simp [foldOf, recomputeReservation, legRow, hlp]
  · left
    simp [foldOf, recomputeReservation, Db.setLegPosition_ne _ _ _ hji]

theorem foldOf_releaseReservation {x : ℤ × Option ℚ} (o : StructureOrder)
    (h : foldOf db j = some x) : foldOf (releaseReservation db o) j = some x := by
  unfold releaseReservation
  split
  · next entryOrderId _ _ =>
    rcases foldOf_recomputeReservation db entryOrderId j with hsame | ⟨hnone, _⟩
    · exact hsame.trans h
    · rw [h] at hnone
      cases hnone
  · exact h

@[simp] theorem reservedOf_rebuildLeg : reservedOf (rebuildLeg db i) j = reservedOf db j := by
  by_cases h : j = i
  · subst h
    simp [reservedOf, legRow, rebuildLeg]
  · simp [reservedOf, legRow, rebuildLeg, Db.setLegPosition_ne _ _ _ h]

@[simp] theorem reservedOf_recomputeReservation_self :
    reservedOf (recomputeReservation db i) i = inFlight db i := by
  simp [reservedOf, legRow, recomputeReservation]

theorem reservedOf_recomputeReservation_ne (h : j ≠ i) :
    reservedOf (recomputeReservation db i) j = reservedOf db j := by
  simp [reservedOf, legRow, recomputeReservation, Db.setLegPosition_ne _ _ _ h]

end Columns

/-- A reservation that `try_reserve` grants leaves the headroom non-negative up to its
tolerance. -/
theorem tryReserve_available {openQty reservedQty requested reserved : ℚ}
    (h : tryReserve openQty reservedQty requested = .ok reserved) :
    reserved = reservedQty + requested ∧ -(1 / 10 ^ 9) ≤ available openQty reserved := by
  unfold tryReserve at h
  split_ifs at h with hneg hover
  obtain rfl := Except.ok.inj h
  refine ⟨rfl, ?_⟩
  unfold available at hover ⊢
  linarith

end FxVol
