import FxVol.ContractSymbols
import FxVol.OrderRefs
import FxVol.FillHandlers

/-!
# Stuck orders: the reconciler, the reaper and the adoption sweeps

`reconcile_stuck_orders` repairs an order from its own fills or from the IB mirror,
`reap_stale_orders` drives orders that IB neither works nor holds to `expired`, and both the
reaper and the reconnect adopt orders IB still holds under a reference of ours.
-/
namespace FxVol

/-- `_STUCK_STATES` and `REAPABLE_STATES` -/
def OrderState.isStuck : OrderState → Bool
  | .submitted | .acknowledged | .partiallyFilled => true
  | .pending | .filled | .rejected | .cancelled | .expired => false

theorem OrderState.isTerminal_of_isStuck {s : OrderState} (h : s.isStuck) :
    s.isTerminal = false := by cases s <;> first | rfl | simp [isStuck] at h

def stuckIds (db : Db) : List ℕ := db.orderIds fun o => o.state.isStuck

/-- What the book alone says about a stuck order. -/
def bookVerdict (db : Db) (orderId : ℕ) : Option OrderState :=
  (db.orders[orderId]?).bind fun o => stateFromRecordedFills (db.recorded orderId) o.qty o.state

def StructureOrder.repaired (o : StructureOrder) (recorded : ℕ) (new : OrderState)
    (now : Instant) : StructureOrder :=
  { o with
    state := new
    qtyFilled := min recorded o.qty
    fullyFilledAt := if new = .filled then some now else o.fullyFilledAt }

/-- Pass 1 on one stuck order: book consistency. -/
def bookPass (now : Instant) (db : Db) (orderId : ℕ) : Db :=
  match db.orders[orderId]?, bookVerdict db orderId with
  | some o, some new =>
    rebuildLeg (db.setOrder orderId (o.repaired (db.recorded orderId) new now)) orderId
  | _, _ => db

def mirrorOf (db : Db) (structureId : ℕ) : List OpenPosition :=
  db.openPositions.filter fun p => p.tradeId = some structureId

/-- The first position of the order's structure that is its leg and that no other leg has
claimed. -/
def mirrorMatch (db : Db) (used : List ℕ) (o : StructureOrder) : Option OpenPosition :=
  (mirrorOf db o.structureId).find? fun p => p.id ∉ used ∧ legMatchesPosition o p

def StructureOrder.mirrored (o : StructureOrder) (pos : OpenPosition) (now : Instant) :
    StructureOrder :=
  { o with
    state := .filled
    qtyFilled := o.qty
    avgFillPrice := o.avgFillPrice.or (pos.marketPrice.or o.previewPrice)
    ibLocalSymbol := o.ibLocalSymbol.or ((nonEmpty pos.localSymbol).map (truncate 20))
    fullyFilledAt := some now }

/-- Pass 2 on one order still stuck: the IB mirror.  `used` holds the positions claimed. -/
def mirrorPass (now : Instant) (acc : Db × List ℕ) (orderId : ℕ) : Db × List ℕ :=
  match acc.1.orders[orderId]? with
  | none => acc
  | some o =>
    match mirrorMatch acc.1 acc.2 o with
    | none => acc
    | some pos => (acc.1.setOrder orderId (o.mirrored pos now), pos.id :: acc.2)

/-- `reconcile_stuck_orders`: the new tables, and the structures to complete. -/
def reconcileStuckOrders (db : Db) (now : Instant) : Db × List ℕ :=
  let stuck := stuckIds db
  let db₁ := stuck.foldl (bookPass now) db
  let unresolved := stuck.filter fun i => (bookVerdict db i).isNone
  let db₂ := (unresolved.foldl (mirrorPass now) (db₁, [])).1
  let filledIds := stuck.filter fun i => (db₂.orders[i]?).any fun o => o.state = .filled
  (db₂, (filledIds.filterMap fun i => (db₂.orders[i]?).map (·.structureId)).dedup)

/-- One entry of `list_all_trades`. -/
structure IbTrade where
  orderId : Option ℕ
  permId : Option ℕ
  status : IbStatus
  remaining : ℚ
  orderRef : Option String
  deriving DecidableEq

/-- `_LIVE_IB_STATUSES` -/
def IbStatus.isLive : IbStatus → Bool
  | .submitted | .preSubmitted | .pendingSubmit | .apiPending => true
  | _ => false

/-- `live_ib_order_keys`: order ids and perm ids of the trades still working at IB. -/
def liveIbOrderKeys (trades : List IbTrade) : List ℕ :=
  (trades.filter fun t => t.status.isLive ∧ 0 < t.remaining).flatMap fun t =>
    t.orderId.toList ++ t.permId.toList

def tradeNaming (trades : List IbTrade) (orderId : ℕ) : Option IbTrade :=
  trades.reverse.find? fun t => ((parseOrderRef t.orderRef).map (·.2)) = some (orderId : ℤ)

def StructureOrder.adopted (o : StructureOrder) (t : IbTrade) (now : Instant) : StructureOrder :=
  { o with
    ibOrderId := t.orderId
    ibPermId := t.permId
    state := if o.state = .pending then .submitted else o.state
    stateUpdatedAt := if o.state = .pending then now else o.stateUpdatedAt
    submittedAt := some (o.submittedAt.getD now) }

/-- `_adopt_orphaned_orders` on one row. -/
def adoptOrphan (trades : List IbTrade) (now : Instant) (db : Db) (orderId : ℕ) : Db :=
  match db.orders[orderId]?, tradeNaming trades orderId with
  | some o, some t => if o.ibOrderId = none then db.setOrder orderId (o.adopted t now) else db
  | _, _ => db

def decideReap (state : OrderState) (age tau : ℤ) (heldAtIb matchesContract : Bool) :
    Option OrderState :=
  if !state.isStuck then none
  else if age ≤ tau then none
  else if heldAtIb && matchesContract then some .filled
  else some .expired

def StructureOrder.isLiveAtIb (o : StructureOrder) (live : List ℕ) : Bool :=
  o.ibOrderId.any (· ∈ live) || o.ibPermId.any (· ∈ live)

def StructureOrder.expiredAt (o : StructureOrder) (now : Instant) : StructureOrder :=
  { o with state := .expired, stateUpdatedAt := now }

/-- One stale order of a reaper pass.  `used` holds the mirror rows claimed. -/
def reapOrder (live : List ℕ) (tau : ℤ) (now : Instant) (acc : Db × List ℕ) (orderId : ℕ) :
    Db × List ℕ :=
  match acc.1.orders[orderId]? with
  | none => acc
  | some o =>
    if o.isLiveAtIb live then acc
    else
      let pos := mirrorMatch acc.1 acc.2 o
      let age := now - o.submittedAt.getD now
      match decideReap o.state age tau pos.isSome pos.isSome with
      | some .filled => (acc.1, (pos.map (·.id)).toList ++ acc.2)
      | some .expired =>
        (releaseReservation (acc.1.setOrder orderId (o.expiredAt now)) (o.expiredAt now), acc.2)
      | _ => acc

def planStructureTerminalState (states : List OrderState) : Option StructureState :=
  if states = [] ∨ ¬ (states.all (·.isTerminal)) then none
  else if states.all (· = .filled) then some .fullyFilled
  else if states.all (· ≠ .filled) then some .fullyFailed
  else some .partialFail

def terminaliseStructure (now : Instant) (db : Db) (structureId : ℕ) : Db :=
  match db.structures[structureId]?,
      planStructureTerminalState ((db.ordersOf structureId).map (·.1.state)) with
  | some s, some new =>
    if s.state = new then db
    else db.setStructure structureId { s with state := new, stateUpdatedAt := now }
  | _, _ => db

def staleIds (db : Db) (cutoff : Instant) : List ℕ :=
  db.orderIds fun o => o.state.isStuck ∧ o.submittedAt.any (· < cutoff)

/-- `reap_stale_orders`, on a snapshot of a reporting account. -/
def reapStaleOrders (db : Db) (trades : List IbTrade) (tau : ℤ) (now : Instant) : Db :=
  let db₁ := (List.range db.orders.length).foldl (adoptOrphan trades now) db
  let stale := staleIds db₁ (now - tau)
  let db₂ := (stale.foldl (reapOrder (liveIbOrderKeys trades) tau now) (db₁, [])).1
  let expiredIds := stale.filter fun i => (db₂.orders[i]?).any fun o => o.state = .expired
  (expiredIds.filterMap fun i => (db₂.orders[i]?).map (·.structureId)).dedup.foldl
    (terminaliseStructure now) db₂

def StructureOrder.rewired (o : StructureOrder) (t : IbTrade) (now : Instant) : StructureOrder :=
  { o with
    ibOrderId := o.ibOrderId.or t.orderId
    ibPermId := o.ibPermId.or (t.permId.filter (· ≠ 0))
    state := if o.state = .pending then .submitted else o.state
    stateUpdatedAt := if o.state = .pending then now else o.stateUpdatedAt }

/-- `_attach_option_handlers` on one row: handlers go back on an order still in flight. -/
def attachOptionHandler (trades : List IbTrade) (now : Instant) (db : Db) (orderId : ℕ) : Db :=
  match db.orders[orderId]?, tradeNaming trades orderId with
  | some o, some t => if o.state.isNonTerminal then db.setOrder orderId (o.rewired t now) else db
  | _, _ => db

def attachOptionHandlers (db : Db) (trades : List IbTrade) (now : Instant) : Db :=
  (List.range db.orders.length).foldl (attachOptionHandler trades now) db

end FxVol
