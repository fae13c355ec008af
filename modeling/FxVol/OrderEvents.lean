import FxVol.CloseRequests
import FxVol.GuardedRuns

/-!
# The order book as a system of writers

Every transaction that writes `trade_order`, `trade_fill` or `leg_position`, as one event of
a single transition system.  Events may come in any order and any number of times, with any
parameters, so its runs contain every interleaving of the engine's handlers, its background
loops and the API requests.
-/
namespace FxVol

open GuardedRuns

/-- What a new leg carries besides its keys. -/
structure LegSpec where
  contractSymbol : String
  contractType : ContractType
  contractExpiry : Option Date
  contractStrike : Option ℚ
  side : Side
  qty : ℕ
  orderType : OrderType
  limitPrice : Option ℚ
  previewIvPct : Option ℚ
  previewPrice : Option ℚ
  deriving DecidableEq

def LegSpec.order (leg : LegSpec) (structureId legIdx : ℕ) (role : OrderRole) (now : Instant) :
    StructureOrder :=
  { StructureOrder.new structureId legIdx role leg.side leg.qty now with
    contractSymbol := leg.contractSymbol
    contractType := leg.contractType
    contractExpiry := leg.contractExpiry
    contractStrike := leg.contractStrike
    orderType := leg.orderType
    limitPrice := leg.limitPrice
    previewIvPct := leg.previewIvPct
    previewPrice := leg.previewPrice }

/-- The live branch of `submit_preview`: a structure and its pending entry legs. -/
def submitPreview (db : Db) (legs : List LegSpec) (now : Instant) : Db :=
  let structureId := db.structures.length
  { db.addStructure (TradeStructure.new now) with
    orders := db.orders ++ legs.mapIdx fun i leg => leg.order structureId i .entry now }

def StructureOrder.stamped (o : StructureOrder) (ibOrderId ibPermId : Option ℕ) (now : Instant) :
    StructureOrder :=
  { o with
    ibOrderId := ibOrderId
    ibPermId := ibPermId
    submittedAt := some now
    state := .submitted
    stateUpdatedAt := now }

/-- `stamp_placement` on a `trade_order` row. -/
def stampPlacement (db : Db) (orderId : ℕ) (ibOrderId ibPermId : Option ℕ) (now : Instant) : Db :=
  db.updateOrder orderId fun o => o.stamped ibOrderId ibPermId now

def StructureOrder.stampedLive (o : StructureOrder) (ibOrderId ibPermId : Option ℕ)
    (limitPrice : Option ℚ) (now : Instant) : StructureOrder :=
  { o with
    ibOrderId := ibOrderId
    ibPermId := ibPermId
    limitPrice := limitPrice.or o.limitPrice
    state := .submitted
    submittedAt := some now }

/-- The ids and state `submit_structure_live` stamps on a leg it placed. -/
def stampLive (db : Db) (orderId : ℕ) (ibOrderId ibPermId : Option ℕ) (limitPrice : Option ℚ)
    (now : Instant) : Db :=
  db.updateOrder orderId fun o => o.stampedLive ibOrderId ibPermId limitPrice now

inductive Event
  | submitPreview (legs : List LegSpec) (now : Instant)
  | createUnwind (structureId legIdx : ℕ) (leg : LegSpec) (now : Instant)
  | stampLive (orderId : ℕ) (ibOrderId ibPermId : Option ℕ) (limitPrice : Option ℚ) (now : Instant)
  | stampPlacement (orderId : ℕ) (ibOrderId ibPermId : Option ℕ) (now : Instant)
  | orderStatus (orderId : ℕ) (status : IbStatus) (reason : Option String) (now : Instant)
  | comboStatus (perm : String) (orderIds : List ℕ) (status : IbStatus) (reason : Option String)
      (now : Instant)
  | execution (orderId : ℕ) (fill : IbFill) (now : Instant)
  | commissionReport (orderId : ℕ) (execId : String) (commission : Option ℚ)
      (currency : Option String)
  | completeStructure (structureId : ℕ) (now : Instant)
  | reconcile (now : Instant)
  | reap (trades : List IbTrade) (tau : ℤ) (now : Instant)
  | reconnect (trades : List IbTrade) (now : Instant)
  | syncPositions (rows : List OpenPosition)
  | closeRequest (pos : OpenPosition) (qty : ℕ) (limitPrice : Option ℚ) (entryOrderId : Option ℕ)
      (rth : Bool) (now : Instant)
  | closeAnswer (orderId : ℕ) (outcome : DispatchOutcome) (now : Instant)
  | cancelTrade (tradeId : ℕ) (acknowledged : List ℕ) (now : Instant)
  | positionClose (positionId : ℕ) (exitAlertId : Option ℕ) (now : Instant)

/-- One committed transaction; a handler that raises leaves the tables as they are. -/
def step (db : Db) : Event → Db
  | .submitPreview legs now => submitPreview db legs now
  | .createUnwind structureId legIdx leg now =>
    match db.insertOrder (leg.order structureId legIdx .unwind now) with
    | .ok db' => db'
    | .error _ => db
  | .stampLive orderId ibOrderId ibPermId limitPrice now =>
    stampLive db orderId ibOrderId ibPermId limitPrice now
  | .stampPlacement orderId ibOrderId ibPermId now =>
    stampPlacement db orderId ibOrderId ibPermId now
  | .orderStatus orderId status reason now => onOrderStatus db orderId status reason now
  | .comboStatus perm orderIds status reason now =>
    (onComboStatus db perm orderIds status reason now).1
  | .execution orderId fill now => deliverFill db orderId fill now
  | .commissionReport orderId execId commission currency =>
    onCommissionReport db orderId execId commission currency
  | .completeStructure structureId now => (maybeCompleteStructure db structureId now).1
  | .reconcile now => (reconcileStuckOrders db now).1
  | .reap trades tau now => reapStaleOrders db trades tau now
  | .reconnect trades now => attachOptionHandlers db trades now
  | .syncPositions rows => { db with openPositions := rows }
  | .closeRequest pos qty limitPrice entryOrderId rth now =>
    match closeOneOpenPosition db pos qty limitPrice entryOrderId rth now with
    | .ok (db', _) => db'
    | .error _ => db
  | .closeAnswer orderId outcome now => closeAnswer db orderId outcome now
  | .cancelTrade tradeId acknowledged now => cancelTrade db tradeId acknowledged now
  | .positionClose positionId exitAlertId now =>
    match initiatePositionClose db positionId exitAlertId now with
    | .ok (db', _) => db'
    | .error _ => db

/-- The databases the writers can produce. -/
def Reachable (db : Db) : Prop := Run step (fun _ _ => True) Db.empty db

theorem reachable_events (es : List Event) : Reachable (es.foldl step Db.empty) :=
  Run.of_events es

/-- Legs, executions and positions for concrete runs. -/
def callLeg (side : Side) (qty : ℕ) : LegSpec where
  contractSymbol := "EUR"
  contractType := .call
  contractExpiry := some ⟨2026, 9, 4⟩
  contractStrike := some (23 / 20)
  side := side
  qty := qty
  orderType := .lmt
  limitPrice := some (1 / 100)
  previewIvPct := none
  previewPrice := some (1 / 100)

def execution (execId execSide : String) (shares : ℕ) (commission : Option ℚ) : IbFill where
  execId := execId
  shares := shares
  price := 1 / 100
  execSide := execSide
  time := 0
  exchange := some "CME"
  orderRef := none
  conId := 1
  localSymbol := some "EUUU6 C1150"
  contractCurrency := some "USD"
  commission := commission
  reportCurrency := none

def callPosition (side : Side) (quantity : ℕ) : OpenPosition where
  id := 1
  localSymbol := "EUUU6 C1150"
  side := side
  quantity := quantity
  expiry := some ⟨2026, 9, 4⟩
  tradeId := some 0
  marketPrice := some (1 / 100)

end FxVol
