import FxVol.LegBook

/-!
# The ib_insync event handlers

Order status, execution, commission report and combo (BAG) events, each as the change one
committed transaction makes to the tables.  A handler that raises commits nothing and its
caller logs the exception.  The structure cascade runs in a session of its own after the
fill has committed, so a handler only returns the structure it would complete.
-/
namespace FxVol

/-- `s[:n]` -/
def truncate (n : ℕ) (s : String) : String := String.ofList (s.toList.take n)

/-- `s.strip()` -/
def strip (s : String) : String :=
  String.ofList
    (((s.toList.dropWhile Char.isWhitespace).reverse.dropWhile Char.isWhitespace).reverse)

/-- `x or None` on a text: the empty text counts as absent. -/
def nonEmpty (s : String) : Option String := if s = "" then none else some s

/-- The change a status event makes to the row it is about. -/
def StructureOrder.onStatus (o : StructureOrder) (status : IbStatus) (reason : Option String)
    (now : Instant) : StructureOrder :=
  let tr := nextState o.state status reason.isSome
  match tr.kind, tr.newState with
  | .unknown, _ | .ignoredTerminal, _ | .held, _ => o
  | _, some .submitted =>
    { o with state := .submitted, submittedAt := some (o.submittedAt.getD now) }
  | _, some .rejected =>
    { o with
      state := .rejected
      rejectedAt := some now
      rejectionText := some (truncate 300 (reason.getD status.text)) }
  | _, some .cancelled => { o with state := .cancelled }
  | .noop, _ =>
    if o.state = .submitted ∧ o.acknowledgedAt = none then { o with acknowledgedAt := some now }
    else o
  | _, _ => o

def onOrderStatus (db : Db) (orderId : ℕ) (status : IbStatus) (reason : Option String)
    (now : Instant) : Db :=
  db.updateOrder orderId fun o => o.onStatus status reason now

/-- What the handlers read of an ib_insync `Fill`: its execution, its contract and the
commission report attached to it, if any yet. -/
structure IbFill where
  execId : String
  shares : ℕ
  price : ℚ
  execSide : String
  time : Instant
  exchange : Option String
  orderRef : Option String
  conId : ℕ
  localSymbol : Option String
  contractCurrency : Option String
  commission : Option ℚ
  reportCurrency : Option String
  deriving DecidableEq

/-- `BOT` and `BUY` are bought, everything else is sold. -/
def normaliseSide (execSide : String) : Side :=
  if execSide.toUpper ∈ ["BOT", "BUY"] then .buy else .sell

def fillCurrency (fill : IbFill) : Option String :=
  let cur := (fill.reportCurrency.bind nonEmpty).or fill.contractCurrency
  nonEmpty (truncate 5 (strip (cur.getD "")).toUpper)

def fillRow (orderId : ℕ) (fill : IbFill) : StructureFill where
  orderId := orderId
  ibExecutionId := .ib fill.execId
  timestamp := fill.time
  qtyFilled := fill.shares
  fillPrice := fill.price
  commissionUsd := fill.commission.getD 0
  currency := fillCurrency fill
  exchange := fill.exchange
  side := normaliseSide fill.execSide

inductive DbError | integrityError
  deriving DecidableEq

/-- Flushing a `trade_fill` row: `order_id` is a foreign key and `ib_execution_id` is unique
over the whole table. -/
def Db.insertFill (db : Db) (row : StructureFill) : Except DbError Db :=
  if row.orderId < db.orders.length ∧ row.ibExecutionId ∉ db.fills.map (·.ibExecutionId) then
    .ok { db with fills := db.fills ++ [row] }
  else .error .integrityError

/-- `_recompute_aggregates`: the fold of every persisted fill of an order. -/
def recomputeAggregates (db : Db) (orderId : ℕ) (o : StructureOrder) : OrderAggregate :=
  updateOrderAggregates (db.fillsOf orderId) o.qty o.side o.previewPrice

def StructureOrder.withAggregates (o : StructureOrder) (agg : OrderAggregate) : StructureOrder :=
  { o with
    qtyFilled := agg.qtyFilled
    avgFillPrice := agg.avgFillPrice
    totalCommissionUsd := agg.totalCommissionUsd
    slippagePerContract := agg.slippagePerContract
    totalSlippageUsd := agg.totalSlippageUsd }

/-- Records the `localSymbol` of the executed contract on the first fill. -/
def StructureOrder.stampLocalSymbol (o : StructureOrder) (fill : IbFill) : StructureOrder :=
  { o with
    ibLocalSymbol := o.ibLocalSymbol.or ((fill.localSymbol.bind nonEmpty).map (truncate 20)) }

/-- The state an order takes from its refreshed aggregates after a fill. -/
def StructureOrder.afterFill (o : StructureOrder) (agg : OrderAggregate) (now : Instant) :
    StructureOrder :=
  if agg.fullyFilled ∧ o.state ≠ .filled then
    { o with state := .filled, fullyFilledAt := some now }
  else if agg.fullyFilled then o
  else { o with state := .partiallyFilled }

/-- The order row after one of its executions is persisted. -/
def StructureOrder.booked (o : StructureOrder) (fill : IbFill) (agg : OrderAggregate)
    (now : Instant) : StructureOrder :=
  ((o.stampLocalSymbol fill).withAggregates agg).afterFill agg now

/-- `_persist_fill`, up to its cascade: the new tables and the structure to complete. -/
def persistFill (db : Db) (orderId : ℕ) (fill : IbFill) (now : Instant) :
    Except DbError (Db × Option ℕ) :=
  let existingIds := (db.fillsOf orderId).map (·.ibExecutionId)
  if !applyFillIdempotent existingIds (.ib fill.execId) then .ok (db, none)
  else match db.insertFill (fillRow orderId fill) with
    | .error e => .error e
    | .ok db₁ =>
      match db₁.orders[orderId]? with
      | none => .ok (db₁, none)
      | some o =>
        let agg := recomputeAggregates db₁ orderId o
        let o' := o.booked fill agg now
        let db₂ := rebuildLeg (db₁.setOrder orderId o') orderId
        .ok (releaseReservation db₂ o', if agg.fullyFilled then some o.structureId else none)

/-- One delivery of an execution, live (`_on_execution`, `_persist_fill_safe`) or replayed
(`persist_fill`): an exception commits nothing. -/
def deliverFill (db : Db) (orderId : ℕ) (fill : IbFill) (now : Instant) : Db :=
  match persistFill db orderId fill now with
  | .ok (db', _) => db'
  | .error _ => db

def StructureFill.isExecution (orderId : ℕ) (execId : String) (f : StructureFill) : Bool :=
  f.orderId = orderId ∧ f.ibExecutionId = .ib execId

/-- The commission and currency of a report, written on the fill row it is about. -/
def StructureFill.reported (orderId : ℕ) (execId : String) (commission : ℚ)
    (currency : Option String) (f : StructureFill) : StructureFill :=
  if f.isExecution orderId execId then
    { f with commissionUsd := commission, currency := currency.or f.currency }
  else f

def Db.reportFill (db : Db) (orderId : ℕ) (execId : String) (commission : ℚ)
    (currency : Option String) : Db :=
  { db with fills := db.fills.map fun f => f.reported orderId execId commission currency }

/-- `_on_commission_report`, for the execution id it found on the fill or the report. -/
def onCommissionReport (db : Db) (orderId : ℕ) (execId : String) (commission : Option ℚ)
    (currency : Option String) : Db :=
  let cur := nonEmpty (truncate 5 (strip (currency.getD "")).toUpper)
  if db.fills.any (·.isExecution orderId execId) then
    let db₁ := db.reportFill orderId execId (commission.getD 0) cur
    db₁.updateOrder orderId fun o => o.withAggregates (recomputeAggregates db₁ orderId o)
  else db

/-- The change a combo cancel or reject makes to one leg, with the terminal guard of that
leg. -/
def StructureOrder.onComboCancel (o : StructureOrder) (status : IbStatus) (reason : Option String)
    (now : Instant) : StructureOrder :=
  match (nextState o.state status reason.isSome).newState with
  | some .cancelled => { o with state := .cancelled }
  | some .rejected =>
    { o with
      state := .rejected
      rejectedAt := some now
      rejectionText := some (truncate 300 (reason.getD status.text)) }
  | _ => o

def comboCancelLeg (status : IbStatus) (reason : Option String) (now : Instant) (db : Db)
    (orderId : ℕ) : Db :=
  db.updateOrder orderId fun o => o.onComboCancel status reason now

/-- The synthetic fill of a whole leg of a filled BAG. -/
def comboFillRow (perm : String) (now : Instant) (orderId : ℕ) (o : StructureOrder) :
    StructureFill where
  orderId := orderId
  ibExecutionId := .combo perm orderId
  timestamp := now
  qtyFilled := o.qty
  fillPrice := o.previewPrice.getD 0
  commissionUsd := 0
  currency := none
  exchange := some o.contractExchange
  side := o.side

def StructureOrder.comboBooked (o : StructureOrder) (now : Instant) : StructureOrder :=
  { o with
    qtyFilled := o.qty
    avgFillPrice := some (o.avgFillPrice.getD (o.previewPrice.getD 0))
    state := .filled
    fullyFilledAt := some now }

/-- One leg of `_book_combo_filled`. -/
def bookComboLeg (perm : String) (now : Instant) (db : Db) (orderId : ℕ) : Except DbError Db :=
  match db.orders[orderId]? with
  | none => .ok db
  | some o =>
    if o.state = .filled then .ok db
    else
      let existing := (db.fillsOf orderId).map (·.ibExecutionId)
      let inserted :=
        if .combo perm orderId ∉ existing then db.insertFill (comboFillRow perm now orderId o)
        else .ok db
      match inserted with
      | .error e => .error e
      | .ok db₁ =>
        let o' := o.comboBooked now
        .ok (releaseReservation (rebuildLeg (db₁.setOrder orderId o') orderId) o')

/-- `_book_combo_filled`: every leg in one transaction, then the structure to complete. -/
def bookComboFilled (db : Db) (perm : String) (orderIds : List ℕ) (now : Instant) :
    Except DbError (Db × Option ℕ) :=
  match orderIds.foldlM (bookComboLeg perm now) db with
  | .error e => .error e
  | .ok db' => .ok (db', ((orderIds.filterMap (db.orders[·]?)).getLast?).map (·.structureId))

def onComboStatus (db : Db) (perm : String) (orderIds : List ℕ) (status : IbStatus)
    (reason : Option String) (now : Instant) : Db × Option ℕ :=
  let probe := nextState .submitted status reason.isSome
  match probe.kind, probe.newState with
  | .fillPending, _ =>
    match bookComboFilled db perm orderIds now with
    | .ok r => r
    | .error _ => (db, none)
  | .unknown, _ => (db, none)
  | _, some .cancelled | _, some .rejected =>
    (orderIds.foldl (comboCancelLeg status reason now) db, none)
  | _, _ => (db, none)

end FxVol
