import FxVol.StuckOrders
import FxVol.StructureCompletion

/-!
# Close and cancel requests of the API

The close of one IB position (admission, persistence, dispatch answer), the trade-level
close plan, the trade cancel and the close of a booked position.  A request that waits for
the execution engine commits before and after the wait, so it is two transactions here:
the rows it creates first, the answer it stamps later.
-/
namespace FxVol

open DecimalRounding

structure HttpError where
  status : ℕ
  detail : String
  deriving DecidableEq

def TradeStructure.new (now : Instant) : TradeStructure where
  state := .submitted
  stateUpdatedAt := now
  submitClaimedAt := none
  rollbackStartedAt := none
  totalPremiumPaidUsd := none
  totalSlippageUsd := none
  totalCommissionUsd := none
  totalEntryCostUsd := none
  firstFillAt := none
  fullyFilledAt := none

/-- A `trade_order` row as it is inserted: `pending`, nothing placed and nothing filled. -/
def StructureOrder.new (structureId legIdx : ℕ) (role : OrderRole) (side : Side) (qty : ℕ)
    (now : Instant) : StructureOrder where
  structureId := structureId
  legIdx := legIdx
  orderRole := role
  ibOrderId := none
  ibPermId := none
  ibLocalSymbol := none
  contractSymbol := "EUR"
  contractType := .future
  contractExpiry := none
  contractStrike := none
  contractExchange := "CME"
  contractCurrency := "USD"
  side := side
  qty := qty
  orderType := .lmt
  limitPrice := none
  previewIvPct := none
  previewPrice := none
  state := .pending
  stateUpdatedAt := now
  submittedAt := none
  submitClaimedAt := none
  acknowledgedAt := none
  rejectedAt := none
  rejectionText := none
  qtyFilled := 0
  avgFillPrice := none
  totalCommissionUsd := 0
  fullyFilledAt := none
  slippagePerContract := none
  totalSlippageUsd := none
  closesOrderId := none

def Db.addStructure (db : Db) (s : TradeStructure) : Db :=
  { db with structures := db.structures ++ [s] }

def Db.addOrder (db : Db) (o : StructureOrder) : Db := { db with orders := db.orders ++ [o] }

/-- Inserting a row under `uq_structure_orders_structure_leg_role`. -/
def Db.insertOrder (db : Db) (o : StructureOrder) : Except DbError Db :=
  if db.orders.any fun p =>
      p.structureId = o.structureId ∧ p.legIdx = o.legIdx ∧ p.orderRole = o.orderRole then
    .error .integrityError
  else .ok (db.addOrder o)

def optTick : ℚ := 1 / 10000

def mktCloseBuffer : ℚ := 1 / 4

def outsideRthSlippage : ℚ := 5 / 10000

/-- `mark * factor` in doubles -/
def scaledMark (mark factor : ℚ) : ℚ := toDouble (toDouble mark * toDouble factor)

def closeLimitFromMark (mark : ℚ) : Side → ℚ
  | .buy => scaledMark mark (1 - toDouble outsideRthSlippage)
  | .sell => scaledMark mark (1 + toDouble outsideRthSlippage)

def marketableCloseFromMark (mark : ℚ) (posSide : Side) : Option ℚ :=
  let tick := toDouble optTick
  if mark ≤ 0 then none
  else match posSide with
    | .buy =>
      let lp := toDouble (⌊toDouble (scaledMark mark (1 - mktCloseBuffer) / tick)⌋ * tick)
      some (if tick ≤ lp then pyRound lp 6 else optTick)
    | .sell =>
      some (pyRound (toDouble (⌈toDouble (scaledMark mark (1 + mktCloseBuffer) / tick)⌉ * tick)) 6)

/-- `_INFLIGHT_CLOSE_WINDOW`: three minutes. -/
def inflightCloseWindow : ℤ := 180000000

def closeInflightRemaining (qty qtyFilled : ℕ) (submittedAt : Option Instant)
    (stateUpdatedAt : Instant) (now : Instant) (window : ℤ) : ℕ :=
  if submittedAt.getD stateUpdatedAt < now - window then 0 else qty - qtyFilled

def contractFieldsFromSymbol (localSymbol : String) : String × ContractType × Option ℚ :=
  match parseLocalSymbol localSymbol with
  | none => ("EUR", .future, none)
  | some spec =>
    match spec.instrumentType with
    | .option => ("EUR", spec.optionType.getD .future, spec.strike)
    | .future => (spec.symbol, .future, none)

/-- The closing orders the stacking guard reads: same side and expiry, and the same strike
when the position has one. -/
def stackingCandidate (pos : OpenPosition) (o : StructureOrder) : Bool :=
  let strikeVal := (parseLocalSymbol pos.localSymbol).bind (·.strike)
  o.orderRole = .closing ∧ o.side = pos.side.opposite ∧ o.contractExpiry = pos.expiry ∧
    o.state ∈ [OrderState.pending, .submitted, .partiallyFilled] ∧
    (strikeVal = none ∨ o.contractStrike = strikeVal)

def alreadyClosing (db : Db) (pos : OpenPosition) (now : Instant) : ℕ :=
  ((db.orders.filter (stackingCandidate pos)).map fun o =>
    closeInflightRemaining o.qty o.qtyFilled o.submittedAt o.stateUpdatedAt now
      inflightCloseWindow).sum

/-- The order type and limit of a close: the operator's limit, a marketable limit for an
option, a market order for a future inside regular hours, a limit off the mark outside. -/
def closePrice (pos : OpenPosition) (limitPriceOverride : Option ℚ) (rth : Bool) :
    Except HttpError (Option ℚ) :=
  let isOption := (parseLocalSymbol pos.localSymbol).any fun s => s.instrumentType = .option
  match limitPriceOverride, pos.marketPrice with
  | some lp, _ => .ok (some (pyRound lp 6))
  | none, some mark =>
    if isOption then .ok (marketableCloseFromMark mark pos.side)
    else if rth then .ok none
    else .ok (some (pyRound (closeLimitFromMark mark pos.side) 6))
  | none, none =>
    if rth then .ok none
    else .error ⟨400, "position #" ++ toString pos.id ++
      " has no market_price and CME is outside RTH ; supply an explicit limit_price"⟩

/-- The entry leg a close covers: the one the caller names, else the first non-closing order
of the mirror row's trade on this contract. -/
def closeTarget (db : Db) (pos : OpenPosition) (entryOrderIdOverride : Option ℕ) : Option ℕ :=
  entryOrderIdOverride.or <| pos.tradeId.bind fun trade =>
    ((db.ordersOf trade).find? fun p =>
      p.1.orderRole ≠ .closing ∧ p.1.ibLocalSymbol = some pos.localSymbol).map (·.2)

def closingOrder (pos : OpenPosition) (qty structureId : ℕ) (limitPrice : Option ℚ)
    (entryOrderId : Option ℕ) (now : Instant) : StructureOrder :=
  let fields := contractFieldsFromSymbol pos.localSymbol
  { StructureOrder.new structureId 0 .closing pos.side.opposite qty now with
    orderType := if limitPrice.isSome then .lmt else .mkt
    limitPrice := limitPrice
    contractExpiry := pos.expiry
    contractSymbol := fields.1
    contractType := fields.2.1
    contractStrike := fields.2.2
    closesOrderId := entryOrderId }

/-- `close_one_open_position` up to its first commit: the checks, then the closing structure
and its order.  Returns the new tables and the key of the new order. -/
def closeOneOpenPosition (db : Db) (pos : OpenPosition) (qty : ℕ)
    (limitPriceOverride : Option ℚ) (entryOrderIdOverride : Option ℕ) (rth : Bool)
    (now : Instant) : Except HttpError (Db × ℕ) :=
  let openQty := pos.quantity
  if openQty = 0 then .error ⟨400, "position #" ++ toString pos.id ++ " has zero open qty"⟩
  else if openQty < qty then
    .error ⟨400, "qty " ++ toString qty ++ " exceeds open qty " ++ toString openQty ++
      " on position #" ++ toString pos.id⟩
  else if openQty < alreadyClosing db pos now + qty then
    .error ⟨409, "position #" ++ toString pos.id ++ " already has " ++
      toString (alreadyClosing db pos now) ++ " contract(s) closing (open " ++ toString openQty ++
      ") — refusing to stack another close order. Wait for the in-flight close to fill or " ++
      "cancel it first."⟩
  else match closePrice pos limitPriceOverride rth with
    | .error e => .error e
    | .ok limitPrice =>
      let entryOrderId := closeTarget db pos entryOrderIdOverride
      let o := closingOrder pos qty db.structures.length limitPrice entryOrderId now
      let db₁ := (db.addStructure (TradeStructure.new now)).addOrder o
      .ok (releaseReservation db₁ o, db.orders.length)

/-- How the dispatch of a close ended: never sent, no answer, refused by the engine, or
accepted with the ids IB gave. -/
inductive DispatchOutcome
  | notSent (excType : String)
  | unknown
  | refused (detail : String)
  | accepted (ibOrderId ibPermId : Option ℕ)
  deriving DecidableEq

def StructureOrder.answered (o : StructureOrder) (now : Instant) :
    DispatchOutcome → StructureOrder
  | .notSent excType =>
    { o with
      state := .rejected
      rejectionText := some ("execution-engine unreachable: " ++ excType) }
  | .unknown => { o with state := .submitted, submittedAt := some now }
  | .refused detail => { o with state := .rejected, rejectionText := some (truncate 300 detail) }
  | .accepted ibOrderId ibPermId =>
    { o with
      ibOrderId := ibOrderId.or o.ibOrderId
      ibPermId := ibPermId.or o.ibPermId
      state := .submitted
      submittedAt := some now }

/-- `close_one_open_position` after its dispatch. -/
def closeAnswer (db : Db) (orderId : ℕ) (outcome : DispatchOutcome) (now : Instant) : Db :=
  match db.orders[orderId]? with
  | none => db
  | some o =>
    let db₁ := db.setOrder orderId (o.answered now outcome)
    match outcome, db.structures[o.structureId]? with
    | .notSent _, some s | .refused _, some s =>
      db₁.setStructure o.structureId { s with state := .partialFail }
    | _, _ => db₁

def StructureOrder.cancelledAt (o : StructureOrder) (now : Instant) : StructureOrder :=
  { o with state := .cancelled, stateUpdatedAt := now }

def cancelOrder (now : Instant) (db : Db) (orderId : ℕ) : Db :=
  db.updateOrder orderId fun o => o.cancelledAt now

/-- `cancel_trade` at its commit: `acknowledged` are the selected orders whose cancel the
engine answered (or that were never placed). -/
def cancelTrade (db : Db) (tradeId : ℕ) (acknowledged : List ℕ) (now : Instant) : Db :=
  terminaliseStructure now (acknowledged.foldl (cancelOrder now) db) tradeId

structure ClosingLegSpec where
  legIdx : ℕ
  contractSymbol : String
  contractType : ContractType
  contractStrike : ℚ
  contractExpiry : Option Date
  contractExchange : String
  contractCurrency : String
  side : Side
  qty : ℕ
  previewIvPct : Option ℚ
  previewPrice : Option ℚ
  deriving DecidableEq

def closingLeg (e : StructureOrder) : ClosingLegSpec where
  legIdx := e.legIdx
  contractSymbol := e.contractSymbol
  contractType := e.contractType
  contractStrike := e.contractStrike.getD 0
  contractExpiry := e.contractExpiry
  contractExchange := e.contractExchange
  contractCurrency := e.contractCurrency
  side := e.side.opposite
  qty := e.qtyFilled
  previewIvPct := e.previewIvPct
  previewPrice := e.previewPrice

inductive CloseError
  | positionNotFound
  | nothingFilled
  deriving DecidableEq

def buildClosingLegs (entries : List StructureOrder) : Except CloseError (List ClosingLegSpec) :=
  let legs := (entries.filter fun e => 0 < e.qtyFilled).map closingLeg
  if legs = [] then .error .nothingFilled else .ok legs

def positionCloseOrder (structureId : ℕ) (leg : ClosingLegSpec) (entryId : Option ℕ)
    (now : Instant) : StructureOrder :=
  { StructureOrder.new structureId leg.legIdx .closing leg.side leg.qty now with
    contractSymbol := leg.contractSymbol
    contractType := leg.contractType
    contractStrike := some leg.contractStrike
    contractExpiry := leg.contractExpiry
    contractExchange := leg.contractExchange
    contractCurrency := leg.contractCurrency
    limitPrice := leg.previewPrice
    previewIvPct := leg.previewIvPct
    previewPrice := leg.previewPrice
    closesOrderId := entryId }

/-- The closing orders of a position: one for each leg spec, linked to the entry leg with its
`leg_idx`. -/
def positionCloseOrders (structureId : ℕ) (entries : List (StructureOrder × ℕ))
    (legs : List ClosingLegSpec) (now : Instant) : List StructureOrder :=
  legs.map fun leg =>
    positionCloseOrder structureId leg
      ((entries.reverse.find? fun p => p.1.legIdx = leg.legIdx).map (·.2)) now

/-- The entry rows of a structure, in key order, which is `leg_idx` order. -/
def entryOrders (db : Db) (structureId : ℕ) : List (StructureOrder × ℕ) :=
  (db.ordersOf structureId).filter fun p => p.1.orderRole = .entry

/-- What the close of an open position writes: the closing structure and its orders, the
reservations of the legs they target, the position, and the alert that triggered it. -/
def persistPositionClose (db : Db) (positionId : ℕ) (pos : BookedPosition)
    (legs : List ClosingLegSpec) (exitAlertId : Option ℕ) (now : Instant) : Db :=
  let structureId := db.structures.length
  let orders := positionCloseOrders structureId (entryOrders db pos.structureId) legs now
  let db₁ := db.addStructure (TradeStructure.new now)
  let db₂ := { db₁ with orders := db₁.orders ++ orders }
  let db₃ := (orders.filterMap (·.closesOrderId)).foldl recomputeReservation db₂
  let alerts := match exitAlertId with
    | none => db₃.exitAlerts
    | some a => db₃.exitAlerts.modify a fun alert =>
        { alert with
          autoExecuted := true
          executionStatus := some "in_progress"
          closingStructureId := some structureId }
  { db₃ with
    bookedPositions := db₃.bookedPositions.set positionId { pos with state := .closing }
    exitAlerts := alerts }

/-- `initiate_position_close` up to its commit; `none` when the position is not open. -/
def initiatePositionClose (db : Db) (positionId : ℕ) (exitAlertId : Option ℕ) (now : Instant) :
    Except CloseError (Db × Option ℕ) :=
  match db.bookedPositions[positionId]? with
  | none => .error .positionNotFound
  | some pos =>
    if pos.state ≠ .open then .ok (db, none)
    else match buildClosingLegs ((entryOrders db pos.structureId).map (·.1)) with
      | .error e => .error e
      | .ok legs =>
        .ok (persistPositionClose db positionId pos legs exitAlertId now,
          some db.structures.length)

end FxVol
