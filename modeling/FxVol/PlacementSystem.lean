import FxVol.LiveSubmit
import FxVol.Rollback

/-!
# Placing orders at IB

Every call that hands orders to IB as a program that takes one database transaction or one IB
request at a time: the live submit of a structure, the rollback, the hedge and the close of a
position.  Any number of calls run next to each other and next to the writers of the book; a
call can stop for ever between any two of its steps.
-/
namespace FxVol

inductive HedgeState | pending | submitted | filled | failed
  deriving DecidableEq

/-- One row of `hedge_order`, as far as its placement goes. -/
structure HedgeOrder where
  side : Side
  hedgeQty : ℕ
  state : HedgeState
  submittedAt : Option Instant
  submitClaimedAt : Option Instant
  ibOrderId : Option ℕ
  deriving DecidableEq

def HedgeOrder.new (side : Side) (qty : ℕ) : HedgeOrder where
  side := side
  hedgeQty := qty
  state := .pending
  submittedAt := none
  submitClaimedAt := none
  ibOrderId := none

/-- An order IB accepted: an entry leg or the BAG of a structure, another `trade_order` row, or
a hedge. -/
inductive IbPlacement
  | leg (structureId orderId : ℕ)
  | bag (structureId : ℕ) (orderIds : List ℕ)
  | row (structureId orderId : ℕ)
  | hedge (hedgeId : ℕ)
  deriving DecidableEq

inductive PlacedRow
  | order (orderId : ℕ)
  | hedge (hedgeId : ℕ)
  deriving DecidableEq

/-- A `submit_claimed_at` column: of a structure, of an order or of a hedge. -/
inductive ClaimKey
  | structure (structureId : ℕ)
  | row (r : PlacedRow)
  deriving DecidableEq

structure IbIds where
  orderId : Option ℕ
  permId : Option ℕ
  deriving DecidableEq

/-- What a call gets from outside at one step: the clock, the connection, IB's answers, and
whether the commit of the step went through. -/
structure Answer where
  now : Instant
  connected : Bool
  qualify : ℕ → QualifyAnswer
  quote : ℕ → Quote
  hedgeLimit : Option ℚ
  placed : Option IbIds
  committed : Bool

/-- `place_with_claim` after its steps. -/
inductive PlacePc
  | start
  | claimed
  | releasing
  | sent (ids : IbIds)
  deriving DecidableEq

inductive SubmitPc
  | start
  | checked
  | claimed
  | aborting
  | selected (legs : List (StructureOrder × ℕ))
  | bagReady (legs : List (StructureOrder × ℕ))
  | bagSent (legs : List (StructureOrder × ℕ)) (ids : IbIds)
  | prepared (legs : List (StructureOrder × ℕ))
  | placing (legs : List PreparedLeg) (placed : List ℕ)
  | legSent (leg : PreparedLeg) (ids : IbIds) (rest : List PreparedLeg) (placed : List ℕ)
  | failed
  deriving DecidableEq

inductive RollbackPc
  | start
  | unwinding (startedAt : Option Instant) (rest : List (UnwindAction × Option StructureOrder))
  | qualifying (orderId : ℕ) (rest : List (UnwindAction × Option StructureOrder))
  | placing (orderId : ℕ) (pc : PlacePc) (rest : List (UnwindAction × Option StructureOrder))
  deriving DecidableEq

inductive HedgePc
  | start
  | placing (pc : PlacePc)
  deriving DecidableEq

inductive Call
  | submit (structureId : ℕ) (useCombo : Bool) (pc : SubmitPc)
  | rollback (structureId : ℕ) (pc : RollbackPc)
  | close (orderId : ℕ) (pc : PlacePc)
  | hedge (hedgeId : ℕ) (pc : HedgePc)
  | done
  deriving DecidableEq

/-- The tables, the calls so far, and the orders IB accepted. -/
structure World where
  db : Db
  hedges : List HedgeOrder
  calls : List Call
  sent : List IbPlacement

namespace World

def empty : World := ⟨.empty, [], [], []⟩

def submitClaim (w : World) : ClaimKey → Option Instant
  | .structure s => (w.db.structures[s]?).bind (·.submitClaimedAt)
  | .row (.order i) => (w.db.orders[i]?).bind (·.submitClaimedAt)
  | .row (.hedge h) => (w.hedges[h]?).bind (·.submitClaimedAt)

/-- `UPDATE … SET submit_claimed_at` on the row of a key. -/
def setClaim (w : World) (at_ : Option Instant) : ClaimKey → World
  | .structure s =>
    { w with db := { w.db with
        structures := w.db.structures.modify s fun r => { r with submitClaimedAt := at_ } } }
  | .row (.order i) =>
    { w with db := w.db.updateOrder i fun o => { o with submitClaimedAt := at_ } }
  | .row (.hedge h) =>
    { w with hedges := w.hedges.modify h fun r => { r with submitClaimedAt := at_ } }

def claimable (w : World) : ClaimKey → Bool
  | .structure s => (w.db.structures[s]?).any fun r => r.submitClaimedAt = none
  | .row (.order i) =>
    (w.db.orders[i]?).any fun o => o.submitClaimedAt = none ∧ o.ibOrderId = none
  | .row (.hedge h) => (w.hedges[h]?).any fun r => r.submitClaimedAt = none ∧ r.ibOrderId = none

def send (w : World) (p : IbPlacement) : World := { w with sent := w.sent ++ [p] }

def rowPlacement (w : World) : PlacedRow → IbPlacement
  | .order i => .row (((w.db.orders[i]?).map (·.structureId)).getD 0) i
  | .hedge h => .hedge h

/-- `stamp_placement` -/
def stamp (w : World) (ids : IbIds) (now : Instant) : PlacedRow → World
  | .order i => { w with db := stampPlacement w.db i ids.orderId ids.permId now }
  | .hedge h =>
    { w with hedges := w.hedges.modify h fun r =>
        { r with ibOrderId := ids.orderId, submittedAt := some now, state := .submitted } }

end World

/-- How `place_with_claim` goes on after a step. -/
inductive PlaceNext
  | running (pc : PlacePc)
  | alreadyClaimed
  | raised
  | placed
  deriving DecidableEq

/-- One step of `place_with_claim`. -/
def placeStep (a : Answer) (w : World) (r : PlacedRow) : PlacePc → World × PlaceNext
  | .start =>
    if w.claimable (.row r) then (w.setClaim (some a.now) (.row r), .running .claimed)
    else (w, .alreadyClaimed)
  | .claimed =>
    match a.placed with
    | none => (w, .running .releasing)
    | some ids => (w.send (w.rowPlacement r), .running (.sent ids))
  | .releasing => (w.setClaim none (.row r), .raised)
  | .sent ids => (w.stamp ids a.now r, .placed)

/-- One step of `submit_structure_live`. -/
def submitStep (cfg : SubmitConfig) (a : Answer) (w : World) (s : ℕ) (useCombo : Bool) :
    SubmitPc → World × Option SubmitPc
  | .start =>
    if a.connected ∧ (w.db.structures[s]?).any fun r => r.state = .submitted then
      (w, some .checked)
    else (w, none)
  | .checked =>
    if w.claimable (.structure s) then (w.setClaim (some a.now) (.structure s), some .claimed)
    else (w, none)
  | .claimed =>
    let legs := eligibleLegs w.db s
    if legs ≠ [] then (w, some (.selected legs))
    else if (w.db.ordersOf s).all fun p => p.1.orderRole ≠ .entry then (w, some .aborting)
    else (w, none)
  | .aborting => (w.setClaim none (.structure s), none)
  | .selected legs =>
    let orders := legs.map (·.1)
    if ¬ a.connected then (w, none)
    else if useCombo ∧ canUseCombo orders ∧ (orders.all fun o => o.contractType ≠ .future) ∧
        2 ≤ orders.length then
      match prepareCombo legs a.qualify with
      | .error _ => (w, some .aborting)
      | .ok _ => (w, some (.bagReady legs))
    else
      match prepareLegs legs a.qualify with
      | .error _ => (w, some .aborting)
      | .ok _ => (w, some (.prepared legs))
  | .bagReady legs =>
    match a.placed with
    | none => (w, none)
    | some ids => (w.send (.bag s (legs.map (·.2))), some (.bagSent legs ids))
  | .bagSent legs ids =>
    let stamped := (legs.map (·.2)).foldl
      (fun db i => stampLive db i ids.orderId ids.permId none a.now) w.db
    if a.committed then ({ w with db := stamped }, none) else (w, none)
  | .prepared legs =>
    match gateLegs cfg a.quote legs with
    | .error _ => (w, some .aborting)
    | .ok prepared => (w, some (.placing prepared []))
  | .placing [] _ => (w, none)
  | .placing (leg :: rest) placed =>
    if ¬ leg.orderOk then (w, some .failed)
    else match a.placed with
      | none => (w, some .failed)
      | some ids => (w.send (.leg s leg.orderId), some (.legSent leg ids rest placed))
  | .legSent leg ids rest placed =>
    if a.committed then
      ({ w with db := stampLive w.db leg.orderId ids.orderId ids.permId leg.limit a.now },
        some (.placing rest (placed ++ [leg.orderId])))
    else (w, some .failed)
  | .failed =>
    match w.db.structures[s]? with
    | none => (w, none)
    | some r =>
      let r' := { r with state := .partialFail, stateUpdatedAt := a.now }
      ({ w with db := w.db.setStructure s r' }, none)

/-- `rollback_started_at`, taken with the first commit of the call. -/
def World.startRollback (w : World) (s : ℕ) (startedAt : Option Instant) : World :=
  { w with db := { w.db with
      structures := w.db.structures.modify s fun r =>
        { r with rollbackStartedAt := r.rollbackStartedAt.or startedAt } } }

/-- One step of `run_rollback`; the cancels it sends place nothing. -/
def rollbackStep (a : Answer) (w : World) (s : ℕ) : RollbackPc → World × Option RollbackPc
  | .start =>
    if ¬ a.connected ∨ w.db.structures[s]? = none then (w, none)
    else
      let plan := rollbackPlan w.db s
      if plan.isNoop then (w.startRollback s (some a.now), none)
      else (w, some (.unwinding (some a.now)
        (plan.unwinds.map fun u => (u, entryOfLeg w.db s u.legIdx))))
  | .unwinding startedAt [] => (w.startRollback s startedAt, none)
  | .unwinding startedAt ((_, none) :: rest) => (w, some (.unwinding startedAt rest))
  | .unwinding startedAt ((u, some entry) :: rest) =>
    let limit := (orPrice entry.previewPrice entry.limitPrice).getD 0
    if limit ≤ 0 then (w, some (.unwinding startedAt rest))
    else match w.db.insertOrder (unwindOrder s entry u limit a.now) with
      | .error _ => (w, none)
      | .ok db =>
        (({ w with db := db }).startRollback s startedAt,
          some (.qualifying w.db.orders.length rest))
  | .qualifying i rest =>
    if ¬ (w.db.orders[i]?).any (·.contractStrike.isSome) then (w, none)
    else if (a.qualify i).found then (w, some (.placing i .start rest))
    else (w, some (.unwinding none rest))
  | .placing i pc rest =>
    match placeStep a w (.order i) pc with
    | (w', .running pc') => (w', some (.placing i pc' rest))
    | (w', .raised) => (w', none)
    | (w', .alreadyClaimed) | (w', .placed) => (w', some (.unwinding none rest))

def World.setHedgeState (w : World) (h : ℕ) (state : HedgeState) : World :=
  { w with hedges := w.hedges.modify h fun r => { r with state := state } }

/-- One step of `submit_hedge_order`. -/
def hedgeStep (a : Answer) (w : World) (h : ℕ) : HedgePc → World × Option HedgePc
  | .start =>
    if ¬ a.connected ∨ ¬ (w.hedges[h]?).any fun r => r.state = .pending then (w, none)
    else if ¬ (a.qualify h).found ∨ ¬ a.hedgeLimit.any (0 < ·) then
      (w.setHedgeState h .failed, none)
    else (w, some (.placing .start))
  | .placing pc =>
    match placeStep a w (.hedge h) pc with
    | (w', .running pc') => (w', some (.placing pc'))
    | (w', .raised) | (w', .alreadyClaimed) | (w', .placed) => (w', none)

/-- The next step of a call; a call that ends does nothing more. -/
def callStep (cfg : SubmitConfig) (a : Answer) (w : World) : Call → World × Call
  | .submit s useCombo pc =>
    match submitStep cfg a w s useCombo pc with
    | (w', some pc') => (w', .submit s useCombo pc')
    | (w', none) => (w', .done)
  | .rollback s pc =>
    match rollbackStep a w s pc with
    | (w', some pc') => (w', .rollback s pc')
    | (w', none) => (w', .done)
  | .close i pc =>
    match placeStep a w (.order i) pc with
    | (w', .running pc') => (w', .close i pc')
    | (w', _) => (w', .done)
  | .hedge h pc =>
    match hedgeStep a w h pc with
    | (w', some pc') => (w', .hedge h pc')
    | (w', none) => (w', .done)
  | .done => (w, .done)

inductive WorldEvent
  | book (e : Event)
  | newHedge (side : Side) (qty : ℕ)
  | hedgeFilled (hedgeId : ℕ)
  | startSubmit (structureId : ℕ) (useCombo : Bool)
  | startRollback (structureId : ℕ)
  | startClose (orderId : ℕ)
  | startHedge (hedgeId : ℕ)
  | run (call : ℕ) (answer : Answer)
  | crash (call : ℕ)

def World.start (w : World) (c : Call) : World := { w with calls := w.calls ++ [c] }

def worldStep (cfg : SubmitConfig) (w : World) : WorldEvent → World
  | .book e => { w with db := step w.db e }
  | .newHedge side qty => { w with hedges := w.hedges ++ [.new side qty] }
  | .hedgeFilled h => w.setHedgeState h .filled
  | .startSubmit s useCombo => w.start (.submit s useCombo .start)
  | .startRollback s => w.start (.rollback s .start)
  | .startClose i =>
    -- the API passes the closing order it has just inserted
    if (w.db.orders[i]?).any fun o => o.orderRole = .closing then w.start (.close i .start) else w
  | .startHedge h => w.start (.hedge h .start)
  | .run c a =>
    match w.calls[c]? with
    | none => w
    | some call =>
      let r := callStep cfg a w call
      { r.1 with calls := r.1.calls.set c r.2 }
  | .crash c => { w with calls := w.calls.set c .done }

end FxVol
