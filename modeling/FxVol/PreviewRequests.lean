import FxVol.TradeTables
import Mathlib.Algebra.Order.Field.Rat
import Mathlib.Algebra.Order.Group.Unbundled.Abs

/-!
# Submitting and cancelling a preview

The submit and cancel requests for one preview: its Redis lock, its row with the row lock of
`SELECT ... FOR UPDATE`, and the `trade_structure` rows that carry its id.  A request stops at
every await, and the others run in between.
-/
namespace FxVol.PreviewRequests

inductive ExecutionMode | mock | live
  deriving DecidableEq

inductive PreviewState | validForSubmit | blocked | expired | submitted | cancelled
  deriving DecidableEq

inductive UserAction | submitted | cancelled
  deriving DecidableEq

inductive Regime | calm | stressed | preEvent
  deriving DecidableEq

/-- The columns of `trade_preview` that the requests read or write; `legs` counts the legs in its
payload. -/
structure TradePreviewRow where
  state : PreviewState
  userAction : Option UserAction
  expiresAt : Instant
  armedZScore : Option ℚ
  pcaSignalId : Option ℕ
  legs : ℕ
  deriving DecidableEq

inductive RevalidationReason
  | previewAlreadyActioned | previewStateNotValid | previewExpired | signalNoLongerActionable
  | signalFlipped | regimePreEvent
  deriving DecidableEq

/-- `revalidate_preview`: the reason of the first gate that fails. -/
def revalidatePreview (previewState : PreviewState) (previewUserAction : Option UserAction)
    (previewExpiresAt now : Instant) (armedZ currentZ : Option ℚ) (zThresholdMin : ℚ)
    (currentRegime : Option Regime) : Except RevalidationReason Unit := do
  if previewUserAction ≠ none then throw .previewAlreadyActioned
  if previewState ≠ .validForSubmit then throw .previewStateNotValid
  if previewExpiresAt < now then throw .previewExpired
  match armedZ, currentZ with
  | some armed, some current =>
    if |current| < zThresholdMin then throw .signalNoLongerActionable
    if decide (0 < armed) ≠ decide (0 < current) then throw .signalFlipped
  | _, _ => pure ()
  if currentRegime = some .preEvent then throw .regimePreEvent

/-- What a step of a request reads besides the preview: the answer of Redis, the state of the IB
connection, the latest signal of the armed component, a risk limit, the regime, the pre-trade gate
and the answer of the execution engine. -/
structure Seen where
  redisAnswers : Bool
  ibConnected : Bool
  latestZ : Option ℚ
  zThresholdMin : Option ℚ
  regime : Option Regime
  gatePassed : Bool
  engineAnswers : Bool

/-- The z-score an armed preview is revalidated with: the latest of its component, or its own. -/
def TradePreviewRow.currentZ (row : TradePreviewRow) (latest : Option ℚ) : Option ℚ :=
  row.armedZScore.map fun armed =>
    match row.pcaSignalId with
    | none => armed
    | some _ => latest.getD armed

inductive Refusal
  | invalidExecutionMode | submitInProgress | submitLockUnavailable | previewNotFound
  | ibDisconnected | revalidationFailed (reason : RevalidationReason) | noLegs
  | pretradeGateFailed | previewAlreadySubmitted | executionEngineFailed | alreadyActioned
  | unhandledException | aborted
  deriving DecidableEq

/-- The checks of `_submit_preview_impl` on the locked row, in its order. -/
def submitChecks (mode : ExecutionMode) (preview : TradePreviewRow) (now : Instant) (seen : Seen) :
    Except Refusal Unit := do
  if mode = .live ∧ ¬ seen.ibConnected then throw .ibDisconnected
  match revalidatePreview preview.state preview.userAction preview.expiresAt now
    preview.armedZScore (preview.currentZ seen.latestZ) (seen.zThresholdMin.getD (3 / 2))
    seen.regime with
  | .error reason => throw (.revalidationFailed reason)
  | .ok _ => pure ()
  if preview.legs = 0 then throw .noLegs
  if ¬ seen.gatePassed then throw .pretradeGateFailed

/-- Whether the refusal is raised after the transaction was committed, with an audit event, or
rolled back. -/
def Refusal.endsTransaction : Refusal → Bool
  | .ibDisconnected | .revalidationFailed _ | .pretradeGateFailed | .previewAlreadySubmitted => true
  | _ => false

/-- Where a request stands, named after its last step. -/
inductive Phase
  | arrived (mode : Option ExecutionMode)
  | acquired (mode : ExecutionMode)
  | loaded (mode : ExecutionMode) (preview : TradePreviewRow)
  | cleared (mode : ExecutionMode)
  | flushed (mode : ExecutionMode)
  | dispatching
  | failing (refusal : Refusal)
  | unwinding (refusal : Refusal)
  | cancelArrived
  | cancelRead
  | submitted
  | cancelled
  | refused (refusal : Refusal)
  deriving DecidableEq

/-- A request with the instant its `SET NX` succeeded. -/
structure Request where
  acquiredAt : Option Instant
  phase : Phase
  deriving DecidableEq

/-- The lock key carries no owner; the request whose `SET NX` made it is kept beside it. -/
structure SubmitLock where
  holder : ℕ
  expiresAt : Instant
  deriving DecidableEq

/-- `structures` are the committed `trade_structure` rows of the preview by their execution mode.
`foreignReleases` is no state of the system: it records each request that deleted a lock together
with the other request whose lock it was. -/
structure World where
  clock : Instant
  lock : Option SubmitLock
  preview : Option TradePreviewRow
  rowLock : Option ℕ
  structures : List ExecutionMode
  requests : List Request
  foreignReleases : List (ℕ × ℕ)

/-- The `ttl_s` of a submit lock. -/
def submitLockTtl : Instant := 10 * 1000000

def World.start : World := ⟨0, none, none, none, [], [], []⟩

def World.userAction (w : World) : Option UserAction := w.preview.bind (·.userAction)

def World.put (w : World) (k : ℕ) (r : Request) : World := { w with requests := w.requests.set k r }

/-- `SELECT ... FOR UPDATE` -/
def World.lockRow (w : World) (k : ℕ) : World := { w with rowLock := some k }

/-- A commit or a rollback frees the row lock of the request. -/
def World.endTransaction (w : World) (k : ℕ) : World :=
  { w with rowLock := if w.rowLock = some k then none else w.rowLock }

/-- `_acquire_preview_lock` -/
def World.acquire (w : World) (k : ℕ) : World :=
  { w with lock := some ⟨k, w.clock + submitLockTtl⟩ }

/-- `_release_preview_lock`: the key is deleted, whoever set it. -/
def World.releaseLock (w : World) (k : ℕ) : World :=
  { w with
    lock := none
    foreignReleases := w.foreignReleases ++
      (w.lock.toList.filter (·.holder ≠ k)).map fun l => (k, l.holder) }

/-- The columns both requests stamp on the preview they have loaded. -/
def World.stampPreview (w : World) (state : PreviewState) (action : UserAction) : World :=
  { w with preview := w.preview.map fun row => { row with state := state, userAction := some action } }

/-- The commit of a submit: its structure, and the stamped preview. -/
def World.persist (w : World) (k : ℕ) (mode : ExecutionMode) : World :=
  ({ w with structures := w.structures ++ [mode] }.stampPreview .submitted .submitted).endTransaction
    k

def Phase.isFlushed : Phase → Bool
  | .flushed _ => true
  | _ => false

/-- The next step of request `k`; a request that waits for a lock stays as it is. -/
def advance (w : World) (k : ℕ) (r : Request) (seen : Seen) : World :=
  match r.phase with
  | .arrived none => w.put k { r with phase := .failing .invalidExecutionMode }
  | .arrived (some mode) =>
    if ¬ seen.redisAnswers then w.put k { r with phase := .failing .submitLockUnavailable }
    else
      match w.lock with
      | some _ => w.put k { r with phase := .failing .submitInProgress }
      | none => (w.acquire k).put k ⟨some w.clock, .acquired mode⟩
  | .acquired mode =>
    if w.rowLock ≠ none then w
    else
      match w.preview with
      | none => w.put k { r with phase := .failing .previewNotFound }
      | some row => (w.lockRow k).put k { r with phase := .loaded mode row }
  | .loaded mode preview =>
    match submitChecks mode preview w.clock seen with
    | .ok _ => w.put k { r with phase := .cleared mode }
    | .error refusal =>
      if refusal.endsTransaction then
        (w.endTransaction k).put k { r with phase := .failing refusal }
      else w.put k { r with phase := .failing refusal }
  | .cleared mode =>
    -- an uncommitted row with the same `preview_id` makes the insert wait
    if w.requests.any (·.phase.isFlushed) then w
    else if w.structures ≠ [] then
      (w.endTransaction k).put k { r with phase := .failing .previewAlreadySubmitted }
    else w.put k { r with phase := .flushed mode }
  | .flushed mode =>
    match mode with
    | .mock => (w.persist k mode).put k { r with phase := .submitted }
    | .live => (w.persist k mode).put k { r with phase := .dispatching }
  | .dispatching =>
    if seen.engineAnswers then w.put k { r with phase := .submitted }
    else w.put k { r with phase := .failing .executionEngineFailed }
  | .failing refusal =>
    if seen.redisAnswers then (w.releaseLock k).put k { r with phase := .unwinding refusal }
    else w.put k { r with phase := .unwinding refusal }
  | .unwinding refusal => (w.endTransaction k).put k { r with phase := .refused refusal }
  | .cancelArrived =>
    match w.preview with
    | none => w.put k { r with phase := .refused .previewNotFound }
    | some row =>
      if row.userAction ≠ none then w.put k { r with phase := .refused .alreadyActioned }
      else w.put k { r with phase := .cancelRead }
  | .cancelRead =>
    -- the row was read without a lock; the update waits for one and looks at nothing again
    if w.rowLock ≠ none then w
    else (w.stampPreview .cancelled .cancelled).put k { r with phase := .cancelled }
  | .submitted | .cancelled | .refused _ => w

/-- An exception nobody expects: a submit past its first step goes to the error path, a cancel
answers at once. -/
def raiseIn (w : World) (k : ℕ) (r : Request) : World :=
  match r.phase with
  | .acquired _ | .loaded _ _ | .cleared _ | .flushed _ | .dispatching =>
    w.put k { r with phase := .failing .unhandledException }
  | .cancelArrived | .cancelRead => w.put k { r with phase := .refused .unhandledException }
  | _ => w

/-- The task of a request dies, its transaction with it; no error path runs. -/
def abortIn (w : World) (k : ℕ) (r : Request) : World :=
  match r.phase with
  | .submitted | .cancelled | .refused _ => w
  | _ => (w.endTransaction k).put k { r with phase := .refused .aborted }

inductive Event
  | arm (row : TradePreviewRow)
  | submit (mode : Option ExecutionMode)
  | cancel
  | run (k : ℕ) (seen : Seen)
  | raise (k : ℕ)
  | abort (k : ℕ)
  | wait (d : ℕ)
  | expirePreviews

/-- The preview endpoint inserts the row of the preview, under a unique id. -/
def World.arm (w : World) (row : TradePreviewRow) : World :=
  match w.preview with
  | some _ => w
  | none => { w with preview := some { row with userAction := none } }

/-- Time passes; Redis drops a lock whose time is up. -/
def World.wait (w : World) (d : ℕ) : World :=
  { w with
    clock := w.clock + d
    lock := w.lock.filter fun l => w.clock + d < l.expiresAt }

/-- `TradePreviewExpirer.run_once` -/
def World.expirePreviews (w : World) : World :=
  if w.rowLock ≠ none then w
  else
    { w with preview := w.preview.map fun row =>
        if row.expiresAt < w.clock ∧ (row.state = .validForSubmit ∨ row.state = .blocked) then
          { row with state := .expired }
        else row }

def step (w : World) : Event → World
  | .arm row => w.arm row
  | .submit mode => { w with requests := w.requests ++ [⟨none, .arrived mode⟩] }
  | .cancel => { w with requests := w.requests ++ [⟨none, .cancelArrived⟩] }
  | .run k seen => (w.requests[k]?).elim w (advance w k · seen)
  | .raise k => (w.requests[k]?).elim w (raiseIn w k)
  | .abort k => (w.requests[k]?).elim w (abortIn w k)
  | .wait d => w.wait d
  | .expirePreviews => w.expirePreviews

end FxVol.PreviewRequests
