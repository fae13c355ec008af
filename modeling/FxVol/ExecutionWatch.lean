import FxVol.GuardedRuns
import Mathlib.Algebra.Order.Group.Int
import Mathlib.Data.Rat.Defs

/-!
# The watches of the execution engine

Tasks that run beside the orders: the watchdog that reconnects the socket and calls the hooks of the session, the heartbeat
that keeps the row of the broker connection, and the watcher that reports orders which stay unanswered.
-/
namespace FxVol.ExecutionWatch

inductive AccountType | paper | live
  deriving DecidableEq

structure AccountSummary where
  account : Option String
  availableFunds : Option ℚ
  buyingPower : Option ℚ
  maintMarginReq : Option ℚ

/-- `IbConnectionState` -/
structure ConnectionRow where
  isConnected : Bool
  lastHeartbeat : ℤ
  accountId : Option String
  accountType : Option AccountType
  availableFundsUsd : Option ℚ
  buyingPowerUsd : Option ℚ
  marginUsedUsd : Option ℚ
  lastDisconnectAt : Option ℤ
  nDisconnects24h : ℕ

/-- An account by the prefix of its id; an unknown prefix leaves the type as it was. -/
def accountTypeOf (accountId : String) (before : Option AccountType) : Option AccountType :=
  match accountId.toList.head?.map Char.toUpper with
  | some 'D' => some .paper
  | some 'U' | some 'F' => some .live
  | _ => before

def ConnectionRow.withSummary (row : ConnectionRow) (summary : AccountSummary) : ConnectionRow :=
  let accountId := (summary.account.filter (· ≠ "")) <|> row.accountId
  { row with
    accountId := accountId
    accountType := accountId.elim row.accountType fun id => accountTypeOf id row.accountType
    availableFundsUsd := summary.availableFunds
    buyingPowerUsd := summary.buyingPower
    marginUsedUsd := summary.maintMarginReq }

/-- `update_heartbeat_row` -/
def ConnectionRow.heartbeat (row : ConnectionRow) (isConnected : Bool) (summary : Option AccountSummary) (now : ℤ) :
    ConnectionRow :=
  let seen := { row with isConnected := isConnected, lastHeartbeat := now }
  let seen := if isConnected then summary.elim seen seen.withSummary else seen
  if row.isConnected ∧ !isConnected then
    { seen with lastDisconnectAt := some now, nDisconnects24h := row.nDisconnects24h + 1 }
  else seen

def ConnectionRow.markDisconnected (row : ConnectionRow) (now : ℤ) : ConnectionRow :=
  { row with isConnected := false, lastHeartbeat := now, lastDisconnectAt := some now }

/-- The socket, the watchdog with the hooks it has called, what a heartbeat under way has seen and when, and the row.
`drops` and `connects` record what the socket has done, `cut` the connects that were over before `connect` came back. -/
structure World where
  clock : ℤ
  connected : Bool
  wasConnected : Bool
  connecting : Bool
  lost : ℕ
  reconnected : ℕ
  sampled : Option (ℤ × Bool)
  row : ConnectionRow
  drops : ℕ
  connects : ℕ
  cut : ℕ

def World.start (connected : Bool) (row : ConnectionRow) : World :=
  ⟨0, connected, connected, false, 0, 0, none, row, 0, 0, 0⟩

/-- `poll` is the watchdog's look at the socket, up to the `await` of `connect`, and `connectReturn` what it does after.  So
`sample` is that of `heartbeat_loop`, up to the `await` of the account, and `heartbeat` or `heartbeatFail` the rest of it. -/
inductive Event
  | drop
  | poll
  | socketUp
  | connectReturn
  | sample
  | heartbeat (summary : Option AccountSummary)
  | heartbeatFail
  | markDisconnected
  | wait (d : ℕ)

/-- A pass of `maintain_ib_connection`, up to the `await` -/
def World.poll (w : World) : World :=
  if w.connecting then w
  else if w.connected then { w with wasConnected := true }
  else
    { w with
      lost := if w.wasConnected then w.lost + 1 else w.lost
      wasConnected := false
      connecting := true }

/-- The rest of the pass, once `connect` is back -/
def World.connectReturn (w : World) : World :=
  if w.connecting then
    { w with
      connecting := false
      wasConnected := w.connected
      reconnected := if w.connected then w.reconnected + 1 else w.reconnected }
  else w

def World.drop (w : World) : World :=
  if w.connected then
    { w with connected := false, drops := w.drops + 1, cut := if w.connecting then w.cut + 1 else w.cut }
  else w

def World.socketUp (w : World) : World :=
  if w.connecting ∧ !w.connected then { w with connected := true, connects := w.connects + 1 } else w

def World.sample (w : World) : World :=
  if w.sampled.isSome then w else { w with sampled := some (w.clock, w.connected) }

/-- The account is asked for a connected socket only, and may not answer. -/
def World.heartbeat (w : World) (summary : Option AccountSummary) : World :=
  match w.sampled with
  | some (now, connected) =>
    { w with
      sampled := none
      row := w.row.heartbeat connected (if connected then summary else none) now }
  | none => w

def step (w : World) : Event → World
  | .drop => w.drop
  | .poll => w.poll
  | .socketUp => w.socketUp
  | .connectReturn => w.connectReturn
  | .sample => w.sample
  | .heartbeat summary => w.heartbeat summary
  | .heartbeatFail => { w with sampled := none }
  | .markDisconnected => { w with row := w.row.markDisconnected w.clock }
  | .wait d => { w with clock := w.clock + d }

def run (w : World) (es : List Event) : World := es.foldl step w

/-- One when it holds -/
def count (b : Bool) : ℕ := if b then 1 else 0

@[simp] theorem count_true : count true = 1 := rfl

@[simp] theorem count_false : count false = 0 := rfl

/-- What the hooks have not been called for yet -/
structure Accounted (connected : Bool) (w : World) : Prop where
  connecting : w.connecting = true → w.wasConnected = false
  settled : w.connecting = false → w.connected = true → w.wasConnected = true
  drops : w.drops = w.lost + count (w.wasConnected && !w.connected) + w.cut
  connects : w.connects = w.reconnected + count (w.connecting && w.connected) + w.cut
  turns : w.lost + count w.wasConnected = w.reconnected + count connected

theorem Accounted.start (connected : Bool) (row : ConnectionRow) : Accounted connected (World.start connected row) := by
  cases connected <;> constructor <;> simp [World.start, count]

section Watchdog
variable {connected : Bool} {w : World} (h : Accounted connected w)
include h

theorem Accounted.drop : Accounted connected w.drop := by
  have hdrops := h.drops
  have hconnects := h.connects
  unfold World.drop
  split
  case isFalse => exact h
  case isTrue hup =>
    cases hconnecting : w.connecting with
    | true =>
      -- the connect is over before it came back, and the hooks hear of neither
      have hwas := h.connecting hconnecting
      simp [hup, hwas, hconnecting] at hdrops hconnects
      exact ⟨fun _ => hwas, by simp, by simp [hwas]; omega, by simp; omega, h.turns⟩
    | false =>
      have hwas := h.settled hconnecting hup
      simp [hup, hwas, hconnecting] at hdrops hconnects
      exact ⟨by simp, by simp, by simp [hwas]; omega, by simp; omega, h.turns⟩

theorem Accounted.poll : Accounted connected w.poll := by
  have hdrops := h.drops
  have hconnects := h.connects
  have hturns := h.turns
  unfold World.poll
  split
  case isTrue => exact h
  case isFalse hidle =>
    have hidle := Bool.eq_false_iff.mpr hidle
    split
    case isTrue hup =>
      have hwas := h.settled hidle hup
      exact ⟨by simp [hidle], by simp, by simpa [hup, hwas] using hdrops, hconnects, by simpa [hwas] using hturns⟩
    case isFalse hdown =>
      have hdown := Bool.eq_false_iff.mpr hdown
      cases hwas : w.wasConnected with
      | true =>
        simp [hwas, hdown, hidle] at hdrops hconnects hturns
        exact ⟨by simp, by simp, by simp; omega, by simp [hdown]; omega, by simp; omega⟩
      | false =>
        simp [hwas, hdown, hidle] at hdrops hconnects hturns
        exact ⟨by simp, by simp, by simp; omega, by simp [hdown]; omega, by simp; omega⟩

theorem Accounted.socketUp : Accounted connected w.socketUp := by
  have hdrops := h.drops
  have hconnects := h.connects
  unfold World.socketUp
  split
  case isFalse => exact h
  case isTrue hdial =>
    have hdown : w.connected = false := by simpa using hdial.2
    have hwas := h.connecting hdial.1
    simp [hdown, hwas, hdial.1] at hdrops hconnects
    exact ⟨fun _ => hwas, by simp [hdial.1], by simp [hwas]; omega, by simp [hdial.1]; omega, h.turns⟩

theorem Accounted.connectReturn : Accounted connected w.connectReturn := by
  have hdrops := h.drops
  have hconnects := h.connects
  have hturns := h.turns
  unfold World.connectReturn
  split
  case isFalse => exact h
  case isTrue hdial =>
    have hwas := h.connecting hdial
    simp [hwas, hdial] at hdrops hconnects hturns
    cases hup : w.connected with
    | true =>
      simp [hup] at hconnects
      exact ⟨by simp, by simp, by simp; omega, by simp; omega, by simp; omega⟩
    | false =>
      simp [hup] at hconnects
      exact ⟨by simp, by simp, by simp; omega, by simp; omega, by simp; omega⟩

theorem Accounted.sample : Accounted connected w.sample := by
  unfold World.sample
  split
  case isTrue => exact h
  case isFalse => exact ⟨h.connecting, h.settled, h.drops, h.connects, h.turns⟩

theorem Accounted.heartbeat (summary : Option AccountSummary) : Accounted connected (w.heartbeat summary) := by
  unfold World.heartbeat
  cases w.sampled with
  | none => exact h
  | some s => exact ⟨h.connecting, h.settled, h.drops, h.connects, h.turns⟩

theorem Accounted.step (e : Event) : Accounted connected (step w e) := by
  cases e with
  | drop => exact h.drop
  | poll => exact h.poll
  | socketUp => exact h.socketUp
  | connectReturn => exact h.connectReturn
  | sample => exact h.sample
  | heartbeat summary => exact h.heartbeat summary
  | heartbeatFail => exact ⟨h.connecting, h.settled, h.drops, h.connects, h.turns⟩
  | markDisconnected => exact ⟨h.connecting, h.settled, h.drops, h.connects, h.turns⟩
  | wait d => exact ⟨h.connecting, h.settled, h.drops, h.connects, h.turns⟩

end Watchdog

/-- Whatever the socket does between its polls, the watchdog reports each drop once and each connect once, but for those of a
connect that was over before it came back; and its reports take turns. -/
theorem hooks_take_turns (connected : Bool) (row : ConnectionRow) (es : List Event) :
    let w := run (.start connected row) es
    w.drops = w.lost + count (w.wasConnected && !w.connected) + w.cut ∧
      w.connects = w.reconnected + count (w.connecting && w.connected) + w.cut ∧
      w.lost + count w.wasConnected = w.reconnected + count connected := by
  intro w
  have h : Accounted connected w := List.foldlRecOn es _ (.start connected row) fun w hw e _ => hw.step e
  exact ⟨h.drops, h.connects, h.turns⟩

def World.lastSeen (w : World) : Bool := w.sampled.elim w.row.isConnected (·.2)

/-- The drops on their way to the row, the one that a heartbeat has seen and the one that none has -/
def World.unseen (w : World) : ℕ := count (w.row.isConnected && !w.lastSeen) + count (w.lastSeen && !w.connected)

/-- A heartbeat looks at the socket between any two of its changes, one that fails has seen the last of them, and the row is
forced to disconnected only when no drop is on its way to it. -/
def Seen (w : World) : Event → Prop
  | .drop => w.lastSeen = w.connected
  | .socketUp => w.lastSeen = w.connected
  | .heartbeatFail => w.lastSeen = w.connected
  | .markDisconnected => w.unseen = 0
  | _ => True

instance (w : World) : DecidablePred (Seen w)
  | .drop | .socketUp | .heartbeatFail => inferInstanceAs (Decidable (w.lastSeen = w.connected))
  | .markDisconnected => inferInstanceAs (Decidable (w.unseen = 0))
  | .poll | .connectReturn | .sample | .heartbeat _ | .wait _ => .isTrue trivial

theorem heartbeat_isConnected (row : ConnectionRow) (isConnected : Bool) (summary : Option AccountSummary) (now : ℤ) :
    (row.heartbeat isConnected summary now).isConnected = isConnected := by
  unfold ConnectionRow.heartbeat
  cases isConnected <;> cases summary <;> cases row.isConnected <;> rfl

theorem heartbeat_nDisconnects24h (row : ConnectionRow) (isConnected : Bool) (summary : Option AccountSummary) (now : ℤ) :
    (row.heartbeat isConnected summary now).nDisconnects24h = row.nDisconnects24h + count (row.isConnected && !isConnected) := by
  unfold ConnectionRow.heartbeat
  cases isConnected <;> cases summary <;> cases row.isConnected <;> rfl

theorem unseen_drop (w : World) : w.drop.row.nDisconnects24h + w.drop.unseen + w.drops ≤
      w.row.nDisconnects24h + w.unseen + w.drop.drops ∧
    (w.lastSeen = w.connected → w.drop.row.nDisconnects24h + w.drop.unseen + w.drops =
      w.row.nDisconnects24h + w.unseen + w.drop.drops) := by
  unfold World.drop
  split
  case isTrue hup =>
    have hlast : World.lastSeen { w with
        connected := false, drops := w.drops + 1, cut := if w.connecting then w.cut + 1 else w.cut } = w.lastSeen := rfl
    simp only [World.unseen, hlast, hup]
    cases w.lastSeen with
    | true => simp; omega
    | false => simp
  case isFalse => exact ⟨le_rfl, fun _ => rfl⟩

theorem unseen_socketUp (w : World) : w.socketUp.row.nDisconnects24h + w.socketUp.unseen + w.drops ≤
      w.row.nDisconnects24h + w.unseen + w.socketUp.drops ∧
    (w.lastSeen = w.connected → w.socketUp.row.nDisconnects24h + w.socketUp.unseen + w.drops =
      w.row.nDisconnects24h + w.unseen + w.socketUp.drops) := by
  unfold World.socketUp
  split
  case isTrue hdial =>
    have hdown : w.connected = false := by simpa using hdial.2
    have hlast : World.lastSeen { w with connected := true, connects := w.connects + 1 } = w.lastSeen := rfl
    simp only [World.unseen, hlast, hdown]
    cases w.lastSeen <;> simp
  case isFalse => exact ⟨le_rfl, fun _ => rfl⟩

/-- A look at the socket leaves the drops where they are; -/
theorem unseen_sample (w : World) : w.sample.unseen = w.unseen := by
  unfold World.sample
  split
  case isTrue => rfl
  case isFalse hnone =>
    have hnone : w.sampled = none := by simpa using hnone
    simp only [World.unseen, World.lastSeen, hnone, Option.elim_some, Option.elim_none]
    cases w.row.isConnected <;> cases w.connected <;> rfl

/-- the row takes the one that was seen, -/
theorem unseen_heartbeat (w : World) (summary : Option AccountSummary) :
    (w.heartbeat summary).row.nDisconnects24h + (w.heartbeat summary).unseen = w.row.nDisconnects24h + w.unseen := by
  unfold World.heartbeat
  cases hsampled : w.sampled with
  | none => rfl
  | some s =>
    simp only [World.unseen, World.lastSeen, hsampled, heartbeat_isConnected, heartbeat_nDisconnects24h, Option.elim_some,
      Option.elim_none]
    cases w.row.isConnected <;> cases s.2 <;> simp

/-- and without that, it may be lost. -/
theorem unseen_heartbeatFail (w : World) : World.unseen { w with sampled := none } ≤ w.unseen ∧
    (w.lastSeen = w.connected → World.unseen { w with sampled := none } = w.unseen) := by
  have hlast : World.lastSeen { w with sampled := none } = w.row.isConnected := rfl
  simp only [World.unseen, hlast]
  cases w.row.isConnected <;> cases w.lastSeen <;> cases w.connected <;> simp

theorem unseen_markDisconnected (w : World) :
    World.unseen { w with row := w.row.markDisconnected w.clock } ≤ w.unseen := by
  cases hsampled : w.sampled with
  | none =>
    simp only [World.unseen, World.lastSeen, hsampled, ConnectionRow.markDisconnected, Option.elim_none]
    simp
  | some s =>
    simp only [World.unseen, World.lastSeen, hsampled, ConnectionRow.markDisconnected, Option.elim_some]
    simp

/-- A drop is counted, or on its way, or never seen. -/
theorem unseen_step (w : World) (e : Event) :
    (step w e).row.nDisconnects24h + (step w e).unseen + w.drops ≤ w.row.nDisconnects24h + w.unseen + (step w e).drops ∧
      (Seen w e →
        (step w e).row.nDisconnects24h + (step w e).unseen + w.drops = w.row.nDisconnects24h + w.unseen + (step w e).drops) := by
  cases e with
  | drop => exact unseen_drop w
  | poll =>
    simp only [step, World.poll]
    split_ifs <;> exact ⟨le_rfl, fun _ => rfl⟩
  | socketUp => exact unseen_socketUp w
  | connectReturn =>
    simp only [step, World.connectReturn]
    split_ifs <;> exact ⟨le_rfl, fun _ => rfl⟩
  | sample =>
    have hsame : w.sample.row = w.row ∧ w.sample.drops = w.drops := by
      unfold World.sample
      split <;> exact ⟨rfl, rfl⟩
    simp only [step, unseen_sample, hsame, le_refl, implies_true, and_self]
  | heartbeat summary =>
    have hdrops : (w.heartbeat summary).drops = w.drops := by
      unfold World.heartbeat
      cases w.sampled <;> rfl
    simp only [step, unseen_heartbeat, hdrops, le_refl, implies_true, and_self]
  | heartbeatFail =>
    obtain ⟨hle, heq⟩ := unseen_heartbeatFail w
    exact ⟨by simp only [step]; omega, fun hseen => by simp only [step, heq hseen]⟩
  | markDisconnected =>
    have hle := unseen_markDisconnected w
    have hcount : (w.row.markDisconnected w.clock).nDisconnects24h = w.row.nDisconnects24h := rfl
    refine ⟨?_, fun hnone => ?_⟩
    · simp only [step, hcount]
      omega
    · have hzero : w.unseen = 0 := hnone
      simp only [step, hcount]
      omega
  | wait d => exact ⟨le_rfl, fun _ => rfl⟩

/-- The row never counts more disconnects than the socket had drops, however old a look of a heartbeat is when it is written;
and it counts every one of them, or has it on its way, where a heartbeat looks between any two changes of the socket. -/
theorem disconnects_counted (connected : Bool) (row : ConnectionRow) (es : List Event) :
    let w := run (.start connected row) es
    w.row.nDisconnects24h + w.unseen ≤ row.nDisconnects24h + (World.start connected row).unseen + w.drops ∧
      (GuardedRuns.Guarded step Seen (.start connected row) es →
        w.row.nDisconnects24h + w.unseen = row.nDisconnects24h + (World.start connected row).unseen + w.drops) := by
  intro w
  constructor
  · refine List.foldlRecOn (motive := fun w : World => w.row.nDisconnects24h + w.unseen ≤
      row.nDisconnects24h + (World.start connected row).unseen + w.drops) es step le_rfl ?_
    intro w hw e _
    have hstep := (unseen_step w e).1
    omega
  · intro hseen
    refine (GuardedRuns.Run.of_foldl es hseen).invariant (I := fun w : World => w.row.nDisconnects24h + w.unseen =
      row.nDisconnects24h + (World.start connected row).unseen + w.drops) ?_ rfl
    intro w e hw he
    have hstep := (unseen_step w e).2 he
    omega

/-- A connection of a paper account that has counted two disconnects -/
def seededRow : ConnectionRow := ⟨true, 0, some "DU1", some .paper, some 5, some 20, some 1, none, 2⟩

/-- The socket drops and comes back, a heartbeat fails, the engine shuts down and starts anew, and the socket drops once more. -/
def droppedTwice : List Event :=
  [.drop, .sample, .heartbeat none, .poll, .socketUp, .sample, .heartbeatFail, .connectReturn, .markDisconnected, .sample,
    .heartbeat none, .drop]

theorem disconnects_counted_twice :
    (run (.start true seededRow) droppedTwice).row.nDisconnects24h + (run (.start true seededRow) droppedTwice).unseen =
      2 + 0 + (run (.start true seededRow) droppedTwice).drops :=
  (disconnects_counted true seededRow droppedTwice).2 (by decide)

inductive OrderState | submitted | acknowledged | other
  deriving DecidableEq

/-- `StructureOrder` -/
structure Order where
  id : ℕ
  state : OrderState
  submittedAt : Option ℤ

/-- A row of `trade_event` of the type `stuck_order_alert` -/
structure Alert where
  orderId : ℕ
  ts : ℤ
  ageSeconds : ℤ

/-- `interval_s` is how long the loop sleeps, and has no part in what it writes. -/
structure WatchConfig where
  stuckAfter : ℤ
  dedupWindow : ℤ
  dedupWindow_nonneg : 0 ≤ dedupWindow

section Stuck
variable (config : WatchConfig)

def Order.Stuck (o : Order) (now : ℤ) : Prop :=
  (o.state = .submitted ∨ o.state = .acknowledged) ∧ ∃ since ∈ o.submittedAt, since < now - config.stuckAfter

instance (o : Order) (now : ℤ) : Decidable (o.Stuck config now) :=
  inferInstanceAs (Decidable (_ ∧ ∃ since ∈ o.submittedAt, since < now - config.stuckAfter))

def findStuckOrders (orders : List Order) (now : ℤ) : List Order := orders.filter fun o => o.Stuck config now

def alreadyAlertedRecently (alerts : List Alert) (orderId : ℕ) (now : ℤ) : Bool :=
  alerts.any fun a => a.orderId = orderId ∧ now - config.dedupWindow ≤ a.ts

/-- The orders as the other tasks leave them, and the alerts of the journal -/
structure Journal where
  clock : ℤ
  orders : List Order
  alerts : List Alert

inductive WatchEvent
  | orders (orders : List Order)
  | watch (delay : ℕ)
  | wait (d : ℕ)

/-- One order of a cycle at `now`, whose transaction began at `ts` -/
def alertOne (now ts : ℤ) (alerts : List Alert) (o : Order) : List Alert :=
  if alreadyAlertedRecently config alerts o.id now then alerts
  else alerts ++ [⟨o.id, ts, o.submittedAt.elim 0 fun since => now - since⟩]

/-- A cycle of `stuck_order_watcher_loop`; its transaction begins `delay` after it has taken the time. -/
def Journal.watch (j : Journal) (delay : ℕ) : Journal :=
  { j with
    clock := j.clock + delay + 1
    alerts := (findStuckOrders config j.orders j.clock).foldl (alertOne config j.clock (j.clock + delay)) j.alerts }

def watchStep (j : Journal) : WatchEvent → Journal
  | .orders orders => { j with orders := orders }
  | .watch delay => j.watch config delay
  | .wait d => { j with clock := j.clock + d }

def watchRun (es : List WatchEvent) : Journal := es.foldl (watchStep config) ⟨0, [], []⟩

variable {config}

theorem mem_alertOne {now ts : ℤ} {alerts : List Alert} {o : Order} {a : Alert} (h : a ∈ alerts) :
    a ∈ alertOne config now ts alerts o := by
  unfold alertOne
  split
  · exact h
  · exact List.mem_append_left _ h

/-- An order of a cycle has an alert within the window after it. -/
theorem alertOne_covers {now ts : ℤ} (hts : now ≤ ts) (alerts : List Alert) (o : Order) :
    ∃ a ∈ alertOne config now ts alerts o, a.orderId = o.id ∧ now - config.dedupWindow ≤ a.ts := by
  unfold alertOne
  split
  case isTrue hrecent =>
    obtain ⟨a, ha, hrecent⟩ := List.any_eq_true.mp hrecent
    exact ⟨a, ha, of_decide_eq_true hrecent⟩
  case isFalse =>
    refine ⟨_, List.mem_append_right _ (List.mem_singleton_self _), rfl, ?_⟩
    have hwindow := config.dedupWindow_nonneg
    simp only
    omega

theorem foldl_alertOne_covers {now ts : ℤ} (hts : now ≤ ts) (orders : List Order) (alerts : List Alert) :
    (∀ a ∈ alerts, a ∈ orders.foldl (alertOne config now ts) alerts) ∧
      ∀ o ∈ orders, ∃ a ∈ orders.foldl (alertOne config now ts) alerts,
        a.orderId = o.id ∧ now - config.dedupWindow ≤ a.ts := by
  induction orders generalizing alerts with
  | nil => exact ⟨fun _ ha => ha, fun _ ho => absurd ho List.not_mem_nil⟩
  | cons o orders ih =>
    obtain ⟨hkept, hcovers⟩ := ih (alertOne config now ts alerts o)
    refine ⟨fun a ha => hkept a (mem_alertOne ha), List.forall_mem_cons.mpr ⟨?_, hcovers⟩⟩
    obtain ⟨a, ha, hcover⟩ := alertOne_covers hts alerts o
    exact ⟨a, hkept a ha, hcover⟩

variable (config) in
/-- The alerts of one order lie more than the window apart, and each is of an order that had waited. -/
structure Spaced (last : ℤ) (alerts : List Alert) : Prop where
  apart : alerts.Pairwise fun a b => a.orderId = b.orderId → a.ts + config.dedupWindow < b.ts
  past : ∀ a ∈ alerts, a.ts ≤ last
  old : ∀ a ∈ alerts, config.stuckAfter < a.ageSeconds

theorem Spaced.alertOne {now ts : ℤ} (hts : now ≤ ts) {alerts : List Alert} (h : Spaced config ts alerts) {o : Order}
    (ho : o.Stuck config now) : Spaced config ts (alertOne config now ts alerts o) := by
  unfold ExecutionWatch.alertOne
  split
  case isTrue => exact h
  case isFalse hrecent =>
    refine ⟨List.pairwise_append.mpr ⟨h.apart, List.pairwise_singleton _ _, ?_⟩, ?_, ?_⟩
    · intro a ha b hb hid
      obtain rfl := List.mem_singleton.mp hb
      have hbefore : ¬ now - config.dedupWindow ≤ a.ts := fun hle =>
        hrecent (List.any_eq_true.mpr ⟨a, ha, decide_eq_true ⟨hid, hle⟩⟩)
      simp only
      omega
    · intro a ha
      rcases List.mem_append.mp ha with ha | ha
      · exact h.past a ha
      · obtain rfl := List.mem_singleton.mp ha
        exact le_rfl
    · intro a ha
      rcases List.mem_append.mp ha with ha | ha
      · exact h.old a ha
      · obtain rfl := List.mem_singleton.mp ha
        obtain ⟨-, since, hat, hlt⟩ := ho
        rw [Option.mem_def.mp hat]
        simp only [Option.elim_some]
        omega

theorem Spaced.foldl {now ts : ℤ} (hts : now ≤ ts) {orders : List Order} (horders : ∀ o ∈ orders, o.Stuck config now)
    {alerts : List Alert} (h : Spaced config ts alerts) :
    Spaced config ts (orders.foldl (ExecutionWatch.alertOne config now ts) alerts) := by
  induction orders generalizing alerts with
  | nil => exact h
  | cons o orders ih =>
    obtain ⟨ho, horders⟩ := List.forall_mem_cons.mp horders
    exact ih horders (h.alertOne hts ho)

theorem Spaced.later {last last' : ℤ} (hle : last ≤ last') {alerts : List Alert} (h : Spaced config last alerts) :
    Spaced config last' alerts :=
  ⟨h.apart, fun a ha => (h.past a ha).trans hle, h.old⟩

theorem Spaced.step {j : Journal} (h : Spaced config j.clock j.alerts) (e : WatchEvent) :
    Spaced config (watchStep config j e).clock (watchStep config j e).alerts := by
  cases e with
  | orders orders => exact h
  | wait d => exact h.later (by simp [watchStep])
  | watch delay =>
    have hdelay : j.clock ≤ j.clock + delay := by omega
    have hafter : j.clock + delay ≤ j.clock + delay + 1 := by omega
    exact ((h.later hdelay).foldl hdelay fun o ho => of_decide_eq_true (List.mem_filter.mp ho).2).later hafter

variable (config)

/-- Whatever becomes of the orders between the cycles, an order is reported at most once in a window, only after it has waited;
and after a cycle each order that waits has been reported within the window. -/
theorem stuck_orders_reported (es : List WatchEvent) (delay : ℕ) :
    let before := watchRun config es
    let after := watchRun config (es ++ [.watch delay])
    (after.alerts.Pairwise fun a b => a.orderId = b.orderId → a.ts + config.dedupWindow < b.ts) ∧
      (∀ a ∈ after.alerts, config.stuckAfter < a.ageSeconds) ∧
      (∀ a ∈ before.alerts, a ∈ after.alerts) ∧
      ∀ o ∈ before.orders, o.Stuck config before.clock →
        ∃ a ∈ after.alerts, a.orderId = o.id ∧ before.clock - config.dedupWindow ≤ a.ts := by
  intro before after
  have hstart : Spaced config 0 [] := ⟨.nil, by simp, by simp⟩
  have hspaced : Spaced config after.clock after.alerts :=
    List.foldlRecOn (motive := fun j : Journal => Spaced config j.clock j.alerts) _ _ hstart fun j hj e _ => hj.step e
  have hafter : after = before.watch config delay := List.foldl_concat ..
  have hdelay : before.clock ≤ before.clock + delay := by omega
  obtain ⟨hkept, hcovers⟩ := foldl_alertOne_covers hdelay (findStuckOrders config before.orders before.clock) before.alerts
  refine ⟨hspaced.apart, hspaced.old, ?_, ?_⟩
  · rw [hafter]
    exact hkept
  · intro o ho hstuck
    rw [hafter]
    exact hcovers o (List.mem_filter.mpr ⟨ho, decide_eq_true hstuck⟩)

end Stuck

end FxVol.ExecutionWatch
