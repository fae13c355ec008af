import FxVol.GuardedRuns
import Mathlib.Data.List.Infix

/-!
# The ready gate

The session supervisor closes and opens the gate of the mutating routes, from the error and
disconnect callbacks of the socket and from a reconciliation pass that runs between them.
The gate is safe while each step that opens it has a pass of the current session to rest on,
and it is closed whenever the session changes.
-/
namespace FxVol

open GuardedRuns

inductive ReadyReason
  | notStarted | ibUpstreamDown | ibSocketClosed | ibDisconnected | ibNotConnected
  | reconciliationInProgress | ready
  deriving DecidableEq

def ReadyReason.text : ReadyReason → String
  | .notStarted => "not_started"
  | .ibUpstreamDown => "ib_upstream_down"
  | .ibSocketClosed => "ib_socket_closed"
  | .ibDisconnected => "ib_disconnected"
  | .ibNotConnected => "ib_not_connected"
  | .reconciliationInProgress => "reconciliation_in_progress"
  | .ready => "ready"

structure SessionState where
  ready : Bool
  readyReason : ReadyReason
  upstreamDownSince : Option ℕ
  deriving DecidableEq

/-- `close` -/
def SessionState.closeGate (s : SessionState) (reason : ReadyReason) : SessionState :=
  { s with ready := false, readyReason := reason }

/-- `open` -/
def SessionState.openGate (s : SessionState) : SessionState :=
  { s with ready := true, readyReason := .ready }

/-- `require_ready`: the detail of the 503 while the gate is closed. -/
def requireReady (s : SessionState) : Except (String × String) Unit :=
  if s.ready then .ok () else .error ("reconciliation_in_progress", s.readyReason.text)

def upstreamLost : ℕ := 1100
def upstreamRestoredDataLost : ℕ := 1101
def upstreamRestoredDataKept : ℕ := 1102
def socketClosed : ℕ := 507

/-- The supervisor with its socket, the passes waiting for the lock and the one that holds it,
which is known by the time it started.  The last three fields record what happened when: the
last successful connect, the last 1101, and the starts of the passes that completed. -/
structure SessionWorld where
  state : SessionState
  ibConnected : Bool
  waiting : ℕ
  running : Option ℕ
  clock : ℕ
  connectedAt : Option ℕ
  lostAt : Option ℕ
  completed : List ℕ

/-- The supervisor when it is built, after the connect of the startup, successful or not. -/
def SessionWorld.start (ibConnected : Bool) : SessionWorld where
  state := ⟨false, .notStarted, none⟩
  ibConnected := ibConnected
  waiting := 0
  running := none
  clock := 1
  connectedAt := if ibConnected then some 0 else none
  lostAt := none
  completed := []

/-- Events come in any order: `disconnected` is delivered at best after the socket went down,
`connected` is awaited some time after it came up, and a pass that waits begins once the lock
is free. -/
inductive SessionEvent
  | socketUp
  | socketDown
  | disconnected
  | connected
  | error (code : ℕ)
  | passBegin
  | passEnd

/-- `on_error`: the codes that describe the session; the others are counted and logged. -/
def onError (w : SessionWorld) (code : ℕ) : SessionWorld :=
  if code = upstreamLost then
    let state := { w.state with
      upstreamDownSince := some (w.state.upstreamDownSince.getD w.clock) }
    { w with state := state.closeGate .ibUpstreamDown }
  else if code = upstreamRestoredDataLost then
    { w with
      state := { w.state with upstreamDownSince := none }
      waiting := w.waiting + 1
      lostAt := some w.clock }
  else if code = upstreamRestoredDataKept then
    let state := { w.state with upstreamDownSince := none }
    { w with state := if state.readyReason = .ibUpstreamDown then state.openGate else state }
  else if code = socketClosed then { w with state := w.state.closeGate .ibSocketClosed }
  else w

/-- `run_pass` once it holds the lock, up to its first `await`. -/
def passBegin (w : SessionWorld) : SessionWorld :=
  if w.waiting = 0 ∨ w.running ≠ none then w
  else if !w.ibConnected then
    { w with waiting := w.waiting - 1, state := w.state.closeGate .ibNotConnected }
  else
    { w with
      waiting := w.waiting - 1
      state := w.state.closeGate .reconciliationInProgress
      running := some w.clock }

/-- The end of `run_pass`, after its steps have run or failed. -/
def passEnd (w : SessionWorld) : SessionWorld :=
  match w.running with
  | none => w
  | some start =>
    { w with
      running := none
      completed := start :: w.completed
      state :=
        if !w.ibConnected then w.state.closeGate .ibDisconnected
        else if w.state.upstreamDownSince ≠ none then w.state.closeGate .ibUpstreamDown
        else w.state.openGate }

def sessionChange (w : SessionWorld) : SessionEvent → SessionWorld
  | .socketUp =>
    if w.ibConnected then w else { w with ibConnected := true, connectedAt := some w.clock }
  | .socketDown => { w with ibConnected := false }
  | .disconnected => { w with state := w.state.closeGate .ibDisconnected }
  | .connected => { w with waiting := w.waiting + 1 }
  | .error code => onError w code
  | .passBegin => passBegin w
  | .passEnd => passEnd w

def sessionStep (w : SessionWorld) (e : SessionEvent) : SessionWorld :=
  { sessionChange w e with clock := w.clock + 1 }

/-- A pass that started then started after the last connect and the last 1101. -/
def SessionWorld.Current (w : SessionWorld) (start : ℕ) : Prop :=
  (∀ t ∈ w.connectedAt, t < start) ∧ ∀ t ∈ w.lostAt, t < start

instance (w : SessionWorld) (start : ℕ) : Decidable (w.Current start) :=
  inferInstanceAs (Decidable (_ ∧ _))

/-- While the gate is open, the upstream is not known to be down and a pass of the current
session has completed. -/
def GateSafe (w : SessionWorld) : Prop :=
  w.state.ready = true →
    w.state.upstreamDownSince = none ∧ ∃ start ∈ w.completed, w.Current start

instance (w : SessionWorld) : Decidable (GateSafe w) := inferInstanceAs (Decidable (_ → _ ∧ _))

/-- The gate is closed when the socket comes up and when a 1101 comes in; a 1102 that opens it
finds a completed pass of the current session, and a pass that opens it began in that
session. -/
def KeepsGate (w : SessionWorld) : SessionEvent → Prop
  | .socketUp => w.ibConnected = false → w.state.ready = false
  | .error code =>
    (code = upstreamRestoredDataLost → w.state.ready = false) ∧
    (code = upstreamRestoredDataKept → w.state.readyReason = .ibUpstreamDown →
      ∃ start ∈ w.completed, w.Current start)
  | .passEnd => w.ibConnected = true → w.state.upstreamDownSince = none →
    ∀ start ∈ w.running, w.Current start
  | .socketDown | .disconnected | .connected | .passBegin => True

instance (w : SessionWorld) : ∀ e, Decidable (KeepsGate w e)
  | .socketUp => inferInstanceAs (Decidable (_ → _))
  | .error _ => inferInstanceAs (Decidable (_ ∧ _))
  | .passEnd => inferInstanceAs (Decidable (_ → _ → _))
  | .socketDown | .disconnected | .connected | .passBegin => .isTrue trivial

section Events
variable (w : SessionWorld)

@[simp] theorem onError_lost : onError w upstreamLost =
    { w with state := ⟨false, .ibUpstreamDown, some (w.state.upstreamDownSince.getD w.clock)⟩ } :=
  rfl

@[simp] theorem onError_dataLost : onError w upstreamRestoredDataLost =
    { w with
      state := ⟨w.state.ready, w.state.readyReason, none⟩
      waiting := w.waiting + 1
      lostAt := some w.clock } := rfl

@[simp] theorem onError_dataKept : onError w upstreamRestoredDataKept =
    { w with
      state :=
        if w.state.readyReason = .ibUpstreamDown then ⟨true, .ready, none⟩
        else ⟨w.state.ready, w.state.readyReason, none⟩ } := rfl

@[simp] theorem onError_socketClosed : onError w socketClosed =
    { w with state := ⟨false, .ibSocketClosed, w.state.upstreamDownSince⟩ } := rfl

theorem onError_cases (code : ℕ) : code = upstreamLost ∨ code = upstreamRestoredDataLost ∨
    code = upstreamRestoredDataKept ∨ code = socketClosed ∨
    (code ≠ upstreamRestoredDataLost ∧ code ≠ upstreamRestoredDataKept ∧
      ∀ w, onError w code = w) := by
  by_cases h₁ : code = upstreamLost
  · exact .inl h₁
  by_cases h₂ : code = upstreamRestoredDataLost
  · exact .inr (.inl h₂)
  by_cases h₃ : code = upstreamRestoredDataKept
  · exact .inr (.inr (.inl h₃))
  by_cases h₄ : code = socketClosed
  · exact .inr (.inr (.inr (.inl h₄)))
  · refine .inr (.inr (.inr (.inr ⟨h₂, h₃, ?_⟩)))
    intro w
    rw [onError, if_neg h₁, if_neg h₂, if_neg h₃, if_neg h₄]

end Events

/-- Passes are serialised, and everything recorded lies in the past. -/
structure PassesOrdered (w : SessionWorld) : Prop where
  running : ∀ start ∈ w.running, start < w.clock ∧ ∀ p ∈ w.completed, p < start
  completed : ∀ p ∈ w.completed, p < w.clock
  connectedAt : ∀ t ∈ w.connectedAt, t < w.clock
  lostAt : ∀ t ∈ w.lostAt, t < w.clock
  reason : w.state.readyReason = .ibUpstreamDown → w.state.ready = false

theorem passesOrdered_start (ibConnected : Bool) :
    PassesOrdered (SessionWorld.start ibConnected) := by
  refine ⟨?_, ?_, ?_, ?_, ?_⟩ <;> cases ibConnected <;> simp [SessionWorld.start]

theorem PassesOrdered.tick {w : SessionWorld} (h : PassesOrdered w) :
    PassesOrdered { w with clock := w.clock + 1 } where
  running start hs := ⟨Nat.lt_succ_of_lt (h.running start hs).1, (h.running start hs).2⟩
  completed p hp := Nat.lt_succ_of_lt (h.completed p hp)
  connectedAt t ht := Nat.lt_succ_of_lt (h.connectedAt t ht)
  lostAt t ht := Nat.lt_succ_of_lt (h.lostAt t ht)
  reason := h.reason

theorem passesOrdered_step {w : SessionWorld} (h : PassesOrdered w) (e : SessionEvent) :
    PassesOrdered (sessionStep w e) := by
  have htick := h.tick
  cases e with
  | socketUp =>
    unfold sessionStep sessionChange
    split_ifs
    · exact htick
    · refine { htick with connectedAt := ?_ }
      rintro t ⟨⟩
      exact Nat.lt_succ_self _
  | socketDown => exact { htick with }
  | disconnected => exact { htick with reason := fun _ => rfl }
  | connected => exact { htick with }
  | error code =>
    rw [sessionStep, sessionChange]
    rcases onError_cases code with rfl | rfl | rfl | rfl | ⟨hlost, hkept, hother⟩
    · exact { htick with reason := fun _ => rfl }
    · refine { htick with lostAt := ?_ }
      rintro t ⟨⟩
      exact Nat.lt_succ_self _
    · refine { htick with reason := ?_ }
      intro hreason
      rw [onError_dataKept] at hreason ⊢
      split_ifs at hreason with hdown
      exact absurd hreason hdown
    · exact { htick with reason := fun _ => rfl }
    · rw [hother]
      exact htick
  | passBegin =>
    unfold sessionStep sessionChange passBegin
    dsimp only
    split_ifs with hbusy hconn
    · exact htick
    · exact { htick with reason := fun _ => rfl }
    · refine { htick with running := ?_, reason := fun _ => rfl }
      rintro start ⟨⟩
      exact ⟨Nat.lt_succ_self _, h.completed⟩
  | passEnd =>
    unfold sessionStep sessionChange passEnd
    dsimp only
    cases hrun : w.running with
    | none => exact htick
    | some start =>
      obtain ⟨hpast, hlast⟩ := h.running start hrun
      refine { htick with running := ?_, completed := ?_, reason := ?_ }
      · rintro s ⟨⟩
      · intro p hp
        rcases List.mem_cons.mp hp with rfl | hold
        · exact Nat.lt_succ_of_lt hpast
        · exact htick.completed p hold
      · intro hreason
        dsimp only at hreason ⊢
        split_ifs at hreason ⊢ with hdown hup
        · rfl
        · rfl
        · cases hreason

section Gate
variable {w : SessionWorld}

theorem gateSafe_closed (h : w.state.ready = false) : GateSafe w := by
  intro hready
  rw [h] at hready
  cases hready

/-- Without a completed pass of the current session, only a closed gate is safe. -/
theorem gateSafe_iff_closed (h : ∀ p ∈ w.completed, ¬ w.Current p) :
    GateSafe w ↔ w.state.ready = false := by
  constructor
  · intro hsafe
    by_contra hopen
    obtain ⟨_, p, hp, hcurrent⟩ := hsafe (by simpa using hopen)
    exact h p hp hcurrent
  · exact gateSafe_closed

/-- A step keeps a safe gate safe exactly when it meets the condition. -/
theorem gateSafe_step_iff (h : PassesOrdered w) (hsafe : GateSafe w) (e : SessionEvent) :
    GateSafe (sessionStep w e) ↔ KeepsGate w e := by
  cases e with
  | socketUp =>
    cases hconn : w.ibConnected with
    | true =>
      have hsame : (sessionChange w .socketUp) = w := if_pos hconn
      rw [sessionStep, hsame]
      refine iff_of_true hsafe ?_
      intro hdown
      rw [hconn] at hdown
      cases hdown
    | false =>
      have hup : sessionChange w .socketUp =
          { w with ibConnected := true, connectedAt := some w.clock } :=
        if_neg (by rw [hconn]; exact Bool.false_ne_true)
      rw [sessionStep, hup, gateSafe_iff_closed]
      · exact ⟨fun hclosed _ => hclosed, fun hkeeps => hkeeps hconn⟩
      · intro p hp hcurrent
        exact lt_asymm (h.completed p hp) (hcurrent.1 w.clock rfl)
  | socketDown => exact iff_of_true hsafe trivial
  | disconnected => exact iff_of_true (gateSafe_closed rfl) trivial
  | connected => exact iff_of_true hsafe trivial
  | error code =>
    rw [sessionStep, sessionChange]
    rcases onError_cases code with rfl | rfl | rfl | rfl | ⟨hlost, hkept, hother⟩
    · refine iff_of_true (gateSafe_closed rfl) ⟨?_, ?_⟩ <;> intro hcode <;> cases hcode
    · rw [gateSafe_iff_closed]
      · refine ⟨fun hclosed => ⟨fun _ => hclosed, ?_⟩, fun hkeeps => hkeeps.1 rfl⟩
        intro hcode
        cases hcode
      · intro p hp hcurrent
        exact lt_asymm (h.completed p hp) (hcurrent.2 w.clock rfl)
    · by_cases hdown : w.state.readyReason = .ibUpstreamDown
      · rw [onError_dataKept, if_pos hdown]
        constructor
        · intro hgate
          refine ⟨?_, fun _ _ => (hgate rfl).2⟩
          intro hcode
          cases hcode
        · intro hkeeps _
          exact ⟨rfl, hkeeps.2 rfl hdown⟩
      · rw [onError_dataKept, if_neg hdown]
        refine iff_of_true ?_ ⟨?_, fun _ hreason => absurd hreason hdown⟩
        · intro hready
          exact ⟨rfl, (hsafe hready).2⟩
        · intro hcode
          cases hcode
    · refine iff_of_true (gateSafe_closed rfl) ⟨?_, ?_⟩ <;> intro hcode <;> cases hcode
    · rw [hother]
      exact iff_of_true hsafe ⟨fun hcode => absurd hcode hlost, fun hcode => absurd hcode hkept⟩
  | passBegin =>
    refine iff_of_true ?_ trivial
    unfold sessionStep sessionChange passBegin
    dsimp only
    split_ifs
    · exact hsafe
    · exact gateSafe_closed rfl
    · exact gateSafe_closed rfl
  | passEnd =>
    unfold sessionStep sessionChange passEnd
    cases hrun : w.running with
    | none =>
      refine iff_of_true hsafe ?_
      intro _ _ start hstart
      rw [hrun] at hstart
      cases hstart
    | some start =>
      obtain ⟨_, hlast⟩ := h.running start hrun
      cases hconn : w.ibConnected with
      | false =>
        refine iff_of_true (gateSafe_closed rfl) ?_
        intro hup
        rw [hconn] at hup
        cases hup
      | true =>
        by_cases hdown : w.state.upstreamDownSince = none
        · -- the gate opens, and the pass that ends started after all the completed ones
          dsimp only
          rw [if_neg (by decide), if_neg (not_not.mpr hdown)]
          constructor
          · intro hgate _ _ s hs
            obtain rfl : start = s := Option.some.inj (hrun.symm.trans hs)
            obtain ⟨_, p, hp, hconnected, hlost⟩ := hgate rfl
            rcases List.mem_cons.mp hp with rfl | hold
            · exact ⟨hconnected, hlost⟩
            · have hlt := hlast p hold
              exact ⟨fun t ht => (hconnected t ht).trans hlt, fun t ht => (hlost t ht).trans hlt⟩
          · intro hkeeps _
            exact ⟨hdown, start, List.mem_cons_self, hkeeps hconn hdown start hrun⟩
        · refine iff_of_true ?_ (fun _ hup => absurd hup hdown)
          apply gateSafe_closed
          dsimp only
          rw [if_neg (by decide), if_pos hdown]
          rfl

/-- The gate is safe all along a run exactly when every step meets the condition. -/
theorem ready_gate_safe_iff (ibConnected : Bool) (es : List SessionEvent) :
    (∀ past, past <+: es → GateSafe (past.foldl sessionStep (.start ibConnected))) ↔
      Guarded sessionStep KeepsGate (.start ibConnected) es :=
  guarded_iff (P := GateSafe) (fun _ e hw => passesOrdered_step hw e)
    (fun _ e hw hsafe => gateSafe_step_iff hw hsafe e)
    (passesOrdered_start ibConnected) (gateSafe_closed rfl) es

/-- Mutating routes are let through only while the gate is open. -/
theorem requireReady_ok {s : SessionState} : requireReady s = .ok () ↔ s.ready = true := by
  unfold requireReady
  split_ifs with h <;> simp [h]

/-- A short upstream outage during the first pass: the 1102 opens the gate before the pass is
over. -/
def openedMidPass : List SessionEvent :=
  [.connected, .passBegin, .error upstreamLost, .error upstreamRestoredDataKept]

theorem gate_opened_mid_pass :
    ¬ ∀ es : List SessionEvent, GateSafe (es.foldl sessionStep (.start true)) := by
  intro h
  exact absurd (h openedMidPass) (by decide)

end Gate

end FxVol
