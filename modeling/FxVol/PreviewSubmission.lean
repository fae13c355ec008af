import FxVol.PreviewRequests
import FxVol.GuardedRuns
import Mathlib.Data.List.Infix

/-!
# One submission per preview

The row lock and the stamped action admit one structure, whatever the Redis lock does.  A lock is
taken from another request only by an error path that runs without a lock of its own, and a preview
is submitted and cancelled only where a cancel writes over an action it has not read.
-/
namespace FxVol.PreviewRequests

open GuardedRuns

namespace Phase

/-- The request has run its release, or has none to run. -/
def released : Phase → Bool
  | .unwinding _ | .submitted | .cancelled | .refused _ => true
  | _ => false

def closed : Phase → Bool
  | .submitted | .cancelled | .refused _ => true
  | _ => false

/-- The phases in which nothing is locked or written. -/
def plain : Phase → Bool
  | .failing _ | .unwinding _ | .cancelRead | .refused _ => true
  | _ => false

/-- The structure of the request is committed, and nothing has failed since. -/
def sent : Phase → Bool
  | .dispatching | .submitted => true
  | _ => false

def isCancelled : Phase → Bool
  | .cancelled => true
  | _ => false

def succeeded (p : Phase) : Bool := p matches .submitted | .cancelled

end Phase

/-- The request is still under way, and moves to a phase in which nothing is locked or written. -/
def Phase.turnsTo (p p' : Phase) : Bool := !p.closed && p'.plain && (!p.released || p'.released)

/-- A step that neither locks nor writes: the request waits, goes on, or goes on after the end of its
transaction. -/
inductive RequestTurn (w : World) (k : ℕ) (r : Request) : World → Prop
  | idle : RequestTurn w k r w
  | turn (p : Phase) (hturn : r.phase.turnsTo p = true)
      (hread : p = .cancelRead → w.preview ≠ none) :
      RequestTurn w k r (w.put k { r with phase := p })
  | leave (p : Phase) (hturn : r.phase.turnsTo p = true) (hread : p ≠ .cancelRead) :
      RequestTurn w k r ((w.endTransaction k).put k { r with phase := p })

inductive RequestMove (w : World) (k : ℕ) (r : Request) : World → Prop
  | turn (w' : World) (hturn : RequestTurn w k r w') : RequestMove w k r w'
  | acquire (mode : ExecutionMode) (hphase : r.phase = .arrived (some mode)) (hfree : w.lock = none) :
      RequestMove w k r ((w.acquire k).put k ⟨some w.clock, .acquired mode⟩)
  | load (mode : ExecutionMode) (row : TradePreviewRow) (hphase : r.phase = .acquired mode)
      (hfree : w.rowLock = none) (hrow : w.preview = some row) :
      RequestMove w k r ((w.lockRow k).put k { r with phase := .loaded mode row })
  | clear (mode : ExecutionMode) (row : TradePreviewRow) (hphase : r.phase = .loaded mode row)
      (hnone : row.userAction = none) :
      RequestMove w k r (w.put k { r with phase := .cleared mode })
  | flush (mode : ExecutionMode) (hphase : r.phase = .cleared mode) (hnone : w.structures = []) :
      RequestMove w k r (w.put k { r with phase := .flushed mode })
  | commit (mode : ExecutionMode) (p : Phase) (hphase : r.phase = .flushed mode)
      (hp : p = .submitted ∨ p = .dispatching) :
      RequestMove w k r ((w.persist k mode).put k { r with phase := p })
  | answer (hphase : r.phase = .dispatching) :
      RequestMove w k r (w.put k { r with phase := .submitted })
  | release (refusal : Refusal) (hphase : r.phase = .failing refusal) :
      RequestMove w k r ((w.releaseLock k).put k { r with phase := .unwinding refusal })
  | cancel (hphase : r.phase = .cancelRead) (hfree : w.rowLock = none) :
      RequestMove w k r ((w.stampPreview .cancelled .cancelled).put k { r with phase := .cancelled })

variable {w w' : World} {k : ℕ} {r : Request} {e : Event}

theorem submitChecks_ok {mode : ExecutionMode} {row : TradePreviewRow} {now : Instant} {seen : Seen}
    {u : Unit} (h : submitChecks mode row now seen = .ok u) : row.userAction = none := by
  by_contra haction
  have hfail : revalidatePreview row.state row.userAction row.expiresAt now row.armedZScore
      (row.currentZ seen.latestZ) (seen.zThresholdMin.getD (3 / 2)) seen.regime =
      .error .previewAlreadyActioned := by
    rw [revalidatePreview, if_pos haction]
    rfl
  rw [submitChecks, hfail] at h
  split at h <;> cases h

theorem advance_move (w : World) (k : ℕ) (r : Request) (seen : Seen) :
    RequestMove w k r (advance w k r seen) := by
  have turns {p : Phase} (hturn : r.phase.turnsTo p = true) (hread : p ≠ .cancelRead) :
      RequestMove w k r (w.put k { r with phase := p }) :=
    .turn _ (.turn p hturn fun hp => absurd hp hread)
  cases hphase : r.phase with
  | arrived mode =>
    cases mode with
    | none =>
      simp only [advance, hphase]
      exact turns (by rw [hphase]; rfl) nofun
    | some mode =>
      simp only [advance, hphase]
      split_ifs
      · cases hlock : w.lock with
        | some l => exact turns (by rw [hphase]; rfl) nofun
        | none => exact .acquire mode hphase hlock
      · exact turns (by rw [hphase]; rfl) nofun
  | acquired mode =>
    simp only [advance, hphase]
    split_ifs with hfree
    · exact .turn _ .idle
    · cases hrow : w.preview with
      | none => exact turns (by rw [hphase]; rfl) nofun
      | some row => exact .load mode row hphase (not_not.mp hfree) hrow
  | loaded mode row =>
    simp only [advance, hphase]
    cases hchecks : submitChecks mode row w.clock seen with
    | ok u => exact .clear mode row hphase (submitChecks_ok hchecks)
    | error refusal =>
      dsimp only
      split_ifs
      · exact .turn _ (.leave _ (by rw [hphase]; rfl) nofun)
      · exact turns (by rw [hphase]; rfl) nofun
  | cleared mode =>
    simp only [advance, hphase]
    split_ifs with hwait hdup
    · exact .turn _ .idle
    · exact .turn _ (.leave _ (by rw [hphase]; rfl) nofun)
    · exact .flush mode hphase (not_not.mp hdup)
  | flushed mode =>
    cases mode with
    | mock =>
      simp only [advance, hphase]
      exact .commit .mock .submitted hphase (.inl rfl)
    | live =>
      simp only [advance, hphase]
      exact .commit .live .dispatching hphase (.inr rfl)
  | dispatching =>
    simp only [advance, hphase]
    split_ifs
    · exact .answer hphase
    · exact turns (by rw [hphase]; rfl) nofun
  | failing refusal =>
    simp only [advance, hphase]
    split_ifs
    · exact .release refusal hphase
    · exact turns (by rw [hphase]; rfl) nofun
  | unwinding refusal =>
    simp only [advance, hphase]
    exact .turn _ (.leave _ (by rw [hphase]; rfl) nofun)
  | cancelArrived =>
    simp only [advance, hphase]
    cases hrow : w.preview with
    | none => exact turns (by rw [hphase]; rfl) nofun
    | some row =>
      dsimp only
      split_ifs
      · exact turns (by rw [hphase]; rfl) nofun
      · exact .turn _ (.turn _ (by rw [hphase]; rfl) fun _ => by simp [hrow])
  | cancelRead =>
    simp only [advance, hphase]
    split_ifs with hfree
    · exact .turn _ .idle
    · exact .cancel hphase (not_not.mp hfree)
  | submitted | cancelled | refused refusal =>
    simp only [advance, hphase]
    exact .turn _ .idle

theorem raiseIn_turn (w : World) (k : ℕ) (r : Request) : RequestTurn w k r (raiseIn w k r) := by
  cases hphase : r.phase with
  | acquired | loaded | cleared | flushed | dispatching | cancelArrived | cancelRead =>
    simp only [raiseIn, hphase]
    exact .turn _ (by rw [hphase]; rfl) nofun
  | _ =>
    simp only [raiseIn, hphase]
    exact .idle

theorem abortIn_turn (w : World) (k : ℕ) (r : Request) : RequestTurn w k r (abortIn w k r) := by
  cases hphase : r.phase with
  | submitted | cancelled | refused =>
    simp only [abortIn, hphase]
    exact .idle
  | _ =>
    simp only [abortIn, hphase]
    exact .leave _ (by rw [hphase]; rfl) nofun

/-- What holds of a request in its phase: from the locked read to the commit it alone holds the row,
which is as it was read and, once cleared, not actioned. -/
def Phase.Ok (w : World) (k : ℕ) : Phase → Prop
  | .loaded _ row => w.rowLock = some k ∧ w.preview = some row
  | .cleared _ | .flushed _ =>
    w.rowLock = some k ∧ ∃ row, w.preview = some row ∧ row.userAction = none
  | .cancelRead => w.preview ≠ none
  | _ => True

def Transactional (w : World) : Prop :=
  ∀ (k : ℕ) (r : Request), w.requests[k]? = some r → r.phase.Ok w k

theorem Phase.Ok.frame {p : Phase} (h : p.Ok w k)
    (hlocked : w.rowLock = some k →
      w'.rowLock = some k ∧ ∀ row, w.preview = some row → w'.preview = some row)
    (hpreview : w.preview ≠ none → w'.preview ≠ none) : p.Ok w' k := by
  cases p with
  | loaded mode row =>
    obtain ⟨hlock, hrow⟩ := hlocked h.1
    exact ⟨hlock, hrow row h.2⟩
  | cleared mode | flushed mode =>
    obtain ⟨hlock, hrow⟩ := hlocked h.1
    obtain ⟨row, hpreview, hnone⟩ := h.2
    exact ⟨hlock, row, hrow row hpreview, hnone⟩
  | cancelRead => exact hpreview h
  | _ => trivial

theorem Phase.plain_of_turnsTo {p p' : Phase} (h : p.turnsTo p' = true) : p'.plain = true := by
  simp only [turnsTo, Bool.and_eq_true] at h
  exact h.1.2

theorem Phase.plain_ok {p : Phase} (hplain : p.plain = true)
    (hread : p = .cancelRead → w.preview ≠ none) : p.Ok w k := by
  cases p with
  | cancelRead => exact hread rfl
  | failing | unwinding | refused => trivial
  | _ => cases hplain

theorem put_request {j : ℕ} {s : Request} (h : (w.put k r).requests[j]? = some s) :
    j = k ∧ s = r ∨ j ≠ k ∧ w.requests[j]? = some s := by
  by_cases hj : j = k
  · subst hj
    refine .inl ⟨rfl, ?_⟩
    rw [World.put, List.getElem?_set] at h
    split_ifs at h <;> simp_all
  · exact .inr ⟨hj, by rwa [World.put, List.getElem?_set_ne (Ne.symm hj)] at h⟩

theorem endTransaction_rowLock {j : ℕ} (hj : j ≠ k) (h : w.rowLock = some j) :
    (w.endTransaction k).rowLock = some j := by
  rw [World.endTransaction]
  dsimp only
  rw [if_neg (by simpa [h] using hj), h]

/-- The requests keep what holds of them where the one that moves is right, and leaves what another
has locked. -/
theorem Transactional.put (h : Transactional w) (hr : r.phase.Ok w' k)
    (hrequests : w'.requests = w.requests)
    (hlocked : ∀ j, j ≠ k → w.rowLock = some j →
      w'.rowLock = some j ∧ ∀ row, w.preview = some row → w'.preview = some row)
    (hpreview : w.preview ≠ none → w'.preview ≠ none) : Transactional (w'.put k r) := by
  intro j s hs
  rcases put_request hs with ⟨rfl, rfl⟩ | ⟨hj, hold⟩
  · exact hr.frame (fun hlock => ⟨hlock, fun _ hrow => hrow⟩) fun hrow => hrow
  · exact (h j s (hrequests ▸ hold)).frame (hlocked j hj) hpreview

theorem stampPreview_preview {state : PreviewState} {action : UserAction} {row : TradePreviewRow}
    (h : w.preview = some row) : (w.stampPreview state action).preview =
      some { row with state := state, userAction := some action } := by
  rw [World.stampPreview, h]
  rfl

theorem stampPreview_ne_none {state : PreviewState} {action : UserAction} (h : w.preview ≠ none) :
    (w.stampPreview state action).preview ≠ none := by
  obtain ⟨row, hrow⟩ := Option.ne_none_iff_exists'.mp h
  simp [stampPreview_preview hrow]

theorem Transactional.turn (h : Transactional w) (hturn : RequestTurn w k r w') :
    Transactional w' := by
  cases hturn with
  | idle => exact h
  | turn p hturn hread =>
    exact h.put (Phase.plain_ok (Phase.plain_of_turnsTo hturn) hread) rfl
      (fun _ _ hlock => ⟨hlock, fun _ hrow => hrow⟩) fun hrow => hrow
  | leave p hturn hread =>
    exact h.put (Phase.plain_ok (Phase.plain_of_turnsTo hturn) fun hp => absurd hp hread) rfl
      (fun j hj hlock => ⟨endTransaction_rowLock hj hlock, fun _ hrow => hrow⟩) fun hrow => hrow

theorem Transactional.move (h : Transactional w) (hr : w.requests[k]? = some r)
    (hmove : RequestMove w k r w') : Transactional w' := by
  have hok := h k r hr
  have here (p : Phase) (hp : p.Ok w k) : Transactional (w.put k { r with phase := p }) :=
    h.put hp rfl (fun _ _ hlock => ⟨hlock, fun _ hrow => hrow⟩) fun hrow => hrow
  cases hmove with
  | turn w' hturn => exact h.turn hturn
  | acquire mode hphase hfree =>
    exact h.put trivial rfl (fun _ _ hlock => ⟨hlock, fun _ hrow => hrow⟩) fun hrow => hrow
  | load mode row hphase hfree hrow =>
    refine h.put ⟨rfl, hrow⟩ rfl ?_ fun hrow => hrow
    intro j _ hlock
    rw [hfree] at hlock
    cases hlock
  | clear mode row hphase hnone =>
    rw [hphase] at hok
    exact here _ ⟨hok.1, row, hok.2, hnone⟩
  | flush mode hphase hnone =>
    rw [hphase] at hok
    exact here _ hok
  | commit mode p hphase hp =>
    rw [hphase] at hok
    refine h.put (by rcases hp with rfl | rfl <;> trivial) rfl ?_ stampPreview_ne_none
    intro j hj hlock
    exact absurd (Option.some.inj (hlock.symm.trans hok.1)) hj
  | answer hphase => exact here _ trivial
  | release refusal hphase =>
    exact h.put trivial rfl (fun _ _ hlock => ⟨hlock, fun _ hrow => hrow⟩) fun hrow => hrow
  | cancel hphase hfree =>
    refine h.put trivial rfl ?_ stampPreview_ne_none
    intro j _ hlock
    rw [hfree] at hlock
    cases hlock

/-- There is one structure at most, and the row tells what was committed: a submit that leaves a
structure, or a cancel that has answered. -/
structure Recorded (w : World) : Prop where
  one : w.structures.length ≤ 1
  sent : w.requests.countP (·.phase.sent) ≤ w.structures.length
  actioned : w.structures ≠ [] → w.userAction ≠ none
  stamped : w.userAction = some .submitted → w.structures ≠ []
  cancels : w.userAction = some .cancelled ↔ 0 < w.requests.countP (·.phase.isCancelled)

section Counts
variable {p : Request → Bool} {s : Request}

theorem countP_put (hr : w.requests[k]? = some r) :
    (w.put k s).requests.countP p =
      w.requests.countP p - (if p r then 1 else 0) + (if p s then 1 else 0) := by
  obtain ⟨hlt, hget⟩ := List.getElem?_eq_some_iff.mp hr
  rw [World.put, List.countP_set hlt, hget]

theorem countP_pos (hr : w.requests[k]? = some r) (h : p r = true) : 0 < w.requests.countP p :=
  List.countP_pos_iff.mpr ⟨r, List.mem_of_getElem? hr, h⟩

theorem countP_put_same (hr : w.requests[k]? = some r) (h : p s = p r) :
    (w.put k s).requests.countP p = w.requests.countP p := by
  rw [countP_put hr, h]
  split_ifs with hp
  · have := countP_pos hr hp
    omega
  · omega

theorem countP_put_le (hr : w.requests[k]? = some r) (h : p s = true → p r = true) :
    (w.put k s).requests.countP p ≤ w.requests.countP p := by
  cases hs : p s with
  | false =>
    rw [countP_put hr, hs]
    simp
  | true => exact (countP_put_same hr (hs.trans (h hs).symm)).le

theorem countP_put_new (hr : w.requests[k]? = some r) (hold : p r = false) (hnew : p s = true) :
    (w.put k s).requests.countP p = w.requests.countP p + 1 := by
  rw [countP_put hr, hold, hnew]
  rfl

end Counts

/-- The structures and the action are as they were, and no request has sent a structure or
cancelled. -/
theorem Recorded.frame (h : Recorded w) (hstructures : w'.structures = w.structures)
    (haction : w'.userAction = w.userAction)
    (hsent : w'.requests.countP (·.phase.sent) ≤ w.requests.countP (·.phase.sent))
    (hcancels : w'.requests.countP (·.phase.isCancelled) =
      w.requests.countP (·.phase.isCancelled)) : Recorded w' := by
  constructor
  · exact hstructures ▸ h.one
  · exact hsent.trans (hstructures ▸ h.sent)
  · rw [hstructures, haction]
    exact h.actioned
  · rw [hstructures, haction]
    exact h.stamped
  · rw [haction, h.cancels, hcancels]

theorem Recorded.put (h : Recorded w) (hr : w.requests[k]? = some r) {s : Request}
    (hrequests : w'.requests = w.requests) (hstructures : w'.structures = w.structures)
    (haction : w'.userAction = w.userAction) (hsent : s.phase.sent = true → r.phase.sent = true)
    (hcancelled : s.phase.isCancelled = r.phase.isCancelled) : Recorded (w'.put k s) := by
  have hr' : w'.requests[k]? = some r := hrequests ▸ hr
  have hcount := countP_put_le (p := fun q => q.phase.sent) hr' hsent
  have hcancels := countP_put_same (p := fun q => q.phase.isCancelled) hr' hcancelled
  rw [hrequests] at hcount hcancels
  exact h.frame hstructures haction hcount hcancels

theorem Phase.turnsTo_counts {p p' : Phase} (h : p.turnsTo p' = true) :
    p'.sent = false ∧ p.isCancelled = false ∧ p'.isCancelled = false := by
  cases p <;> cases p' <;> first | exact ⟨rfl, rfl, rfl⟩ | cases h

theorem Recorded.turn (h : Recorded w) (hr : w.requests[k]? = some r)
    (hturn : RequestTurn w k r w') : Recorded w' := by
  cases hturn with
  | idle => exact h
  | turn p hturn hread | leave p hturn hread =>
    obtain ⟨hsent, hold, hnew⟩ := Phase.turnsTo_counts hturn
    exact h.put hr rfl rfl rfl (fun hs => by rw [hsent] at hs; cases hs) (hnew.trans hold.symm)

theorem stampPreview_userAction (state : PreviewState) (action : UserAction)
    (h : w.preview ≠ none) : (w.stampPreview state action).userAction = some action := by
  obtain ⟨row, hrow⟩ := Option.ne_none_iff_exists'.mp h
  rw [World.userAction, stampPreview_preview hrow]
  rfl

theorem userAction_eq {row : TradePreviewRow} (h : w.preview = some row) :
    w.userAction = row.userAction := by
  rw [World.userAction, h]
  rfl

theorem Recorded.move (h : Recorded w) (htrans : Transactional w) (hr : w.requests[k]? = some r)
    (hmove : RequestMove w k r w') : Recorded w' := by
  have hok := htrans k r hr
  have here {w' : World} (p : Phase) (t : Option Instant) (hrequests : w'.requests = w.requests)
      (hstructures : w'.structures = w.structures) (haction : w'.userAction = w.userAction)
      (hsent : p.sent = true → r.phase.sent = true) (hold : r.phase.isCancelled = false)
      (hnew : p.isCancelled = false) : Recorded (w'.put k ⟨t, p⟩) :=
    h.put hr hrequests hstructures haction hsent (hnew.trans hold.symm)
  cases hmove with
  | turn w' hturn => exact h.turn hr hturn
  | acquire mode hphase hfree =>
    exact here _ _ rfl rfl rfl nofun (by rw [hphase]; rfl) rfl
  | load mode row hphase hfree hrow =>
    exact here _ _ rfl rfl rfl nofun (by rw [hphase]; rfl) rfl
  | clear mode row hphase hnone =>
    exact here _ _ rfl rfl rfl nofun (by rw [hphase]; rfl) rfl
  | flush mode hphase hnone =>
    exact here _ _ rfl rfl rfl nofun (by rw [hphase]; rfl) rfl
  | answer hphase =>
    exact here _ _ rfl rfl rfl (fun _ => by rw [hphase]; rfl) (by rw [hphase]; rfl) rfl
  | release refusal hphase =>
    exact here _ _ rfl rfl rfl nofun (by rw [hphase]; rfl) rfl
  | commit mode p hphase hp =>
    -- the row lock has kept the row unactioned since the check, so nothing is committed yet
    rw [hphase] at hok
    obtain ⟨row, hrow, hnone⟩ := hok.2
    have haction : w.userAction = none := (userAction_eq hrow).trans hnone
    have hempty : w.structures = [] := by
      by_contra hne
      exact h.actioned hne haction
    have hstamped : (w.persist k mode).userAction = some .submitted :=
      stampPreview_userAction (w := { w with structures := w.structures ++ [mode] }) _ _
        (by simp [hrow])
    have hcancelled : ¬ 0 < w.requests.countP (·.phase.isCancelled) := by
      rw [← h.cancels, haction]
      nofun
    have hsent := h.sent
    rw [hempty, List.length_nil] at hsent
    have hnew : p.sent = true ∧ p.isCancelled = false := by
      rcases hp with rfl | rfl <;> exact ⟨rfl, rfl⟩
    have hcount := countP_put_new (w := w.persist k mode) (p := fun q => q.phase.sent)
      (s := { r with phase := p }) hr (by rw [hphase]; rfl) hnew.1
    have hcancels := countP_put_same (w := w.persist k mode) (p := fun q => q.phase.isCancelled)
      (s := { r with phase := p }) hr (by rw [hphase, hnew.2]; rfl)
    change _ = w.requests.countP _ + 1 at hcount
    change _ = w.requests.countP _ at hcancels
    have hlength : ((w.persist k mode).put k { r with phase := p }).structures.length = 1 := by
      change (w.structures ++ [mode]).length = 1
      rw [hempty]
      rfl
    refine ⟨hlength.le, ?_, ?_, ?_, ?_⟩
    · omega
    · intro _
      change (w.persist k mode).userAction ≠ none
      rw [hstamped]
      nofun
    · intro _ hnil
      rw [hnil] at hlength
      cases hlength
    · change (w.persist k mode).userAction = _ ↔ _
      rw [hstamped, hcancels]
      exact iff_of_false nofun hcancelled
  | cancel hphase hfree =>
    rw [hphase] at hok
    have hstamped := stampPreview_userAction (w := w) .cancelled .cancelled hok
    have hcount := countP_put_same (w := w.stampPreview .cancelled .cancelled)
      (p := fun q => q.phase.sent) (s := { r with phase := .cancelled }) hr (by rw [hphase]; rfl)
    have hcancels := countP_put_new (w := w.stampPreview .cancelled .cancelled)
      (p := fun q => q.phase.isCancelled) (s := { r with phase := .cancelled }) hr
      (by rw [hphase]; rfl) rfl
    refine ⟨h.one, hcount.le.trans h.sent, ?_, ?_, ?_⟩
    · intro _
      change (w.stampPreview .cancelled .cancelled).userAction ≠ none
      rw [hstamped]
      nofun
    · intro hsubmitted
      change (w.stampPreview .cancelled .cancelled).userAction = _ at hsubmitted
      rw [hstamped] at hsubmitted
      cases hsubmitted
    · refine iff_of_true hstamped ?_
      omega

/-- The lock is that of a request that acquired it less than its time to live ago; and as long as no
request has deleted the lock of another, one that acquired it so has it until its own release. -/
structure Locking (w : World) : Prop where
  held : ∀ l, w.lock = some l → w.clock < l.expiresAt ∧
    ∃ r t, w.requests[l.holder]? = some r ∧ r.acquiredAt = some t ∧ l.expiresAt = t + submitLockTtl
  keeps : w.foreignReleases = [] → ∀ (k : ℕ) (r : Request) (t : Instant),
    w.requests[k]? = some r → r.acquiredAt = some t → w.clock < t + submitLockTtl →
      r.phase.released = false → w.lock = some ⟨k, t + submitLockTtl⟩

theorem put_self (hr : w.requests[k]? = some r) (s : Request) :
    (w.put k s).requests[k]? = some s := by
  rw [World.put, List.getElem?_set_self (List.getElem?_eq_some_iff.mp hr).1]

theorem put_ne {j : ℕ} (hj : j ≠ k) (s : Request) : (w.put k s).requests[j]? = w.requests[j]? := by
  rw [World.put, List.getElem?_set_ne (Ne.symm hj)]

theorem Locking.put (h : Locking w) (hr : w.requests[k]? = some r) {s : Request}
    (hrequests : w'.requests = w.requests) (hclock : w'.clock = w.clock) (hlock : w'.lock = w.lock)
    (hforeign : w'.foreignReleases = w.foreignReleases) (hacquired : s.acquiredAt = r.acquiredAt)
    (hreleased : r.phase.released = true → s.phase.released = true) : Locking (w'.put k s) := by
  constructor
  · intro l hl
    obtain ⟨hlive, q, t, hq, ht, hexpires⟩ := h.held l (hlock ▸ hl)
    refine ⟨hclock ▸ hlive, ?_⟩
    by_cases hk : l.holder = k
    · rw [hk] at hq ⊢
      obtain rfl := Option.some.inj (hq.symm.trans hr)
      exact ⟨s, t, put_self (hrequests ▸ hr) s, hacquired.trans ht, hexpires⟩
    · exact ⟨q, t, (put_ne hk s).trans (hrequests ▸ hq), ht, hexpires⟩
  · intro hnone j q t hq ht hlive hopen
    change w'.lock = _
    rw [hlock]
    have hnone' : w.foreignReleases = [] := hforeign ▸ hnone
    have hlive' : w.clock < t + submitLockTtl := hclock ▸ hlive
    rcases put_request hq with ⟨rfl, rfl⟩ | ⟨hj, hold⟩
    · refine h.keeps hnone' j r t hr (hacquired ▸ ht) hlive' ?_
      by_contra hr
      rw [hreleased (by simpa using hr)] at hopen
      cases hopen
    · exact h.keeps hnone' j q t (hrequests ▸ hold) ht hlive' hopen

theorem Phase.released_turnsTo {p p' : Phase} (h : p.turnsTo p' = true) :
    p.released = true → p'.released = true := by
  intro hp
  simp only [turnsTo, hp, Bool.and_eq_true, Bool.not_true, Bool.false_or] at h
  exact h.2

theorem Locking.turn (h : Locking w) (hr : w.requests[k]? = some r) (hturn : RequestTurn w k r w') :
    Locking w' := by
  cases hturn with
  | idle => exact h
  | turn p hturn hread | leave p hturn hread =>
    exact h.put hr rfl rfl rfl rfl rfl (Phase.released_turnsTo hturn)

theorem releaseLock_foreign : (w.releaseLock k).foreignReleases = [] ↔
    w.foreignReleases = [] ∧ ∀ l, w.lock = some l → l.holder = k := by
  rw [World.releaseLock, List.append_eq_nil_iff]
  refine and_congr_right fun _ => ?_
  cases w.lock <;> simp

theorem Locking.move (h : Locking w) (hr : w.requests[k]? = some r) (hmove : RequestMove w k r w') :
    Locking w' := by
  cases hmove with
  | turn w' hturn => exact h.turn hr hturn
  | acquire mode hphase hfree =>
    have hself := put_self (w := w.acquire k) hr ⟨some w.clock, .acquired mode⟩
    constructor
    · intro l hl
      obtain rfl : (⟨k, w.clock + submitLockTtl⟩ : SubmitLock) = l := Option.some.inj hl
      refine ⟨?_, _, w.clock, hself, rfl, rfl⟩
      exact lt_add_of_pos_right _ (by decide)
    · intro hnone j q t hq ht hlive hopen
      rcases put_request hq with ⟨rfl, rfl⟩ | ⟨hj, hold⟩
      · obtain rfl : w.clock = t := Option.some.inj ht
        rfl
      · have hother := h.keeps hnone j q t hold ht hlive hopen
        rw [hfree] at hother
        cases hother
  | load mode row hphase hfree hrow => exact h.put hr rfl rfl rfl rfl rfl (by rw [hphase]; nofun)
  | clear mode row hphase hnone => exact h.put hr rfl rfl rfl rfl rfl (by rw [hphase]; nofun)
  | flush mode hphase hnone => exact h.put hr rfl rfl rfl rfl rfl (by rw [hphase]; nofun)
  | commit mode p hphase hp => exact h.put hr rfl rfl rfl rfl rfl (by rw [hphase]; nofun)
  | answer hphase => exact h.put hr rfl rfl rfl rfl rfl (by rw [hphase]; nofun)
  | cancel hphase hfree => exact h.put hr rfl rfl rfl rfl rfl (by rw [hphase]; nofun)
  | release refusal hphase =>
    refine ⟨nofun, ?_⟩
    intro hforeign j q t hq ht hlive hopen
    obtain ⟨hnone, hown⟩ := releaseLock_foreign.mp hforeign
    rcases put_request hq with ⟨rfl, rfl⟩ | ⟨hj, hold⟩
    · cases hopen
    · exact absurd (hown _ (h.keeps hnone j q t hold ht hlive hopen)) hj

structure SubmissionInvariant (w : World) : Prop where
  transactional : Transactional w
  recorded : Recorded w
  locking : Locking w

theorem SubmissionInvariant.move (h : SubmissionInvariant w) (hr : w.requests[k]? = some r)
    (hmove : RequestMove w k r w') : SubmissionInvariant w' :=
  ⟨h.transactional.move hr hmove, h.recorded.move h.transactional hr hmove, h.locking.move hr hmove⟩

/-- What happens beside the requests leaves their columns as they are. -/
structure Beside (w w' : World) : Prop where
  requests : w'.requests = w.requests
  structures : w'.structures = w.structures
  userAction : w'.userAction = w.userAction
  foreignReleases : w'.foreignReleases = w.foreignReleases
  clock : w.clock ≤ w'.clock
  lock : w'.lock = w.lock.filter fun l => w'.clock < l.expiresAt
  locked : ∀ k, w.rowLock = some k →
    w'.rowLock = some k ∧ ∀ row, w.preview = some row → w'.preview = some row
  preview : w.preview ≠ none → w'.preview ≠ none

theorem SubmissionInvariant.beside (h : SubmissionInvariant w) (hbeside : Beside w w') :
    SubmissionInvariant w' := by
  refine ⟨?_, ?_, ?_, ?_⟩
  · intro k r hr
    exact (h.transactional k r (hbeside.requests ▸ hr)).frame (hbeside.locked k) hbeside.preview
  · exact h.recorded.frame hbeside.structures hbeside.userAction (by rw [hbeside.requests])
      (by rw [hbeside.requests])
  · intro l hl
    rw [hbeside.lock, Option.filter_eq_some_iff] at hl
    rw [hbeside.requests]
    exact ⟨by simpa using hl.2, (h.locking.held l hl.1).2⟩
  · intro hnone k r t hr ht hlive hopen
    have hlock := h.locking.keeps (hbeside.foreignReleases ▸ hnone) k r t (hbeside.requests ▸ hr) ht
      (lt_of_le_of_lt hbeside.clock hlive) hopen
    rw [hbeside.lock, hlock]
    simpa using hlive

theorem arrive_request {s : Request} {j : ℕ}
    (h : (w.requests ++ [s])[j]? = some r) : w.requests[j]? = some r ∨ r = s := by
  rw [List.getElem?_append] at h
  split_ifs at h
  · exact .inl h
  · exact .inr (List.mem_singleton.mp (List.mem_of_getElem? h))

theorem SubmissionInvariant.arrive (h : SubmissionInvariant w) {p : Phase}
    (hp : (∃ mode, p = .arrived mode) ∨ p = .cancelArrived) :
    SubmissionInvariant { w with requests := w.requests ++ [⟨none, p⟩] } := by
  have hcounts : p.sent = false ∧ p.isCancelled = false := by
    rcases hp with ⟨mode, rfl⟩ | rfl <;> exact ⟨rfl, rfl⟩
  refine ⟨?_, ?_, ?_, ?_⟩
  · intro k r hr
    rcases arrive_request hr with hold | rfl
    · exact (h.transactional k r hold).frame (fun hlock => ⟨hlock, fun _ hrow => hrow⟩) fun hrow => hrow
    · rcases hp with ⟨mode, rfl⟩ | rfl <;> trivial
  · refine h.recorded.frame rfl rfl ?_ ?_ <;> simp [hcounts]
  · intro l hl
    obtain ⟨hlive, r, t, hr, hrest⟩ := h.locking.held l hl
    exact ⟨hlive, r, t, List.getElem?_append_left (List.getElem?_eq_some_iff.mp hr).1 ▸ hr, hrest⟩
  · intro hnone k r t hr ht
    rcases arrive_request hr with hold | rfl
    · exact h.locking.keeps hnone k r t hold ht
    · cases ht

theorem Locking.live (h : Locking w) : w.lock.filter (fun l => w.clock < l.expiresAt) = w.lock := by
  cases hl : w.lock with
  | none => rfl
  | some l =>
    have := (h.held l hl).1
    simpa [Option.filter] using this

theorem beside_arm (h : Locking w) (row : TradePreviewRow) : Beside w (w.arm row) := by
  rw [World.arm]
  cases hrow : w.preview with
  | some _ =>
    exact ⟨rfl, rfl, rfl, rfl, le_rfl, h.live.symm, fun _ h => ⟨h, fun _ h => h⟩, fun h => h⟩
  | none =>
    refine ⟨rfl, rfl, ?_, rfl, le_rfl, h.live.symm, ?_, ?_⟩
    · simp [World.userAction, hrow]
    · intro k hk
      exact ⟨hk, fun _ h => by rw [hrow] at h; cases h⟩
    · intro h
      exact absurd hrow h

theorem beside_wait (w : World) (d : ℕ) : Beside w (w.wait d) :=
  ⟨rfl, rfl, rfl, rfl, by simp [World.wait], rfl, fun _ h => ⟨h, fun _ h => h⟩, fun h => h⟩

theorem beside_expirePreviews (h : Locking w) : Beside w w.expirePreviews := by
  rw [World.expirePreviews]
  split_ifs with hfree
  · exact ⟨rfl, rfl, rfl, rfl, le_rfl, h.live.symm, fun _ h => ⟨h, fun _ h => h⟩, fun h => h⟩
  · refine ⟨rfl, rfl, ?_, rfl, le_rfl, h.live.symm, ?_, ?_⟩
    · cases hrow : w.preview with
      | none => simp [World.userAction, hrow]
      | some row =>
        simp only [World.userAction, hrow, Option.map_some, Option.bind_some]
        split_ifs <;> rfl
    · intro k hk
      rw [not_not.mp hfree] at hk
      cases hk
    · intro h
      simpa using h

/-- A step is one of a request under way, the arrival of one, or goes on beside them. -/
theorem SubmissionInvariant.step (h : SubmissionInvariant w) (e : Event) :
    SubmissionInvariant (PreviewRequests.step w e) := by
  have moved (k : ℕ) (f : Request → World) (hf : ∀ r, RequestMove w k r (f r)) :
      SubmissionInvariant ((w.requests[k]?).elim w f) := by
    cases hr : w.requests[k]? with
    | none => exact h
    | some r => exact h.move hr (hf r)
  cases e with
  | arm row => exact h.beside (beside_arm h.locking row)
  | submit mode => exact h.arrive (.inl ⟨mode, rfl⟩)
  | cancel => exact h.arrive (.inr rfl)
  | run k seen => exact moved k _ fun r => advance_move w k r seen
  | raise k => exact moved k _ fun r => .turn _ (raiseIn_turn w k r)
  | abort k => exact moved k _ fun r => .turn _ (abortIn_turn w k r)
  | wait d => exact h.beside (beside_wait w d)
  | expirePreviews => exact h.beside (beside_expirePreviews h.locking)

theorem submissionInvariant_start : SubmissionInvariant World.start where
  transactional k r hr := by simp [World.start] at hr
  recorded := ⟨Nat.zero_le 1, le_rfl, fun h => absurd rfl h, nofun, by decide⟩
  locking := ⟨nofun, fun _ k r t hr => by simp [World.start] at hr⟩

/-- One structure and one successful request at most; no lock deleted by a request that had not set
it; and not both a structure and a cancelled preview. -/
structure OneSubmission (w : World) : Prop where
  structures : w.structures.length ≤ 1
  successes : w.requests.countP (·.phase.succeeded) ≤ 1
  released : w.foreignReleases = []
  excludes : ¬ (w.structures ≠ [] ∧ w.userAction = some .cancelled)

/-- A submit that fails and reaches Redis runs its release within the ten seconds of a lock of its
own, or when no lock is set; and a cancel writes over a row that is still as it has read it: not
actioned. -/
def Undisturbed (w : World) : Event → Prop
  | .run k seen => ∀ r ∈ w.requests[k]?,
      (∀ refusal, r.phase = .failing refusal → seen.redisAnswers = true →
        w.lock = none ∨ ∃ t ∈ r.acquiredAt, w.clock < t + submitLockTtl) ∧
      (r.phase = .cancelRead → w.rowLock = none → w.userAction = none)
  | _ => True

/-- What is left to keep of `OneSubmission`: the rest always holds. -/
structure Exclusive (w : World) : Prop where
  released : w.foreignReleases = []
  excludes : w.userAction = some .cancelled → w.structures = []
  cancels : w.requests.countP (·.phase.isCancelled) ≤ 1

theorem countP_succeeded (w : World) : w.requests.countP (·.phase.succeeded) ≤
    w.requests.countP (·.phase.sent) + w.requests.countP (·.phase.isCancelled) := by
  induction w.requests with
  | nil => exact le_rfl
  | cons r rs ih =>
    have hone : (if r.phase.succeeded then 1 else 0) ≤
        (if r.phase.sent then 1 else 0) + (if r.phase.isCancelled then 1 else 0) := by
      cases r.phase <;> simp [Phase.succeeded, Phase.sent, Phase.isCancelled]
    simp only [List.countP_cons]
    omega

theorem countP_isCancelled_le (w : World) : w.requests.countP (·.phase.isCancelled) ≤
    w.requests.countP (·.phase.succeeded) := by
  refine List.countP_mono_left fun r _ h => ?_
  cases hphase : r.phase <;> rw [hphase] at h <;> first | rfl | cases h

theorem oneSubmission_iff (h : Recorded w) : OneSubmission w ↔ Exclusive w := by
  constructor
  · intro hone
    refine ⟨hone.released, ?_, (countP_isCancelled_le w).trans hone.successes⟩
    intro hcancelled
    by_contra hne
    exact hone.excludes ⟨hne, hcancelled⟩
  · intro hexcl
    refine ⟨h.one, ?_, hexcl.released, fun hboth => hboth.1 (hexcl.excludes hboth.2)⟩
    have hsum := countP_succeeded w
    have hsent := h.sent
    have hcancels := hexcl.cancels
    by_cases hcancelled : w.userAction = some .cancelled
    · rw [hexcl.excludes hcancelled, List.length_nil] at hsent
      omega
    · have hnone : ¬ 0 < w.requests.countP (·.phase.isCancelled) := fun hpos =>
        hcancelled (h.cancels.mpr hpos)
      have hone := h.one
      omega

theorem Exclusive.frame (h : Exclusive w) (hforeign : w'.foreignReleases = w.foreignReleases)
    (haction : w'.userAction = w.userAction) (hstructures : w'.structures = w.structures)
    (hcancels : w'.requests.countP (·.phase.isCancelled) =
      w.requests.countP (·.phase.isCancelled)) : Exclusive w' := by
  refine ⟨hforeign.trans h.released, ?_, hcancels.le.trans h.cancels⟩
  rw [haction, hstructures]
  exact h.excludes

theorem Exclusive.turn (h : Exclusive w) (hr : w.requests[k]? = some r)
    (hturn : RequestTurn w k r w') : Exclusive w' := by
  cases hturn with
  | idle => exact h
  | turn p hturn hread | leave p hturn hread =>
    obtain ⟨-, hold, hnew⟩ := Phase.turnsTo_counts hturn
    exact h.frame rfl rfl rfl
      (countP_put_same (p := fun q => q.phase.isCancelled) hr (hnew.trans hold.symm))

theorem Exclusive.move (h : Exclusive w) (hinv : SubmissionInvariant w)
    (hr : w.requests[k]? = some r) (hmove : RequestMove w k r w')
    (hfailing : ∀ refusal, r.phase ≠ .failing refusal) (hread : r.phase ≠ .cancelRead) :
    Exclusive w' := by
  have hcount {w' : World} (hrequests : w'.requests = w.requests) {s : Request}
      (hsame : s.phase.isCancelled = r.phase.isCancelled) :
      (w'.put k s).requests.countP (·.phase.isCancelled) =
        w.requests.countP (·.phase.isCancelled) := by
    rw [countP_put_same (p := fun q => q.phase.isCancelled) (hrequests ▸ hr) hsame, hrequests]
  cases hmove with
  | turn w' hturn => exact h.turn hr hturn
  | acquire mode hphase hfree => exact h.frame rfl rfl rfl (hcount rfl (by rw [hphase]; rfl))
  | load mode row hphase hfree hrow => exact h.frame rfl rfl rfl (hcount rfl (by rw [hphase]; rfl))
  | clear mode row hphase hnone => exact h.frame rfl rfl rfl (hcount rfl (by rw [hphase]; rfl))
  | flush mode hphase hnone => exact h.frame rfl rfl rfl (hcount rfl (by rw [hphase]; rfl))
  | commit mode p hphase hp =>
    have hok := hinv.transactional k r hr
    rw [hphase] at hok
    obtain ⟨row, hrow, -⟩ := hok.2
    have hstamped : (w.persist k mode).userAction = some .submitted :=
      stampPreview_userAction (w := { w with structures := w.structures ++ [mode] }) _ _
        (by simp [hrow])
    refine ⟨h.released, ?_, ?_⟩
    · intro hcancelled
      rw [show ((w.persist k mode).put k _).userAction = _ from hstamped] at hcancelled
      cases hcancelled
    · refine (hcount rfl ?_).le.trans h.cancels
      rw [hphase]
      rcases hp with rfl | rfl <;> rfl
  | answer hphase => exact h.frame rfl rfl rfl (hcount rfl (by rw [hphase]; rfl))
  | release refusal hphase => exact absurd hphase (hfailing refusal)
  | cancel hphase hfree => exact absurd hphase hread

theorem Exclusive.beside (h : Exclusive w) (hbeside : Beside w w') : Exclusive w' :=
  h.frame hbeside.foreignReleases hbeside.userAction hbeside.structures (by rw [hbeside.requests])

/-- A failing submit leaves the locks of the others alone just when none is set, or its own still
stands: that it acquired less than ten seconds ago. -/
theorem exclusive_release (h : SubmissionInvariant w) (hexcl : Exclusive w)
    (hr : w.requests[k]? = some r) {refusal : Refusal} (hphase : r.phase = .failing refusal) :
    Exclusive ((w.releaseLock k).put k { r with phase := .unwinding refusal }) ↔
      (w.lock = none ∨ ∃ t ∈ r.acquiredAt, w.clock < t + submitLockTtl) := by
  constructor
  · intro hexcl'
    obtain ⟨-, hown⟩ := releaseLock_foreign.mp hexcl'.released
    cases hl : w.lock with
    | none => exact .inl rfl
    | some l =>
      obtain ⟨hlive, q, t, hq, ht, hexpires⟩ := h.locking.held l hl
      rw [hown l hl] at hq
      obtain rfl := Option.some.inj (hq.symm.trans hr)
      exact .inr ⟨t, ht, hexpires ▸ hlive⟩
  · intro hguard
    refine ⟨releaseLock_foreign.mpr ⟨hexcl.released, ?_⟩, hexcl.excludes, ?_⟩
    · intro l hl
      rcases hguard with hnone | ⟨t, ht, hlive⟩
      · rw [hnone] at hl
        cases hl
      · have hself := h.locking.keeps hexcl.released k r t hr ht hlive (by rw [hphase]; rfl)
        rw [Option.some.inj (hl.symm.trans hself)]
    · exact (countP_put_same (p := fun q => q.phase.isCancelled) (w := w.releaseLock k) hr
        (by rw [hphase]; rfl)).le.trans hexcl.cancels

/-- A cancel that writes leaves the preview exclusive just when nothing was committed on it. -/
theorem exclusive_cancel (h : SubmissionInvariant w) (hexcl : Exclusive w)
    (hr : w.requests[k]? = some r) (hphase : r.phase = .cancelRead) :
    Exclusive ((w.stampPreview .cancelled .cancelled).put k { r with phase := .cancelled }) ↔
      w.userAction = none := by
  have hok := h.transactional k r hr
  rw [hphase] at hok
  have hstamped := stampPreview_userAction (w := w) .cancelled .cancelled hok
  have hcount := countP_put_new (w := w.stampPreview .cancelled .cancelled)
    (p := fun q => q.phase.isCancelled) (s := { r with phase := .cancelled }) hr
    (by rw [hphase]; rfl) rfl
  change _ = w.requests.countP _ + 1 at hcount
  constructor
  · intro hexcl'
    have hempty : w.structures = [] := hexcl'.excludes hstamped
    have hone := hexcl'.cancels
    cases haction : w.userAction with
    | none => rfl
    | some action =>
      cases action with
      | submitted => exact absurd hempty (h.recorded.stamped haction)
      | cancelled =>
        have hpos := h.recorded.cancels.mp haction
        omega
  · intro hnone
    refine ⟨hexcl.released, fun _ => ?_, ?_⟩
    · by_contra hne
      exact h.recorded.actioned hne hnone
    · have hzero : ¬ 0 < w.requests.countP (·.phase.isCancelled) := by
        rw [← h.recorded.cancels, hnone]
        nofun
      omega

theorem exclusive_run (h : SubmissionInvariant w) (hexcl : Exclusive w) (k : ℕ) (seen : Seen) :
    Exclusive (step w (.run k seen)) ↔ Undisturbed w (.run k seen) := by
  cases hr : w.requests[k]? with
  | none =>
    have hstep : step w (.run k seen) = w := by simp [step, hr]
    rw [hstep]
    refine iff_of_true hexcl ?_
    intro r hmem
    rw [hr] at hmem
    cases hmem
  | some r =>
    have hstep : step w (.run k seen) = advance w k r seen := by simp [step, hr]
    have hguard : Undisturbed w (.run k seen) ↔
        (∀ refusal, r.phase = .failing refusal → seen.redisAnswers = true →
          w.lock = none ∨ ∃ t ∈ r.acquiredAt, w.clock < t + submitLockTtl) ∧
        (r.phase = .cancelRead → w.rowLock = none → w.userAction = none) := by
      simp [Undisturbed, hr]
    rw [hstep, hguard]
    by_cases hfailing : ∃ refusal, r.phase = .failing refusal
    · obtain ⟨refusal, hphase⟩ := hfailing
      cases hredis : seen.redisAnswers with
      | true =>
        have hadvance : advance w k r seen =
            (w.releaseLock k).put k { r with phase := .unwinding refusal } := by
          simp [advance, hphase, hredis]
        rw [hadvance, exclusive_release h hexcl hr hphase]
        simp [hphase]
      | false =>
        have hadvance : advance w k r seen = w.put k { r with phase := .unwinding refusal } := by
          simp [advance, hphase, hredis]
        rw [hadvance]
        refine iff_of_true (hexcl.turn hr (.turn _ (by rw [hphase]; rfl) nofun)) ?_
        simp [hphase]
    · by_cases hphase : r.phase = .cancelRead
      · by_cases hfree : w.rowLock = none
        · have hadvance : advance w k r seen =
              (w.stampPreview .cancelled .cancelled).put k { r with phase := .cancelled } := by
            simp [advance, hphase, hfree]
          rw [hadvance, exclusive_cancel h hexcl hr hphase]
          simp [hphase, hfree]
        · have hadvance : advance w k r seen = w := by simp [advance, hphase, hfree]
          rw [hadvance]
          refine iff_of_true hexcl ?_
          simp [hphase, hfree]
      · refine iff_of_true (hexcl.move h hr (advance_move w k r seen)
          (fun refusal hp => hfailing ⟨refusal, hp⟩) hphase) ?_
        exact ⟨fun refusal hp => absurd ⟨refusal, hp⟩ hfailing, fun hp => absurd hp hphase⟩

theorem exclusive_step (h : SubmissionInvariant w) (hexcl : Exclusive w) (e : Event) :
    Exclusive (step w e) ↔ Undisturbed w e := by
  have turned (k : ℕ) (f : Request → World) (hf : ∀ r, RequestTurn w k r (f r)) :
      Exclusive ((w.requests[k]?).elim w f) := by
    cases hr : w.requests[k]? with
    | none => exact hexcl
    | some r => exact hexcl.turn hr (hf r)
  cases e with
  | run k seen => exact exclusive_run h hexcl k seen
  | arm row => exact iff_of_true (hexcl.beside (beside_arm h.locking row)) trivial
  | wait d => exact iff_of_true (hexcl.beside (beside_wait w d)) trivial
  | expirePreviews => exact iff_of_true (hexcl.beside (beside_expirePreviews h.locking)) trivial
  | submit mode => exact iff_of_true (hexcl.frame rfl rfl rfl (by simp [step, Phase.isCancelled])) trivial
  | cancel => exact iff_of_true (hexcl.frame rfl rfl rfl (by simp [step, Phase.isCancelled])) trivial
  | raise k => exact iff_of_true (turned k _ (raiseIn_turn w k)) trivial
  | abort k => exact iff_of_true (turned k _ (abortIn_turn w k)) trivial

/-- Whatever the requests do, one structure is created at most and one submit succeeds at most.
The whole holds all along a run just where every failing submit releases a lock of its own, and
every cancel writes over the row it has read. -/
theorem one_submission_per_preview (es : List Event) :
    ((es.foldl step World.start).structures.length ≤ 1 ∧
      (es.foldl step World.start).requests.countP (·.phase = .submitted) ≤ 1) ∧
    ((∀ past, past <+: es → OneSubmission (past.foldl step World.start)) ↔
      Guarded step Undisturbed World.start es) := by
  have hall : SubmissionInvariant (es.foldl step World.start) :=
    (Run.of_events es).invariant (fun _ e h _ => h.step e) submissionInvariant_start
  refine ⟨⟨hall.recorded.one, ?_⟩, ?_⟩
  · refine le_trans ?_ (hall.recorded.sent.trans hall.recorded.one)
    refine List.countP_mono_left fun r _ hr => ?_
    rw [decide_eq_true_eq.mp hr]
    rfl
  · refine guarded_iff (I := SubmissionInvariant) (fun _ e h => h.step e) ?_
      submissionInvariant_start ?_ es
    · intro w e h hone
      rw [oneSubmission_iff (h.step e).recorded]
      exact exclusive_step h ((oneSubmission_iff h.recorded).mp hone) e
    · exact ⟨Nat.zero_le 1, Nat.zero_le 1, rfl, fun h => h.1 rfl⟩

/-- Two submits and a cancel of a preview that may be submitted, all gates open. -/
def armedPreview : TradePreviewRow := ⟨.validForSubmit, none, 1000000000, none, none, 1⟩

def allClear : Seen := ⟨true, true, none, none, some .calm, true, true⟩

/-- The second submit is refused as a duplicate, and deletes the lock of the first. -/
def doubleSubmit : List Event :=
  [.arm armedPreview, .submit (some .live), .submit (some .live), .run 0 allClear, .run 1 allClear,
    .run 1 allClear]

/-- The cancel reads the row, the submit commits, the cancel writes over it. -/
def cancelAcrossSubmit : List Event :=
  [.arm armedPreview, .submit (some .mock), .cancel, .run 1 allClear, .run 0 allClear,
    .run 0 allClear, .run 0 allClear, .run 0 allClear, .run 0 allClear, .run 1 allClear]

theorem duplicate_and_cancel_interfere :
    ((doubleSubmit.foldl step World.start).foreignReleases = [(1, 0)] ∧
      ¬ OneSubmission (doubleSubmit.foldl step World.start)) ∧
    ((cancelAcrossSubmit.foldl step World.start).structures = [.mock] ∧
      (cancelAcrossSubmit.foldl step World.start).userAction = some .cancelled ∧
      ¬ OneSubmission (cancelAcrossSubmit.foldl step World.start)) := by
  have hforeign : (doubleSubmit.foldl step World.start).foreignReleases = [(1, 0)] := by
    decide +kernel
  have hstructures : (cancelAcrossSubmit.foldl step World.start).structures = [.mock] := by
    decide +kernel
  have haction : (cancelAcrossSubmit.foldl step World.start).userAction = some .cancelled := by
    decide +kernel
  refine ⟨⟨hforeign, fun hone => ?_⟩, hstructures, haction, fun hone => ?_⟩
  · have hnone := hone.released
    rw [hforeign] at hnone
    cases hnone
  · exact hone.excludes ⟨by rw [hstructures]; nofun, haction⟩

end FxVol.PreviewRequests
