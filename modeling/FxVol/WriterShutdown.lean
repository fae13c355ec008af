import FxVol.FairRuns
import Mathlib.Data.List.Basic
import Mathlib.Data.Nat.Basic

/-!
# The writer's graceful stop

The writer's loop and the shutdown of the service share the queue of the events accepted from the bus.  A
step is what a task does between two awaits.
-/
namespace FxVol.WriterShutdown

open FairRuns

/-- The frames of the bus, read as `_enqueue` reads them, and the constants of the writer -/
structure Config (Raw Ev : Type*) where
  parse : Raw → Option Ev
  queueMaxSize : ℕ
  batchSizeMax : ℕ
  batchSizeMax_pos : 0 < batchSizeMax

/-- A task that is awaited only at the end; `failed` has ended with an exception. -/
inductive Task | running | ended | failed
  deriving DecidableEq

/-- `AsyncDatabaseWriter.run` -/
inductive Loop (Ev : Type*)
  | top
  | collecting (batch : List Ev)
  | writing
  | done
  | cancelled (batch : List Ev)

def Loop.held {Ev : Type*} : Loop Ev → List Ev
  | .collecting batch | .cancelled batch => batch
  | .top | .writing | .done => []

/-- `DbWriterService.run`: the subscriber is supervised, or to be restarted after a backoff; on a stop the
tasks are awaited, the writer is shut down, and its task is awaited. -/
inductive Service (Ev : Type*)
  | supervising | backoff | awaitSubscriber | awaitHeartbeat
  | draining (chunks : List (List Ev))
  | awaitWriter | returned | raised

def Service.chunks {Ev : Type*} : Service Ev → List (List Ev)
  | .draining chunks => chunks
  | _ => []

/-- The writer's `shutdown` has emptied the queue. -/
def Service.drained {Ev : Type*} : Service Ev → Bool
  | .draining _ | .awaitWriter | .returned => true
  | .supervising | .backoff | .awaitSubscriber | .awaitHeartbeat | .raised => false

/-- `accepted` are the events put on the queue and `batches` those passed to `_write_batch_with_retries`;
neither is looked at. -/
structure World (Ev : Type*) where
  queue : List Ev
  accepted : List Ev
  batches : List (List Ev)
  stop : Bool
  stopTask : Bool
  stopEvent : Bool
  loop : Loop Ev
  subscriber : Task
  heartbeat : Task
  service : Service Ev

def World.start (Ev : Type*) : World Ev where
  queue := []
  accepted := []
  batches := []
  stop := false
  stopTask := false
  stopEvent := false
  loop := .top
  subscriber := .running
  heartbeat := .running
  service := .supervising

inductive Event (Raw : Type*)
  | frame (raw : Raw)
  | subscriberEnds | subscriberFails | heartbeatEnds | heartbeatFails
  | requestStop | stopTask
  | service
  | loop | timeout

section Steps
variable {Raw Ev : Type*} (c : Config Raw Ev)

/-- `put_nowait` on a full queue drops the event; a size of 0 is no bound. -/
def enqueue (w : World Ev) (raw : Raw) : World Ev :=
  match c.parse raw with
  | none => w
  | some e =>
    if 0 < c.queueMaxSize ∧ c.queueMaxSize ≤ w.queue.length then w
    else { w with queue := w.queue ++ [e], accepted := w.accepted ++ [e] }

/-- What `_collect_batch` returns is passed on, unless it is empty. -/
def passOn (w : World Ev) (batch : List Ev) : World Ev :=
  match batch with
  | [] => { w with loop := .top }
  | e :: es => { w with batches := w.batches ++ [e :: es], loop := .writing }

/-- The loop up to its next await; a write that raises is logged, and the loop goes on after a sleep. -/
def loopStep (w : World Ev) : World Ev :=
  match w.loop with
  | .top => { w with loop := if w.stopEvent then .done else .collecting [] }
  | .collecting batch =>
    if batch.length < c.batchSizeMax then
      match w.queue with
      | [] => w
      | e :: queue => { w with queue := queue, loop := .collecting (batch ++ [e]) }
    else passOn w batch
  | .writing => { w with loop := .top }
  | .done | .cancelled _ => w

/-- The slices `remaining[i : i + size]` -/
def chunks (size : ℕ) (remaining : List Ev) : List (List Ev) :=
  (List.range ((remaining.length + size - 1) / size)).map fun i => (remaining.drop (i * size)).take size

/-- `DbWriterService.run` up to its next await: an exception of an awaited task leaves it, and `asyncio.run`
then cancels the writer's task. -/
def serviceStep (w : World Ev) : World Ev :=
  match w.service with
  | .supervising =>
    if w.stopTask then { w with service := .awaitSubscriber }
    else if w.subscriber = .running then w
    else { w with service := .backoff }
  | .backoff =>
    if w.stopTask then { w with service := .awaitSubscriber }
    else { w with service := .supervising, subscriber := .running }
  | .awaitSubscriber =>
    match w.subscriber with
    | .running => w
    | .ended => { w with service := .awaitHeartbeat }
    | .failed => { w with service := .raised }
  | .awaitHeartbeat =>
    match w.heartbeat with
    | .running => w
    | .ended =>
      { w with stopEvent := true, queue := [], service := .draining (chunks c.batchSizeMax w.queue) }
    | .failed => { w with service := .raised }
  | .draining (chunk :: rest) => { w with batches := w.batches ++ [chunk], service := .draining rest }
  | .draining [] => { w with service := .awaitWriter }
  | .awaitWriter =>
    match w.loop with
    | .done => { w with service := .returned }
    | _ => w
  | .returned => w
  | .raised =>
    match w.loop with
    | .done => w
    | loop => { w with loop := .cancelled loop.held }

/-- Both tasks end once they see the stop or are cancelled, and the subscriber hands over frames until then. -/
def step (w : World Ev) : Event Raw → World Ev
  | .frame raw => if w.subscriber = .running then enqueue c w raw else w
  | .subscriberEnds => if w.stop ∧ w.subscriber = .running then { w with subscriber := .ended } else w
  | .subscriberFails => if w.subscriber = .running then { w with subscriber := .failed } else w
  | .heartbeatEnds => if w.stop ∧ w.heartbeat = .running then { w with heartbeat := .ended } else w
  | .heartbeatFails => if w.heartbeat = .running then { w with heartbeat := .failed } else w
  | .requestStop => { w with stop := true }
  | .stopTask => if w.stop then { w with stopTask := true } else w
  | .service => serviceStep c w
  | .loop => loopStep c w
  | .timeout =>
    match w.loop with
    | .collecting batch => passOn w batch
    | _ => w

end Steps

/-- What recurs in a fair schedule: each task is resumed, a batch times out, and a task that is to end ends. -/
def recurring (Raw : Type*) : List (Event Raw) :=
  [.service, .loop, .timeout, .stopTask, .subscriberEnds, .heartbeatEnds]

/-- An interleaving of the tasks in which the service is stopped at some time -/
structure Schedule {Raw Ev : Type*} (c : Config Raw Ev) where
  events : ℕ → Event Raw
  fair : ∀ e ∈ recurring Raw, Recurs events e
  stopped : ∃ n, events n = .requestStop

namespace Schedule

variable {Raw Ev : Type*} {c : Config Raw Ev} (r : Schedule c)

def world (n : ℕ) : World Ev := states (step c) (World.start Ev) r.events n

/-- Every accepted event is passed on in exactly one batch, and the service returns only after that. -/
structure Delivers : Prop where
  returns : ∃ n, (r.world n).service = .returned
  once : ∀ n, (r.world n).service = .returned → (r.world n).batches.flatten.Perm (r.world n).accepted

end Schedule

/-- The stop sequence awaits a task that has ended with an exception. -/
def Fails {Ev : Type*} (w : World Ev) : Prop :=
  w.service = .awaitSubscriber ∧ w.subscriber = .failed ∨
    w.service = .awaitHeartbeat ∧ w.heartbeat = .failed

section Invariant
variable {Raw Ev : Type*} {c : Config Raw Ev} {w : World Ev}

theorem chunks_flatten {size : ℕ} (hsize : 0 < size) (remaining : List Ev) :
    (chunks size remaining).flatten = remaining := by
  have hslices : ∀ k, ((List.range k).map fun i => (remaining.drop (i * size)).take size).flatten =
      remaining.take (k * size) := by
    intro k
    induction k with
    | zero => simp
    | succ k ih => rw [List.range_succ, List.map_append, List.flatten_append, ih, Nat.succ_mul, List.take_add]; simp
  rw [chunks, hslices]
  apply List.take_of_length_le
  have h := Nat.div_add_mod (remaining.length + size - 1) size
  have hlt := Nat.mod_lt (remaining.length + size - 1) hsize
  rw [Nat.mul_comm] at h
  omega

theorem enqueue_cases (c : Config Raw Ev) (w : World Ev) (raw : Raw) : enqueue c w raw = w ∨
    ∃ e, enqueue c w raw = { w with queue := w.queue ++ [e], accepted := w.accepted ++ [e] } := by
  unfold enqueue
  split
  · exact .inl rfl
  · split_ifs
    · exact .inl rfl
    · exact .inr ⟨_, rfl⟩

theorem passOn_cases (w : World Ev) (batch : List Ev) : ∃ batches loop,
    passOn w batch = { w with batches := batches, loop := loop } ∧
      batches.flatten = w.batches.flatten ++ batch ∧ (loop = .top ∨ loop = .writing) := by
  cases batch with
  | nil => exact ⟨w.batches, .top, rfl, by simp, .inl rfl⟩
  | cons e es => exact ⟨w.batches ++ [e :: es], .writing, rfl, by simp, .inr rfl⟩

/-- Where the accepted events are, and what holds once the queue is emptied -/
structure Inv (w : World Ev) : Prop where
  conserved : (w.batches.flatten ++ w.service.chunks.flatten ++ w.loop.held ++ w.queue).Perm w.accepted
  deaf : w.service = .awaitHeartbeat ∨ w.service.drained = true → w.subscriber ≠ .running
  emptied : w.service.drained = true → w.queue = [] ∧ w.stopEvent = true
  live : ∀ batch, w.loop = .cancelled batch → w.service = .raised
  ended : w.service = .returned → w.loop = .done

theorem Inv.start : Inv (World.start Ev) where
  conserved := List.Perm.nil
  deaf h := by rcases h with h | h <;> cases h
  emptied h := nomatch h
  live _ h := nomatch h
  ended h := nomatch h

theorem Inv.enqueue (h : Inv w) (hrun : w.subscriber = .running) (raw : Raw) : Inv (enqueue c w raw) := by
  rcases enqueue_cases c w raw with heq | ⟨e, heq⟩
  · rwa [heq]
  · rw [heq]
    refine ⟨?_, h.deaf, fun hdrained => absurd hrun (h.deaf (.inr hdrained)), h.live, h.ended⟩
    have hmore := h.conserved.append_right [e]
    rwa [List.append_assoc] at hmore

theorem Inv.passOn {batch : List Ev} (h : Inv w) (hloop : w.loop = .collecting batch) :
    Inv (passOn w batch) := by
  obtain ⟨batches, loop, heq, hflat, hcase⟩ := passOn_cases w batch
  have hheld : loop.held = [] := by rcases hcase with rfl | rfl <;> rfl
  rw [heq]
  refine ⟨?_, h.deaf, h.emptied, ?_, ?_⟩
  · have hall := h.conserved
    rw [hloop] at hall
    change (batches.flatten ++ w.service.chunks.flatten ++ loop.held ++ w.queue).Perm w.accepted
    rw [hflat, hheld, List.append_nil]
    refine List.Perm.trans (List.Perm.append_right _ ?_) hall
    rw [List.append_assoc, List.append_assoc]
    exact List.Perm.append_left _ List.perm_append_comm
  · intro batch' h'
    rcases hcase with rfl | rfl <;> cases h'
  · intro hservice
    have hdone := h.ended hservice
    rw [hloop] at hdone
    cases hdone

theorem Inv.loopStep (h : Inv w) : Inv (loopStep c w) := by
  unfold WriterShutdown.loopStep
  split
  · next hloop =>
    refine ⟨?_, h.deaf, h.emptied, ?_, ?_⟩
    · have hall := h.conserved
      rw [hloop] at hall
      split_ifs <;> exact hall
    · intro batch h'
      split_ifs at h'
    · intro hservice
      have hdone := h.ended hservice
      rw [hloop] at hdone
      cases hdone
  · next batch hloop =>
    split_ifs
    · split
      · exact h
      · next e queue hqueue =>
        refine ⟨?_, h.deaf, fun hdrained => ?_, fun _ h' => (nomatch h'), fun hservice => ?_⟩
        · have hall := h.conserved
          rw [hloop, hqueue] at hall
          simpa [Loop.held] using hall
        · have hnil := (h.emptied hdrained).1
          rw [hqueue] at hnil
          cases hnil
        · have hdone := h.ended hservice
          rw [hloop] at hdone
          cases hdone
    · exact h.passOn hloop
  · next hloop =>
    refine ⟨?_, h.deaf, h.emptied, fun _ h' => (nomatch h'), fun hservice => ?_⟩
    · have hall := h.conserved
      rwa [hloop] at hall
    · have hdone := h.ended hservice
      rw [hloop] at hdone
      cases hdone
  · exact h
  · exact h

/-- A move of the service that leaves its chunks alone -/
theorem Inv.move {service : Service Ev} {subscriber : Task} (h : Inv w) (hlive : w.service ≠ .raised)
    (hchunks : service.chunks = w.service.chunks)
    (hdeaf : service = .awaitHeartbeat ∨ service.drained = true → subscriber ≠ .running)
    (hdrained : service.drained = true → w.service.drained = true)
    (hended : service = .returned → w.loop = .done) :
    Inv { w with service := service, subscriber := subscriber } where
  conserved := by
    have hall := h.conserved
    rwa [← hchunks] at hall
  deaf := hdeaf
  emptied h' := h.emptied (hdrained h')
  live batch hloop := absurd (h.live batch hloop) hlive
  ended := hended

theorem Inv.serviceStep (h : Inv w) : Inv (serviceStep c w) := by
  unfold WriterShutdown.serviceStep
  split
  · next hservice =>
    have hlive : w.service ≠ .raised := by simp [hservice]
    split_ifs
    · exact h.move hlive (by rw [hservice]; rfl) (fun h' => h'.elim nofun nofun) nofun nofun
    · exact h
    · exact h.move hlive (by rw [hservice]; rfl) (fun h' => h'.elim nofun nofun) nofun nofun
  · next hservice =>
    have hlive : w.service ≠ .raised := by simp [hservice]
    split_ifs
    · exact h.move hlive (by rw [hservice]; rfl) (fun h' => h'.elim nofun nofun) nofun nofun
    · exact h.move hlive (by rw [hservice]; rfl) (fun h' => h'.elim nofun nofun) nofun nofun
  · next hservice =>
    have hlive : w.service ≠ .raised := by simp [hservice]
    split
    · exact h
    · next hended =>
      exact h.move hlive (by rw [hservice]; rfl) (fun _ => by simp [hended]) nofun nofun
    · exact h.move hlive (by rw [hservice]; rfl) (fun h' => h'.elim nofun nofun) nofun nofun
  · next hservice =>
    have hlive : w.service ≠ .raised := by simp [hservice]
    split
    · exact h
    · refine ⟨?_, fun _ => h.deaf (.inl hservice), fun _ => ⟨rfl, rfl⟩, fun batch hloop => ?_, nofun⟩
      · -- the queue becomes the chunks
        have hall := h.conserved
        rw [hservice] at hall
        refine List.Perm.trans ?_ hall
        change (w.batches.flatten ++ (chunks c.batchSizeMax w.queue).flatten ++ w.loop.held ++ []).Perm
          (w.batches.flatten ++ [] ++ w.loop.held ++ w.queue)
        rw [chunks_flatten c.batchSizeMax_pos, List.append_nil, List.append_nil, List.append_assoc,
          List.append_assoc]
        exact List.Perm.append_left _ List.perm_append_comm
      · exact absurd (h.live batch hloop) hlive
    · exact h.move hlive (by rw [hservice]; rfl) (fun h' => h'.elim nofun nofun) nofun nofun
  · next chunk rest hservice =>
    have hlive : w.service ≠ .raised := by simp [hservice]
    have hdrained : w.service.drained = true := by rw [hservice]; rfl
    refine ⟨?_, fun _ => h.deaf (.inr hdrained), fun _ => h.emptied hdrained, fun batch hloop => ?_, nofun⟩
    · have hall := h.conserved
      rw [hservice] at hall
      simpa [Service.chunks] using hall
    · exact absurd (h.live batch hloop) hlive
  · next hservice =>
    have hlive : w.service ≠ .raised := by simp [hservice]
    have hdrained : w.service.drained = true := by rw [hservice]; rfl
    exact h.move hlive (by rw [hservice]; rfl) (fun _ => h.deaf (.inr hdrained)) (fun _ => hdrained) nofun
  · next hservice =>
    have hlive : w.service ≠ .raised := by simp [hservice]
    have hdrained : w.service.drained = true := by rw [hservice]; rfl
    split
    · next hdone =>
      exact h.move hlive (by rw [hservice]; rfl) (fun _ => h.deaf (.inr hdrained)) (fun _ => hdrained)
        fun _ => hdone
    · exact h
  · exact h
  · next hservice =>
    split
    · exact h
    · exact ⟨h.conserved, h.deaf, h.emptied, fun _ _ => hservice, fun hreturned => by simp [hservice] at hreturned⟩

theorem Inv.step (h : Inv w) (e : Event Raw) : Inv (step c w e) := by
  cases e with
  | frame raw =>
    unfold WriterShutdown.step
    dsimp only
    split_ifs with hrun
    · exact h.enqueue hrun raw
    · exact h
  | subscriberEnds =>
    unfold WriterShutdown.step
    dsimp only
    split_ifs
    · exact ⟨h.conserved, fun _ => nofun, h.emptied, h.live, h.ended⟩
    · exact h
  | subscriberFails =>
    unfold WriterShutdown.step
    dsimp only
    split_ifs
    · exact ⟨h.conserved, fun _ => nofun, h.emptied, h.live, h.ended⟩
    · exact h
  | heartbeatEnds =>
    unfold WriterShutdown.step
    dsimp only
    split_ifs
    · exact ⟨h.conserved, h.deaf, h.emptied, h.live, h.ended⟩
    · exact h
  | heartbeatFails =>
    unfold WriterShutdown.step
    dsimp only
    split_ifs
    · exact ⟨h.conserved, h.deaf, h.emptied, h.live, h.ended⟩
    · exact h
  | requestStop => exact ⟨h.conserved, h.deaf, h.emptied, h.live, h.ended⟩
  | stopTask =>
    unfold WriterShutdown.step
    dsimp only
    split_ifs
    · exact ⟨h.conserved, h.deaf, h.emptied, h.live, h.ended⟩
    · exact h
  | service => exact h.serviceStep
  | loop => exact h.loopStep
  | timeout =>
    unfold WriterShutdown.step
    dsimp only
    split
    · next hloop => exact h.passOn hloop
    · exact h

end Invariant

section Progress
variable {Raw Ev : Type*} {c : Config Raw Ev} {w w' : World Ev} {e : Event Raw}

/-- The steps that are left until the queue is drained, or the sequence is left by an exception -/
def toDrain (w : World Ev) : ℕ :=
  match w.service with
  | .supervising | .backoff => if w.stopTask then 5 else 6
  | .awaitSubscriber => if w.subscriber = .running then 4 else 3
  | .awaitHeartbeat => if w.heartbeat = .running then 2 else 1
  | .draining _ | .awaitWriter | .returned | .raised => 0

def awaited (Raw : Type*) (w : World Ev) : Event Raw :=
  match w.service with
  | .supervising | .backoff => if w.stopTask then .service else .stopTask
  | .awaitSubscriber => if w.subscriber = .running then .subscriberEnds else .service
  | .awaitHeartbeat => if w.heartbeat = .running then .heartbeatEnds else .service
  | .draining _ | .awaitWriter | .returned | .raised => .service

/-- The stop sequence has come to the drain or to an exception. -/
def Decided (w : World Ev) : Prop := w.service.drained = true ∨ w.service = .raised

/-- What a step of the loop or a frame leaves alone -/
structure Aside (w w' : World Ev) : Prop where
  service : w'.service = w.service
  stop : w'.stop = w.stop
  stopTask : w'.stopTask = w.stopTask
  subscriber : w'.subscriber = w.subscriber
  heartbeat : w'.heartbeat = w.heartbeat

theorem Aside.refl (w : World Ev) : Aside w w := ⟨rfl, rfl, rfl, rfl, rfl⟩

theorem Aside.toDrain (h : Aside w w') : toDrain w' = toDrain w := by
  simp only [WriterShutdown.toDrain, h.service, h.stopTask, h.subscriber, h.heartbeat]

theorem Aside.awaited (h : Aside w w') : awaited Raw w' = awaited Raw w := by
  simp only [WriterShutdown.awaited, h.service, h.stopTask, h.subscriber, h.heartbeat]

theorem aside_enqueue (c : Config Raw Ev) (w : World Ev) (raw : Raw) : Aside w (enqueue c w raw) := by
  rcases enqueue_cases c w raw with heq | ⟨e, heq⟩
  · rw [heq]
    exact .refl w
  · rw [heq]
    exact ⟨rfl, rfl, rfl, rfl, rfl⟩

theorem aside_passOn (w : World Ev) (batch : List Ev) : Aside w (passOn w batch) := by
  obtain ⟨batches, loop, heq, -⟩ := passOn_cases w batch
  rw [heq]
  exact ⟨rfl, rfl, rfl, rfl, rfl⟩

theorem aside_loopStep (c : Config Raw Ev) (w : World Ev) : Aside w (loopStep c w) := by
  unfold loopStep
  split
  · exact ⟨rfl, rfl, rfl, rfl, rfl⟩
  · split_ifs
    · split
      · exact .refl w
      · exact ⟨rfl, rfl, rfl, rfl, rfl⟩
    · exact aside_passOn w _
  · exact ⟨rfl, rfl, rfl, rfl, rfl⟩
  · exact .refl w
  · exact .refl w

theorem aside_timeout (c : Config Raw Ev) (w : World Ev) : Aside w (step c w .timeout) := by
  unfold step
  dsimp only
  split
  · exact aside_passOn w _
  · exact .refl w

theorem serviceStep_stop (c : Config Raw Ev) (w : World Ev) :
    (serviceStep c w).stop = w.stop ∧ (serviceStep c w).stopTask = w.stopTask := by
  unfold serviceStep
  split
  all_goals first | exact ⟨rfl, rfl⟩ | (split_ifs <;> exact ⟨rfl, rfl⟩) | (split <;> exact ⟨rfl, rfl⟩)

theorem step_stop (h : w.stop = true) (e : Event Raw) : (step c w e).stop = true := by
  cases e with
  | frame raw =>
    unfold step
    dsimp only
    split_ifs
    · exact (aside_enqueue c w raw).stop.trans h
    · exact h
  | requestStop => rfl
  | service => exact (serviceStep_stop c w).1.trans h
  | loop => exact (aside_loopStep c w).stop.trans h
  | timeout => exact (aside_timeout c w).stop.trans h
  | _ =>
    unfold step
    dsimp only
    split_ifs <;> exact h

theorem toDrain_subscriber {t : Task} (h : w.subscriber = .running) (ht : t ≠ .running) :
    toDrain { w with subscriber := t } < toDrain w ∨ toDrain { w with subscriber := t } = toDrain w ∧
      awaited Raw { w with subscriber := t } = awaited Raw w := by
  cases hservice : w.service with
  | awaitSubscriber => exact .inl (by simp [toDrain, hservice, h, ht])
  | _ => exact .inr (by simp [toDrain, awaited, hservice])

theorem toDrain_heartbeat {t : Task} (h : w.heartbeat = .running) (ht : t ≠ .running) :
    toDrain { w with heartbeat := t } < toDrain w ∨ toDrain { w with heartbeat := t } = toDrain w ∧
      awaited Raw { w with heartbeat := t } = awaited Raw w := by
  cases hservice : w.service with
  | awaitHeartbeat => exact .inl (by simp [toDrain, hservice, h, ht])
  | _ => exact .inr (by simp [toDrain, awaited, hservice])

/-- A step of the service brings the drain nearer, or it restarts the subscriber and still waits for the stop. -/
theorem toDrain_service (c : Config Raw Ev) (h : ¬ Decided w) :
    toDrain (serviceStep c w) < toDrain w ∨ toDrain (serviceStep c w) = toDrain w ∧
      awaited Raw (serviceStep c w) = awaited Raw w ∧ awaited Raw w ≠ .service := by
  cases hservice : w.service with
  | supervising =>
    by_cases htask : w.stopTask = true
    · by_cases hsub : w.subscriber = .running
      · exact .inl (by simp [serviceStep, toDrain, hservice, htask, hsub])
      · exact .inl (by simp [serviceStep, toDrain, hservice, htask, hsub])
    · by_cases hsub : w.subscriber = .running
      · exact .inr (by simp [serviceStep, toDrain, awaited, hservice, htask, hsub])
      · exact .inr (by simp [serviceStep, toDrain, awaited, hservice, htask, hsub])
  | backoff =>
    by_cases htask : w.stopTask = true
    · by_cases hsub : w.subscriber = .running
      · exact .inl (by simp [serviceStep, toDrain, hservice, htask, hsub])
      · exact .inl (by simp [serviceStep, toDrain, hservice, htask, hsub])
    · exact .inr (by simp [serviceStep, toDrain, awaited, hservice, htask])
  | awaitSubscriber =>
    cases hsub : w.subscriber with
    | running => exact .inr (by simp [serviceStep, toDrain, awaited, hservice, hsub])
    | ended =>
      by_cases hbeat : w.heartbeat = .running
      · exact .inl (by simp [serviceStep, toDrain, hservice, hsub, hbeat])
      · exact .inl (by simp [serviceStep, toDrain, hservice, hsub, hbeat])
    | failed => exact .inl (by simp [serviceStep, toDrain, hservice, hsub])
  | awaitHeartbeat =>
    cases hbeat : w.heartbeat with
    | running => exact .inr (by simp [serviceStep, toDrain, awaited, hservice, hbeat])
    | ended => exact .inl (by simp [serviceStep, toDrain, hservice, hbeat])
    | failed => exact .inl (by simp [serviceStep, toDrain, hservice, hbeat])
  | raised => exact absurd (.inr hservice) h
  | _ => exact absurd (.inl (by rw [hservice]; rfl)) h

theorem toDrain_stays (hstop : w.stop = true) (h : ¬ Decided w) (e : Event Raw) :
    toDrain (step c w e) < toDrain w ∨ toDrain (step c w e) = toDrain w ∧
      awaited Raw (step c w e) = awaited Raw w := by
  have hsame : ∀ w', Aside w w' → toDrain w' < toDrain w ∨ toDrain w' = toDrain w ∧
      awaited Raw w' = awaited Raw w := fun w' haside => .inr ⟨haside.toDrain, haside.awaited⟩
  cases e with
  | frame raw =>
    unfold step
    dsimp only
    split_ifs
    · exact hsame _ (aside_enqueue c w raw)
    · exact hsame w (.refl w)
  | requestStop => exact hsame _ ⟨rfl, hstop.symm, rfl, rfl, rfl⟩
  | service => exact (toDrain_service c h).imp_right fun h' => ⟨h'.1, h'.2.1⟩
  | loop => exact hsame _ (aside_loopStep c w)
  | timeout => exact hsame _ (aside_timeout c w)
  | stopTask =>
    simp only [step, if_pos hstop]
    by_cases htask : w.stopTask = true
    · exact hsame _ ⟨rfl, rfl, htask.symm, rfl, rfl⟩
    · cases hservice : w.service with
      | supervising => exact .inl (by simp [toDrain, hservice, htask])
      | backoff => exact .inl (by simp [toDrain, hservice, htask])
      | _ => exact .inr (by simp [toDrain, awaited, hservice])
  | subscriberEnds =>
    simp only [step]
    split_ifs with hrun
    · exact toDrain_subscriber hrun.2 nofun
    · exact hsame w (.refl w)
  | subscriberFails =>
    simp only [step]
    split_ifs with hrun
    · exact toDrain_subscriber hrun nofun
    · exact hsame w (.refl w)
  | heartbeatEnds =>
    simp only [step]
    split_ifs with hrun
    · exact toDrain_heartbeat hrun.2 nofun
    · exact hsame w (.refl w)
  | heartbeatFails =>
    simp only [step]
    split_ifs with hrun
    · exact toDrain_heartbeat hrun nofun
    · exact hsame w (.refl w)

theorem toDrain_drops (hstop : w.stop = true) (h : ¬ Decided w) :
    toDrain (step c w (awaited Raw w)) < toDrain w := by
  by_cases hservice : awaited Raw w = .service
  · rw [hservice]
    rcases toDrain_service c h with hless | ⟨-, -, hno⟩
    · exact hless
    · exact absurd hservice hno
  · cases hphase : w.service with
    | supervising =>
      by_cases htask : w.stopTask = true
      · exact absurd (by simp [awaited, hphase, htask]) hservice
      · simp [awaited, toDrain, step, hphase, htask, hstop]
    | backoff =>
      by_cases htask : w.stopTask = true
      · exact absurd (by simp [awaited, hphase, htask]) hservice
      · simp [awaited, toDrain, step, hphase, htask, hstop]
    | awaitSubscriber =>
      by_cases hrun : w.subscriber = .running
      · simp [awaited, toDrain, step, hphase, hrun, hstop]
      · exact absurd (by simp [awaited, hphase, hrun]) hservice
    | awaitHeartbeat =>
      by_cases hrun : w.heartbeat = .running
      · simp [awaited, toDrain, step, hphase, hrun, hstop]
      · exact absurd (by simp [awaited, hphase, hrun]) hservice
    | _ => exact absurd (by simp [awaited, hphase]) hservice

def Loop.left : Loop Ev → ℕ
  | .collecting _ => 3
  | .writing => 2
  | .top => 1
  | .done | .cancelled _ => 0

def Service.left : Service Ev → ℕ
  | .draining chunks => chunks.length + 2
  | .awaitWriter => 1
  | .supervising | .backoff | .awaitSubscriber | .awaitHeartbeat | .returned | .raised => 0

/-- The steps that are left once the queue is drained -/
def left (w : World Ev) : ℕ := w.service.left + w.loop.left

def Loop.next (Raw : Type*) : Loop Ev → Event Raw
  | .collecting _ => .timeout
  | .writing | .top => .loop
  | .done | .cancelled _ => .service

def finishes (Raw : Type*) (w : World Ev) : Event Raw :=
  match w.service with
  | .awaitWriter => w.loop.next Raw
  | _ => .service

theorem left_passOn {batch : List Ev} (h : w.loop = .collecting batch) : left (passOn w batch) < left w := by
  obtain ⟨batches, loop, heq, -, hloop⟩ := passOn_cases w batch
  rw [heq]
  rcases hloop with rfl | rfl
  · simp [left, Loop.left, h]
  · simp [left, Loop.left, h]

theorem left_loopStep (h : Inv w) (hdrained : w.service.drained = true) :
    left (loopStep c w) < left w ∨ loopStep c w = w := by
  unfold loopStep
  split
  · next hloop => exact .inl (by simp [left, Loop.left, hloop, (h.emptied hdrained).2])
  · next batch hloop =>
    split_ifs
    · rw [(h.emptied hdrained).1]
      exact .inr rfl
    · exact .inl (left_passOn hloop)
  · next hloop => exact .inl (by simp [left, Loop.left, hloop])
  · exact .inr rfl
  · exact .inr rfl

theorem left_serviceStep (hdrained : w.service.drained = true) (hrun : w.service ≠ .returned) :
    left (serviceStep c w) < left w ∨ serviceStep c w = w ∧ w.service = .awaitWriter ∧ w.loop ≠ .done := by
  cases hservice : w.service with
  | draining chunks =>
    cases chunks with
    | nil => exact .inl (by simp [serviceStep, left, Service.left, hservice])
    | cons chunk rest => exact .inl (by simp [serviceStep, left, Service.left, hservice])
  | awaitWriter =>
    cases hloop : w.loop with
    | done => exact .inl (by simp [serviceStep, left, Service.left, hservice, hloop])
    | _ => exact .inr (by simp [serviceStep, hservice, hloop])
  | returned => exact absurd hservice hrun
  | _ =>
    rw [hservice] at hdrained
    cases hdrained

theorem left_stays (h : Inv w) (hdrained : w.service.drained = true) (hrun : w.service ≠ .returned)
    (e : Event Raw) : left (step c w e) < left w ∨ left (step c w e) = left w ∧
      finishes Raw (step c w e) = finishes Raw w := by
  cases e with
  | frame raw =>
    refine .inr ?_
    rw [step, if_neg (h.deaf (.inr hdrained))]
    exact ⟨rfl, rfl⟩
  | service =>
    rcases left_serviceStep (c := c) hdrained hrun with hless | ⟨heq, -⟩
    · exact .inl hless
    · refine .inr ?_
      rw [step, heq]
      exact ⟨rfl, rfl⟩
  | loop =>
    rcases left_loopStep (c := c) h hdrained with hless | heq
    · exact .inl hless
    · refine .inr ?_
      rw [step, heq]
      exact ⟨rfl, rfl⟩
  | timeout =>
    unfold step
    dsimp only
    split
    · next hloop => exact .inl (left_passOn hloop)
    · exact .inr ⟨rfl, rfl⟩
  | requestStop => exact .inr ⟨rfl, rfl⟩
  | _ =>
    unfold step
    dsimp only
    split_ifs <;> exact .inr ⟨rfl, rfl⟩

theorem left_drops (h : Inv w) (hdrained : w.service.drained = true) (hrun : w.service ≠ .returned) :
    left (step c w (finishes Raw w)) < left w := by
  rcases left_serviceStep (c := c) hdrained hrun with hless | ⟨-, hservice, hloop⟩
  · cases hservice : w.service with
    | awaitWriter =>
      cases hloop : w.loop with
      | done => simpa [finishes, Loop.next, hservice, hloop, step] using hless
      | _ => simp [serviceStep, hservice, hloop] at hless
    | _ => simpa [finishes, hservice, step] using hless
  · cases hphase : w.loop with
    | top => simp [finishes, Loop.next, hservice, hphase, step, loopStep, left, Loop.left, (h.emptied hdrained).2]
    | collecting batch =>
      have hless := left_passOn hphase
      simpa [finishes, Loop.next, hservice, hphase, step] using hless
    | writing => simp [finishes, Loop.next, hservice, hphase, step, loopStep, left, Loop.left]
    | done => exact absurd hphase hloop
    | cancelled batch =>
      have hraised := h.live batch hphase
      rw [hservice] at hraised
      cases hraised

/-- Once drained, the service never leaves the rest of its sequence. -/
theorem drained_step (hdrained : w.service.drained = true) (e : Event Raw) :
    (step c w e).service.drained = true := by
  cases e with
  | frame raw =>
    unfold step
    dsimp only
    split_ifs
    · rw [(aside_enqueue c w raw).service]
      exact hdrained
    · exact hdrained
  | requestStop => exact hdrained
  | service =>
    cases hservice : w.service with
    | draining chunks => cases chunks <;> simp [step, serviceStep, hservice, Service.drained]
    | awaitWriter => cases hloop : w.loop <;> simp [step, serviceStep, hservice, hloop, Service.drained]
    | returned => simp [step, serviceStep, hservice, Service.drained]
    | _ =>
      rw [hservice] at hdrained
      cases hdrained
  | loop =>
    rw [step, (aside_loopStep c w).service]
    exact hdrained
  | timeout =>
    rw [(aside_timeout c w).service]
    exact hdrained
  | _ =>
    unfold step
    dsimp only
    split_ifs <;> exact hdrained

theorem returned_step (h : w.service = .returned) (e : Event Raw) : (step c w e).service = .returned := by
  cases e with
  | frame raw =>
    simp only [step]
    split_ifs
    · exact (aside_enqueue c w raw).service.trans h
    · exact h
  | requestStop => exact h
  | service => simp [step, serviceStep, h]
  | loop => exact (aside_loopStep c w).service.trans h
  | timeout => exact (aside_timeout c w).service.trans h
  | _ =>
    simp only [step]
    split_ifs <;> exact h

theorem awaited_recurs (w : World Ev) : awaited Raw w ∈ recurring Raw := by
  unfold awaited
  split <;> first | (split_ifs <;> simp [recurring]) | simp [recurring]

theorem finishes_recurs (w : World Ev) : finishes Raw w ∈ recurring Raw := by
  unfold finishes
  split
  · cases w.loop <;> simp [Loop.next, recurring]
  · simp [recurring]

end Progress

section Failures
variable {Raw Ev : Type*} {c : Config Raw Ev} {w w' : World Ev}

/-- Only an awaited task that failed makes the service raise. -/
theorem fails_of_raised {e : Event Raw} (h : w.service ≠ .raised) (h' : (step c w e).service = .raised) : Fails w := by
  have hsame : ∀ w', Aside w w' → w'.service ≠ .raised := fun w' haside => haside.service ▸ h
  cases e with
  | service =>
    cases hservice : w.service with
    | supervising =>
      simp only [step, serviceStep, hservice] at h'
      split_ifs at h'
      exact absurd h' h
    | backoff =>
      simp only [step, serviceStep, hservice] at h'
      split_ifs at h'
    | awaitSubscriber =>
      cases hsub : w.subscriber with
      | failed => exact .inl ⟨hservice, hsub⟩
      | _ => simp [step, serviceStep, hservice, hsub] at h'
    | awaitHeartbeat =>
      cases hbeat : w.heartbeat with
      | failed => exact .inr ⟨hservice, hbeat⟩
      | _ => simp [step, serviceStep, hservice, hbeat] at h'
    | draining chunks => cases chunks <;> simp [step, serviceStep, hservice] at h'
    | awaitWriter => cases hloop : w.loop <;> simp [step, serviceStep, hservice, hloop] at h'
    | returned => simp [step, serviceStep, hservice] at h'
    | raised => exact absurd hservice h
  | frame raw =>
    simp only [step] at h'
    split_ifs at h'
    · exact absurd h' (hsame _ (aside_enqueue c w raw))
    · exact absurd h' h
  | requestStop => exact absurd h' h
  | loop => exact absurd h' (hsame _ (aside_loopStep c w))
  | timeout => exact absurd h' (hsame _ (aside_timeout c w))
  | _ =>
    simp only [step] at h'
    split_ifs at h' <;> exact absurd h' h

theorem Fails.aside (h : Fails w) (haside : Aside w w') : Fails w' := by
  rwa [Fails, haside.service, haside.subscriber, haside.heartbeat]

/-- A task that failed under the stop sequence stays so until it is awaited. -/
theorem fails_step (h : Fails w ∨ w.service = .raised) (e : Event Raw) :
    Fails (step c w e) ∨ (step c w e).service = .raised := by
  have hsame : ∀ w', Aside w w' → Fails w' ∨ w'.service = .raised := fun w' haside =>
    h.imp (fun hfails => hfails.aside haside) haside.service.trans
  cases e with
  | service =>
    rcases h with (⟨hservice, hsub⟩ | ⟨hservice, hbeat⟩) | hservice
    · exact .inr (by simp [step, serviceStep, hservice, hsub])
    · exact .inr (by simp [step, serviceStep, hservice, hbeat])
    · cases hloop : w.loop with
      | done => exact .inr (by simp [step, serviceStep, hservice, hloop])
      | _ => exact .inr (by simp [step, serviceStep, hservice, hloop])
  | frame raw =>
    simp only [step]
    split_ifs
    · exact hsame _ (aside_enqueue c w raw)
    · exact h
  | requestStop => exact h
  | loop => exact hsame _ (aside_loopStep c w)
  | timeout => exact hsame _ (aside_timeout c w)
  | stopTask =>
    simp only [step]
    split_ifs <;> exact h
  | subscriberEnds =>
    simp only [step]
    split_ifs with hrun
    · exact h.imp_left (Or.imp_left fun hf => absurd hrun.2 (by simp [hf.2]))
    · exact h
  | subscriberFails =>
    simp only [step]
    split_ifs with hrun
    · exact h.imp_left (Or.imp_left fun hf => ⟨hf.1, rfl⟩)
    · exact h
  | heartbeatEnds =>
    simp only [step]
    split_ifs with hrun
    · exact h.imp_left (Or.imp_right fun hf => absurd hrun.2 (by simp [hf.2]))
    · exact h
  | heartbeatFails =>
    simp only [step]
    split_ifs with hrun
    · exact h.imp_left (Or.imp_right fun hf => ⟨hf.1, rfl⟩)
    · exact h

end Failures

namespace Schedule

variable {Raw Ev : Type*} {c : Config Raw Ev} (r : Schedule c)

theorem inv (n : ℕ) : Inv (r.world n) :=
  states_keep (fun _ e h => h.step e) (show Inv (states (step c) (World.start Ev) r.events 0) from .start) (Nat.zero_le n)

theorem not_delivers {m : ℕ} (hfails : Fails (r.world m)) : ¬ r.Delivers := by
  rintro ⟨⟨n, hreturned⟩, -⟩
  rcases Nat.le_total m n with hle | hle
  · have h := states_keep (I := fun w : World Ev => Fails w ∨ w.service = .raised)
      (fun _ e h => fails_step h e) (.inl hfails) hle
    change Fails (r.world n) ∨ (r.world n).service = .raised at h
    rw [Fails, hreturned] at h
    simp at h
  · have h := states_keep (I := fun w : World Ev => w.service = .returned)
      (fun _ e h => returned_step h e) hreturned hle
    change (r.world m).service = .returned at h
    rw [Fails, h] at hfails
    simp at hfails

/-- The accepted events are all passed on just where the stop sequence awaits no task that failed. -/
theorem delivers_iff : r.Delivers ↔ ∀ n, ¬ Fails (r.world n) := by
  constructor
  · exact fun h n hfails => r.not_delivers hfails h
  · intro hsound
    have hraised : ∀ n, (r.world n).service ≠ .raised := by
      intro n hn
      rcases states_first (I := fun w : World Ev => w.service = .raised) hn with hstart | ⟨k, -, hno, hk⟩
      · cases hstart
      · exact hsound k (fails_of_raised hno hk)
    refine ⟨?_, fun n hreturned => ?_⟩
    · obtain ⟨n, hn⟩ := r.stopped
      have hstop : (states (step c) (World.start Ev) r.events (n + 1)).stop = true := by
        rw [states, hn]
        rfl
      obtain ⟨m, -, hdrained | hbad⟩ := eventually (I := fun w : World Ev => w.stop = true) Decided toDrain
        (awaited Raw) (fun _ e h => step_stop h e) (fun _ e h hno => toDrain_stays h hno e)
        (fun _ h hno => toDrain_drops h hno) (fun w => r.fair _ (awaited_recurs w)) hstop
      · obtain ⟨m', -, hreturned⟩ := eventually (I := fun w : World Ev => Inv w ∧ w.service.drained = true)
          (fun w => w.service = .returned) left (finishes Raw)
          (fun _ e h => ⟨h.1.step e, drained_step h.2 e⟩) (fun _ e h hno => left_stays h.1 h.2 hno e)
          (fun _ h hno => left_drops h.1 h.2 hno) (fun w => r.fair _ (finishes_recurs w)) ⟨r.inv m, hdrained⟩
        exact ⟨m', hreturned⟩
      · exact absurd hbad (hraised m)
    · have h := r.inv n
      have hall := h.conserved
      rw [hreturned, h.ended hreturned, (h.emptied (by rw [hreturned]; rfl)).1] at hall
      simpa [Service.chunks, Loop.held] using hall

end Schedule

/-- Numbers as frames and events -/
def numbers : Config ℕ ℕ where
  parse := some
  queueMaxSize := 10000
  batchSizeMax := 100
  batchSizeMax_pos := by decide

/-- An event is accepted, the subscriber's task dies, and the stop comes before it is started again. -/
def stoppedInBackoff : List (Event ℕ) :=
  [.frame 7, .subscriberFails, .service, .requestStop, .stopTask, .service, .service, .service]

def deadSubscriber : Schedule numbers where
  events n := stoppedInBackoff[n]?.getD ((recurring ℕ)[n % 6]?.getD .service)
  fair e he n := by
    obtain ⟨i, hi, rfl⟩ := List.getElem_of_mem he
    have hlength : i < 6 := hi
    refine ⟨6 * (n + 8) + i, by omega, ?_⟩
    have hlate : stoppedInBackoff[6 * (n + 8) + i]? = none :=
      List.getElem?_eq_none (show 8 ≤ 6 * (n + 8) + i by omega)
    have hplace : (6 * (n + 8) + i) % 6 = i := by omega
    dsimp only
    rw [hlate, hplace, List.getElem?_eq_getElem hi]
    rfl
  stopped := ⟨3, rfl⟩

theorem not_all_deliver : ¬ deadSubscriber.Delivers ∧ (deadSubscriber.world 8).accepted = [7] ∧
    (deadSubscriber.world 8).batches = [] ∧ (deadSubscriber.world 8).loop = .cancelled [] :=
  ⟨deadSubscriber.not_delivers (m := 6) (.inl ⟨rfl, rfl⟩), rfl, rfl, rfl⟩

end FxVol.WriterShutdown
