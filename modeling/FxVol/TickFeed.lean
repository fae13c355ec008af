import FxVol.LiveFanOut
import FxVol.TickPublisher

/-!
# The tick feed

The tick publisher and the live fan-out together: what the market-data engine publishes on `ticks` is what
the bridge may take there.  The client of `/ws/ticks` sees ticks that lie 200 ms apart, and the cache is never
behind what it has seen.
-/
namespace FxVol.TickFeed

open TickPublisher (Emission tickPublishThrottle)
open LiveFanOut (Message Channel Socket on)

/-- The body of a message: a tick of `publish_tick`, or what another helper publishes -/
inductive Payload
  | tick (e : Emission)
  | body (text : String)
  deriving DecidableEq

structure World where
  publisher : TickPublisher.World
  fanOut : LiveFanOut.World Payload

def World.start : World := ⟨.start, .start⟩

inductive Event
  | publisher (e : TickPublisher.Event)
  | fanOut (e : LiveFanOut.Event Payload)

def tickMessage (e : Emission) : Message Payload := ⟨.ticks, .tick e⟩

/-- A step of the publisher hands Redis what it has just published. -/
def step (w : World) : Event → World
  | .publisher e =>
    let publisher := TickPublisher.step w.publisher e
    ⟨publisher, ((publisher.emitted.drop w.publisher.emitted.length).map tickMessage).foldl
      LiveFanOut.World.publish w.fanOut⟩
  | .fanOut e => { w with fanOut := LiveFanOut.step w.fanOut e }

def run (es : List Event) : World := es.foldl step World.start

/-- No one else publishes on `ticks`. -/
def Event.Honest : Event → Prop
  | .fanOut (.publish m) => m.channel ≠ .ticks
  | _ => True

instance : (e : Event) → Decidable e.Honest
  | .fanOut (.publish m) => inferInstanceAs (Decidable (m.channel ≠ .ticks))
  | .fanOut .subscribe | .fanOut .psubscribe | .fanOut .listen | .fanOut (.send ..) | .fanOut .finish
  | .fanOut .lose | .fanOut (.accept _) | .fanOut (.connect _) | .fanOut (.close _)
  | .fanOut (.disconnect _) | .publisher _ => inferInstanceAs (Decidable True)

/-- A step of the publisher adds to what it has published. -/
theorem emitted_prefix (w : TickPublisher.World) (e : TickPublisher.Event) :
    w.emitted <+: (TickPublisher.step w e).emitted := by
  cases e with
  | poll tick wall =>
    simp only [TickPublisher.step, TickPublisher.World.poll]
    split <;> exact List.prefix_rfl
  | answer =>
    cases hf : w.task with
    | none => simp [TickPublisher.step, hf]
    | some f =>
      simp only [TickPublisher.step, hf, Option.elim_some, TickPublisher.World.answer]
      split
      · exact List.prefix_rfl
      · exact List.prefix_rfl
      · unfold TickPublisher.World.throttle
        split <;> exact List.prefix_rfl
      · exact List.prefix_append _ _
  | fail => exact List.prefix_rfl
  | wait d => exact List.prefix_rfl

theorem published_step (w : LiveFanOut.World Payload) (e : LiveFanOut.Event Payload) :
    (LiveFanOut.step w e).published = w.published ++ e.published := by
  cases e with
  | publish m => rfl
  | subscribe =>
    simp only [LiveFanOut.step, LiveFanOut.Event.published, List.append_nil]
    split <;> rfl
  | psubscribe => simp [LiveFanOut.step, LiveFanOut.Event.published]
  | listen =>
    simp only [LiveFanOut.step, LiveFanOut.Event.published, List.append_nil]
    rcases LiveFanOut.listen_cases w with heq | ⟨_, _, _, -, -, ⟨-, heq⟩ | ⟨_, -, heq⟩⟩ <;> rw [heq]
  | send k ok =>
    simp only [LiveFanOut.step, LiveFanOut.Event.published, List.append_nil]
    rcases LiveFanOut.send_cases w k ok with heq | ⟨_, -, -, ⟨-, -, heq⟩ | ⟨-, heq⟩⟩ <;> rw [heq]
  | finish =>
    simp only [LiveFanOut.step, LiveFanOut.World.finish, LiveFanOut.Event.published, List.append_nil]
    split
    · rfl
    · split <;> rfl
  | lose =>
    simp only [LiveFanOut.step, LiveFanOut.World.lose, LiveFanOut.Event.published, List.append_nil]
    split <;> rfl
  | accept c => simp [LiveFanOut.step, LiveFanOut.Event.published]
  | connect k =>
    simp only [LiveFanOut.step, LiveFanOut.World.connect, LiveFanOut.Event.published, List.append_nil]
    split <;> rfl
  | close k => simp [LiveFanOut.step, LiveFanOut.Event.published]
  | disconnect k =>
    simp only [LiveFanOut.step, LiveFanOut.World.disconnect, LiveFanOut.Event.published, List.append_nil]
    split <;> rfl

theorem published_foldl (ms : List (Message Payload)) (w : LiveFanOut.World Payload) :
    (ms.foldl LiveFanOut.World.publish w).published = w.published ++ ms := by
  induction ms generalizing w with
  | nil => simp
  | cons m ms ih =>
    rw [List.foldl_cons, ih]
    simp [LiveFanOut.World.publish]

/-- Each half is in a state of its own runs, and the channel carries what the publisher published. -/
structure Coupled (w : World) : Prop where
  spaced : TickPublisher.Spaced w.publisher
  fresh : TickPublisher.Fresh w.publisher
  served : LiveFanOut.Served w.fanOut
  ordered : w.fanOut.Ordered
  carried : on .ticks w.fanOut.published = w.publisher.emitted.map tickMessage

theorem Coupled.start : Coupled World.start :=
  ⟨.start, .start, .start, List.Sublist.refl _, rfl⟩

theorem on_tickMessages (l : List Emission) : on .ticks (l.map tickMessage) = l.map tickMessage := by
  refine List.filter_eq_self.mpr ?_
  intro m hm
  obtain ⟨e, -, rfl⟩ := List.mem_map.mp hm
  simp [tickMessage]

theorem Coupled.step {w : World} (h : Coupled w) {e : Event} (he : e.Honest) : Coupled (step w e) := by
  cases e with
  | publisher e =>
    obtain ⟨new, hnew⟩ := emitted_prefix w.publisher e
    have hdrop : (TickPublisher.step w.publisher e).emitted.drop w.publisher.emitted.length = new := by
      rw [← hnew, List.drop_left]
    refine ⟨h.spaced.step e, h.fresh.step e, ?_, ?_, ?_⟩
    · refine List.foldlRecOn _ _ h.served ?_
      intro fan hfan m _
      exact hfan.step (.publish m)
    · refine List.foldlRecOn _ _ h.ordered ?_
      intro fan hfan m _
      exact hfan.step (.publish m)
    · simp only [TickFeed.step]
      rw [hdrop, published_foldl, LiveFanOut.on_append, h.carried, on_tickMessages, ← hnew, List.map_append]
  | fanOut e =>
    refine ⟨h.spaced, h.fresh, h.served.step e, h.ordered.step e, ?_⟩
    have hquiet : on .ticks e.published = [] := by
      cases e with
      | publish m => exact LiveFanOut.on_other he
      | _ => rfl
    simp only [TickFeed.step]
    rw [published_step, LiveFanOut.on_append, hquiet, List.append_nil, h.carried]

theorem Coupled.run {es : List Event} (hes : ∀ e ∈ es, e.Honest) : Coupled (run es) := by
  refine List.foldlRecOn es _ Coupled.start ?_
  intro w hw e he
  exact hw.step (hes e he)

def Payload.emission : Payload → Option Emission
  | .tick e => some e
  | .body _ => none

def ticksOf (s : Socket Payload) : List Emission := s.received.filterMap (·.data.emission)

theorem Coupled.ticksOf_sublist {w : World} (h : Coupled w) {k : ℕ} {s : Socket Payload}
    (hs : w.fanOut.sockets[k]? = some s) (hc : s.channel = .ticks) : (ticksOf s).Sublist w.publisher.emitted := by
  have htaken : w.fanOut.taken.Sublist w.fanOut.published :=
    (List.sublist_append_left _ _).trans h.ordered
  have hreceived : s.received.Sublist (w.publisher.emitted.map tickMessage) := by
    rw [← h.carried, ← hc]
    exact (h.served.contiguous k s hs).sublist.trans (htaken.filter _)
  have hemissions : (w.publisher.emitted.map tickMessage).filterMap (·.data.emission) = w.publisher.emitted := by
    rw [List.filterMap_map]
    exact List.filterMap_some
  rw [← hemissions]
  exact hreceived.filterMap _

/-- Over any run of the feed, a client of the ticks receives what the engine published in that order; two ticks of one symbol
that it receives were let through 200 ms apart, and a quote that is read from the cache after one was received is not older. -/
theorem client_ticks (es : List Event) (hes : ∀ e ∈ es, e.Honest) (k : ℕ) (s : Socket Payload)
    (hs : (run es).fanOut.sockets[k]? = some s) (hc : s.channel = .ticks) :
    (ticksOf s).Sublist (run es).publisher.emitted ∧
      ((ticksOf s).Pairwise fun a b =>
        a.tick.symbol = b.tick.symbol → a.stampedAt + tickPublishThrottle ≤ b.stampedAt) ∧
      ∀ e ∈ ticksOf s, ∀ key c, (run es).publisher.read key e.tick.symbol = some c → e.number ≤ c.number := by
  have h := Coupled.run hes
  have hsub := h.ticksOf_sublist hs hc
  refine ⟨hsub, h.spaced.emitted.sublist hsub, ?_⟩
  intro e he key c hread
  exact (h.fresh.read ((h.fresh.emitted e (hsub.subset he)).2 key) hread).1

/-- A quote of the engine: Redis answers each call of its task. -/
def quoted (symbol : String) (bid ask : ℚ) : List Event :=
  .publisher (.poll (some ⟨symbol, some bid, some ask, none⟩) 0) :: List.replicate 4 (.publisher .answer)

/-- The bridge takes a message to the client. -/
def delivered : List Event := [.fanOut .listen, .fanOut (.send 0 true), .fanOut .finish]

/-- The second and the last quote of EURUSD come too soon after the one before. -/
def fiveQuotes : List Event :=
  [.fanOut .subscribe, .fanOut (.accept .ticks), .fanOut (.connect 0)] ++ List.replicate 8 (.fanOut .listen) ++
    [.publisher (.wait 300000)] ++ quoted "EURUSD" 1 2 ++ delivered ++ [.publisher (.wait 100000)] ++
    quoted "EURUSD" 2 3 ++ quoted "GBPUSD" 3 4 ++ [.publisher (.wait 100000)] ++ quoted "EURUSD" 4 5 ++
    delivered ++ delivered ++ [.publisher (.wait 50000)] ++ quoted "EURUSD" 5 6

def tickClient : Socket Payload where
  channel := .ticks
  phase := .serving
  connected := true
  received := [
    tickMessage ⟨⟨"EURUSD", some 1, some 2, none⟩, 0, 0, 300000⟩,
    tickMessage ⟨⟨"GBPUSD", some 3, some 4, none⟩, 2, 0, 400000⟩,
    tickMessage ⟨⟨"EURUSD", some 4, some 5, none⟩, 3, 0, 500000⟩]

/-- The client sees three of the five quotes, and the cache the last one. -/
theorem client_ticks_five : (ticksOf tickClient).Sublist (run fiveQuotes).publisher.emitted ∧
    ((ticksOf tickClient).Pairwise fun a b =>
      a.tick.symbol = b.tick.symbol → a.stampedAt + tickPublishThrottle ≤ b.stampedAt) ∧
    ∀ e ∈ ticksOf tickClient, ∀ key c,
      (run fiveQuotes).publisher.read key e.tick.symbol = some c → e.number ≤ c.number :=
  client_ticks fiveQuotes (by decide) 0 tickClient rfl rfl

end FxVol.TickFeed
