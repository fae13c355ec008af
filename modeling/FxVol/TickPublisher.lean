import FxVol.GuardedRuns
import Mathlib.Logic.Function.Basic
import Mathlib.Tactic.Linarith
import Mathlib.Data.Rat.Defs

/-!
# The tick publisher

`publish_tick` writes the three quotes of a tick to the Redis cache and publishes the tick, at most
once for each symbol in 200 ms.  Each of its calls is awaited and may fail, which ends the tick; the
market-data engine has one tick under way at a time.  Instants are microseconds.
-/
namespace FxVol.TickPublisher

open GuardedRuns

/-- What `_fetch_latest_tick` gives, under the symbol of the engine -/
structure Tick where
  symbol : String
  bid : Option ℚ
  ask : Option ℚ
  mid : Option ℚ
  deriving DecidableEq

/-- The keys `latest_spot`, `latest_bid` and `latest_ask` of a symbol, in the order of their writes -/
inductive Key | latestSpot | latestBid | latestAsk
  deriving DecidableEq

def Tick.quote (t : Tick) : Key → Option ℚ
  | .latestSpot => t.mid
  | .latestBid => t.bid
  | .latestAsk => t.ask

/-- `TICK_PUBLISH_THROTTLE_MS` -/
def tickPublishThrottle : ℤ := 200 * 1000

/-- `TTL_SPOT` and `TTL_BID_ASK` -/
def ttl : Key → ℤ
  | .latestSpot => 30 * 1000000
  | .latestBid | .latestAsk => 30 * 1000000

/-- A cache entry; `number` tells which tick wrote it. -/
structure Cached where
  value : Option ℚ
  expiresAt : ℤ
  number : ℕ
  deriving DecidableEq

/-- The Redis call a tick awaits; a publication carries the instant the throttle let it through. -/
inductive Call
  | set (key : Key)
  | publish (stampedAt : ℤ)
  deriving DecidableEq

/-- A tick under way, with its place among the ticks polled so far -/
structure Task where
  tick : Tick
  number : ℕ
  timestamp : ℤ
  call : Call
  deriving DecidableEq

structure Emission where
  tick : Tick
  number : ℕ
  timestamp : ℤ
  stampedAt : ℤ
  deriving DecidableEq

/-- `lastPublish` is `_tick_last_publish_ms`, on the monotonic clock.  The last four fields record
what happened: the ticks polled, the publications let through with their instants, those that were
answered, and the ticks the throttle swallowed. -/
structure World where
  clock : ℤ
  lastPublish : String → Option ℤ
  cache : Key → String → Option Cached
  task : Option Task
  ticks : List Tick
  attempts : List (String × ℤ)
  emitted : List Emission
  swallowed : List (Task × ℤ)

def World.start : World := ⟨0, fun _ => none, fun _ _ => none, none, [], [], [], []⟩

/-- `redis.get`: an entry past its time is gone. -/
def World.read (w : World) (key : Key) (symbol : String) : Option Cached :=
  (w.cache key symbol).filter fun c => w.clock < c.expiresAt

def World.store (w : World) (key : Key) (f : Task) : World :=
  { w with cache := Function.update w.cache key (Function.update (w.cache key) f.tick.symbol
      (some ⟨f.tick.quote key, w.clock + ttl key, f.number⟩)) }

/-- The throttle, once the three quotes are written -/
def World.throttle (w : World) (f : Task) : World :=
  if w.clock - (w.lastPublish f.tick.symbol).getD 0 < tickPublishThrottle then
    { w with task := none, swallowed := w.swallowed ++ [(f, w.clock)] }
  else
    { w with
      lastPublish := Function.update w.lastPublish f.tick.symbol (some w.clock)
      task := some { f with call := .publish w.clock }
      attempts := w.attempts ++ [(f.tick.symbol, w.clock)] }

/-- The awaited call succeeds. -/
def World.answer (w : World) (f : Task) : World :=
  match f.call with
  | .set .latestSpot => { w.store .latestSpot f with task := some { f with call := .set .latestBid } }
  | .set .latestBid => { w.store .latestBid f with task := some { f with call := .set .latestAsk } }
  | .set .latestAsk => (w.store .latestAsk f).throttle f
  | .publish stampedAt =>
    { w with
      task := none
      emitted := w.emitted ++ [⟨f.tick, f.number, f.timestamp, stampedAt⟩] }

/-- `wall` is the wall clock when the tick is stamped; a call that fails raises out of
`publish_tick`, and `_poll_once` swallows the exception. -/
inductive Event
  | poll (tick : Option Tick) (wall : ℤ)
  | answer
  | fail
  | wait (d : ℕ)

/-- `_poll_once`; the loop does not poll while a tick is under way. -/
def World.poll (w : World) (tick : Option Tick) (wall : ℤ) : World :=
  match w.task, tick with
  | none, some t =>
    { w with task := some ⟨t, w.ticks.length, wall, .set .latestSpot⟩, ticks := w.ticks ++ [t] }
  | _, _ => w

def step (w : World) : Event → World
  | .poll tick wall => w.poll tick wall
  | .answer => w.task.elim w w.answer
  | .fail => { w with task := none }
  | .wait d => { w with clock := w.clock + d }

def run (es : List Event) : World := es.foldl step World.start

@[simp] theorem store_clock (w : World) (key : Key) (f : Task) : (w.store key f).clock = w.clock := rfl
@[simp] theorem store_lastPublish (w : World) (key : Key) (f : Task) :
    (w.store key f).lastPublish = w.lastPublish := rfl
@[simp] theorem store_task (w : World) (key : Key) (f : Task) : (w.store key f).task = w.task := rfl
@[simp] theorem store_ticks (w : World) (key : Key) (f : Task) : (w.store key f).ticks = w.ticks := rfl
@[simp] theorem store_attempts (w : World) (key : Key) (f : Task) :
    (w.store key f).attempts = w.attempts := rfl
@[simp] theorem store_emitted (w : World) (key : Key) (f : Task) :
    (w.store key f).emitted = w.emitted := rfl
@[simp] theorem store_swallowed (w : World) (key : Key) (f : Task) :
    (w.store key f).swallowed = w.swallowed := rfl

theorem store_cache (w : World) (key key' : Key) (f : Task) (symbol : String) :
    (w.store key f).cache key' symbol =
      if key' = key ∧ symbol = f.tick.symbol then some ⟨f.tick.quote key, w.clock + ttl key, f.number⟩
      else w.cache key' symbol := by
  by_cases hkey : key' = key
  · subst hkey
    by_cases hsymbol : symbol = f.tick.symbol
    · subst hsymbol
      simp [World.store]
    · simp [World.store, hsymbol]
  · simp [World.store, hkey]

/-- The instants at which the throttle let ticks through lie apart, and an answer comes before the next of them. -/
structure Spaced (w : World) : Prop where
  emitted : w.emitted.Pairwise fun a b =>
    a.tick.symbol = b.tick.symbol → a.stampedAt + tickPublishThrottle ≤ b.stampedAt
  last : ∀ e ∈ w.emitted, ∃ t, w.lastPublish e.tick.symbol = some t ∧ e.stampedAt ≤ t
  pending : ∀ f t, w.task = some f → f.call = .publish t → w.lastPublish f.tick.symbol = some t ∧
    ∀ e ∈ w.emitted, e.tick.symbol = f.tick.symbol → e.stampedAt + tickPublishThrottle ≤ t
  attempted : ∀ symbol t, w.lastPublish symbol = some t → (symbol, t) ∈ w.attempts ∧ t ≤ w.clock
  swallowed : ∀ f t, (f, t) ∈ w.swallowed → t < tickPublishThrottle ∨
    ∃ a, (f.tick.symbol, a) ∈ w.attempts ∧ a ≤ t ∧ t < a + tickPublishThrottle

theorem Spaced.start : Spaced World.start where
  emitted := List.Pairwise.nil
  last := by simp [World.start]
  pending := by simp [World.start]
  attempted := by simp [World.start]
  swallowed := by simp [World.start]

theorem Spaced.idle {w : World} (h : Spaced w) : Spaced { w with task := none } :=
  { h with pending := by simp }

theorem Spaced.setTask {w : World} (h : Spaced w) {f : Task} {key : Key} (hcall : f.call = .set key) :
    Spaced { w with task := some f } := by
  refine { h with pending := ?_ }
  intro g t hg ht
  obtain rfl := Option.some.inj hg
  rw [hcall] at ht
  cases ht

theorem Spaced.store {w : World} (h : Spaced w) (key : Key) (f : Task) : Spaced (w.store key f) :=
  ⟨h.emitted, h.last, h.pending, h.attempted, h.swallowed⟩

theorem Spaced.wait {w : World} (h : Spaced w) (d : ℕ) : Spaced { w with clock := w.clock + d } := by
  refine { h with attempted := ?_ }
  intro symbol t ht
  obtain ⟨hmem, hle⟩ := h.attempted symbol t ht
  exact ⟨hmem, by simp only; omega⟩

theorem Spaced.throttle {w : World} (h : Spaced w) (f : Task) : Spaced (w.throttle f) := by
  unfold World.throttle
  split
  · next hlt =>
    refine { h.idle with swallowed := ?_ }
    intro g t hg
    rcases List.mem_append.mp hg with hg | hg
    · exact h.swallowed g t hg
    · obtain ⟨rfl, rfl⟩ := Prod.mk.injEq .. ▸ List.mem_singleton.mp hg
      cases hlast : w.lastPublish g.tick.symbol with
      | none =>
        left
        simpa [hlast] using hlt
      | some a =>
        right
        obtain ⟨hmem, hle⟩ := h.attempted _ _ hlast
        refine ⟨a, hmem, hle, ?_⟩
        simp only [hlast, Option.getD_some] at hlt
        omega
  · next hge =>
    -- what was emitted before under this symbol is stamped no later than the last stamp
    have hlate : ∀ e ∈ w.emitted, e.tick.symbol = f.tick.symbol →
        e.stampedAt + tickPublishThrottle ≤ w.clock := by
      intro e he hsymbol
      obtain ⟨t, ht, hle⟩ := h.last e he
      rw [hsymbol] at ht
      simp only [ht, Option.getD_some] at hge
      omega
    refine ⟨h.emitted, ?_, ?_, ?_, ?_⟩
    · intro e he
      by_cases hsymbol : e.tick.symbol = f.tick.symbol
      · refine ⟨w.clock, by simp [hsymbol], ?_⟩
        have hgap := hlate e he hsymbol
        simp only [tickPublishThrottle] at hgap
        omega
      · simpa [Function.update_of_ne hsymbol] using h.last e he
    · intro g t hg ht
      obtain rfl := Option.some.inj hg
      obtain rfl := Call.publish.inj ht
      exact ⟨by simp, hlate⟩
    · intro symbol t ht
      by_cases hsymbol : symbol = f.tick.symbol
      · subst hsymbol
        simp only [Function.update_self, Option.some.injEq] at ht
        subst ht
        exact ⟨by simp, le_refl w.clock⟩
      · simp only [Function.update_of_ne hsymbol] at ht
        obtain ⟨hmem, hle⟩ := h.attempted symbol t ht
        exact ⟨List.mem_append_left _ hmem, hle⟩
    · intro g t hg
      rcases h.swallowed g t hg with hearly | ⟨a, ha, hat⟩
      · exact .inl hearly
      · exact .inr ⟨a, List.mem_append_left _ ha, hat⟩

theorem Spaced.emit {w : World} (h : Spaced w) {f : Task} {t : ℤ} (hf : w.task = some f)
    (hcall : f.call = .publish t) :
    Spaced { w with task := none, emitted := w.emitted ++ [⟨f.tick, f.number, f.timestamp, t⟩] } := by
  obtain ⟨hlast, hgap⟩ := h.pending f t hf hcall
  refine ⟨?_, ?_, by simp, h.attempted, h.swallowed⟩
  · refine List.pairwise_append.mpr ⟨h.emitted, List.pairwise_singleton _ _, ?_⟩
    intro a ha b hb
    obtain rfl := List.mem_singleton.mp hb
    exact hgap a ha
  · intro e he
    rcases List.mem_append.mp he with he | he
    · exact h.last e he
    · obtain rfl := List.mem_singleton.mp he
      exact ⟨t, hlast, le_refl t⟩

theorem Spaced.answer {w : World} (h : Spaced w) {f : Task} (hf : w.task = some f) : Spaced (w.answer f) := by
  cases hcall : f.call with
  | set key =>
    cases key <;> simp only [World.answer, hcall]
    · exact (h.store _ f).setTask rfl
    · exact (h.store _ f).setTask rfl
    · exact (h.store _ f).throttle f
  | publish t =>
    simp only [World.answer, hcall]
    exact h.emit hf hcall

theorem Spaced.step {w : World} (h : Spaced w) (e : Event) : Spaced (step w e) := by
  cases e with
  | poll tick wall =>
    simp only [TickPublisher.step, World.poll]
    split
    · next t _ =>
      have hset := h.setTask (show (⟨t, w.ticks.length, wall, .set .latestSpot⟩ : Task).call = .set .latestSpot from rfl)
      exact ⟨hset.emitted, hset.last, hset.pending, hset.attempted, hset.swallowed⟩
    · exact h
  | answer =>
    cases hf : w.task with
    | none => simpa [TickPublisher.step, hf] using h
    | some f => simpa [TickPublisher.step, hf] using h.answer hf
  | fail => exact h.idle
  | wait d => exact h.wait d

theorem Spaced.run (es : List Event) : Spaced (run es) :=
  (Run.of_events es).invariant (fun _ e h _ => h.step e) Spaced.start

/-- Numbers that lie `g` apart fill an interval no more often than it has room. -/
theorem length_spaced {g lo hi : ℤ} {l : List ℤ} (hl : l.Pairwise fun a b => a + g ≤ b)
    (hin : ∀ a ∈ l, lo ≤ a ∧ a ≤ hi) (hroom : lo ≤ hi + g) : (l.length : ℤ) * g ≤ hi - lo + g := by
  induction l generalizing lo with
  | nil =>
    simp only [List.length_nil, Nat.cast_zero, zero_mul]
    omega
  | cons a l ih =>
    obtain ⟨hafter, hl⟩ := List.pairwise_cons.mp hl
    obtain ⟨hlo, hhi⟩ := hin a List.mem_cons_self
    have htail : (l.length : ℤ) * g ≤ hi - (a + g) + g :=
      ih hl (fun b hb => ⟨hafter b hb, (hin b (List.mem_cons_of_mem _ hb)).2⟩) (by omega)
    rw [List.length_cons]
    push_cast
    linarith

/-- The publications of a symbol let through between two instants -/
def World.emittedIn (w : World) (symbol : String) (lo hi : ℤ) : List Emission :=
  w.emitted.filter fun e => e.tick.symbol = symbol ∧ lo ≤ e.stampedAt ∧ e.stampedAt ≤ hi

/-- Over any run, a symbol is published no more often than the throttle has room for; a tick is swallowed only in the first
200 ms of the clock, or less than 200 ms after another publication of its symbol was let through. -/
theorem ticks_throttled (es : List Event) :
    (∀ symbol lo hi, lo ≤ hi →
      (((run es).emittedIn symbol lo hi).length : ℤ) * tickPublishThrottle ≤ hi - lo + tickPublishThrottle) ∧
    ∀ f t, (f, t) ∈ (run es).swallowed → t < tickPublishThrottle ∨
      ∃ a, (f.tick.symbol, a) ∈ (run es).attempts ∧ a ≤ t ∧ t < a + tickPublishThrottle := by
  refine ⟨?_, (Spaced.run es).swallowed⟩
  intro symbol lo hi hle
  have hspaced : (((run es).emittedIn symbol lo hi).map (·.stampedAt)).Pairwise
      fun a b => a + tickPublishThrottle ≤ b := by
    refine List.pairwise_map.mpr (((Spaced.run es).emitted.filter _).imp_of_mem ?_)
    intro a b ha hb hgap
    simp only [List.mem_filter, decide_eq_true_eq] at ha hb
    exact hgap (ha.2.1.trans hb.2.1.symm)
  have hin : ∀ a ∈ ((run es).emittedIn symbol lo hi).map (·.stampedAt), lo ≤ a ∧ a ≤ hi := by
    simp only [World.emittedIn, List.mem_map, List.mem_filter, decide_eq_true_eq]
    rintro a ⟨e, ⟨-, -, hbounds⟩, rfl⟩
    exact hbounds
  have hroom : lo ≤ hi + tickPublishThrottle := by
    simp only [tickPublishThrottle]
    omega
  simpa using length_spaced hspaced hin hroom

/-- Tick `number`, or a later one, wrote the key last. -/
def World.HasWritten (w : World) (key : Key) (symbol : String) (number : ℕ) : Prop :=
  ∃ c, w.cache key symbol = some c ∧ number ≤ c.number

def Call.before : Call → List Key
  | .set .latestSpot => []
  | .set .latestBid => [.latestSpot]
  | .set .latestAsk => [.latestSpot, .latestBid]
  | .publish _ => [.latestSpot, .latestBid, .latestAsk]

/-- The cached quotes are those of polled ticks, and a tick that was published or swallowed has written its three. -/
structure Fresh (w : World) : Prop where
  task : ∀ f, w.task = some f → w.ticks[f.number]? = some f.tick ∧ f.number + 1 = w.ticks.length ∧
    ∀ key ∈ f.call.before, w.HasWritten key f.tick.symbol f.number
  cached : ∀ key symbol c, w.cache key symbol = some c →
    ∃ t, w.ticks[c.number]? = some t ∧ t.symbol = symbol ∧ c.value = t.quote key
  emitted : ∀ e ∈ w.emitted, w.ticks[e.number]? = some e.tick ∧
    ∀ key, w.HasWritten key e.tick.symbol e.number
  swallowed : ∀ f t, (f, t) ∈ w.swallowed → w.ticks[f.number]? = some f.tick ∧
    ∀ key, w.HasWritten key f.tick.symbol f.number

theorem Fresh.start : Fresh World.start where
  task := by simp [World.start]
  cached := by simp [World.start]
  emitted := by simp [World.start]
  swallowed := by simp [World.start]

theorem Fresh.idle {w : World} (h : Fresh w) : Fresh { w with task := none } :=
  { h with task := by simp }

theorem Fresh.wait {w : World} (h : Fresh w) (d : ℕ) : Fresh { w with clock := w.clock + d } :=
  ⟨h.task, h.cached, h.emitted, h.swallowed⟩

/-- A polled tick stays where it is when more are polled. -/
theorem getElem?_append_some {α : Type*} {l : List α} {n : ℕ} {a : α} (h : l[n]? = some a) (b : α) :
    (l ++ [b])[n]? = some a := by
  obtain ⟨hn, -⟩ := List.getElem?_eq_some_iff.mp h
  rw [List.getElem?_append_left hn, h]

theorem Fresh.begin {w : World} (h : Fresh w) (t : Tick) (wall : ℤ) :
    Fresh { w with task := some ⟨t, w.ticks.length, wall, .set .latestSpot⟩, ticks := w.ticks ++ [t] } where
  task := by
    intro f hf
    obtain rfl := Option.some.inj hf
    simp [Call.before]
  cached := by
    intro key symbol c hc
    obtain ⟨t', ht', hsymbol, hvalue⟩ := h.cached key symbol c hc
    exact ⟨t', getElem?_append_some ht' t, hsymbol, hvalue⟩
  emitted := by
    intro e he
    obtain ⟨htick, hwritten⟩ := h.emitted e he
    exact ⟨getElem?_append_some htick t, hwritten⟩
  swallowed := by
    intro f s hf
    obtain ⟨htick, hwritten⟩ := h.swallowed f s hf
    exact ⟨getElem?_append_some htick t, hwritten⟩

theorem World.HasWritten.store {w : World} {key : Key} {symbol : String} {n : ℕ}
    (h : w.HasWritten key symbol n) (key' : Key) {f : Task} (hn : n ≤ f.number) :
    (w.store key' f).HasWritten key symbol n := by
  obtain ⟨c, hc, hle⟩ := h
  unfold World.HasWritten
  rw [store_cache]
  split
  · exact ⟨_, rfl, hn⟩
  · exact ⟨c, hc, hle⟩

theorem hasWritten_store (w : World) (key : Key) (f : Task) :
    (w.store key f).HasWritten key f.tick.symbol f.number := by
  unfold World.HasWritten
  rw [store_cache, if_pos ⟨rfl, rfl⟩]
  exact ⟨_, rfl, le_rfl⟩

/-- No polled tick is later than the one under way. -/
theorem Fresh.le_number {w : World} (h : Fresh w) {f : Task} (hf : w.task = some f) {n : ℕ} {t : Tick}
    (hn : w.ticks[n]? = some t) : n ≤ f.number := by
  obtain ⟨hlt, -⟩ := List.getElem?_eq_some_iff.mp hn
  have hlast := (h.task f hf).2.1
  omega

/-- Storing a key keeps what was written, and adds the key to what the tick under way has written. -/
theorem Fresh.store {w : World} (h : Fresh w) {f : Task} (hf : w.task = some f) (key : Key) {call : Call}
    (hcall : ∀ k ∈ call.before, k ∈ f.call.before ∨ k = key) :
    Fresh { w.store key f with task := some { f with call := call } } where
  task := by
    intro g hg
    obtain rfl := Option.some.inj hg
    obtain ⟨htick, hlast, hwritten⟩ := h.task f hf
    refine ⟨htick, hlast, ?_⟩
    intro k hk
    rcases hcall k hk with hbefore | rfl
    · exact (hwritten k hbefore).store key le_rfl
    · exact hasWritten_store w k f
  cached := by
    intro key' symbol c hc
    have hread : (w.store key f).cache key' symbol = some c := hc
    rw [store_cache] at hread
    split at hread
    · next hboth =>
      obtain ⟨rfl, rfl⟩ := hboth
      obtain rfl := Option.some.inj hread
      exact ⟨f.tick, (h.task f hf).1, rfl, rfl⟩
    · exact h.cached key' symbol c hread
  emitted := by
    intro e he
    obtain ⟨htick, hwritten⟩ := h.emitted e he
    exact ⟨htick, fun k => (hwritten k).store key (h.le_number hf htick)⟩
  swallowed := by
    intro g t hg
    obtain ⟨htick, hwritten⟩ := h.swallowed g t hg
    exact ⟨htick, fun k => (hwritten k).store key (h.le_number hf htick)⟩

/-- The throttle sees the tick with its three quotes written. -/
theorem Fresh.throttle {w : World} {f : Task} (h : Fresh { w with task := some { f with call := .publish w.clock } }) :
    Fresh (w.throttle f) := by
  unfold World.throttle
  obtain ⟨htick, -, hwritten⟩ := h.task _ rfl
  have hall : ∀ key, w.HasWritten key f.tick.symbol f.number := fun key =>
    hwritten key (by cases key <;> simp [Call.before])
  split
  · refine ⟨by simp, h.cached, h.emitted, ?_⟩
    intro g t hg
    rcases List.mem_append.mp hg with hg | hg
    · exact h.swallowed g t hg
    · obtain ⟨rfl, -⟩ := Prod.mk.injEq .. ▸ List.mem_singleton.mp hg
      exact ⟨htick, hall⟩
  · exact ⟨h.task, h.cached, h.emitted, h.swallowed⟩

theorem Fresh.answer {w : World} (h : Fresh w) {f : Task} (hf : w.task = some f) : Fresh (w.answer f) := by
  cases hcall : f.call with
  | set key =>
    cases key <;> simp only [World.answer, hcall]
    · exact h.store hf _ (by simp [Call.before])
    · exact h.store hf _ (by simp [Call.before, hcall])
    · refine Fresh.throttle (h.store hf _ ?_)
      simp [Call.before, hcall]
  | publish t =>
    simp only [World.answer, hcall]
    obtain ⟨htick, -, hwritten⟩ := h.task f hf
    refine ⟨by simp, h.cached, ?_, h.swallowed⟩
    intro e he
    rcases List.mem_append.mp he with he | he
    · exact h.emitted e he
    · obtain rfl := List.mem_singleton.mp he
      exact ⟨htick, fun key => hwritten key (by rw [hcall]; cases key <;> simp [Call.before])⟩

theorem Fresh.step {w : World} (h : Fresh w) (e : Event) : Fresh (step w e) := by
  cases e with
  | poll tick wall =>
    simp only [TickPublisher.step, World.poll]
    split
    · exact h.begin _ wall
    · exact h
  | answer =>
    cases hf : w.task with
    | none => simpa [TickPublisher.step, hf] using h
    | some f => simpa [TickPublisher.step, hf] using h.answer hf
  | fail => exact h.idle
  | wait d => exact h.wait d

theorem Fresh.run (es : List Event) : Fresh (run es) :=
  (Run.of_events es).invariant (fun _ e h _ => h.step e) Fresh.start

theorem Fresh.read {w : World} (h : Fresh w) {key : Key} {symbol : String} {n : ℕ} {c : Cached}
    (hwritten : w.HasWritten key symbol n) (hc : w.read key symbol = some c) :
    n ≤ c.number ∧ ∃ t, w.ticks[c.number]? = some t ∧ t.symbol = symbol ∧ c.value = t.quote key := by
  obtain ⟨hcached, -⟩ := Option.filter_eq_some_iff.mp hc
  obtain ⟨c', hc', hle⟩ := hwritten
  obtain rfl : c' = c := Option.some.inj (hc'.symm.trans hcached)
  exact ⟨hle, h.cached key symbol c' hcached⟩

/-- Over any run, whoever reads a quote after a tick of its symbol was published, or was swallowed by the throttle, finds
the quote of that tick or of a later one, or none once it has expired. -/
theorem cache_not_behind (es : List Event) (key : Key) (c : Cached) :
    (∀ e ∈ (run es).emitted, (run es).read key e.tick.symbol = some c → e.number ≤ c.number ∧
      ∃ t, (run es).ticks[c.number]? = some t ∧ t.symbol = e.tick.symbol ∧ c.value = t.quote key) ∧
    ∀ f s, (f, s) ∈ (run es).swallowed → (run es).read key f.tick.symbol = some c → f.number ≤ c.number ∧
      ∃ t, (run es).ticks[c.number]? = some t ∧ t.symbol = f.tick.symbol ∧ c.value = t.quote key := by
  refine ⟨?_, ?_⟩
  · intro e he hc
    exact (Fresh.run es).read (((Fresh.run es).emitted e he).2 key) hc
  · intro f s hf hc
    exact (Fresh.run es).read (((Fresh.run es).swallowed f s hf).2 key) hc

end FxVol.TickPublisher
