import FxVol.GuardedRuns
import Mathlib.Data.Finset.Basic
import Mathlib.Data.List.Infix

/-!
# The live fan-out

Engines publish on Redis channels.  The bridge of the API subscribes to them and passes each message to
the sockets that the connection manager holds for its channel; clients come and go meanwhile, and each
task runs while another awaits.  A client sees the messages of its channel in order and without a gap
for as long as its socket and the connection of the bridge last.
-/
namespace FxVol.LiveFanOut

open GuardedRuns

variable {D : Type*}

inductive Channel
  | ticks | account | volUpdate | riskUpdate | systemAlerts | configChanged | orders (structureId : ℤ)
  | positions | exitAlerts | spotOrders | dbEvents
  deriving DecidableEq

def forwarded : List Channel :=
  [.ticks, .account, .volUpdate, .riskUpdate, .systemAlerts, .positions, .exitAlerts, .spotOrders]

/-- `_FORWARDED_PATTERNS`, the pattern `orders:*` -/
def Channel.isOrders : Channel → Bool
  | .orders _ => true
  | _ => false

structure Message (D : Type*) where
  channel : Channel
  data : D
  deriving DecidableEq

/-- What `pubsub.listen` yields; the bridge skips what is no message. -/
inductive Frame (D : Type*)
  | confirmation
  | message (m : Message D)
  | pmessage (m : Message D)

def Frame.payload : Frame D → Option (Message D)
  | .confirmation => none
  | .message m | .pmessage m => some m

/-- The connection of the bridge, with the frames it has not read yet -/
structure PubSub (D : Type*) where
  patterned : Bool
  unread : List (Frame D)

/-- Redis sends a message once for the name of its channel, and once for a pattern that it matches. -/
def PubSub.copies (p : PubSub D) (m : Message D) : List (Frame D) :=
  (if m.channel ∈ forwarded then [.message m] else []) ++
    (if p.patterned ∧ m.channel.isOrders then [.pmessage m] else [])

def PubSub.Covers (p : PubSub D) (c : Channel) : Prop :=
  c ∈ forwarded ∨ (p.patterned = true ∧ c.isOrders = true)

instance (p : PubSub D) (c : Channel) : Decidable (p.Covers c) := inferInstanceAs (Decidable (_ ∨ _))

/-- A handler accepts its socket, registers it, and removes it when the client has left. -/
inductive Phase | accepted | serving | left
  deriving DecidableEq

/-- `connected` is that the `application_state` is `CONNECTED`. -/
structure Socket (D : Type*) where
  channel : Channel
  phase : Phase
  connected : Bool
  received : List (Message D)

/-- A broadcast under way: the sockets of its snapshot that have not had their turn, and the dead ones -/
structure Broadcast (D : Type*) where
  message : Message D
  remaining : Finset ℕ
  dead : Finset ℕ

/-- `conns` is the registry of the connection manager.  `published` and `taken` record the messages
published to Redis and those the bridge has begun to broadcast. -/
structure World (D : Type*) where
  published : List (Message D)
  pubsub : Option (PubSub D)
  taken : List (Message D)
  sending : Option (Broadcast D)
  conns : Channel → Finset ℕ
  sockets : List (Socket D)

def World.start : World D := ⟨[], none, [], none, fun _ => ∅, []⟩

inductive Event (D : Type*)
  | publish (m : Message D)
  | subscribe
  | psubscribe
  | listen
  | send (k : ℕ) (ok : Bool)
  | finish
  | lose
  | accept (c : Channel)
  | connect (k : ℕ)
  | close (k : ℕ)
  | disconnect (k : ℕ)

def Event.published : Event D → List (Message D)
  | .publish m => [m]
  | _ => []

def World.publish (w : World D) (m : Message D) : World D :=
  { w with
    published := w.published ++ [m]
    pubsub := w.pubsub.map fun p => { p with unread := p.unread ++ p.copies m } }

/-- The next frame of `pubsub.listen`; `broadcast` takes the sockets that are registered now. -/
def World.listen (w : World D) : World D :=
  match w.sending, w.pubsub with
  | none, some ⟨patterned, frame :: unread⟩ =>
    match frame.payload with
    | none => { w with pubsub := some ⟨patterned, unread⟩ }
    | some m =>
      { w with
        pubsub := some ⟨patterned, unread⟩
        taken := w.taken ++ [m]
        sending := some ⟨m, w.conns m.channel, ∅⟩ }
  | _, _ => w

def Socket.receive (s : Socket D) (m : Message D) : Socket D := { s with received := s.received ++ [m] }

/-- The turn of socket `k`, in whatever order the set is walked: one that is not connected, or whose
`send_text` raises, counts as dead. -/
def World.send (w : World D) (k : ℕ) (ok : Bool) : World D :=
  match w.sending with
  | none => w
  | some b =>
    if k ∈ b.remaining then
      if ok ∧ (w.sockets[k]?).any (·.connected) then
        { w with
          sockets := w.sockets.modify k (·.receive b.message)
          sending := some { b with remaining := b.remaining.erase k } }
      else { w with sending := some { b with remaining := b.remaining.erase k, dead := insert k b.dead } }
    else w

/-- The end of `broadcast`: the dead sockets leave the registry. -/
def World.finish (w : World D) : World D :=
  match w.sending with
  | none => w
  | some b =>
    if b.remaining = ∅ then
      { w with
        sending := none
        conns := Function.update w.conns b.message.channel (w.conns b.message.channel \ b.dead) }
    else w

/-- The connection of the bridge fails between two broadcasts, and what it has not read is gone. -/
def World.lose (w : World D) : World D :=
  match w.sending with
  | none => { w with pubsub := none }
  | some _ => w

def World.connect (w : World D) (k : ℕ) : World D :=
  match w.sockets[k]? with
  | some ⟨c, .accepted, _, _⟩ =>
    { w with
      conns := Function.update w.conns c (insert k (w.conns c))
      sockets := w.sockets.modify k ({ · with phase := .serving }) }
  | _ => w

def World.disconnect (w : World D) (k : ℕ) : World D :=
  match w.sockets[k]? with
  | some ⟨c, .serving, _, _⟩ =>
    { w with
      conns := Function.update w.conns c ((w.conns c).erase k)
      sockets := w.sockets.modify k ({ · with phase := .left }) }
  | _ => w

def step (w : World D) : Event D → World D
  | .publish m => w.publish m
  | .subscribe =>
    match w.sending, w.pubsub with
    | none, none => { w with pubsub := some ⟨false, forwarded.map fun _ => .confirmation⟩ }
    | _, _ => w
  | .psubscribe =>
    { w with pubsub := w.pubsub.map fun p =>
        if p.patterned then p else ⟨true, p.unread ++ [.confirmation]⟩ }
  | .listen => w.listen
  | .send k ok => w.send k ok
  | .finish => w.finish
  | .lose => w.lose
  | .accept c => { w with sockets := w.sockets ++ [⟨c, .accepted, true, []⟩] }
  | .connect k => w.connect k
  | .close k => { w with sockets := w.sockets.modify k ({ · with connected := false }) }
  | .disconnect k => w.disconnect k

def run (es : List (Event D)) : World D := es.foldl step World.start

def on (c : Channel) (l : List (Message D)) : List (Message D) := l.filter fun m => m.channel = c

@[simp] theorem on_nil (c : Channel) : on c ([] : List (Message D)) = [] := rfl

@[simp] theorem on_append (c : Channel) (l l' : List (Message D)) : on c (l ++ l') = on c l ++ on c l' :=
  List.filter_append ..

theorem on_self (m : Message D) : on m.channel [m] = [m] := by simp [on]

theorem on_other {c : Channel} {m : Message D} (h : m.channel ≠ c) : on c [m] = [] := by simp [on, h]

/-- The messages among the frames that the bridge has not read -/
def PubSub.messages (p : PubSub D) : List (Message D) := p.unread.filterMap Frame.payload

def World.unread (w : World D) : List (Message D) := w.pubsub.elim [] PubSub.messages

theorem not_forwarded_of_isOrders {c : Channel} (h : c.isOrders = true) : c ∉ forwarded := by
  cases c <;> simp_all [Channel.isOrders, forwarded]

/-- No channel is covered twice, so a message comes at most once. -/
theorem copies_payload (p : PubSub D) (m : Message D) :
    (p.copies m).filterMap Frame.payload = if p.Covers m.channel then [m] else [] := by
  by_cases hname : m.channel ∈ forwarded
  · have hpattern : ¬ m.channel.isOrders = true := fun h => not_forwarded_of_isOrders h hname
    simp [PubSub.copies, PubSub.Covers, hname, hpattern, Frame.payload]
  · by_cases hpattern : p.patterned = true ∧ m.channel.isOrders = true
    · simp [PubSub.copies, PubSub.Covers, hname, hpattern.1, hpattern.2, Frame.payload]
    · simp [PubSub.copies, PubSub.Covers, hname, hpattern]

theorem publish_unread {w : World D} {p : PubSub D} (hp : w.pubsub = some p) (m : Message D) :
    (w.publish m).unread = w.unread ++ if p.Covers m.channel then [m] else [] := by
  simp [World.publish, World.unread, hp, PubSub.messages, copies_payload]

@[simp] theorem confirmations_payload (n : ℕ) :
    (List.replicate n (Frame.confirmation : Frame D)).filterMap Frame.payload = [] :=
  List.filterMap_eq_nil_iff.mpr fun f hf => by rw [List.eq_of_mem_replicate hf, Frame.payload]

/-- A listening step skips a frame, or begins the broadcast of a message. -/
theorem listen_cases (w : World D) : w.listen = w ∨ ∃ patterned frame unread, w.sending = none ∧
    w.pubsub = some ⟨patterned, frame :: unread⟩ ∧
    ((frame.payload = none ∧ w.listen = { w with pubsub := some ⟨patterned, unread⟩ }) ∨
      ∃ m, frame.payload = some m ∧ w.listen = { w with
        pubsub := some ⟨patterned, unread⟩
        taken := w.taken ++ [m]
        sending := some ⟨m, w.conns m.channel, ∅⟩ }) := by
  unfold World.listen
  split
  · next patterned frame unread hsending hpubsub =>
    refine .inr ⟨patterned, frame, unread, hsending, hpubsub, ?_⟩
    cases hframe : frame.payload with
    | none => exact .inl ⟨rfl, rfl⟩
    | some m => exact .inr ⟨m, rfl, rfl⟩
  · exact .inl rfl

theorem send_cases (w : World D) (k : ℕ) (ok : Bool) : w.send k ok = w ∨
    ∃ b, w.sending = some b ∧ k ∈ b.remaining ∧
      ((ok = true ∧ (w.sockets[k]?).any (·.connected) = true ∧ w.send k ok = { w with
        sockets := w.sockets.modify k (·.receive b.message)
        sending := some { b with remaining := b.remaining.erase k } }) ∨
      (¬ (ok = true ∧ (w.sockets[k]?).any (·.connected) = true) ∧ w.send k ok = { w with
        sending := some { b with remaining := b.remaining.erase k, dead := insert k b.dead } })) := by
  unfold World.send
  split
  · exact .inl rfl
  · next b hsending =>
    split
    · next hk =>
      refine .inr ⟨b, hsending, hk, ?_⟩
      split
      · next hok => exact .inl ⟨hok.1, hok.2, rfl⟩
      · next hok => exact .inr ⟨hok, rfl⟩
    · exact .inl rfl

/-- What the bridge took and what it has yet to read was published in that order. -/
def World.Ordered (w : World D) : Prop := (w.taken ++ w.unread).Sublist w.published

theorem World.Ordered.step {w : World D} (h : w.Ordered) (e : Event D) : (step w e).Ordered := by
  cases e with
  | publish m =>
    cases hp : w.pubsub with
    | none =>
      have hsame : (w.publish m).unread = w.unread := by simp [World.publish, World.unread, hp]
      simp only [World.Ordered, LiveFanOut.step, hsame]
      exact h.trans (List.sublist_append_left _ _)
    | some p =>
      simp only [World.Ordered, LiveFanOut.step, publish_unread hp]
      rw [← List.append_assoc]
      refine List.Sublist.append h ?_
      split
      · exact List.Sublist.refl _
      · exact List.nil_sublist _
  | subscribe =>
    simp only [LiveFanOut.step]
    split
    · next _ hp =>
      simpa [World.Ordered, World.unread, hp, PubSub.messages] using h
    · exact h
  | psubscribe =>
    cases hp : w.pubsub with
    | none => simpa [World.Ordered, LiveFanOut.step, World.unread, hp] using h
    | some p =>
      by_cases hpattern : p.patterned = true
      · simpa [World.Ordered, LiveFanOut.step, World.unread, hp, hpattern] using h
      · have hnone : [(Frame.confirmation : Frame D)].filterMap Frame.payload = [] := confirmations_payload 1
        simpa [World.Ordered, LiveFanOut.step, World.unread, hp, hpattern, PubSub.messages, hnone] using h
  | listen =>
    rcases listen_cases w with heq | ⟨patterned, frame, unread, -, hp, ⟨hframe, heq⟩ | ⟨m, hframe, heq⟩⟩
    · simpa [LiveFanOut.step, heq] using h
    · simp only [World.Ordered, World.unread, hp, Option.elim_some, PubSub.messages, List.filterMap_cons,
        hframe] at h
      simpa [World.Ordered, LiveFanOut.step, heq, World.unread, PubSub.messages] using h
    · simp only [World.Ordered, World.unread, hp, Option.elim_some, PubSub.messages, List.filterMap_cons,
        hframe] at h
      simpa [World.Ordered, LiveFanOut.step, heq, World.unread, PubSub.messages] using h
  | send k ok =>
    rcases send_cases w k ok with heq | ⟨b, -, -, ⟨-, -, heq⟩ | ⟨-, heq⟩⟩
    all_goals simpa [World.Ordered, LiveFanOut.step, heq, World.unread] using h
  | finish =>
    simp only [LiveFanOut.step, World.finish]
    split
    · exact h
    · split <;> exact h
  | lose =>
    simp only [LiveFanOut.step, World.lose]
    split
    · refine List.Sublist.trans ?_ h
      simp [World.unread]
    · exact h
  | accept c => exact h
  | connect k =>
    simp only [LiveFanOut.step, World.connect]
    split <;> exact h
  | close k => exact h
  | disconnect k =>
    simp only [LiveFanOut.step, World.disconnect]
    split <;> exact h

/-- The message of the broadcast under way, while socket `k` still has its turn to come -/
def World.current (w : World D) (k : ℕ) : List (Message D) :=
  w.sending.elim [] fun b => if k ∈ b.remaining then [b.message] else []

/-- Socket `k` is registered on the channel, and not about to be dropped. -/
def World.Attached (w : World D) (k : ℕ) (c : Channel) : Prop :=
  k ∈ w.conns c ∧ ∀ b, w.sending = some b → k ∉ b.dead

/-- Socket `k` is owed the broadcast under way. -/
def World.Pending (w : World D) (k : ℕ) : Prop := ∃ b, w.sending = some b ∧ k ∈ b.remaining

theorem current_of_not_pending {w : World D} {k : ℕ} (h : ¬ w.Pending k) : w.current k = [] := by
  unfold World.current
  cases hsending : w.sending with
  | none => rfl
  | some b =>
    have hk : k ∉ b.remaining := fun hk => h ⟨b, hsending, hk⟩
    simp [hk]

theorem attached_or_pending_of {w w' : World D} {b b' : Broadcast D} {k : ℕ} {c : Channel}
    (h : w'.Attached k c ∨ w'.Pending k) (hb : w.sending = some b) (hb' : w'.sending = some b')
    (hconns : w'.conns = w.conns) (hremaining : b'.remaining ⊆ b.remaining) (hdead : b.dead ⊆ b'.dead) :
    w.Attached k c ∨ w.Pending k := by
  rcases h with ⟨hk, halive⟩ | ⟨b₁, hb₁, hk⟩
  · refine .inl ⟨hconns ▸ hk, ?_⟩
    intro b₁ hb₁ hmem
    obtain rfl := Option.some.inj (hb₁.symm.trans hb)
    exact halive b' hb' (hdead hmem)
  · obtain rfl := Option.some.inj (hb₁.symm.trans hb')
    exact .inr ⟨b, hb, hremaining hk⟩

/-- The bookkeeping of the sockets: who is registered or owed a message is a handler's own socket, and what a socket has
received is a run of what was taken on its channel, up to the last message while the socket is attached. -/
structure Served (w : World D) : Prop where
  registered : ∀ c k, k ∈ w.conns c → ∃ s : Socket D, w.sockets[k]? = some s ∧ s.channel = c ∧ s.phase = .serving
  addressed : ∀ b, w.sending = some b → ∀ k ∈ b.remaining ∪ b.dead,
    ∃ s : Socket D, w.sockets[k]? = some s ∧ s.channel = b.message.channel ∧ s.phase ≠ .accepted
  unserved : ∀ (k : ℕ) (s : Socket D), w.sockets[k]? = some s → s.phase = .accepted → s.received = []
  contiguous : ∀ (k : ℕ) (s : Socket D), w.sockets[k]? = some s → s.received.IsInfix (on s.channel w.taken)
  upToDate : ∀ (k : ℕ) (s : Socket D), w.sockets[k]? = some s → (w.Attached k s.channel ∨ w.Pending k) →
    (s.received ++ w.current k).IsSuffix (on s.channel w.taken)

theorem Served.start : Served (World.start : World D) where
  registered := by simp [World.start]
  addressed := by simp [World.start]
  unserved := by simp [World.start]
  contiguous := by simp [World.start]
  upToDate := by simp [World.start]

/-- Steps of Redis and of the bridge between broadcasts leave the sockets alone. -/
theorem Served.congr {w w' : World D} (h : Served w) (htaken : w'.taken = w.taken)
    (hsending : w'.sending = w.sending) (hconns : w'.conns = w.conns) (hsockets : w'.sockets = w.sockets) :
    Served w' := by
  obtain ⟨_, _, _, _, _, _⟩ := w
  obtain ⟨_, _, _, _, _, _⟩ := w'
  simp only at htaken hsending hconns hsockets
  subst htaken hsending hconns hsockets
  exact ⟨h.registered, h.addressed, h.unserved, h.contiguous, h.upToDate⟩

theorem Served.take {w : World D} (h : Served w) (hnone : w.sending = none) (p : Option (PubSub D))
    (m : Message D) : Served { w with
      pubsub := p, taken := w.taken ++ [m], sending := some ⟨m, w.conns m.channel, ∅⟩ } where
  registered := h.registered
  addressed := by
    intro b hb k hk
    obtain rfl := Option.some.inj hb
    obtain ⟨s, hs, hchannel, hphase⟩ := h.registered _ k (by simpa using hk)
    exact ⟨s, hs, hchannel, by simp [hphase]⟩
  unserved := h.unserved
  contiguous := by
    intro k s hs
    rw [on_append]
    exact (h.contiguous k s hs).trans (List.prefix_append _ _).isInfix
  upToDate := by
    intro k s hs hup
    -- with no broadcast under way, a registered socket has all of its channel
    have hsuffix : k ∈ w.conns s.channel → s.received.IsSuffix (on s.channel w.taken) := by
      intro hk
      have hold := h.upToDate k s hs (.inl ⟨hk, by simp [hnone]⟩)
      simpa [World.current, hnone] using hold
    rw [on_append]
    by_cases hk : k ∈ w.conns m.channel
    · obtain ⟨s', hs', hchannel, -⟩ := h.registered _ k hk
      obtain rfl := Option.some.inj (hs'.symm.trans hs)
      obtain ⟨before, hbefore⟩ := hsuffix (hchannel ▸ hk)
      refine ⟨before, ?_⟩
      rw [← hbefore, hchannel, on_self]
      simp [World.current, hk]
    · have hattached : k ∈ w.conns s.channel := by
        rcases hup with hattached | ⟨b, hb, hmem⟩
        · exact hattached.1
        · obtain rfl := Option.some.inj hb
          exact absurd hmem hk
      have hother : m.channel ≠ s.channel := fun heq => hk (heq ▸ hattached)
      rw [on_other hother]
      simpa [World.current, hk] using hsuffix hattached

theorem Served.fail {w : World D} (h : Served w) {b : Broadcast D} (hb : w.sending = some b) {k : ℕ}
    (hk : k ∈ b.remaining) : Served { w with sending := some { b with
      remaining := b.remaining.erase k, dead := insert k b.dead } } where
  registered := h.registered
  addressed := by
    intro b' hb' j hj
    obtain rfl := Option.some.inj hb'
    refine h.addressed b hb j ?_
    simp only [Finset.mem_union, Finset.mem_erase, Finset.mem_insert] at hj ⊢
    rcases hj with hj | rfl | hj
    · exact .inl hj.2
    · exact .inl hk
    · exact .inr hj
  unserved := h.unserved
  contiguous := h.contiguous
  upToDate := by
    intro j s hs hup
    have hne : j ≠ k := by
      rintro rfl
      rcases hup with hattached | ⟨b', hb', hmem⟩
      · exact hattached.2 _ rfl (Finset.mem_insert_self j _)
      · obtain rfl := Option.some.inj hb'
        exact absurd hmem (Finset.notMem_erase j _)
    have hold := h.upToDate j s hs
      (attached_or_pending_of hup hb rfl rfl (Finset.erase_subset _ _) (Finset.subset_insert _ _))
    simpa [World.current, hb, hne] using hold

/-- A socket of a modified list is one of the list, changed only in its place. -/
theorem modify_some {α : Type*} {l : List α} {f : α → α} {k j : ℕ} {a : α}
    (h : (l.modify k f)[j]? = some a) : ∃ a', l[j]? = some a' ∧ a = if k = j then f a' else a' := by
  rw [List.getElem?_modify] at h
  cases hj : l[j]? with
  | none => simp [hj] at h
  | some a' =>
    refine ⟨a', rfl, ?_⟩
    rw [hj] at h
    exact (Option.some.inj h).symm

theorem some_modify {α : Type*} {l : List α} {f : α → α} {k j : ℕ} {a : α} (h : l[j]? = some a) :
    (l.modify k f)[j]? = some (if k = j then f a else a) := by
  rw [List.getElem?_modify, h]
  rfl

theorem Served.deliver {w : World D} (h : Served w) {b : Broadcast D} (hb : w.sending = some b) {k : ℕ}
    (hk : k ∈ b.remaining) : Served { w with
      sockets := w.sockets.modify k (·.receive b.message)
      sending := some { b with remaining := b.remaining.erase k } } := by
  have hkeep : ∀ (j : ℕ) (s : Socket D), w.sockets[j]? = some s → ∃ s' : Socket D, (w.sockets.modify k (·.receive b.message))[j]? = some s' ∧
      s'.channel = s.channel ∧ s'.phase = s.phase := by
    intro j s hs
    refine ⟨_, some_modify hs, ?_, ?_⟩ <;> split <;> rfl
  -- what socket `k` holds after its turn
  have htold : ∀ s : Socket D, w.sockets[k]? = some s → (s.received ++ [b.message]).IsSuffix (on s.channel w.taken) := by
    intro s hs
    simpa [World.current, hb, hk] using h.upToDate k s hs (.inr ⟨b, hb, hk⟩)
  refine ⟨?_, ?_, ?_, ?_, ?_⟩
  · intro c j hj
    obtain ⟨s, hs, hchannel, hphase⟩ := h.registered c j hj
    obtain ⟨s', hs', hchannel', hphase'⟩ := hkeep j s hs
    exact ⟨s', hs', hchannel'.trans hchannel, hphase'.trans hphase⟩
  · intro b' hb' j hj
    obtain rfl := Option.some.inj hb'
    obtain ⟨s, hs, hchannel, hphase⟩ := h.addressed b hb j
      (Finset.union_subset_union_left (Finset.erase_subset _ _) hj)
    obtain ⟨s', hs', hchannel', hphase'⟩ := hkeep j s hs
    exact ⟨s', hs', hchannel'.trans hchannel, hphase' ▸ hphase⟩
  · intro j s hs hphase
    obtain ⟨s₀, hs₀, rfl⟩ := modify_some hs
    by_cases hjk : k = j
    · subst hjk
      obtain ⟨s₁, hs₁, -, haccepted⟩ := h.addressed b hb k (Finset.mem_union_left _ hk)
      obtain rfl := Option.some.inj (hs₁.symm.trans hs₀)
      rw [if_pos rfl] at hphase
      exact absurd hphase haccepted
    · rw [if_neg hjk] at hphase ⊢
      exact h.unserved j s₀ hs₀ hphase
  · intro j s hs
    obtain ⟨s₀, hs₀, rfl⟩ := modify_some hs
    by_cases hjk : k = j
    · subst hjk
      rw [if_pos rfl]
      exact (htold s₀ hs₀).isInfix
    · rw [if_neg hjk]
      exact h.contiguous j s₀ hs₀
  · intro j s hs hup
    obtain ⟨s₀, hs₀, rfl⟩ := modify_some hs
    by_cases hjk : k = j
    · subst hjk
      rw [if_pos rfl]
      simpa [World.current, Socket.receive] using htold s₀ hs₀
    · rw [if_neg hjk] at hup ⊢
      have hold := h.upToDate j s₀ hs₀
        (attached_or_pending_of hup hb rfl rfl (Finset.erase_subset _ _) (Finset.Subset.refl _))
      simpa [World.current, hb, Ne.symm hjk] using hold

theorem Served.finish {w : World D} (h : Served w) {b : Broadcast D} (hb : w.sending = some b)
    (hdone : b.remaining = ∅) : Served { w with
      sending := none
      conns := Function.update w.conns b.message.channel (w.conns b.message.channel \ b.dead) } := by
  have hsub : ∀ c, Function.update w.conns b.message.channel (w.conns b.message.channel \ b.dead) c ⊆
      w.conns c := by
    intro c
    by_cases hc : c = b.message.channel
    · subst hc
      simp
    · simp [hc]
  refine ⟨fun c k hk => h.registered c k (hsub c hk), by simp, h.unserved, h.contiguous, ?_⟩
  intro k s hs hup
  have hattached : k ∈ Function.update w.conns b.message.channel (w.conns b.message.channel \ b.dead) s.channel := by
    rcases hup with hattached | ⟨b', hb', -⟩
    · exact hattached.1
    · cases hb'
  by_cases hdead : k ∈ b.dead
  · -- a dead socket is one of this channel, and has just left its set
    obtain ⟨s', hs', hchannel, -⟩ := h.addressed b hb k (Finset.mem_union_right _ hdead)
    obtain rfl := Option.some.inj (hs'.symm.trans hs)
    rw [hchannel, Function.update_self] at hattached
    exact absurd hdead (Finset.mem_sdiff.mp hattached).2
  · have hold := h.upToDate k s hs (.inl ⟨hsub _ hattached, fun b' hb' => by
      obtain rfl := Option.some.inj (hb'.symm.trans hb)
      exact hdead⟩)
    simpa [World.current, hb, hdone] using hold

theorem Served.accept {w : World D} (h : Served w) (c : Channel) :
    Served { w with sockets := w.sockets ++ [⟨c, .accepted, true, []⟩] } := by
  have hold : ∀ (k : ℕ) (s : Socket D), w.sockets[k]? = some s →
      (w.sockets ++ [⟨c, .accepted, true, []⟩])[k]? = some s := by
    intro k s hs
    obtain ⟨hlt, -⟩ := List.getElem?_eq_some_iff.mp hs
    rw [List.getElem?_append_left hlt, hs]
  have hnew : ∀ (k : ℕ) (s : Socket D), (w.sockets ++ [⟨c, .accepted, true, []⟩])[k]? = some s →
      w.sockets[k]? = some s ∨ (k = w.sockets.length ∧ s = ⟨c, .accepted, true, []⟩) := by
    intro k s hs
    rw [List.getElem?_append] at hs
    split at hs
    · exact .inl hs
    · next hge =>
      rw [List.getElem?_singleton] at hs
      split at hs
      · next hzero => exact .inr ⟨by omega, (Option.some.inj hs).symm⟩
      · cases hs
  -- nobody refers to the socket yet
  have hunknown : ¬ (w.Attached w.sockets.length c ∨ w.Pending w.sockets.length) := by
    rintro (⟨hk, -⟩ | ⟨b, hb, hk⟩)
    · obtain ⟨s, hs, -⟩ := h.registered c _ hk
      simp at hs
    · obtain ⟨s, hs, -⟩ := h.addressed b hb _ (Finset.mem_union_left _ hk)
      simp at hs
  refine ⟨?_, ?_, ?_, ?_, ?_⟩
  · intro c' k hk
    obtain ⟨s, hs, hrest⟩ := h.registered c' k hk
    exact ⟨s, hold k s hs, hrest⟩
  · intro b hb k hk
    obtain ⟨s, hs, hrest⟩ := h.addressed b hb k hk
    exact ⟨s, hold k s hs, hrest⟩
  · intro k s hs hphase
    rcases hnew k s hs with hs | ⟨-, rfl⟩
    · exact h.unserved k s hs hphase
    · rfl
  · intro k s hs
    rcases hnew k s hs with hs | ⟨-, rfl⟩
    · exact h.contiguous k s hs
    · exact List.nil_infix
  · intro k s hs hup
    rcases hnew k s hs with hs | ⟨rfl, rfl⟩
    · exact h.upToDate k s hs hup
    · exact absurd hup hunknown

/-- What a handler does to its socket and its registration: it registers only a socket that it has just accepted. -/
theorem Served.handle {w : World D} (h : Served w) {k : ℕ} {f : Socket D → Socket D} {conns : Channel → Finset ℕ}
    (hchannel : ∀ s, (f s).channel = s.channel) (hreceived : ∀ s, (f s).received = s.received)
    (hphase : ∀ s, (f s).phase = .accepted → s.phase = .accepted)
    (hregistered : ∀ c, ∀ j ∈ conns c, ∃ s : Socket D, (w.sockets.modify k f)[j]? = some s ∧
      s.channel = c ∧ s.phase = .serving)
    (hconns : ∀ c, ∀ j ∈ conns c, j ∈ w.conns c ∨ ∃ s : Socket D, w.sockets[j]? = some s ∧ s.phase = .accepted) :
    Served { w with conns := conns, sockets := w.sockets.modify k f } := by
  have hparts : ∀ (j : ℕ) (s : Socket D), (w.sockets.modify k f)[j]? = some s →
      ∃ s₀, w.sockets[j]? = some s₀ ∧ s.channel = s₀.channel ∧ s.received = s₀.received ∧
        (s.phase = .accepted → s₀.phase = .accepted) := by
    intro j s hs
    obtain ⟨s₀, hs₀, rfl⟩ := modify_some hs
    refine ⟨s₀, hs₀, ?_⟩
    split
    · exact ⟨hchannel s₀, hreceived s₀, hphase s₀⟩
    · exact ⟨rfl, rfl, id⟩
  refine ⟨hregistered, ?_, ?_, ?_, ?_⟩
  · intro b hb j hj
    obtain ⟨s, hs, hc, haccepted⟩ := h.addressed b hb j hj
    refine ⟨_, some_modify hs, ?_⟩
    split
    · exact ⟨(hchannel s).trans hc, fun hp => haccepted (hphase s hp)⟩
    · exact ⟨hc, haccepted⟩
  · intro j s hs hp
    obtain ⟨s₀, hs₀, -, hsame, hback⟩ := hparts j s hs
    rw [hsame]
    exact h.unserved j s₀ hs₀ (hback hp)
  · intro j s hs
    obtain ⟨s₀, hs₀, hc, hsame, -⟩ := hparts j s hs
    rw [hc, hsame]
    exact h.contiguous j s₀ hs₀
  · intro j s hs hup
    obtain ⟨s₀, hs₀, hc, hsame, -⟩ := hparts j s hs
    rw [hc, hsame]
    rcases hup with ⟨hj, halive⟩ | hpending
    · rcases hconns _ j hj with hj | ⟨s₁, hs₁, haccepted⟩
      · exact h.upToDate j s₀ hs₀ (.inl ⟨hc ▸ hj, halive⟩)
      · -- nothing was sent to a socket before it is registered
        obtain rfl := Option.some.inj (hs₁.symm.trans hs₀)
        have hnone : w.current j = [] := by
          refine current_of_not_pending ?_
          rintro ⟨b, hb, hmem⟩
          obtain ⟨s₂, hs₂, -, hother⟩ := h.addressed b hb j (Finset.mem_union_left _ hmem)
          obtain rfl := Option.some.inj (hs₂.symm.trans hs₁)
          exact hother haccepted
        have hcurrent : ({ w with conns := conns, sockets := w.sockets.modify k f } : World D).current j =
          w.current j := rfl
        rw [h.unserved j s₁ hs₁ haccepted, hcurrent, hnone]
        exact List.nil_suffix
    · exact h.upToDate j s₀ hs₀ (.inr hpending)

theorem Served.close {w : World D} (h : Served w) (k : ℕ) :
    Served { w with sockets := w.sockets.modify k ({ · with connected := false }) } := by
  refine h.handle (fun _ => rfl) (fun _ => rfl) (fun _ => id) ?_ (fun _ _ => .inl)
  intro c j hj
  obtain ⟨s, hs, hrest⟩ := h.registered c j hj
  refine ⟨_, some_modify hs, ?_⟩
  split <;> exact hrest

theorem Served.connect {w : World D} (h : Served w) (k : ℕ) : Served (w.connect k) := by
  unfold World.connect
  split
  · next c _ _ hk =>
    refine h.handle (fun _ => rfl) (fun _ => rfl) (by simp) ?_ ?_
    · intro c' j hj
      by_cases hjk : j = k
      · subst hjk
        refine ⟨_, some_modify hk, ?_⟩
        rw [if_pos rfl]
        refine ⟨?_, rfl⟩
        by_cases hc : c' = c
        · exact hc.symm
        · rw [Function.update_of_ne hc] at hj
          obtain ⟨s, hs, -, hserving⟩ := h.registered c' j hj
          obtain rfl := Option.some.inj (hs.symm.trans hk)
          cases hserving
      · have hold : j ∈ w.conns c' := by
          by_cases hc : c' = c
          · subst hc
            simpa [hjk] using hj
          · simpa [Function.update_of_ne hc] using hj
        obtain ⟨s, hs, hrest⟩ := h.registered c' j hold
        refine ⟨s, ?_, hrest⟩
        rw [some_modify hs, if_neg (Ne.symm hjk)]
    · intro c' j hj
      by_cases hc : c' = c
      · subst hc
        rw [Function.update_self, Finset.mem_insert] at hj
        rcases hj with rfl | hj
        · exact .inr ⟨_, hk, rfl⟩
        · exact .inl hj
      · exact .inl (by simpa [Function.update_of_ne hc] using hj)
  · exact h

theorem Served.disconnect {w : World D} (h : Served w) (k : ℕ) : Served (w.disconnect k) := by
  unfold World.disconnect
  split
  · next c _ _ hk =>
    have hold : ∀ c', ∀ j ∈ Function.update w.conns c ((w.conns c).erase k) c', j ∈ w.conns c' ∧ j ≠ k := by
      intro c' j hj
      by_cases hc : c' = c
      · subst hc
        rw [Function.update_self, Finset.mem_erase] at hj
        exact ⟨hj.2, hj.1⟩
      · rw [Function.update_of_ne hc] at hj
        refine ⟨hj, ?_⟩
        rintro rfl
        obtain ⟨s, hs, hchannel, -⟩ := h.registered c' j hj
        obtain rfl := Option.some.inj (hs.symm.trans hk)
        exact hc hchannel.symm
    refine h.handle (fun _ => rfl) (fun _ => rfl) (by simp) ?_ (fun c' j hj => .inl (hold c' j hj).1)
    intro c' j hj
    obtain ⟨s, hs, hrest⟩ := h.registered c' j (hold c' j hj).1
    refine ⟨s, ?_, hrest⟩
    rw [some_modify hs, if_neg (Ne.symm (hold c' j hj).2)]
  · exact h

theorem Served.step {w : World D} (h : Served w) (e : Event D) : Served (step w e) := by
  cases e with
  | publish m => exact h.congr rfl rfl rfl rfl
  | subscribe =>
    simp only [LiveFanOut.step]
    split
    · exact h.congr rfl rfl rfl rfl
    · exact h
  | psubscribe => exact h.congr rfl rfl rfl rfl
  | listen =>
    rcases listen_cases w with heq | ⟨_, _, _, hnone, -, ⟨-, heq⟩ | ⟨m, -, heq⟩⟩
    · simpa only [LiveFanOut.step, heq] using h
    · rw [LiveFanOut.step, heq]
      exact h.congr rfl rfl rfl rfl
    · rw [LiveFanOut.step, heq]
      exact h.take hnone _ m
  | send k ok =>
    rcases send_cases w k ok with heq | ⟨b, hb, hk, ⟨-, -, heq⟩ | ⟨-, heq⟩⟩
    · simpa only [LiveFanOut.step, heq] using h
    · rw [LiveFanOut.step, heq]
      exact h.deliver hb hk
    · rw [LiveFanOut.step, heq]
      exact h.fail hb hk
  | finish =>
    simp only [LiveFanOut.step, World.finish]
    split
    · exact h
    · next b hb =>
      split
      · next hdone => exact h.finish hb hdone
      · exact h
  | lose =>
    simp only [LiveFanOut.step, World.lose]
    split
    · exact h.congr rfl rfl rfl rfl
    · exact h
  | accept c => exact h.accept c
  | connect k => exact h.connect k
  | close k => exact h.close k
  | disconnect k => exact h.disconnect k

theorem Served.run (es : List (Event D)) : Served (run es) :=
  (Run.of_events es).invariant (fun _ e h _ => h.step e) Served.start

theorem ordered_run (es : List (Event D)) : (run es).Ordered :=
  (Run.of_events es).invariant (fun _ e h _ => h.step e) (List.Sublist.refl _)

/-- Over any run, a client has received a run without a gap of what the bridge took on its channel, and the bridge takes
messages in the order of their publication, each at most once. -/
theorem received_in_order (es : List (Event D)) (k : ℕ) (s : Socket D) (hs : (run es).sockets[k]? = some s) :
    s.received.IsInfix (on s.channel (run es).taken) ∧ (run es).taken.Sublist (run es).published := by
  refine ⟨(Served.run es).contiguous k s hs, ?_⟩
  exact (List.sublist_append_left _ _).trans (ordered_run es)

/-- The bridge subscribes, and a client follows the orders of structure 7. -/
def following : List (Event ℕ) := [.subscribe, .psubscribe, .accept (.orders 7), .connect 0]

/-- Two messages are published, and the one of the client's channel is broadcast. -/
def oneFill : List (Event ℕ) :=
  [.publish ⟨.orders 7, 1⟩, .publish ⟨.ticks, 2⟩] ++ List.replicate 10 .listen ++ [.send 0 true, .finish]

def follower : Socket ℕ := ⟨.orders 7, .serving, true, [⟨.orders 7, 1⟩]⟩

theorem received_in_order_fill :
    follower.received.IsInfix (on (.orders 7) (run (following ++ oneFill)).taken) ∧
      (run (following ++ oneFill)).taken.Sublist (run (following ++ oneFill)).published :=
  received_in_order (following ++ oneFill) 0 follower rfl

/-- The messages that socket `k` of channel `c` is still to be sent -/
def World.inFlight (w : World D) (k : ℕ) (c : Channel) : List (Message D) := w.current k ++ on c w.unread

structure Live (w : World D) (k : ℕ) (s : Socket D) : Prop where
  socket : w.sockets[k]? = some s
  serving : s.phase = .serving
  connected : s.connected = true
  attached : w.Attached k s.channel
  covered : ∃ p, w.pubsub = some p ∧ p.Covers s.channel

/-- Neither the connection of the bridge nor the socket `k` fails or leaves. -/
def Healthy (k : ℕ) (_ : World D) : Event D → Prop
  | .lose => False
  | .send j ok => j = k → ok = true
  | .close j | .disconnect j => j ≠ k
  | _ => True

instance (k : ℕ) (w : World D) : (e : Event D) → Decidable (Healthy k w e)
  | .lose => inferInstanceAs (Decidable False)
  | .send j ok => inferInstanceAs (Decidable (j = k → ok = true))
  | .close j | .disconnect j => inferInstanceAs (Decidable (j ≠ k))
  | .publish _ | .subscribe | .psubscribe | .listen | .finish | .accept _ | .connect _ =>
    inferInstanceAs (Decidable True)

/-- What socket `s` of `w` has received or is to be sent grows in `w'` by what is published on its channel. -/
def Accounted (k : ℕ) (w : World D) (s : Socket D) (w' : World D) (s' : Socket D) : Prop :=
  s'.channel = s.channel ∧ ∃ new, w'.published = w.published ++ new ∧
    s'.received ++ w'.inFlight k s.channel = s.received ++ w.inFlight k s.channel ++ on s.channel new

theorem Accounted.refl (k : ℕ) (w : World D) (s : Socket D) : Accounted k w s w s :=
  ⟨rfl, [], by simp, by simp⟩

theorem Accounted.trans {k : ℕ} {w w' w'' : World D} {s s' s'' : Socket D} (h : Accounted k w s w' s')
    (h' : Accounted k w' s' w'' s'') : Accounted k w s w'' s'' := by
  obtain ⟨hc, new, hpublished, heq⟩ := h
  obtain ⟨hc', new', hpublished', heq'⟩ := h'
  refine ⟨hc'.trans hc, new ++ new', ?_, ?_⟩
  · rw [hpublished', hpublished, List.append_assoc]
  · rw [hc] at heq'
    rw [heq', heq, on_append, List.append_assoc _ _ (on s.channel new')]

/-- A step that publishes nothing and leaves the socket and what it is owed -/
theorem Accounted.of_eq {k : ℕ} {w w' : World D} {s : Socket D} (hpublished : w'.published = w.published)
    (hcurrent : w'.current k = w.current k) (hunread : on s.channel w'.unread = on s.channel w.unread) :
    Accounted k w s w' s :=
  ⟨rfl, [], by simp [hpublished], by simp [World.inFlight, hcurrent, hunread]⟩

theorem Live.publish {w : World D} {k : ℕ} {s : Socket D} (h : Live w k s) (m : Message D) :
    Live (w.publish m) k s ∧ Accounted k w s (w.publish m) s := by
  obtain ⟨p, hp, hcovers⟩ := h.covered
  refine ⟨⟨h.socket, h.serving, h.connected, h.attached, ?_⟩, rfl, [m], rfl, ?_⟩
  · exact ⟨{ p with unread := p.unread ++ p.copies m }, by simp [World.publish, hp], hcovers⟩
  · have hcurrent : (w.publish m).current k = w.current k := rfl
    have hnew : on s.channel (if p.Covers m.channel then [m] else []) = on s.channel [m] := by
      by_cases hm : m.channel = s.channel
      · rw [if_pos (hm ▸ hcovers)]
      · split <;> simp [on_other hm]
    rw [World.inFlight, World.inFlight, hcurrent, publish_unread hp, on_append, hnew]
    simp only [List.append_assoc]

theorem Live.psubscribe {w : World D} {k : ℕ} {s : Socket D} (h : Live w k s) :
    Live (step w .psubscribe) k s ∧ Accounted k w s (step w .psubscribe) s := by
  obtain ⟨p, hp, hcovers⟩ := h.covered
  by_cases hpattern : p.patterned = true
  · have hsame : step w .psubscribe = w := by
      obtain ⟨_, _, _, _, _, _⟩ := w
      simp only at hp
      simp [LiveFanOut.step, hp, hpattern]
    rw [hsame]
    exact ⟨h, .refl k w s⟩
  · have hnew : (step w .psubscribe).pubsub = some ⟨true, p.unread ++ [.confirmation]⟩ := by
      simp [LiveFanOut.step, hp, hpattern]
    refine ⟨⟨h.socket, h.serving, h.connected, h.attached, _, hnew, ?_⟩, .of_eq rfl rfl ?_⟩
    · exact hcovers.imp_right fun hboth => ⟨rfl, hboth.2⟩
    · have hnone : [(Frame.confirmation : Frame D)].filterMap Frame.payload = [] := confirmations_payload 1
      simp [World.unread, hnew, hp, PubSub.messages, hnone]

theorem Live.listen {w : World D} {k : ℕ} {s : Socket D} (hw : Served w) (h : Live w k s) :
    Live w.listen k s ∧ Accounted k w s w.listen s := by
  obtain ⟨p, hp, hcovers⟩ := h.covered
  rcases listen_cases w with heq | ⟨patterned, frame, unread, hnone, hp', ⟨hframe, heq⟩ | ⟨m, hframe, heq⟩⟩
  · rw [heq]
    exact ⟨h, .refl k w s⟩
  · obtain rfl := Option.some.inj (hp'.symm.trans hp)
    rw [heq]
    refine ⟨⟨h.socket, h.serving, h.connected, h.attached, _, rfl, hcovers⟩, .of_eq rfl rfl ?_⟩
    simp [World.unread, hp, PubSub.messages, hframe]
  · obtain rfl := Option.some.inj (hp'.symm.trans hp)
    rw [heq]
    refine ⟨⟨h.socket, h.serving, h.connected, ⟨h.attached.1, ?_⟩, _, rfl, hcovers⟩, rfl, [], by simp, ?_⟩
    · intro b hb
      obtain rfl := Option.some.inj hb
      exact Finset.notMem_empty k
    · -- the message moves from the unread ones to the broadcast
      have hold : w.inFlight k s.channel = on s.channel [m] ++ on s.channel (unread.filterMap Frame.payload) := by
        rw [← on_append]
        simp [World.inFlight, World.current, hnone, World.unread, hp, PubSub.messages, hframe]
      have hcurrent : (if k ∈ w.conns m.channel then [m] else []) = on s.channel [m] := by
        by_cases hm : m.channel = s.channel
        · rw [if_pos (hm ▸ h.attached.1), ← hm, on_self]
        · rw [if_neg, on_other hm]
          intro hk
          obtain ⟨s', hs', hchannel, -⟩ := hw.registered _ k hk
          obtain rfl := Option.some.inj (hs'.symm.trans h.socket)
          exact hm hchannel.symm
      rw [hold, ← hcurrent]
      simp [World.inFlight, World.current, World.unread, PubSub.messages]

theorem Live.send {w : World D} {k : ℕ} {s : Socket D} (h : Live w k s) {j : ℕ} {ok : Bool}
    (hok : j = k → ok = true) :
    ∃ s', Live (w.send j ok) k s' ∧ Accounted k w s (w.send j ok) s' := by
  rcases send_cases w j ok with heq | ⟨b, hb, hj, hcase⟩
  · rw [heq]
    exact ⟨s, h, .refl k w s⟩
  by_cases hjk : j = k
  · subst hjk
    have hturn : ok = true ∧ (w.sockets[j]?).any (·.connected) = true :=
      ⟨hok rfl, by simp [h.socket, h.connected]⟩
    rcases hcase with ⟨-, -, heq⟩ | ⟨hnot, -⟩
    · rw [heq]
      refine ⟨s.receive b.message, ⟨?_, h.serving, h.connected, ⟨h.attached.1, ?_⟩, h.covered⟩, rfl, [], by simp, ?_⟩
      · rw [some_modify h.socket, if_pos rfl]
      · intro b' hb'
        obtain rfl := Option.some.inj hb'
        exact h.attached.2 b hb
      · simp [World.inFlight, World.current, World.unread, Socket.receive, hb, hj]
    · exact absurd hturn hnot
  · refine ⟨s, ?_⟩
    rcases hcase with ⟨-, -, heq⟩ | ⟨-, heq⟩
    · rw [heq]
      refine ⟨⟨?_, h.serving, h.connected, ⟨h.attached.1, ?_⟩, h.covered⟩, .of_eq rfl ?_ rfl⟩
      · rw [some_modify h.socket, if_neg hjk]
      · intro b' hb'
        obtain rfl := Option.some.inj hb'
        exact h.attached.2 b hb
      · simp [World.current, hb, Ne.symm hjk]
    · rw [heq]
      refine ⟨⟨h.socket, h.serving, h.connected, ⟨h.attached.1, ?_⟩, h.covered⟩, .of_eq rfl ?_ rfl⟩
      · intro b' hb'
        obtain rfl := Option.some.inj hb'
        simp [Ne.symm hjk, h.attached.2 b hb]
      · simp [World.current, hb, Ne.symm hjk]

theorem mem_update_of_mem {conns : Channel → Finset ℕ} {c c' : Channel} {S : Finset ℕ} {k : ℕ}
    (hk : k ∈ conns c') (hS : c' = c → k ∈ S) : k ∈ Function.update conns c S c' := by
  by_cases hc : c' = c
  · subst hc
    simpa using hS rfl
  · simpa [hc] using hk

theorem Live.finish {w : World D} {k : ℕ} {s : Socket D} (h : Live w k s) :
    Live w.finish k s ∧ Accounted k w s w.finish s := by
  unfold World.finish
  split
  · exact ⟨h, .refl k w s⟩
  · next b hb =>
    split
    · next hdone =>
      refine ⟨⟨h.socket, h.serving, h.connected, ⟨?_, by simp⟩, h.covered⟩, .of_eq rfl ?_ rfl⟩
      · refine mem_update_of_mem h.attached.1 ?_
        intro hc
        exact Finset.mem_sdiff.mpr ⟨hc ▸ h.attached.1, h.attached.2 b hb⟩
      · simp [World.current, hb, hdone]
    · exact ⟨h, .refl k w s⟩

theorem Live.connect {w : World D} {k : ℕ} {s : Socket D} (h : Live w k s) (j : ℕ) :
    Live (w.connect j) k s ∧ Accounted k w s (w.connect j) s := by
  unfold World.connect
  split
  · next c _ _ hj =>
    have hjk : j ≠ k := by
      rintro rfl
      obtain rfl := Option.some.inj (hj.symm.trans h.socket)
      cases h.serving
    refine ⟨⟨?_, h.serving, h.connected, ⟨?_, h.attached.2⟩, h.covered⟩, .of_eq rfl rfl rfl⟩
    · rw [some_modify h.socket, if_neg hjk]
    · exact mem_update_of_mem h.attached.1 fun hc => Finset.mem_insert_of_mem (hc ▸ h.attached.1)
  · exact ⟨h, .refl k w s⟩

theorem Live.disconnect {w : World D} {k : ℕ} {s : Socket D} (h : Live w k s) {j : ℕ} (hjk : j ≠ k) :
    Live (w.disconnect j) k s ∧ Accounted k w s (w.disconnect j) s := by
  unfold World.disconnect
  split
  · next c _ _ hj =>
    refine ⟨⟨?_, h.serving, h.connected, ⟨?_, h.attached.2⟩, h.covered⟩, .of_eq rfl rfl rfl⟩
    · rw [some_modify h.socket, if_neg hjk]
    · exact mem_update_of_mem h.attached.1 fun hc =>
        Finset.mem_erase.mpr ⟨Ne.symm hjk, hc ▸ h.attached.1⟩
  · exact ⟨h, .refl k w s⟩

theorem Live.step {w : World D} {k : ℕ} {s : Socket D} (hw : Served w) (h : Live w k s) {e : Event D}
    (he : Healthy k w e) : ∃ s', Live (step w e) k s' ∧ Accounted k w s (step w e) s' := by
  cases e with
  | publish m => exact ⟨s, h.publish m⟩
  | subscribe =>
    obtain ⟨p, hp, -⟩ := h.covered
    have hsame : LiveFanOut.step w .subscribe = w := by
      simp only [LiveFanOut.step, hp]
      split
      · next hnone => cases hnone
      · rfl
    rw [hsame]
    exact ⟨s, h, .refl k w s⟩
  | psubscribe => exact ⟨s, h.psubscribe⟩
  | listen => exact ⟨s, h.listen hw⟩
  | send j ok => exact h.send he
  | finish => exact ⟨s, h.finish⟩
  | lose => exact he.elim
  | accept c =>
    obtain ⟨hlt, -⟩ := List.getElem?_eq_some_iff.mp h.socket
    refine ⟨s, ⟨?_, h.serving, h.connected, h.attached, h.covered⟩, .of_eq rfl rfl rfl⟩
    rw [LiveFanOut.step, List.getElem?_append_left hlt, h.socket]
  | connect j => exact ⟨s, h.connect j⟩
  | close j =>
    refine ⟨s, ⟨?_, h.serving, h.connected, h.attached, h.covered⟩, .of_eq rfl rfl rfl⟩
    rw [LiveFanOut.step, some_modify h.socket, if_neg he]
  | disconnect j => exact ⟨s, h.disconnect he⟩

theorem Live.run {w : World D} {k : ℕ} {s : Socket D} (hw : Served w) (h : Live w k s) (es : List (Event D))
    (hes : Guarded LiveFanOut.step (Healthy k) w es) :
    ∃ s', Live (es.foldl LiveFanOut.step w) k s' ∧ Accounted k w s (es.foldl LiveFanOut.step w) s' := by
  induction es generalizing w s with
  | nil => exact ⟨s, h, .refl k w s⟩
  | cons e es ih =>
    obtain ⟨s₁, hlive, hone⟩ := h.step hw hes.1
    obtain ⟨s₂, hlive', hrest⟩ := ih (hw.step e) hlive hes.2
    exact ⟨s₂, hlive', hone.trans hrest⟩

/-- From any reachable state, while a registered socket and the connection of the bridge last, whatever else the
interleaving does: what the socket has received and what is in flight to it grow together by exactly what is published on
its channel, in that order. -/
theorem nothing_lost (es₀ es : List (Event D)) (k : ℕ) (s : Socket D) (hlive : Live (run es₀) k s)
    (hes : Guarded step (Healthy k) (run es₀) es) :
    ∃ s', (run (es₀ ++ es)).sockets[k]? = some s' ∧ ∃ new, (run (es₀ ++ es)).published = (run es₀).published ++ new ∧
      s'.received ++ (run (es₀ ++ es)).inFlight k s.channel =
        s.received ++ (run es₀).inFlight k s.channel ++ on s.channel new := by
  obtain ⟨s', hlive', -, hnew⟩ := hlive.run (Served.run es₀) es hes
  refine ⟨s', ?_, ?_⟩
  · rw [run, List.foldl_append]
    exact hlive'.socket
  · rw [run, List.foldl_append]
    exact hnew

theorem nothing_lost_fill : ∃ s', (run (following ++ oneFill)).sockets[0]? = some s' ∧ ∃ new,
    (run (following ++ oneFill)).published = (run following).published ++ new ∧
      s'.received ++ (run (following ++ oneFill)).inFlight 0 (.orders 7) =
        [] ++ (run following).inFlight 0 (.orders 7) ++ on (.orders 7) new :=
  nothing_lost following oneFill 0 ⟨.orders 7, .serving, true, []⟩
    ⟨rfl, rfl, rfl, ⟨by decide, by intro b hb; cases hb⟩, _, rfl, by decide⟩ (by decide)

end FxVol.LiveFanOut
