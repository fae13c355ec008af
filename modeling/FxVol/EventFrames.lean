import FxVol.GuardedRuns
import FxVol.WriterShutdown
import Mathlib.Data.List.Forall2
import Mathlib.Data.Rat.Defs

/-!
# The frames of the bus

What `db_events` carries is read by `_enqueue`: a frame that is no JSON, or has no table or no payload, is left out.  A
payload that is not an object is copied by `dict` outside of the `try`, so some of them end the subscription and some
are put on the queue of the writer.
-/
namespace FxVol.EventFrames

open GuardedRuns

/-- The numbers of JSON that Python adds -/
inductive NonFinite | nan | infinity | negInfinity
  deriving DecidableEq

/-- What `json.loads` returns; an object has each of its keys once. -/
inductive Json
  | null
  | bool (b : Bool)
  | num (x : ℚ)
  | constant (x : NonFinite)
  | str (s : String)
  | arr (elems : List Json)
  | obj (items : List (String × Json))

/-- The exceptions that reading a frame may raise -/
inductive PyError | valueError | typeError | keyError | recursionError
  deriving DecidableEq

/-- `frame[name]` -/
def Json.getItem (name : String) : Json → Except PyError Json
  | .obj items =>
    match items.find? fun e => e.1 = name with
    | some e => .ok e.2
    | none => .error .keyError
  | _ => .error .typeError

/-- A value that is hashed -/
inductive Key
  | null
  | bool (b : Bool)
  | num (x : ℚ)
  | constant (x : NonFinite)
  | str (s : String)
  deriving DecidableEq

def Key.norm : Key → Key
  | .bool b => .num (if b then 1 else 0)
  | k => k

def Json.key : Json → Except PyError Key
  | .null => .ok .null
  | .bool b => .ok (.bool b)
  | .num x => .ok (.num x)
  | .constant x => .ok (.constant x)
  | .str s => .ok (.str s)
  | .arr _ | .obj _ => .error .typeError

/-- A value of a payload, with the datetimes that are made from its texts -/
inductive Value (δ : Type)
  | json (x : Json)
  | datetime (t : δ)

abbrev PyDict (δ : Type) := List (Key × Value δ)

section Dicts
variable {δ : Type}

/-- `out.get(key)` -/
def PyDict.get (out : PyDict δ) (key : Key) : Option (Value δ) := (out.find? fun e => e.1.norm = key.norm).map (·.2)

/-- `out[key] = v`; a key that is there stays as it is. -/
def PyDict.set : PyDict δ → Key → Value δ → PyDict δ
  | [], key, v => [(key, v)]
  | e :: out, key, v => if e.1.norm = key.norm then (e.1, v) :: out else e :: PyDict.set out key v

/-- What a value is iterated over -/
def Json.elems : Json → Except PyError (List Json)
  | .arr elems => .ok elems
  | .str s => .ok (s.toList.map fun c => .str (String.ofList [c]))
  | .obj items => .ok (items.map fun e => .str e.1)
  | _ => .error .typeError

/-- An element of an update sequence has to be a sequence of length 2. -/
def Json.pair (elem : Json) : Except PyError (Key × Json) := do
  match ← elem.elems with
  | [k, v] => return (← k.key, v)
  | _ => .error .valueError

/-- `dict(payload)` -/
def Json.toDict : Json → Except PyError (PyDict δ)
  | .obj items => .ok (items.map fun e => (.str e.1, .json e.2))
  | payload => do
    (← payload.elems).foldlM (fun out elem => do
      let p ← elem.pair
      return out.set p.1 (.json p.2)) []

end Dicts

/-- What reaches the subscriber: the bytes of a frame, or what is no text -/
inductive Data (Raw : Type)
  | text (raw : Raw)
  | other (frame : Json)

/-- `json.loads`, `datetime.fromisoformat`, and the size of the queue, 0 for none -/
structure Runtime (Raw δ : Type) where
  loads : Raw → Except PyError Json
  fromIsoFormat : String → Option δ
  queueMaxSize : ℕ

/-- An entry of the queue: the table and the payload -/
abbrev Item (δ : Type) := Json × PyDict δ

section Enqueue
variable {Raw δ : Type} (rt : Runtime Raw δ)

def datetimeFields : List String := ["timestamp", "opened_at", "closed_at", "ts"]

/-- `value.replace("Z", "+00:00") if value.endswith("Z") else value` -/
def isoText (value : String) : String :=
  if value.toList.getLast? = some 'Z' then
    String.ofList (value.toList.flatMap fun c => if c = 'Z' then "+00:00".toList else [c])
  else value

def coerceField (out : PyDict δ) (key : String) : PyDict δ :=
  match out.get (.str key) with
  | some (.json (.str value)) =>
    match rt.fromIsoFormat (isoText value) with
    | some t => out.set (.str key) (.datetime t)
    | none => out
  | _ => out

def coerceDatetimeFields (payload : Json) : Except PyError (PyDict δ) := do
  return datetimeFields.foldl (coerceField rt) (← payload.toDict)

def parseData : Data Raw → Except PyError Json
  | .text raw => rt.loads raw
  | .other frame => .ok frame

/-- The body of the `try` -/
def readFrame (data : Data Raw) : Except PyError (Json × Json) := do
  let frame ← parseData rt data
  let table ← frame.getItem "table"
  let payload ← frame.getItem "payload"
  return (table, payload)

/-- `except (ValueError, TypeError, KeyError)` -/
def PyError.caught : PyError → Bool
  | .valueError | .typeError | .keyError => true
  | .recursionError => false

/-- `put_nowait` raises `QueueFull`. -/
def Full (queue : List (Item δ)) : Prop := 0 < rt.queueMaxSize ∧ rt.queueMaxSize ≤ queue.length

instance (queue : List (Item δ)) : Decidable (Full rt queue) := inferInstanceAs (Decidable (_ ∧ _))

/-- `_enqueue`: what it puts on the queue, if anything, or what it raises -/
def enqueue (queue : List (Item δ)) : Option (Data Raw) → Except PyError (Option (Item δ))
  | none => .ok none
  | some data =>
    match readFrame rt data with
    | .error e => if e.caught then .ok none else .error e
    | .ok (table, payload) => do
      let payload ← coerceDatetimeFields rt payload
      return if Full rt queue then none else some (table, payload)

end Enqueue

structure Message (Raw : Type) where
  type : String
  data : Option (Data Raw)

/-- `put` are all the entries that have been put on the queue; `subscriberOk` says that the listen loop runs. -/
structure World (δ : Type) where
  queue : List (Item δ)
  put : List (Item δ)
  subscriberOk : Bool

def World.start (δ : Type) : World δ := ⟨[], [], true⟩

/-- A message is published, the writer takes an entry, or the subscriber is back after its backoff. -/
inductive Event (Raw : Type)
  | message (m : Message Raw)
  | take
  | resubscribe

section Steps
variable {Raw δ : Type} (rt : Runtime Raw δ)

/-- What a message puts on the queue; a frame that is published during a backoff is lost. -/
def received (w : World δ) (m : Message Raw) : Except PyError (Option (Item δ)) :=
  if w.subscriberOk ∧ m.type = "message" then enqueue rt w.queue m.data else .ok none

/-- An exception out of `_enqueue` ends the listen loop. -/
def step (w : World δ) : Event Raw → World δ
  | .message m =>
    match received rt w m with
    | .ok item => { w with queue := w.queue ++ item.toList, put := w.put ++ item.toList }
    | .error _ => { w with subscriberOk := false }
  | .take => { w with queue := w.queue.tail }
  | .resubscribe => { w with subscriberOk := true }

def run (w : World δ) (events : List (Event Raw)) : World δ := events.foldl (step rt) w

end Steps

section Claim
variable {Raw δ : Type} (rt : Runtime Raw δ)

/-- A table and the items of a payload -/
abbrev Frame := Json × List (String × Json)

def frameOf (m : Message Raw) : Option Frame :=
  if m.type = "message" then
    m.data.bind fun data =>
      match parseData rt data with
      | .ok (.obj items) =>
        match items.find? fun e => e.1 = "table", items.find? fun e => e.1 = "payload" with
        | some t, some (_, .obj payload) => some (t.2, payload)
        | _, _ => none
      | _ => none
  else none

/-- A payload on the queue: nothing but texts of the datetime fields that are datetimes has been changed. -/
def OnlyDatetimes (payload : List (String × Json)) (out : PyDict δ) : Prop :=
  List.Forall₂ (fun e e' => e'.1 = .str e.1 ∧ (e'.2 = .json e.2 ∨
    e.1 ∈ datetimeFields ∧ ∃ value t, e.2 = .str value ∧ rt.fromIsoFormat (isoText value) = some t ∧ e'.2 = .datetime t))
    payload out

/-- An entry for a frame -/
def Carries (f : Frame) (item : Item δ) : Prop := item.1 = f.1 ∧ OnlyDatetimes rt f.2 item.2

/-- The frames of a step that are to be put on the queue -/
def offeredAt (w : World δ) : Event Raw → List Frame
  | .message m => if Full rt w.queue then [] else (frameOf rt m).toList
  | .take | .resubscribe => []

/-- The frames that are published while the queue is not full -/
def offered : World δ → List (Event Raw) → List Frame
  | _, [] => []
  | w, e :: events => offeredAt rt w e ++ offered (step rt w e) events

/-- No frame ends the subscription, and the queue gets the frames that are objects, in order, and nothing else. -/
structure Robust (events : List (Event Raw)) : Prop where
  subscribed : ∀ past, past <+: events → (run rt (World.start δ) past).subscriberOk
  put : List.Forall₂ (Carries rt) (offered rt (World.start δ) events) (run rt (World.start δ) events).put

/-- A message whose frame is no JSON object with a table and a payload, or has an object for its payload; or one whose
payload `dict` takes for pairs finds the queue full. -/
def Tolerated (w : World δ) : Event Raw → Prop
  | .message m => m.type = "message" → ∀ data, m.data = some data →
    match readFrame rt data with
    | .error e => e.caught = true
    | .ok (_, .obj _) => True
    | .ok (_, payload) => (payload.toDict (δ := δ)).isOk ∧ Full rt w.queue
  | .take | .resubscribe => True

end Claim

section Payloads
variable {Raw δ : Type} {rt : Runtime Raw δ} {payload : List (String × Json)} {out : PyDict δ}

theorem onlyDatetimes_copy (payload : List (String × Json)) :
    OnlyDatetimes rt payload (payload.map fun e => (.str e.1, .json e.2)) := by
  rw [OnlyDatetimes, List.forall₂_map_right_iff]
  exact List.forall₂_same.mpr fun e _ => ⟨rfl, .inl rfl⟩

theorem onlyDatetimes_set {key value : String} {t : δ} (h : OnlyDatetimes rt payload out) (hkey : key ∈ datetimeFields)
    (hvalue : out.get (.str key) = some (.json (.str value))) (ht : rt.fromIsoFormat (isoText value) = some t) :
    OnlyDatetimes rt payload (out.set (.str key) (.datetime t)) := by
  rw [OnlyDatetimes] at h
  induction h with
  | nil => cases hvalue
  | @cons e e' payload out he hrest ih =>
    rw [PyDict.set]
    by_cases hsame : e'.1.norm = (Key.str key).norm
    · rw [if_pos hsame]
      rw [PyDict.get, List.find?_cons_of_pos (by simpa using hsame), Option.map_some, Option.some_inj] at hvalue
      obtain ⟨hname, hcases⟩ := he
      rw [hname] at hsame
      have hkeyEq : e.1 = key := Key.str.inj hsame
      refine List.Forall₂.cons ⟨hname, .inr ⟨hkeyEq ▸ hkey, value, t, ?_, ht, rfl⟩⟩ hrest
      rcases hcases with hjson | ⟨-, value', t', -, -, hdatetime⟩
      · exact Value.json.inj (hjson.symm.trans hvalue)
      · cases hdatetime.symm.trans hvalue
    · rw [if_neg hsame]
      rw [PyDict.get, List.find?_cons_of_neg (by simpa using hsame)] at hvalue
      exact List.Forall₂.cons he (ih hvalue)

theorem onlyDatetimes_coerceField {key : String} (h : OnlyDatetimes rt payload out) (hkey : key ∈ datetimeFields) :
    OnlyDatetimes rt payload (coerceField rt out key) := by
  rw [coerceField]
  split
  · next value hvalue =>
    split
    · next t ht => exact onlyDatetimes_set h hkey hvalue ht
    · exact h
  · exact h

/-- An object is copied, and nothing but its datetimes is changed. -/
theorem coerceDatetimeFields_obj (rt : Runtime Raw δ) (payload : List (String × Json)) :
    ∃ out, coerceDatetimeFields rt (.obj payload) = .ok out ∧ OnlyDatetimes rt payload out := by
  refine ⟨_, rfl, ?_⟩
  have hfold : ∀ (keys : List String) (out : PyDict δ), (∀ key ∈ keys, key ∈ datetimeFields) → OnlyDatetimes rt payload out →
      OnlyDatetimes rt payload (keys.foldl (coerceField rt) out) := by
    intro keys
    induction keys with
    | nil => exact fun out _ h => h
    | cons key keys ih =>
      intro out hkeys h
      exact ih _ (fun k hk => hkeys k (List.mem_cons_of_mem _ hk))
        (onlyDatetimes_coerceField h (hkeys key List.mem_cons_self))
  exact hfold datetimeFields _ (fun _ hkey => hkey) (onlyDatetimes_copy payload)

theorem coerceDatetimeFields_isOk {payload : Json} :
    (coerceDatetimeFields rt payload).isOk = (payload.toDict (δ := δ)).isOk := by
  rw [coerceDatetimeFields]
  cases payload.toDict (δ := δ) <;> rfl

end Payloads

section Messages
variable {Raw δ : Type} {rt : Runtime Raw δ}

/-- The frames of the claim are those that are read with an object for a payload. -/
theorem frameOf_eq {m : Message Raw} {data : Data Raw} (htype : m.type = "message") (hdata : m.data = some data) :
    frameOf rt m = match readFrame rt data with
      | .ok (table, .obj payload) => some (table, payload)
      | _ => none := by
  rw [frameOf, if_pos htype, hdata, Option.bind_some, readFrame]
  cases parseData rt data with
  | error e => rfl
  | ok frame =>
    cases frame with
    | obj items =>
      simp only [Json.getItem, bind, Except.bind, pure, Except.pure]
      cases items.find? fun e => e.1 = "table" with
      | none => rfl
      | some t =>
        cases items.find? fun e => e.1 = "payload" with
        | none => rfl
        | some p =>
          obtain ⟨name, payload⟩ := p
          cases payload <;> rfl
    | null | bool | num | constant | str | arr => rfl

/-- The end of `_enqueue` -/
theorem put_nothing_iff {queue : List (Item δ)} {table payload : Json} :
    (∃ item, (coerceDatetimeFields rt payload >>= fun out =>
      pure (if Full rt queue then none else some (table, out))) = Except.ok item ∧
        List.Forall₂ (Carries rt) [] item.toList) ↔ (payload.toDict (δ := δ)).isOk ∧ Full rt queue := by
  have hok : (coerceDatetimeFields rt payload).isOk = (payload.toDict (δ := δ)).isOk := coerceDatetimeFields_isOk
  rw [← hok]
  cases coerceDatetimeFields rt payload with
  | error e =>
    refine iff_of_false ?_ fun h => nomatch h.1
    rintro ⟨item, hitem, -⟩
    cases hitem
  | ok out =>
    constructor
    · rintro ⟨item, hitem, hput⟩
      refine ⟨rfl, ?_⟩
      by_contra hroom
      obtain rfl : (if Full rt queue then none else some (table, out)) = item := Except.ok.inj hitem
      rw [if_neg hroom] at hput
      cases hput
    · rintro ⟨-, hfull⟩
      refine ⟨none, ?_, List.Forall₂.nil⟩
      change Except.ok (if Full rt queue then none else some (table, out)) = _
      rw [if_pos hfull]

/-- What a message puts on the queue is what the claim asks for exactly where it is tolerated. -/
theorem enqueue_iff {w : World δ} {m : Message Raw} {data : Data Raw} (htype : m.type = "message") (hdata : m.data = some data) :
    (∃ item, enqueue rt w.queue (some data) = .ok item ∧
      List.Forall₂ (Carries rt) (if Full rt w.queue then [] else (frameOf rt m).toList) item.toList) ↔
      match readFrame rt data with
      | .error e => e.caught = true
      | .ok (_, .obj _) => True
      | .ok (_, payload) => (payload.toDict (δ := δ)).isOk ∧ Full rt w.queue := by
  rw [frameOf_eq htype hdata, enqueue]
  cases readFrame rt data with
  | error e =>
    cases he : e.caught <;> simp [he]
  | ok p =>
    obtain ⟨table, payload⟩ := p
    cases payload with
    | obj payload =>
      obtain ⟨out, hout, honly⟩ := coerceDatetimeFields_obj rt payload
      refine iff_of_true ⟨if Full rt w.queue then none else some (table, out), ?_, ?_⟩ trivial
      · simp only [hout]
        rfl
      · split_ifs
        · exact List.Forall₂.nil
        · exact List.Forall₂.cons ⟨rfl, honly⟩ List.Forall₂.nil
    | null | bool | num | constant | str | arr =>
      simp only [Option.toList_none, ite_self]
      exact put_nothing_iff

/-- A frame as the model of the writer's stop reads it -/
def itemOf (rt : Runtime Raw δ) (data : Data Raw) : Option (Item δ) :=
  match readFrame rt data with
  | .ok (table, payload) => (coerceDatetimeFields rt payload).toOption.map fun out => (table, out)
  | .error _ => none

/-- Where `_enqueue` returns, the writer's model does with the frame what it does. -/
theorem enqueue_writer (batchSizeMax : ℕ) (hpos : 0 < batchSizeMax) (s : WriterShutdown.World (Item δ)) {data : Data Raw}
    {item : Option (Item δ)} (h : enqueue rt s.queue (some data) = .ok item) :
    WriterShutdown.enqueue ⟨itemOf rt, rt.queueMaxSize, batchSizeMax, hpos⟩ s data =
      { s with queue := s.queue ++ item.toList, accepted := s.accepted ++ item.toList } := by
  rw [enqueue] at h
  simp only [WriterShutdown.enqueue, itemOf]
  cases hread : readFrame rt data with
  | error e =>
    simp only [hread] at h
    split_ifs at h
    rw [← Except.ok.inj h]
    simp
  | ok p =>
    obtain ⟨table, payload⟩ := p
    simp only [hread] at h
    cases hcoerce : coerceDatetimeFields rt payload with
    | error e =>
      rw [hcoerce] at h
      cases h
    | ok out =>
      rw [hcoerce] at h
      obtain rfl : (if Full rt s.queue then none else some (table, out)) = item := Except.ok.inj h
      simp only [hcoerce, Except.toOption, Option.map_some]
      split_ifs with hfull hfull' hfull'
      · rw [Option.toList_none, List.append_nil, List.append_nil]
      · exact absurd hfull hfull'
      · exact absurd hfull' hfull
      · rfl

end Messages

section Runs
variable {Raw δ : Type} {rt : Runtime Raw δ} {w : World δ}

/-- What a step puts on the queue -/
def putAt (rt : Runtime Raw δ) (w : World δ) : Event Raw → List (Item δ)
  | .message m =>
    match received rt w m with
    | .ok item => item.toList
    | .error _ => []
  | .take | .resubscribe => []

def puts (rt : Runtime Raw δ) : World δ → List (Event Raw) → List (Item δ)
  | _, [] => []
  | w, e :: events => putAt rt w e ++ puts rt (step rt w e) events

theorem step_put (e : Event Raw) : (step rt w e).put = w.put ++ putAt rt w e := by
  cases e with
  | message m =>
    rw [step, putAt]
    cases received rt w m with
    | ok item => rfl
    | error e => exact (List.append_nil _).symm
  | take => exact (List.append_nil _).symm
  | resubscribe => exact (List.append_nil _).symm

theorem run_put (events : List (Event Raw)) : (run rt w events).put = w.put ++ puts rt w events := by
  induction events generalizing w with
  | nil => exact (List.append_nil _).symm
  | cons e events ih =>
    have hrest : (run rt w (e :: events)).put = (step rt w e).put ++ puts rt (step rt w e) events := ih
    rw [hrest, step_put, puts, List.append_assoc]

/-- A step is tolerated exactly if the subscription outlives it and it puts on the queue what is offered. -/
theorem step_iff (hw : w.subscriberOk) (e : Event Raw) :
    Tolerated rt w e ↔ (step rt w e).subscriberOk ∧ List.Forall₂ (Carries rt) (offeredAt rt w e) (putAt rt w e) := by
  cases e with
  | take => exact iff_of_true trivial ⟨hw, List.Forall₂.nil⟩
  | resubscribe => exact iff_of_true trivial ⟨rfl, List.Forall₂.nil⟩
  | message m =>
    obtain ⟨type, data⟩ := m
    simp only [Tolerated, step, offeredAt, putAt, received, hw, true_and]
    by_cases htype : type = "message"
    · simp only [if_pos htype]
      cases data with
      | none =>
        refine iff_of_true (fun _ data hdata => nomatch hdata) ⟨rfl, ?_⟩
        simp [enqueue, frameOf]
      | some data =>
        have hdata : (Message.mk type (some data)).data = some data := rfl
        refine Iff.trans ⟨fun h => h htype data rfl, ?_⟩ ((enqueue_iff htype hdata).symm.trans ?_)
        · rintro h - _ ⟨⟩
          exact h
        · cases enqueue rt w.queue (some data) with
          | error e =>
            refine iff_of_false ?_ fun h => nomatch h.1
            rintro ⟨item, hitem, -⟩
            cases hitem
          | ok item =>
            simp only [true_and, Except.ok.injEq, exists_eq_left']
    · simp only [if_neg htype]
      refine iff_of_true (fun h => absurd h htype) ⟨trivial, ?_⟩
      simp [frameOf, htype]

theorem tolerated_of_offered {e : Event Raw} (h : offeredAt rt w e ≠ []) : Tolerated rt w e := by
  cases e with
  | take => trivial
  | resubscribe => trivial
  | message m =>
    intro htype data hdata
    rw [offeredAt] at h
    split_ifs at h with hfull
    · exact absurd rfl h
    · rw [frameOf_eq htype hdata] at h
      cases hread : readFrame rt data with
      | error e =>
        rw [hread] at h
        exact absurd rfl h
      | ok p =>
        obtain ⟨table, payload⟩ := p
        rw [hread] at h
        cases payload with
        | obj payload => trivial
        | null | bool | num | constant | str | arr => exact absurd rfl h

theorem offeredAt_le (hw : w.subscriberOk) (e : Event Raw) : (offeredAt rt w e).length ≤ (putAt rt w e).length := by
  by_cases h : offeredAt rt w e = []
  · rw [h]
    exact Nat.zero_le _
  · exact ((step_iff hw e).mp (tolerated_of_offered h)).2.length_eq.le

/-- While the subscription lives no frame that is offered is left out. -/
theorem offered_le (events : List (Event Raw)) (h : ∀ past, past <+: events → (run rt w past).subscriberOk) :
    (offered rt w events).length ≤ (puts rt w events).length := by
  induction events generalizing w with
  | nil => exact le_rfl
  | cons e events ih =>
    have hhead : (offeredAt rt w e).length ≤ (putAt rt w e).length := offeredAt_le (h [] List.nil_prefix) e
    have hrest := ih fun past hpast => h (e :: past) (List.cons_prefix_cons.mpr ⟨rfl, hpast⟩)
    rw [offered, puts, List.length_append, List.length_append]
    omega

theorem forall₂_append_iff {α β : Type} {R : α → β → Prop} {xs xs' : List α} {ys ys' : List β} (h : xs.length = ys.length) :
    List.Forall₂ R (xs ++ xs') (ys ++ ys') ↔ List.Forall₂ R xs ys ∧ List.Forall₂ R xs' ys' := by
  induction xs generalizing ys with
  | nil =>
    obtain rfl := List.length_eq_zero_iff.mp h.symm
    exact (and_iff_right List.Forall₂.nil).symm
  | cons x xs ih =>
    cases ys with
    | nil => cases h
    | cons y ys =>
      rw [List.cons_append, List.cons_append, List.forall₂_cons, List.forall₂_cons, ih (Nat.succ.inj h), and_assoc]

/-- A run keeps the subscription and puts what is offered exactly if each of its steps is tolerated. -/
theorem run_iff (hw : w.subscriberOk) (events : List (Event Raw)) :
    ((∀ past, past <+: events → (run rt w past).subscriberOk) ∧
      List.Forall₂ (Carries rt) (offered rt w events) (puts rt w events)) ↔ Guarded (step rt) (Tolerated rt) w events := by
  induction events generalizing w with
  | nil =>
    refine iff_of_true ⟨fun past hpast => ?_, List.Forall₂.nil⟩ trivial
    rw [List.prefix_nil.mp hpast]
    exact hw
  | cons e events ih =>
    rw [Guarded, step_iff hw, offered, puts]
    constructor
    · rintro ⟨hok, hput⟩
      have hhead : (step rt w e).subscriberOk := hok [e] (List.cons_prefix_cons.mpr ⟨rfl, List.nil_prefix⟩)
      have hrest : ∀ past, past <+: events → (run rt (step rt w e) past).subscriberOk :=
        fun past hpast => hok (e :: past) (List.cons_prefix_cons.mpr ⟨rfl, hpast⟩)
      -- the lengths agree in the sum and neither part has fewer entries than frames
      have hlen := hput.length_eq
      have hle : (offeredAt rt w e).length ≤ (putAt rt w e).length := offeredAt_le hw e
      have hle' := offered_le events hrest
      rw [List.length_append, List.length_append] at hlen
      obtain ⟨hone, hothers⟩ := (forall₂_append_iff (by omega)).mp hput
      exact ⟨⟨hhead, hone⟩, (ih hhead).mp ⟨hrest, hothers⟩⟩
    · rintro ⟨⟨hhead, hone⟩, hguarded⟩
      obtain ⟨hrest, hothers⟩ := (ih hhead).mpr hguarded
      refine ⟨fun past hpast => ?_, (forall₂_append_iff hone.length_eq).mpr ⟨hone, hothers⟩⟩
      rcases List.prefix_cons_iff.mp hpast with rfl | ⟨rest, rfl, hmore⟩
      · exact hw
      · exact hrest rest hmore

end Runs

/-- A frame that is an object with a payload `null` -/
def nullPayload : Event Unit := .message ⟨"message", some (.text ())⟩

def nullRuntime : Runtime Unit Unit where
  loads _ := .ok (.obj [("table", .str "signal"), ("payload", .null)])
  fromIsoFormat _ := none
  queueMaxSize := 10000

/-- It ends the subscription. -/
theorem not_robust : ¬ ∀ (rt : Runtime Unit Unit) events, Robust rt events := by
  intro h
  have hok := (h nullRuntime [nullPayload]).subscribed [nullPayload] List.prefix_rfl
  cases hok

/-- No frame of a run ends the subscription and the queue gets the objects in order and nothing else, exactly if each
frame that has a table and a payload has an object for it, or what `dict` takes for pairs while the queue is full, and
reading a frame raises nothing but the errors that are caught. -/
theorem robust_iff {Raw δ : Type} (rt : Runtime Raw δ) (events : List (Event Raw)) :
    Robust rt events ↔ Guarded (step rt) (Tolerated rt) (World.start δ) events := by
  rw [← run_iff rfl]
  constructor
  · rintro ⟨hok, hput⟩
    rw [run_put] at hput
    exact ⟨hok, hput⟩
  · rintro ⟨hok, hput⟩
    refine ⟨hok, ?_⟩
    rw [run_put]
    exact hput

end FxVol.EventFrames
