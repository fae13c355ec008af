import FxVol.DecimalRounding
import FxVol.KeyedLog
import Mathlib.Data.List.Induction
import Mathlib.Data.List.Sort
import Mathlib.Data.Rat.Floor

/-!
# The economic calendar

A cycle of the scheduler asks every source for its events, drops those whose hash it has seen in this cycle, and inserts
the rest with `ON CONFLICT (event_hash) DO NOTHING`.  Over many cycles the calendar holds for each hash the event that was
collected first.  The vol engine dampens the size of trades before the next high-impact event.  Instants are microseconds.
-/
namespace FxVol.EventCalendar

open DecimalRounding KeyedLog

inductive Region | us | eu | gb
  deriving DecidableEq

def Region.text : Region → String
  | .us => "US"
  | .eu => "EU"
  | .gb => "GB"

inductive Impact | high | medium | low
  deriving DecidableEq

/-- A `datetime` with its zone: the wall clock and its distance from UTC -/
structure AwareDatetime where
  wall : ℤ
  utcOffset : ℤ
  deriving DecidableEq

def AwareDatetime.instant (t : AwareDatetime) : ℤ := t.wall - t.utcOffset

/-- `replace(second=0, microsecond=0)` -/
def AwareDatetime.minute (t : AwareDatetime) : AwareDatetime := { t with wall := t.wall - t.wall % 60000000 }

structure RawEvent where
  eventType : String
  region : Region
  impact : Impact
  scheduledAt : AwareDatetime
  description : String
  sourceName : String
  deriving DecidableEq

/-- The three parts of the text that is hashed; no part but the first can hold the separator, so the text tells them apart. -/
structure HashKey where
  eventType : String
  region : Region
  minute : AwareDatetime
  deriving DecidableEq

def RawEvent.hashKey (e : RawEvent) : HashKey := ⟨e.eventType, e.region, e.scheduledAt.minute⟩

/-- A row of `event_calendar`; one that was entered by hand has no hash. -/
structure EventRow (H : Type*) where
  eventHash : Option H
  eventType : String
  impact : Impact
  region : String
  scheduledAt : ℤ
  description : Option String
  source : String
  deriving DecidableEq

section Cycle
variable {H : Type*} [DecidableEq H] (digest : HashKey → H)

/-- `event_hash`; `digest` is the SHA-256, cut to sixteen digits. -/
def eventHash (e : RawEvent) : H := digest e.hashKey

def dedupe (events : List RawEvent) : List (H × RawEvent) :=
  recordAll Prod.fst [] (events.map fun e => (eventHash digest e, e))

/-- What a source does within its `timeout_seconds` -/
inductive Fetch
  | returned (events : List RawEvent)
  | timedOut
  | failed

/-- `_fetch_safely` -/
def Fetch.events : Fetch → List RawEvent
  | .returned events => events
  | .timedOut | .failed => []

def rowOf (he : H × RawEvent) : EventRow H :=
  ⟨some he.1, he.2.eventType, he.2.impact, he.2.region.text, he.2.scheduledAt.instant, some he.2.description,
    he.2.sourceName⟩

/-- The widths of the columns, past which Postgres refuses the whole statement -/
def EventRow.Fits (r : EventRow H) : Prop :=
  r.eventType.length ≤ 40 ∧ r.region.length ≤ 10 ∧ (r.description.elim 0 String.length) ≤ 500 ∧
    r.source.length ≤ 40

instance (r : EventRow H) : Decidable r.Fits := inferInstanceAs (Decidable (_ ∧ _))

/-- `upsert_many`: the rows and how many were inserted, unless the statement fails -/
def upsertMany (rows : List (EventRow H)) (hashed : List (H × RawEvent)) (dbAnswers : Bool) :
    Option (List (EventRow H) × ℕ) :=
  if hashed = [] then some (rows, 0)
  else if dbAnswers ∧ ∀ he ∈ hashed, (rowOf he).Fits then
    let after := recordAll (·.eventHash) rows (hashed.map rowOf)
    some (after, after.length - rows.length)
  else none

/-- The sources in their order, by name, and whether the database answers -/
structure Cycle where
  fetches : List (String × Fetch)
  dbAnswers : Bool

structure Report where
  counts : List (String × ℕ)
  dedupedCount : ℕ
  inserted : ℕ
  deriving DecidableEq

/-- `all_events` -/
def Cycle.events (c : Cycle) : List RawEvent := c.fetches.flatMap fun f => f.2.events

def runOnce (rows : List (EventRow H)) (c : Cycle) : Option (List (EventRow H) × Report) :=
  (upsertMany rows (dedupe digest c.events) c.dbAnswers).map fun (after, inserted) =>
    (after, ⟨c.fetches.map fun f => (f.1, f.2.events.length), (dedupe digest c.events).length, inserted⟩)

/-- The calendar with the reports of the cycles that came to their end -/
structure Calendar (H : Type*) where
  rows : List (EventRow H)
  reports : List Report

def Calendar.start : Calendar H := ⟨[], []⟩

/-- What is posted to `/events` -/
structure EventIn where
  eventType : String
  impact : Impact
  region : String
  scheduledAt : ℤ
  description : Option String

def EventIn.row (e : EventIn) : EventRow H :=
  ⟨none, e.eventType, e.impact, e.region, e.scheduledAt, e.description, "manual"⟩

inductive Event
  | cycle (c : Cycle)
  | insertEvent (payload : EventIn) (dbAnswers : Bool)

def step (w : Calendar H) : Event → Calendar H
  | .cycle c => (runOnce digest w.rows c).elim w fun (after, report) => ⟨after, w.reports ++ [report]⟩
  | .insertEvent payload dbAnswers =>
    if dbAnswers ∧ (payload.row : EventRow H).Fits then { w with rows := w.rows ++ [payload.row] } else w

def run (es : List Event) : Calendar H := es.foldl (step digest) .start

/-- Whether a cycle comes to its end does not depend on the calendar. -/
def Cycle.Completes (c : Cycle) : Prop :=
  dedupe digest c.events = [] ∨ (c.dbAnswers = true ∧ ∀ he ∈ dedupe digest c.events, (rowOf he).Fits)

instance (c : Cycle) : Decidable (c.Completes digest) := inferInstanceAs (Decidable (_ ∨ _))

/-- The events of the cycles that came to their end, in the order of their collection -/
def collected (es : List Event) : List RawEvent :=
  es.flatMap fun
    | .cycle c => if c.Completes digest then c.events else []
    | .insertEvent .. => []

def hashedRows (rows : List (EventRow H)) : List (EventRow H) := rows.filter (·.eventHash.isSome)

def rowOfEvent (e : RawEvent) : EventRow H := rowOf (eventHash digest e, e)

theorem dedupe_rows (events : List RawEvent) :
    (dedupe digest events).map rowOf = recordAll (·.eventHash) [] (events.map (rowOfEvent digest)) := by
  have hsame : ∀ a b : H × RawEvent, (rowOf a).eventHash = (rowOf b).eventHash ↔ a.1 = b.1 := by
    intro a b
    exact Option.some_inj
  have hmap : recordAll EventRow.eventHash (List.map rowOf []) ((events.map fun e => (eventHash digest e, e)).map rowOf) =
      (recordAll Prod.fst [] (events.map fun e => (eventHash digest e, e))).map rowOf := recordAll_map hsame
  rw [dedupe, ← hmap, List.map_map]
  rfl

/-- Deduplicating within the cycle first makes no difference to what is inserted. -/
theorem insert_dedupe (rows : List (EventRow H)) (events : List RawEvent) :
    recordAll (·.eventHash) rows ((dedupe digest events).map rowOf) =
      recordAll (·.eventHash) rows (events.map (rowOfEvent digest)) := by
  rw [dedupe_rows, recordAll_recordAll]
  rfl

theorem dedupe_eq_nil {events : List RawEvent} (h : dedupe digest events = []) : events = [] := by
  cases events with
  | nil => rfl
  | cons e events =>
    have hmem : eventHash digest e ∈ (dedupe digest (e :: events)).map Prod.fst :=
      (key_mem_recordAll _ _ _ _).mpr (.inr (by simp))
    rw [h] at hmem
    cases hmem

/-- A cycle that comes to its end inserts what it collected; another one leaves the calendar. -/
theorem runOnce_eq (rows : List (EventRow H)) (c : Cycle) : runOnce digest rows c =
    if c.Completes digest then
      let after := recordAll (·.eventHash) rows (c.events.map (rowOfEvent digest))
      some (after, ⟨c.fetches.map fun f => (f.1, f.2.events.length), (dedupe digest c.events).length,
        after.length - rows.length⟩)
    else none := by
  by_cases hnil : dedupe digest c.events = []
  · have hevents : c.events = [] := dedupe_eq_nil digest hnil
    have hcompletes : c.Completes digest := .inl hnil
    rw [if_pos hcompletes, runOnce, upsertMany, if_pos hnil, hevents]
    simp [recordAll]
  · by_cases hok : c.dbAnswers = true ∧ ∀ he ∈ dedupe digest c.events, (rowOf he).Fits
    · have hcompletes : c.Completes digest := .inr hok
      rw [if_pos hcompletes, runOnce, upsertMany, if_neg hnil, if_pos hok, insert_dedupe]
      rfl
    · have hfails : ¬ c.Completes digest := by
        rintro (h | h)
        · exact hnil h
        · exact hok h
      rw [if_neg hfails, runOnce, upsertMany, if_neg hnil, if_neg hok]
      rfl

theorem collected_append (es es' : List Event) :
    collected digest (es ++ es') = collected digest es ++ collected digest es' := List.flatMap_append

theorem hashedRows_recordAll (rows : List (EventRow H)) (events : List RawEvent) :
    hashedRows (recordAll (·.eventHash) rows (events.map (rowOfEvent digest))) =
      recordAll (·.eventHash) (hashedRows rows) (events.map (rowOfEvent digest)) := by
  induction events generalizing rows with
  | nil => rfl
  | cons e events ih =>
    have hcons : ∀ l : List (EventRow H), recordAll (·.eventHash) l ((e :: events).map (rowOfEvent digest)) =
      recordAll (·.eventHash) (record (·.eventHash) l (rowOfEvent digest e)) (events.map (rowOfEvent digest)) :=
      fun _ => rfl
    rw [hcons, hcons, ih]
    congr 1
    -- a row entered by hand has no hash to conflict with
    have hmem : (rowOfEvent digest e).eventHash ∈ (hashedRows rows).map (·.eventHash) ↔
        (rowOfEvent digest e).eventHash ∈ rows.map (·.eventHash) := by
      simp only [hashedRows, List.mem_map, List.mem_filter]
      constructor
      · rintro ⟨r, ⟨hr, -⟩, heq⟩
        exact ⟨r, hr, heq⟩
      · rintro ⟨r, hr, heq⟩
        exact ⟨r, ⟨hr, by rw [heq]; rfl⟩, heq⟩
    by_cases hseen : (rowOfEvent digest e).eventHash ∈ rows.map (·.eventHash)
    · rw [record_seen hseen, record_seen (hmem.mpr hseen)]
    · rw [record_new hseen, record_new (fun h => hseen (hmem.mp h)), hashedRows, List.filter_append]
      rfl

/-- The rows of the scheduler are those of all that was collected, each cycle's dedup and the constraint of the table together
being one dedup; and the reports account for them. -/
structure Tracks (es : List Event) (w : Calendar H) : Prop where
  rows : hashedRows w.rows = recordAll (·.eventHash) [] ((collected digest es).map (rowOfEvent digest))
  inserted : (w.reports.map (·.inserted)).sum = (hashedRows w.rows).length

theorem Tracks.start : Tracks digest [] (Calendar.start : Calendar H) := ⟨rfl, rfl⟩

/-- The rows that an insert adds all have a hash. -/
theorem length_hashedRows_recordAll (rows : List (EventRow H)) (events : List RawEvent) :
    (recordAll (·.eventHash) rows (events.map (rowOfEvent digest))).length - rows.length +
      (hashedRows rows).length =
        (hashedRows (recordAll (·.eventHash) rows (events.map (rowOfEvent digest)))).length := by
  obtain ⟨new, hsub, hnew⟩ := recordAll_eq_append EventRow.eventHash rows (events.map (rowOfEvent digest))
  have hall : ∀ r ∈ new, r.eventHash.isSome = true := by
    intro r hr
    obtain ⟨e, -, rfl⟩ := List.mem_map.mp (hsub.subset hr)
    rfl
  rw [hnew, hashedRows, hashedRows, List.filter_append, List.filter_eq_self.mpr hall]
  simp
  omega

theorem Tracks.step {es : List Event} {w : Calendar H} (h : Tracks digest es w) (e : Event) :
    Tracks digest (es ++ [e]) (step digest w e) := by
  cases e with
  | cycle c =>
    by_cases hc : c.Completes digest
    · have hcollected : collected digest [.cycle c] = c.events := by simp [collected, hc]
      rw [EventCalendar.step, runOnce_eq, if_pos hc]
      refine ⟨?_, ?_⟩
      · rw [collected_append, hcollected, List.map_append, recordAll_append, ← h.rows]
        exact hashedRows_recordAll digest w.rows c.events
      · simp only [Option.elim_some, List.map_append, List.sum_append, h.inserted, List.map_cons, List.map_nil,
          List.sum_cons, List.sum_nil]
        have hlength := length_hashedRows_recordAll digest w.rows c.events
        omega
    · have hcollected : collected digest [.cycle c] = [] := by simp [collected, hc]
      rw [EventCalendar.step, runOnce_eq, if_neg hc]
      refine ⟨?_, h.inserted⟩
      rw [collected_append, hcollected, List.append_nil]
      exact h.rows
  | insertEvent payload dbAnswers =>
    have hcollected : collected digest [.insertEvent payload dbAnswers] = [] := rfl
    have hnone : hashedRows [(payload.row : EventRow H)] = [] := rfl
    rw [EventCalendar.step]
    split
    · have hsame : hashedRows (w.rows ++ [payload.row]) = hashedRows w.rows := by
        rw [hashedRows, List.filter_append]
        exact (congrArg _ hnone).trans (List.append_nil _)
      refine ⟨?_, ?_⟩
      · rw [hsame, collected_append, hcollected, List.append_nil]
        exact h.rows
      · rw [hsame]
        exact h.inserted
    · refine ⟨?_, h.inserted⟩
      rw [collected_append, hcollected, List.append_nil]
      exact h.rows

theorem Tracks.run (es : List Event) : Tracks digest es (run digest es) := by
  induction es using List.reverseRecOn with
  | nil => exact .start digest
  | append_singleton es e ih =>
    rw [EventCalendar.run, List.foldl_append]
    exact ih.step digest e

/-- Over any run of cycles and requests, whatever sources fail and whenever the database does: the scheduler's rows have
distinct hashes, one for each event that a completed cycle collected, and hold what was collected first under its hash; and
the inserts that the cycles reported add up to their number. -/
theorem calendar_of_collected (es : List Event) :
    ((hashedRows (run digest es).rows).map (·.eventHash)).Nodup ∧
      (∀ e ∈ collected digest es,
        (hashedRows (run digest es).rows).find? (fun r => r.eventHash = some (eventHash digest e)) =
          ((collected digest es).find? fun e' => eventHash digest e' = eventHash digest e).map (rowOfEvent digest)) ∧
      (∀ r ∈ hashedRows (run digest es).rows, ∃ e ∈ collected digest es, r = rowOfEvent digest e) ∧
      ((run digest es).reports.map (·.inserted)).sum = (hashedRows (run digest es).rows).length := by
  have h := Tracks.run digest es
  refine ⟨?_, ?_, ?_, h.inserted⟩
  · rw [h.rows]
    exact nodup_recordAll _ _ _ List.nodup_nil
  · intro e _
    rw [h.rows, find?_recordAll, List.nil_append, List.find?_map]
    congr 1
    refine congrArg (fun p => List.find? p _) ?_
    funext e'
    simp [rowOfEvent, rowOf]
  · intro r hr
    rw [h.rows] at hr
    rcases mem_of_mem_recordAll hr with hr | hr
    · cases hr
    · obtain ⟨e, he, rfl⟩ := List.mem_map.mp hr
      exact ⟨e, he, rfl⟩

/-- A cycle that brings only events whose hashes were collected before inserts nothing and leaves the calendar. -/
theorem replay_inserts_nothing (es : List Event) (c : Cycle)
    (hknown : ∀ e ∈ c.events, ∃ e' ∈ collected digest es, eventHash digest e' = eventHash digest e) :
    (run digest (es ++ [.cycle c])).rows = (run digest es).rows ∧
      ∀ after report, runOnce digest (run digest es).rows c = some (after, report) → report.inserted = 0 := by
  have hseen : ∀ r ∈ c.events.map (rowOfEvent digest), r.eventHash ∈ (run digest es).rows.map (·.eventHash) := by
    intro r hr
    obtain ⟨e, he, rfl⟩ := List.mem_map.mp hr
    obtain ⟨e', he', hsame⟩ := hknown e he
    have hrow : (rowOfEvent digest e').eventHash ∈ (hashedRows (run digest es).rows).map (·.eventHash) := by
      rw [(Tracks.run digest es).rows]
      refine (key_mem_recordAll _ _ _ _).mpr (.inr ?_)
      exact List.mem_map_of_mem (List.mem_map_of_mem he')
    obtain ⟨row, hin, heq⟩ := List.mem_map.mp hrow
    refine List.mem_map.mpr ⟨row, (List.mem_filter.mp hin).1, heq.trans ?_⟩
    simp [rowOfEvent, rowOf, hsame]
  have hrows : recordAll (·.eventHash) (run digest es).rows (c.events.map (rowOfEvent digest)) =
    (run digest es).rows := recordAll_seen hseen
  refine ⟨?_, ?_⟩
  · rw [EventCalendar.run, List.foldl_append]
    simp only [List.foldl_cons, List.foldl_nil, EventCalendar.step]
    rw [runOnce_eq]
    split
    · exact hrows
    · rfl
  · intro after report hreport
    rw [runOnce_eq] at hreport
    split at hreport
    · obtain ⟨-, rfl⟩ := Prod.mk.injEq .. ▸ Option.some.inj hreport
      simp [hrows]
    · cases hreport

end Cycle

/-- Two sources bring one release, thirty seconds apart. -/
def release : RawEvent := ⟨"CPI", .us, .high, ⟨1020000000000, 0⟩, "consumer prices", "fred"⟩

def sameRelease : RawEvent := ⟨"CPI", .us, .high, ⟨1020030000000, 0⟩, "cpi", "bls"⟩

def bothSources : Cycle := ⟨[("fred", .returned [release]), ("bls", .returned [sameRelease])], true⟩

theorem replay_inserts_nothing_release :
    (run id ([.cycle bothSources] ++ [.cycle bothSources])).rows = (run id [.cycle bothSources]).rows ∧
      ∀ after report, runOnce id (run id [.cycle bothSources]).rows bothSources = some (after, report) →
        report.inserted = 0 :=
  replay_inserts_nothing id [.cycle bothSources] bothSources (by decide)

section NextEvent
variable {H : Type*}

/-- The events of which the vol engine takes the next one -/
def EventRow.Dampens (r : EventRow H) (now : ℤ) : Prop :=
  r.impact = .high ∧ r.region ∈ ["EU", "US"] ∧ now < r.scheduledAt

instance (r : EventRow H) (now : ℤ) : Decidable (r.Dampens now) := inferInstanceAs (Decidable (_ ∧ _))

def nextEvent (rows : List (EventRow H)) (now : ℤ) : Option (EventRow H) :=
  ((rows.filter fun r => r.Dampens now).insertionSort fun a b => a.scheduledAt ≤ b.scheduledAt).head?

def daysRemaining (now : ℤ) (r : EventRow H) : ℚ := roundTo (((r.scheduledAt - now : ℤ) : ℚ) / 86400000000) 4

def eventDampenerDays : ℚ := 5

def eventDampener (days : Option ℚ) : Bool := days.any (· < eventDampenerDays)

/-- Five days, less the half of the last decimal that rounds up to them -/
def dampenerWindow : ℤ := 431995680000

theorem daysRemaining_lt_iff (now : ℤ) (r : EventRow H) :
    daysRemaining now r < eventDampenerDays ↔ r.scheduledAt - now < dampenerWindow := by
  have hpow : (0 : ℚ) < 10 ^ 4 := by norm_num
  have hfive : eventDampenerDays = ((50000 : ℤ) : ℚ) / 10 ^ 4 := by norm_num [eventDampenerDays]
  rw [daysRemaining, roundTo, hfive, div_lt_div_iff_of_pos_right hpow, Int.cast_lt,
    nearestEven_lt_iff (by decide)]
  have hscale : (((r.scheduledAt - now : ℤ) : ℚ) / 86400000000) * 10 ^ 4 = ((r.scheduledAt - now : ℤ) : ℚ) / 8640000 := by
    ring
  rw [hscale, div_lt_iff₀ (by norm_num), dampenerWindow, ← Int.cast_lt (R := ℚ)]
  norm_num

theorem nextEvent_eq_some {rows : List (EventRow H)} {now : ℤ} {r : EventRow H} (h : nextEvent rows now = some r) :
    (r ∈ rows ∧ r.Dampens now) ∧ ∀ r' ∈ rows, r'.Dampens now → r.scheduledAt ≤ r'.scheduledAt := by
  have hperm := List.perm_insertionSort (fun a b : EventRow H => a.scheduledAt ≤ b.scheduledAt)
    (rows.filter fun r => r.Dampens now)
  obtain ⟨rest, hsorted⟩ := List.head?_eq_some_iff.mp h
  have hin : ∀ r', r' ∈ r :: rest ↔ r' ∈ rows ∧ r'.Dampens now := by
    intro r'
    rw [← hsorted, hperm.mem_iff, List.mem_filter, decide_eq_true_eq]
  refine ⟨(hin r).mp List.mem_cons_self, ?_⟩
  intro r' hr' hdampens
  have hpairwise : (r :: rest).Pairwise fun a b => a.scheduledAt ≤ b.scheduledAt := by
    rw [← hsorted]
    exact List.pairwise_insertionSort _ _
  rcases List.mem_cons.mp ((hin r').mpr ⟨hr', hdampens⟩) with rfl | hrest
  · exact le_refl r'.scheduledAt
  · exact (List.pairwise_cons.mp hpairwise).1 r' hrest

theorem nextEvent_eq_none {rows : List (EventRow H)} {now : ℤ} (h : nextEvent rows now = none) :
    ∀ r ∈ rows, ¬ r.Dampens now := by
  intro r hr hdampens
  have hperm := List.perm_insertionSort (fun a b : EventRow H => a.scheduledAt ≤ b.scheduledAt)
    (rows.filter fun r => r.Dampens now)
  have hmem : r ∈ rows.filter fun r => r.Dampens now := List.mem_filter.mpr ⟨hr, by simpa using hdampens⟩
  rw [← hperm.mem_iff, List.head?_eq_none_iff.mp h] at hmem
  cases hmem

/-- The dampener is on just when a high-impact event of the euro area or the US lies within the window. -/
theorem eventDampener_iff (rows : List (EventRow H)) (now : ℤ) :
    eventDampener ((nextEvent rows now).map (daysRemaining now)) = true ↔
      ∃ r ∈ rows, r.Dampens now ∧ r.scheduledAt - now < dampenerWindow := by
  cases hnext : nextEvent rows now with
  | none =>
    refine iff_of_false (by simp [eventDampener]) ?_
    rintro ⟨r, hr, hdampens, -⟩
    exact nextEvent_eq_none hnext r hr hdampens
  | some r =>
    obtain ⟨⟨hr, hdampens⟩, hfirst⟩ := nextEvent_eq_some hnext
    have hwindow : eventDampener ((some r).map (daysRemaining now)) = true ↔
        r.scheduledAt - now < dampenerWindow := by
      simp only [eventDampener, Option.map_some, Option.any_some, decide_eq_true_eq]
      exact daysRemaining_lt_iff now r
    rw [hwindow]
    constructor
    · intro hlt
      exact ⟨r, hr, hdampens, hlt⟩
    · rintro ⟨r', hr', hdampens', hlt⟩
      have hle := hfirst r' hr' hdampens'
      omega

end NextEvent

end FxVol.EventCalendar
