import FxVol.EventCalendar
import FxVol.FairTerm
import FxVol.GuardedRuns
import FxVol.NewestFirst
import Mathlib.Data.Rat.Sqrt

/-!
# The regime gate

Every cycle of the vol engine classifies the market, and decides from the label, the next event and the last two labels in
the table whether trades are authorised and at what size.  The rows of the cycle reach the tables later, through the DB
writer, which may be late, out of order, or lose them; the endpoint of the regime decides anew from the table.
-/
namespace FxVol.RegimeGate

open DecimalRounding KeyedLog
open FairTerm (Regime level detectRegime vrpDefaultsVolPts)

def stabilityCycles : ℕ := 3

inductive GateReason | regimeUnstable | eventDampenerActive | regimePreEvent | regimeStressed | regimeCalm
  deriving DecidableEq

structure GateDecision where
  authorized : Bool
  reason : GateReason
  sizeMult : ℚ
  deriving DecidableEq

/-- `gate_decision`; the labels of the history come with the most recent first. -/
def gateDecision (label : Regime) (eventDampener : Bool) (historyLabels : List Regime) : GateDecision :=
  let recent := historyLabels.take stabilityCycles
  if recent.length < stabilityCycles ∨ ∃ x ∈ recent, x ≠ label then ⟨false, .regimeUnstable, 0⟩
  else if eventDampener then ⟨true, .eventDampenerActive, 1 / 2⟩
  else
    match label with
    | .preEvent => ⟨false, .regimePreEvent, 0⟩
    | .stressed => ⟨true, .regimeStressed, 7 / 10⟩
    | .calm => ⟨true, .regimeCalm, 1⟩

inductive Feature | volLevel | volOfVol | termSlope
  deriving DecidableEq

inductive Qualifier | low | normal | high | inverted | flat | steep
  deriving DecidableEq

/-- A row of `feature_history` -/
structure FeatureRow (K : Type*) where
  timestamp : ℤ
  ivAtm1mPct : Option K
  ivAtm3mPct : Option K
  ivAtm6mPct : Option K
  rvYzPct : Option K
  volOfVol30dPct : Option K
  termSlopePct : Option K
  z90 : Feature → Option K

def FeatureRow.value {K : Type*} (r : FeatureRow K) : Feature → Option K
  | .volLevel => r.ivAtm3mPct
  | .volOfVol => r.volOfVol30dPct
  | .termSlope => r.termSlopePct

/-- A row of `regime_snapshot_history`; `probabilities` are those of the shadow model. -/
structure SnapshotRow (K : Type*) where
  timestamp : ℤ
  label : Regime
  value : Feature → Option K
  z : Feature → Option K
  probabilities : Option (Regime → K)
  eventDampener : Bool
  daysToNextEvent : Option ℚ
  nextEventType : Option String

structure NextEvent where
  eventType : String
  scheduledAt : ℤ
  daysRemaining : ℚ
  deriving DecidableEq

/-- The `_regime` entry of the surface -/
structure Payload (K : Type*) where
  label : Regime
  timestamp : ℤ
  value : Feature → Option K
  z : Feature → Option K
  qualifier : Feature → Option Qualifier
  nextEvent : Option NextEvent
  eventDampener : Bool
  vrpExpected : List (String × ℚ)

section Snapshot
variable {K : Type*} [Field K] [LinearOrder K] [FloorRing K] (sqrt : K → K)

def sampleMean (xs : List K) : K := xs.sum / (xs.length : K)

/-- The standard deviation of a sample, over one less than its size -/
def sampleSd (xs : List K) : K :=
  sqrt ((xs.map fun x => (x - sampleMean xs) ^ 2).sum / ((max (xs.length - 1) 1 : ℕ) : K))

def minObsZscore : ℕ := 30

def computeRollingZscore (value : Option K) (history : List K) : Option K :=
  value.bind fun v =>
    if history.length < minObsZscore then none
    else if sampleSd sqrt history ≤ 0 then none
    else some (roundTo ((v - sampleMean history) / sampleSd sqrt history) 4)

/-- `qualify`, by the kind that the payload gives each feature -/
def qualify (z : Option K) : Feature → Option Qualifier
  | .volLevel | .volOfVol => z.map fun z => if z < -1 then .low else if 1 < z then .high else .normal
  | .termSlope => z.map fun z => if z < -1 then .inverted else if 1 < z then .steep else .flat

def atmPct (surface : FairTerm.Surface K) (tenor : String) : Option K :=
  (surface.atmIv tenor).map fun iv => roundTo (iv * level 100) 4

/-- `vov_pct` -/
def volOfVolPct (iv3mHistory : List K) : Option K :=
  if 20 ≤ iv3mHistory.length then some (roundTo (sampleSd sqrt iv3mHistory) 4) else none

def termSlopePct (surface : FairTerm.Surface K) : Option K :=
  (atmPct surface "6M").bind fun iv6m => (atmPct surface "1M").map fun iv1m => iv6m - iv1m

/-- The three features of a cycle -/
def featureValue (surface : FairTerm.Surface K) (iv3mHistory : List K) : Feature → Option K
  | .volLevel => atmPct surface "3M"
  | .volOfVol => volOfVolPct sqrt iv3mHistory
  | .termSlope => termSlopePct surface

def regimeLabel (surface : FairTerm.Surface K) (iv3mHistory : List K) : Regime :=
  detectRegime (atmPct surface "3M") (volOfVolPct sqrt iv3mHistory) (termSlopePct surface)

def vrpExpected (label : Regime) : List (String × ℚ) :=
  ["1M", "2M", "3M", "4M", "5M", "6M"].filterMap fun tenor =>
    ((vrpDefaultsVolPts label).lookup tenor).map fun pts => (tenor, pts)

def computeRegimeSnapshot (surface : FairTerm.Surface K) (iv3mHistory : List K) (history : List (FeatureRow K))
    (nextEvent : Option NextEvent) (now : ℤ) (gmm : Option (Regime → K)) :
    Payload K × SnapshotRow K × FeatureRow K :=
  let value := featureValue sqrt surface iv3mHistory
  let z := fun f => computeRollingZscore sqrt (value f) (history.filterMap fun r => r.value f)
  let label := regimeLabel sqrt surface iv3mHistory
  let days := nextEvent.map (·.daysRemaining)
  let dampener := EventCalendar.eventDampener days
  (⟨label, now, fun f => (value f).map (roundTo · 2), z, fun f => qualify (z f) f,
      nextEvent.map fun e => { e with daysRemaining := roundTo e.daysRemaining 2 }, dampener, vrpExpected label⟩,
    ⟨now, label, value, z, gmm, dampener, days, nextEvent.map (·.eventType)⟩,
    ⟨now, atmPct surface "1M", atmPct surface "3M", atmPct surface "6M", surface.rvFullPct, value .volOfVol,
      value .termSlope, z⟩)

/-- What a cycle puts out: the payload on the surface, and the decision of the gate; `ts` is the `cycle_ts` of its rows. -/
structure Output (K : Type*) where
  ts : ℤ
  payload : Payload K
  gate : GateDecision

/-- `cycleTs` is the timestamp of the cycle under way.  The rows of a cycle wait for the writer in `pendingSnapshots` and
`pendingFeatures`; `outputs` records the cycles. -/
structure World (K H : Type*) where
  clock : ℤ
  cycleTs : Option ℤ
  calendar : EventCalendar.Calendar H
  snapshots : List (SnapshotRow K)
  features : List (FeatureRow K)
  pendingSnapshots : List (SnapshotRow K)
  pendingFeatures : List (FeatureRow K)
  outputs : List (Output K)

def World.start {K H : Type*} [DecidableEq H] : World K H := ⟨0, none, .start, [], [], [], [], []⟩

/-- A cycle takes its timestamp at `begin`, and reads the tables at `cycle`; one that gives up in between has no `cycle`. -/
inductive Event (K : Type*)
  | calendar (e : EventCalendar.Event)
  | begin
  | cycle (surface : FairTerm.Surface K) (gmm : Option (Regime → K))
  | writeSnapshot (k : ℕ)
  | loseSnapshot (k : ℕ)
  | writeFeature (k : ℕ)
  | loseFeature (k : ℕ)
  | wait (d : ℕ)

variable {H : Type*} [DecidableEq H] (digest : EventCalendar.HashKey → H)

def thirtyDays : ℤ := 30 * 86400000000

def ninetyDays : ℤ := 90 * 86400000000

/-- The rows of a query `timestamp > cutoff ORDER BY timestamp` -/
def featuresSince (features : List (FeatureRow K)) (cutoff : ℤ) : List (FeatureRow K) :=
  (features.filter fun r => cutoff < r.timestamp).insertionSort fun a b => a.timestamp ≤ b.timestamp

/-- The rows of a query `ORDER BY timestamp DESC` -/
def newestFirst (snapshots : List (SnapshotRow K)) : List (SnapshotRow K) :=
  NewestFirst.newestFirst (·.timestamp) snapshots

def World.nextEvent (w : World K H) : Option NextEvent :=
  (EventCalendar.nextEvent w.calendar.rows w.clock).map fun r =>
    ⟨r.eventType, r.scheduledAt, EventCalendar.daysRemaining w.clock r⟩

def World.snapshotOf (w : World K H) (surface : FairTerm.Surface K) (gmm : Option (Regime → K)) :
    Payload K × SnapshotRow K × FeatureRow K :=
  computeRegimeSnapshot sqrt surface ((featuresSince w.features (w.clock - thirtyDays)).filterMap (·.ivAtm3mPct))
    (featuresSince w.features (w.clock - ninetyDays)) w.nextEvent w.clock gmm

def World.computeRegime (w : World K H) (surface : FairTerm.Surface K) (gmm : Option (Regime → K)) :
    Payload K × GateDecision :=
  let payload := (w.snapshotOf sqrt surface gmm).1
  let lastLabels := ((newestFirst w.snapshots).take 2).map (·.label)
  (payload, gateDecision payload.label payload.eventDampener (payload.label :: lastLabels))

def World.output (w : World K H) (ts : ℤ) (surface : FairTerm.Surface K) (gmm : Option (Regime → K)) : Output K :=
  ⟨ts, (w.computeRegime sqrt surface gmm).1, (w.computeRegime sqrt surface gmm).2⟩

/-- The rows of a cycle are stamped with the time of its beginning. -/
def World.cycle (w : World K H) (ts : ℤ) (surface : FairTerm.Surface K) (gmm : Option (Regime → K)) : World K H :=
  { w with
    clock := w.clock + 1
    cycleTs := none
    pendingSnapshots := w.pendingSnapshots ++ [{ (w.snapshotOf sqrt surface gmm).2.1 with timestamp := ts }]
    pendingFeatures := w.pendingFeatures ++ [{ (w.snapshotOf sqrt surface gmm).2.2 with timestamp := ts }]
    outputs := w.outputs ++ [w.output sqrt ts surface gmm] }

/-- The writer inserts a waiting row, `ON CONFLICT DO NOTHING`. -/
def World.writeSnapshot (w : World K H) (k : ℕ) : World K H :=
  (w.pendingSnapshots[k]?).elim w fun r =>
    { w with
      snapshots := record (·.timestamp) w.snapshots r
      pendingSnapshots := w.pendingSnapshots.eraseIdx k }

def World.writeFeature (w : World K H) (k : ℕ) : World K H :=
  (w.pendingFeatures[k]?).elim w fun r =>
    { w with
      features := record (·.timestamp) w.features r
      pendingFeatures := w.pendingFeatures.eraseIdx k }

def step (w : World K H) : Event K → World K H
  | .calendar e => { w with calendar := EventCalendar.step digest w.calendar e }
  | .begin => { w with clock := w.clock + 1, cycleTs := some w.clock }
  | .cycle surface gmm => w.cycleTs.elim w fun ts => w.cycle sqrt ts surface gmm
  | .writeSnapshot k => w.writeSnapshot k
  | .loseSnapshot k => { w with pendingSnapshots := w.pendingSnapshots.eraseIdx k }
  | .writeFeature k => w.writeFeature k
  | .loseFeature k => { w with pendingFeatures := w.pendingFeatures.eraseIdx k }
  | .wait d => { w with clock := w.clock + d }

def run (es : List (Event K)) : World K H := es.foldl (step sqrt digest) .start

/-- `GET /regime/state`: the latest row with the decision from the last three -/
def World.state (w : World K H) : Option (SnapshotRow K × GateDecision) :=
  match (newestFirst w.snapshots).take 3 with
  | [] => none
  | latest :: rows => some (latest, gateDecision latest.label latest.eventDampener ((latest :: rows).map (·.label)))

/-- A decision for a label whose last cycles agree -/
def settledDecision (label : Regime) (eventDampener : Bool) : GateDecision :=
  if eventDampener then ⟨true, .eventDampenerActive, 1 / 2⟩
  else
    match label with
    | .preEvent => ⟨false, .regimePreEvent, 0⟩
    | .stressed => ⟨true, .regimeStressed, 7 / 10⟩
    | .calm => ⟨true, .regimeCalm, 1⟩

theorem gateDecision_eq (label : Regime) (eventDampener : Bool) (historyLabels : List Regime) :
    gateDecision label eventDampener historyLabels =
      if historyLabels.take stabilityCycles = List.replicate stabilityCycles label then
        settledDecision label eventDampener
      else ⟨false, .regimeUnstable, 0⟩ := by
  have hiff : historyLabels.take stabilityCycles = List.replicate stabilityCycles label ↔
      ¬ ((historyLabels.take stabilityCycles).length < stabilityCycles ∨
        ∃ x ∈ historyLabels.take stabilityCycles, x ≠ label) := by
    rw [List.eq_replicate_iff, not_or]
    have hlength : (historyLabels.take stabilityCycles).length ≤ stabilityCycles := List.length_take_le _ _
    refine and_congr (by omega) ?_
    push Not
    exact Iff.rfl
  unfold gateDecision
  by_cases hstable : historyLabels.take stabilityCycles = List.replicate stabilityCycles label
  · rw [if_pos hstable]
    exact if_neg (hiff.mp hstable)
  · rw [if_neg hstable]
    exact if_pos (not_not.mp fun h => hstable (hiff.mpr h))

theorem settledDecision_authorized (label : Regime) (eventDampener : Bool) :
    (settledDecision label eventDampener).authorized = true ↔ 0 < (settledDecision label eventDampener).sizeMult := by
  cases eventDampener <;> cases label <;> simp [settledDecision]

theorem gateDecision_authorized (label : Regime) (eventDampener : Bool) (historyLabels : List Regime) :
    (gateDecision label eventDampener historyLabels).authorized = true ↔
      0 < (gateDecision label eventDampener historyLabels).sizeMult := by
  rw [gateDecision_eq]
  split
  · exact settledDecision_authorized label eventDampener
  · simp

theorem gateDecision_dampened (label : Regime) (historyLabels : List Regime) :
    (gateDecision label true historyLabels).sizeMult ≤ 1 / 2 := by
  rw [gateDecision_eq]
  split <;> norm_num [settledDecision]

theorem gateDecision_preEvent (historyLabels : List Regime) :
    (gateDecision .preEvent false historyLabels).authorized = false := by
  rw [gateDecision_eq]
  split <;> rfl

/-- Every row in the table or on its way to it is that of a cycle of the past. -/
structure Recorded (w : World K H) : Prop where
  rows : ∀ r ∈ w.snapshots ++ w.pendingSnapshots, ∃ o ∈ w.outputs, o.ts = r.timestamp ∧ o.payload.label = r.label
  past : ∀ o ∈ w.outputs, o.ts < w.clock
  began : ∀ ts ∈ w.cycleTs, ts < w.clock ∧ ∀ o ∈ w.outputs, o.ts < ts
  nodup : (w.snapshots.map (·.timestamp)).Nodup

omit [Field K] [LinearOrder K] [FloorRing K] in
theorem Recorded.start : Recorded (World.start : World K H) where
  rows := by simp [World.start]
  past := by simp [World.start]
  began := by simp [World.start]
  nodup := List.nodup_nil

omit [Field K] [LinearOrder K] [FloorRing K] [DecidableEq H] in
theorem Recorded.congr {w w' : World K H} (h : Recorded w) (hclock : w.clock ≤ w'.clock)
    (hcycleTs : w'.cycleTs = w.cycleTs) (hsnapshots : w'.snapshots = w.snapshots)
    (hpending : w'.pendingSnapshots ⊆ w.pendingSnapshots) (houtputs : w'.outputs = w.outputs) : Recorded w' where
  rows := by
    intro r hr
    rw [houtputs]
    refine h.rows r ?_
    rw [hsnapshots] at hr
    rcases List.mem_append.mp hr with hr | hr
    · exact List.mem_append_left _ hr
    · exact List.mem_append_right _ (hpending hr)
  past := by
    intro o ho
    rw [houtputs] at ho
    exact (h.past o ho).trans_le hclock
  began := by
    intro ts hts
    rw [hcycleTs] at hts
    rw [houtputs]
    exact ⟨(h.began ts hts).1.trans_le hclock, (h.began ts hts).2⟩
  nodup := hsnapshots ▸ h.nodup

omit [Field K] [LinearOrder K] [FloorRing K] [DecidableEq H] in
theorem Recorded.begin {w : World K H} (h : Recorded w) :
    Recorded { w with clock := w.clock + 1, cycleTs := some w.clock } where
  rows := h.rows
  past := fun o ho => (h.past o ho).trans (Int.lt_succ w.clock)
  began := by
    intro ts hts
    obtain rfl := Option.mem_some_iff.mp hts
    exact ⟨Int.lt_succ w.clock, h.past⟩
  nodup := h.nodup

omit [DecidableEq H] in
theorem Recorded.cycle {w : World K H} (h : Recorded w) {ts : ℤ} (hts : w.cycleTs = some ts)
    (surface : FairTerm.Surface K) (gmm : Option (Regime → K)) : Recorded (w.cycle sqrt ts surface gmm) where
  rows := by
    intro r hr
    simp only [World.cycle, ← List.append_assoc] at hr ⊢
    rcases List.mem_append.mp hr with hr | hr
    · obtain ⟨o, ho, heq⟩ := h.rows r hr
      exact ⟨o, List.mem_append_left _ ho, heq⟩
    · obtain rfl := List.mem_singleton.mp hr
      exact ⟨_, List.mem_append_right _ (List.mem_singleton_self _), rfl, rfl⟩
  past := by
    intro o ho
    simp only [World.cycle] at ho ⊢
    have hclock := Int.lt_succ w.clock
    rcases List.mem_append.mp ho with ho | ho
    · exact (h.past o ho).trans hclock
    · obtain rfl := List.mem_singleton.mp ho
      exact (h.began ts hts).1.trans hclock
  began := by simp [World.cycle]
  nodup := h.nodup

omit [Field K] [LinearOrder K] [FloorRing K] [DecidableEq H] in
theorem Recorded.writeSnapshot {w : World K H} (h : Recorded w) (k : ℕ) : Recorded (w.writeSnapshot k) := by
  unfold World.writeSnapshot
  cases hk : w.pendingSnapshots[k]? with
  | none => exact h
  | some r =>
    have hmem : r ∈ w.pendingSnapshots := List.mem_of_getElem? hk
    refine ⟨?_, h.past, h.began, nodup_record h.nodup⟩
    intro r' hr'
    rcases List.mem_append.mp hr' with hr' | hr'
    · rcases mem_record.mp hr' with hr' | ⟨rfl, -⟩
      · exact h.rows r' (List.mem_append_left _ hr')
      · exact h.rows r' (List.mem_append_right _ hmem)
    · exact h.rows r' (List.mem_append_right _ (List.mem_of_mem_eraseIdx hr'))

theorem Recorded.step {w : World K H} (h : Recorded w) (e : Event K) : Recorded (step sqrt digest w e) := by
  cases e with
  | calendar e => exact h.congr le_rfl rfl rfl (List.Subset.refl _) rfl
  | begin => exact h.begin
  | cycle surface gmm =>
    simp only [RegimeGate.step]
    cases hts : w.cycleTs with
    | none => exact h
    | some ts => exact h.cycle sqrt hts surface gmm
  | writeSnapshot k => exact h.writeSnapshot k
  | loseSnapshot k => exact h.congr le_rfl rfl rfl (fun _ => List.mem_of_mem_eraseIdx) rfl
  | writeFeature k =>
    simp only [RegimeGate.step, World.writeFeature]
    cases w.pendingFeatures[k]? with
    | none => exact h
    | some r => exact h.congr le_rfl rfl rfl (List.Subset.refl _) rfl
  | loseFeature k => exact h.congr le_rfl rfl rfl (List.Subset.refl _) rfl
  | wait d => exact h.congr (by simp [RegimeGate.step]) rfl rfl (List.Subset.refl _) rfl

theorem Recorded.run (es : List (Event K)) : Recorded (run sqrt digest es) := by
  refine List.foldlRecOn es _ Recorded.start ?_
  intro w hw e _
  exact hw.step sqrt digest e

omit [Field K] [LinearOrder K] [FloorRing K] in
theorem newestFirst_perm (snapshots : List (SnapshotRow K)) : (newestFirst snapshots).Perm snapshots :=
  NewestFirst.newestFirst_perm _ _

omit [Field K] [LinearOrder K] [FloorRing K] in
theorem newestFirst_pairwise {snapshots : List (SnapshotRow K)} (hnodup : (snapshots.map (·.timestamp)).Nodup) :
    (newestFirst snapshots).Pairwise fun a b => b.timestamp < a.timestamp :=
  NewestFirst.newestFirst_pairwise hnodup

omit [Field K] [LinearOrder K] [FloorRing K] in
/-- Two rows taken from the newest on, with distinct timestamps -/
theorem newestFirst_take_two {snapshots : List (SnapshotRow K)} (hnodup : (snapshots.map (·.timestamp)).Nodup)
    {label : Regime} (h : ((newestFirst snapshots).take 2).map (·.label) = [label, label]) :
    ∃ a ∈ snapshots, ∃ b ∈ snapshots, a.timestamp < b.timestamp ∧ a.label = label ∧ b.label = label := by
  have hperm := newestFirst_perm snapshots
  obtain ⟨b, l, htake, hb, hl⟩ := List.map_eq_cons_iff.mp h
  obtain ⟨a, l', rfl, ha, hl'⟩ := List.map_eq_cons_iff.mp hl
  obtain rfl := List.map_eq_nil_iff.mp hl'
  have hsub : [b, a].Sublist (newestFirst snapshots) := htake ▸ List.take_sublist _ _
  have hlt := List.pairwise_pair.mp ((newestFirst_pairwise hnodup).sublist hsub)
  exact ⟨a, hperm.mem_iff.mp (hsub.subset (by simp)), b, hperm.mem_iff.mp (hsub.subset (by simp)), hlt, ha, hb⟩

/-- A cycle under way in any run: its trade is authorised just when it has a size; then two cycles before it had its
label; with an event within the window it is at most half the size, and before an event, with none, there is no trade. -/
theorem authorized_by_history (es : List (Event K)) (ts : ℤ) (surface : FairTerm.Surface K) (gmm : Option (Regime → K))
    (hts : (run sqrt digest es).cycleTs = some ts) :
    let w := run sqrt digest es
    let o := w.output sqrt ts surface gmm
    (o.gate.authorized = true ↔ 0 < o.gate.sizeMult) ∧
      (o.gate.authorized = true → ∃ a ∈ w.outputs, ∃ b ∈ w.outputs, a.ts < b.ts ∧ b.ts < ts ∧
        a.payload.label = o.payload.label ∧ b.payload.label = o.payload.label) ∧
      ((∃ r ∈ w.calendar.rows, r.Dampens w.clock ∧ r.scheduledAt - w.clock < EventCalendar.dampenerWindow) →
        o.gate.sizeMult ≤ 1 / 2) ∧
      (o.payload.label = .preEvent →
        (¬ ∃ r ∈ w.calendar.rows, r.Dampens w.clock ∧ r.scheduledAt - w.clock < EventCalendar.dampenerWindow) →
        o.gate.authorized = false) := by
  intro w o
  have hrecorded : Recorded w := Recorded.run sqrt digest es
  have hgate : o.gate = gateDecision o.payload.label o.payload.eventDampener
      (o.payload.label :: ((newestFirst w.snapshots).take 2).map (·.label)) := rfl
  have hdampener : o.payload.eventDampener = true ↔
      ∃ r ∈ w.calendar.rows, r.Dampens w.clock ∧ r.scheduledAt - w.clock < EventCalendar.dampenerWindow := by
    rw [← EventCalendar.eventDampener_iff]
    simp only [o, World.output, World.computeRegime, World.snapshotOf, computeRegimeSnapshot, World.nextEvent,
      Option.map_map]
    rfl
  refine ⟨?_, ?_, ?_, ?_⟩
  · rw [hgate]
    exact gateDecision_authorized _ _ _
  · intro hauthorized
    rw [hgate, gateDecision_eq] at hauthorized
    split at hauthorized
    case isFalse => cases hauthorized
    case isTrue hstable =>
      have hlast : ((newestFirst w.snapshots).take 2).map (·.label) = [o.payload.label, o.payload.label] := by
        rw [stabilityCycles, List.take_succ_cons, List.replicate_succ, List.map_take, List.take_take] at hstable
        rw [List.map_take]
        exact (List.cons.inj hstable).2
      obtain ⟨a, ha, b, hb, hlt, halabel, hblabel⟩ := newestFirst_take_two hrecorded.nodup hlast
      obtain ⟨oa, hoa, hats, hoalabel⟩ := hrecorded.rows a (List.mem_append_left _ ha)
      obtain ⟨ob, hob, hbts, hoblabel⟩ := hrecorded.rows b (List.mem_append_left _ hb)
      refine ⟨oa, hoa, ob, hob, ?_, (hrecorded.began ts hts).2 ob hob, hoalabel.trans halabel, hoblabel.trans hblabel⟩
      rwa [hats, hbts]
  · intro hevent
    rw [hgate, hdampener.mpr hevent]
    exact gateDecision_dampened _ _
  · intro hlabel hevent
    have hoff : o.payload.eventDampener = false := Bool.eq_false_iff.mpr (mt hdampener.mp hevent)
    rw [hgate, hlabel, hoff]
    exact gateDecision_preEvent _

end Snapshot

def calmSurface : FairTerm.Surface ℚ := ⟨[("3M", ⟨some (7 / 100), none⟩)], none, [], []⟩

def calmCycle : List (Event ℚ) := [.begin, .cycle calmSurface none, .writeSnapshot 0]

theorem authorized_by_history_calm :
    ((run Rat.sqrt id (calmCycle ++ calmCycle ++ [.begin])).output Rat.sqrt 4 calmSurface none).gate.authorized = true ∧
      ∃ a ∈ (run Rat.sqrt id (calmCycle ++ calmCycle ++ [.begin])).outputs,
        ∃ b ∈ (run Rat.sqrt id (calmCycle ++ calmCycle ++ [.begin])).outputs,
          a.ts < b.ts ∧ b.ts < 4 ∧ a.payload.label = .calm ∧ b.payload.label = .calm := by
  have h := authorized_by_history Rat.sqrt id (calmCycle ++ calmCycle ++ [.begin]) 4 calmSurface none rfl
  have hauthorized :
      ((run Rat.sqrt id (calmCycle ++ calmCycle ++ [.begin])).output Rat.sqrt 4 calmSurface none).gate.authorized = true := by
    decide +kernel
  have hlabel :
      ((run Rat.sqrt id (calmCycle ++ calmCycle ++ [.begin])).output Rat.sqrt 4 calmSurface none).payload.label = .calm := by
    decide +kernel
  refine ⟨hauthorized, ?_⟩
  rw [← hlabel]
  exact h.2.1 hauthorized

section Snapshot
variable {K : Type*} [Field K] [LinearOrder K] [FloorRing K] (sqrt : K → K)
variable {H : Type*} [DecidableEq H] (digest : EventCalendar.HashKey → H)

/-- A cycle reads the tables when no row is on its way, and no row is lost. -/
def Prompt (w : World K H) : Event K → Prop
  | .cycle _ _ => w.pendingSnapshots = []
  | .loseSnapshot _ => False
  | _ => True

def Output.view (o : Output K) : ℤ × Regime × Bool := (o.ts, o.payload.label, o.payload.eventDampener)

def SnapshotRow.view (r : SnapshotRow K) : ℤ × Regime × Bool := (r.timestamp, r.label, r.eventDampener)

/-- The rows are those of the cycles so far, and each decision is taken from the labels of all of them. -/
structure InStep (w : World K H) : Prop where
  recorded : Recorded w
  perm : ((w.snapshots ++ w.pendingSnapshots).map SnapshotRow.view).Perm (w.outputs.map Output.view)
  increasing : w.outputs.Pairwise fun a b => a.ts < b.ts
  gates : ∀ (past : List (Output K)) (o : Output K), past ++ [o] <+: w.outputs →
    o.gate = gateDecision o.payload.label o.payload.eventDampener ((past ++ [o]).reverse.map (·.payload.label))

omit [Field K] [LinearOrder K] [FloorRing K] [DecidableEq H] in
/-- With no row on its way, the table holds the cycles with the latest first. -/
theorem InStep.newestFirst_view {w : World K H} (h : InStep w) (hpending : w.pendingSnapshots = []) :
    (newestFirst w.snapshots).map SnapshotRow.view = (w.outputs.map Output.view).reverse := by
  have hperm : ((newestFirst w.snapshots).map SnapshotRow.view).Perm (w.outputs.map Output.view).reverse := by
    have hview := h.perm
    rw [hpending, List.append_nil] at hview
    exact (((newestFirst_perm _).map _).trans hview).trans (List.reverse_perm _).symm
  have hrows : ((newestFirst w.snapshots).map SnapshotRow.view).Pairwise fun a b => b.1 < a.1 :=
    List.pairwise_map.mpr (newestFirst_pairwise h.recorded.nodup)
  have hcycles : (w.outputs.map Output.view).reverse.Pairwise fun a b => b.1 < a.1 :=
    List.pairwise_reverse.mpr (List.pairwise_map.mpr h.increasing)
  exact List.Perm.eq_of_pairwise (fun a b _ _ hab hba => absurd hab (lt_asymm hba)) hrows hcycles hperm

omit [Field K] [LinearOrder K] [FloorRing K] [DecidableEq H] in
theorem InStep.newestFirst_labels {w : World K H} (h : InStep w) (hpending : w.pendingSnapshots = []) :
    (newestFirst w.snapshots).map (·.label) = w.outputs.reverse.map (·.payload.label) := by
  have hlabels := congrArg (List.map fun v : ℤ × Regime × Bool => v.2.1) (h.newestFirst_view hpending)
  rwa [← List.map_reverse, List.map_map, List.map_map] at hlabels

theorem gateDecision_congr (label : Regime) (eventDampener : Bool) {historyLabels historyLabels' : List Regime}
    (h : historyLabels.take stabilityCycles = historyLabels'.take stabilityCycles) :
    gateDecision label eventDampener historyLabels = gateDecision label eventDampener historyLabels' := by
  rw [gateDecision_eq, gateDecision_eq, h]

omit [Field K] [LinearOrder K] [FloorRing K] [DecidableEq H] in
theorem InStep.congr {w w' : World K H} (h : InStep w) (hrecorded : Recorded w')
    (hsnapshots : w'.snapshots = w.snapshots) (hpending : w'.pendingSnapshots = w.pendingSnapshots)
    (houtputs : w'.outputs = w.outputs) : InStep w' where
  recorded := hrecorded
  perm := by
    rw [hsnapshots, hpending, houtputs]
    exact h.perm
  increasing := houtputs ▸ h.increasing
  gates := houtputs ▸ h.gates

omit [DecidableEq H] in
theorem InStep.cycle {w : World K H} (h : InStep w) (hpending : w.pendingSnapshots = []) {ts : ℤ}
    (hts : w.cycleTs = some ts) (surface : FairTerm.Surface K) (gmm : Option (Regime → K)) :
    InStep (w.cycle sqrt ts surface gmm) where
  recorded := h.recorded.cycle sqrt hts surface gmm
  perm := by
    simp only [World.cycle, ← List.append_assoc]
    simp only [List.map_append, List.map_cons, List.map_nil]
    rw [← List.map_append]
    exact h.perm.append (List.Perm.refl _)
  increasing := by
    refine List.pairwise_append.mpr ⟨h.increasing, List.pairwise_singleton _ _, ?_⟩
    intro a ha b hb
    obtain rfl := List.mem_singleton.mp hb
    exact (h.recorded.began ts hts).2 a ha
  gates := by
    intro past o hpast
    rcases List.prefix_concat_iff.mp hpast with hall | hbefore
    · obtain ⟨rfl, ho⟩ := List.append_inj' hall rfl
      obtain rfl := List.singleton_injective ho
      rw [List.reverse_append, List.reverse_singleton, List.singleton_append, List.map_cons,
        ← h.newestFirst_labels hpending]
      refine gateDecision_congr _ _ ?_
      rw [stabilityCycles, List.take_succ_cons, List.take_succ_cons, List.map_take, List.take_take]
      rfl
    · exact h.gates past o hbefore

omit [Field K] [LinearOrder K] [FloorRing K] [DecidableEq H] in
theorem InStep.writeSnapshot {w : World K H} (h : InStep w) (k : ℕ) : InStep (w.writeSnapshot k) := by
  have hrecorded := h.recorded.writeSnapshot k
  unfold World.writeSnapshot at hrecorded ⊢
  cases hk : w.pendingSnapshots[k]? with
  | none => exact h
  | some r =>
    rw [hk] at hrecorded
    refine ⟨hrecorded, ?_, h.increasing, h.gates⟩
    obtain ⟨hlt, rfl⟩ := List.getElem?_eq_some_iff.mp hk
    have hrows : (w.snapshots ++ [w.pendingSnapshots[k]] ++ w.pendingSnapshots.eraseIdx k).Perm
        (w.snapshots ++ w.pendingSnapshots) := by
      rw [List.append_assoc]
      exact (List.getElem_cons_eraseIdx_perm hlt).append_left _
    -- the timestamps of the rows are those of the cycles, which are distinct
    have hnodup : ((w.snapshots ++ w.pendingSnapshots).map (·.timestamp)).Nodup := by
      have hview : ((w.snapshots ++ w.pendingSnapshots).map (·.timestamp)).Perm (w.outputs.map (·.ts)) := by
        have hts := h.perm.map Prod.fst
        rwa [List.map_map, List.map_map] at hts
      exact hview.nodup_iff.mpr (List.pairwise_map.mpr (h.increasing.imp ne_of_lt))
    have hnew : w.pendingSnapshots[k].timestamp ∉ w.snapshots.map (·.timestamp) := by
      rw [List.map_append, List.nodup_append'] at hnodup
      exact fun hmem => hnodup.2.2 hmem (List.mem_map_of_mem (List.getElem_mem hlt))
    simp only [Option.elim_some]
    rw [record_new hnew]
    exact (hrows.map _).trans h.perm

theorem InStep.step {w : World K H} (h : InStep w) (e : Event K) (he : Prompt w e) :
    InStep (step sqrt digest w e) := by
  have hrecorded := h.recorded.step sqrt digest e
  cases e with
  | calendar e => exact h.congr hrecorded rfl rfl rfl
  | begin => exact h.congr hrecorded rfl rfl rfl
  | cycle surface gmm =>
    simp only [RegimeGate.step]
    cases hts : w.cycleTs with
    | none => exact h
    | some ts => exact h.cycle sqrt he hts surface gmm
  | writeSnapshot k => exact h.writeSnapshot k
  | loseSnapshot k => exact he.elim
  | writeFeature k =>
    simp only [RegimeGate.step, World.writeFeature] at hrecorded ⊢
    cases hk : w.pendingFeatures[k]? with
    | none => exact h
    | some r =>
      rw [hk] at hrecorded
      exact h.congr hrecorded rfl rfl rfl
  | loseFeature k => exact h.congr hrecorded rfl rfl rfl
  | wait d => exact h.congr hrecorded rfl rfl rfl

theorem InStep.run {es : List (Event K)} (h : GuardedRuns.Guarded (RegimeGate.step sqrt digest) Prompt .start es) :
    InStep (run sqrt digest es) := by
  refine (GuardedRuns.Run.of_foldl es h).invariant (fun w e hw he => hw.step sqrt digest e he) ?_
  exact ⟨.start, .refl _, .nil, fun past o hpast => absurd (List.prefix_nil.mp hpast) (by simp)⟩

/-- The labels that an authorisation has found in the last cycles -/
theorem gateDecision_labels {label : Regime} {eventDampener : Bool} {historyLabels : List Regime}
    (h : (gateDecision label eventDampener historyLabels).authorized = true) {n : ℕ} (hn : n < stabilityCycles) :
    historyLabels[n]? = some label := by
  rw [gateDecision_eq] at h
  split at h
  case isFalse => cases h
  case isTrue hstable => rw [← List.getElem?_take_of_lt hn, hstable, List.getElem?_replicate_of_lt hn]

omit [Field K] [LinearOrder K] [FloorRing K] [DecidableEq H] in
/-- With no row on its way, the endpoint shows the latest cycle with its own decision. -/
theorem InStep.state {w : World K H} (h : InStep w) (hpending : w.pendingSnapshots = []) :
    w.state.map (fun s => (s.1.view, s.2)) = w.outputs.getLast?.map fun o => (o.view, o.gate) := by
  have hrows := h.newestFirst_view hpending
  rcases List.eq_nil_or_concat w.outputs with hnil | ⟨past, o, hconcat⟩
  · rw [hnil] at hrows
    rw [hnil, World.state, List.map_eq_nil_iff.mp hrows]
    rfl
  · rw [List.concat_eq_append] at hconcat
    have hlabels := h.newestFirst_labels hpending
    rw [hconcat, List.map_append, List.reverse_append] at hrows
    obtain ⟨latest, rows, hnewest, hlatest, -⟩ := List.map_eq_cons_iff.mp hrows
    obtain ⟨hlabel, hdampener⟩ : latest.label = o.payload.label ∧ latest.eventDampener = o.payload.eventDampener :=
      Prod.ext_iff.mp (Prod.ext_iff.mp hlatest).2
    rw [hnewest, hconcat] at hlabels
    rw [hconcat, List.getLast?_concat, World.state, hnewest, List.take_succ_cons]
    have hgate : gateDecision latest.label latest.eventDampener ((latest :: rows.take 2).map (·.label)) = o.gate := by
      rw [h.gates past o (hconcat ▸ List.prefix_refl _), ← hlabels, hlabel, hdampener]
      refine gateDecision_congr _ _ ?_
      rw [← List.map_take, ← List.map_take, stabilityCycles, List.take_succ_cons, List.take_succ_cons, List.take_take]
      rfl
    exact congrArg some (Prod.ext hlatest hgate)

omit [Field K] [LinearOrder K] [FloorRing K] [DecidableEq H] in
/-- An authorised cycle has the label of the two before it. -/
theorem InStep.label_eq {w : World K H} (h : InStep w) {i j : ℕ} {a b : Output K} (ha : w.outputs[i]? = some a)
    (hb : w.outputs[j]? = some b) (hij : i ≤ j) (hclose : j < i + 3) (hauthorized : b.gate.authorized = true) :
    a.payload.label = b.payload.label := by
  obtain ⟨hj, rfl⟩ := List.getElem?_eq_some_iff.mp hb
  have hpast : w.outputs.take j ++ [w.outputs[j]] = w.outputs.take (j + 1) := List.take_append_getElem hj
  rw [h.gates (w.outputs.take j) w.outputs[j] (hpast ▸ List.take_prefix _ _)] at hauthorized
  have hlabel := gateDecision_labels hauthorized (show j - i < stabilityCycles by rw [stabilityCycles]; omega)
  have hlength : (w.outputs.take (j + 1)).length = j + 1 := List.length_take_of_le hj
  rw [hpast, List.getElem?_map, List.getElem?_reverse (by omega), hlength,
    List.getElem?_take_of_lt (by omega), show j + 1 - 1 - (j - i) = i by omega, ha] at hlabel
  exact Option.some_injective _ hlabel

/-- Where every cycle finds the rows of those before it, and none is lost: a decision is the one taken from the labels of
all the cycles so far; with no row on its way the endpoint shows the latest cycle with its own decision; and an authorised
cycle has the label of the two before it, so that two authorised cycles of different labels have two between them. -/
theorem gate_of_all_cycles (es : List (Event K)) (h : GuardedRuns.Guarded (step sqrt digest) Prompt .start es) :
    let w := run sqrt digest es
    (∀ (past : List (Output K)) (o : Output K), past ++ [o] <+: w.outputs →
      o.gate = gateDecision o.payload.label o.payload.eventDampener ((past ++ [o]).reverse.map (·.payload.label))) ∧
    (w.pendingSnapshots = [] →
      w.state.map (fun s => (s.1.view, s.2)) = w.outputs.getLast?.map fun o => (o.view, o.gate)) ∧
    ∀ (i j : ℕ) (a b : Output K), w.outputs[i]? = some a → w.outputs[j]? = some b → i ≤ j → j < i + 3 →
      b.gate.authorized = true → a.payload.label = b.payload.label := by
  intro w
  have hin : InStep w := InStep.run sqrt digest h
  exact ⟨hin.gates, hin.state, fun i j a b ha hb => hin.label_eq ha hb⟩

/-- Three months at twenty percent -/
def stressedSurface : FairTerm.Surface ℚ := ⟨[("3M", ⟨some (1 / 5), none⟩)], none, [], []⟩

def stressedCycle : List (Event ℚ) := [.begin, .cycle stressedSurface none, .wait 1000, .writeFeature 0, .writeSnapshot 0]

/-- Three calm cycles, and three after the vol has risen -/
def risingVol : List (Event ℚ) :=
  calmCycle ++ calmCycle ++ calmCycle ++ stressedCycle ++ stressedCycle ++ stressedCycle

/-- The third cycle of each label is authorised, and the endpoint shows the last one. -/
theorem gate_of_all_cycles_risingVol :
    let w := run Rat.sqrt id risingVol
    w.outputs.map (fun o => (o.payload.label, o.gate.authorized)) =
      [(.calm, false), (.calm, false), (.calm, true), (.stressed, false), (.stressed, false), (.stressed, true)] ∧
    w.state.map (fun s => (s.1.view, s.2)) = w.outputs.getLast?.map (fun o => (o.view, o.gate)) ∧
    ∀ (i j : ℕ) (a b : Output ℚ), w.outputs[i]? = some a → w.outputs[j]? = some b → i ≤ j → j < i + 3 →
      b.gate.authorized = true → a.payload.label = b.payload.label := by
  have hprompt : GuardedRuns.Guarded (step Rat.sqrt id) Prompt .start risingVol :=
    ⟨trivial, rfl, trivial, trivial, rfl, trivial, trivial, rfl, trivial,
      trivial, rfl, trivial, trivial, trivial, trivial, rfl, trivial, trivial, trivial,
      trivial, rfl, trivial, trivial, trivial, trivial⟩
  have h := gate_of_all_cycles Rat.sqrt id risingVol hprompt
  exact ⟨by decide +kernel, h.2.1 rfl, h.2.2⟩

def Event.withoutShadow : Event K → Event K
  | .cycle surface _ => .cycle surface none
  | e => e

def SnapshotRow.withoutShadow (r : SnapshotRow K) : SnapshotRow K := { r with probabilities := none }

def World.withoutShadow (w : World K H) : World K H :=
  { w with
    snapshots := w.snapshots.map SnapshotRow.withoutShadow
    pendingSnapshots := w.pendingSnapshots.map SnapshotRow.withoutShadow }

omit [Field K] [LinearOrder K] [FloorRing K] in
theorem newestFirst_withoutShadow (snapshots : List (SnapshotRow K)) :
    newestFirst (snapshots.map SnapshotRow.withoutShadow) = (newestFirst snapshots).map SnapshotRow.withoutShadow :=
  (List.map_insertionSort _ _ SnapshotRow.withoutShadow _ fun _ _ _ _ => Iff.rfl).symm

omit [DecidableEq H] in
theorem output_withoutShadow (w : World K H) (ts : ℤ) (surface : FairTerm.Surface K) (gmm : Option (Regime → K)) :
    w.withoutShadow.output sqrt ts surface none = w.output sqrt ts surface gmm := by
  have hlabels : ((newestFirst w.withoutShadow.snapshots).take 2).map (·.label) =
      ((newestFirst w.snapshots).take 2).map (·.label) := by
    simp only [World.withoutShadow]
    rw [newestFirst_withoutShadow, ← List.map_take, List.map_map]
    rfl
  simp only [World.output, World.computeRegime, hlabels]
  rfl

omit [Field K] [LinearOrder K] [FloorRing K] [DecidableEq H] in
theorem writeSnapshot_withoutShadow (w : World K H) (k : ℕ) :
    w.withoutShadow.writeSnapshot k = (w.writeSnapshot k).withoutShadow := by
  simp only [World.writeSnapshot]
  have hk : w.withoutShadow.pendingSnapshots[k]? = (w.pendingSnapshots[k]?).map SnapshotRow.withoutShadow :=
    List.getElem?_map
  rw [hk]
  cases w.pendingSnapshots[k]? with
  | none => rfl
  | some r =>
    have hall : recordAll (·.timestamp) (w.snapshots.map SnapshotRow.withoutShadow) ([r].map SnapshotRow.withoutShadow) =
        (recordAll (·.timestamp) w.snapshots [r]).map SnapshotRow.withoutShadow := recordAll_map fun _ _ => Iff.rfl
    have hrecord : record (·.timestamp) (w.snapshots.map SnapshotRow.withoutShadow) r.withoutShadow =
        (record (·.timestamp) w.snapshots r).map SnapshotRow.withoutShadow := hall
    simp only [Option.map_some, Option.elim_some, World.withoutShadow, hrecord, List.eraseIdx_map]

theorem step_withoutShadow (w : World K H) (e : Event K) :
    step sqrt digest w.withoutShadow e.withoutShadow = (step sqrt digest w e).withoutShadow := by
  cases e with
  | cycle surface gmm =>
    simp only [step, Event.withoutShadow]
    have hts : w.withoutShadow.cycleTs = w.cycleTs := rfl
    rw [hts]
    cases w.cycleTs with
    | none => rfl
    | some ts =>
      simp only [Option.elim_some, World.cycle, output_withoutShadow sqrt w ts surface gmm]
      simp [World.withoutShadow, World.snapshotOf, computeRegimeSnapshot, SnapshotRow.withoutShadow, World.nextEvent]
  | writeSnapshot k => exact writeSnapshot_withoutShadow w k
  | loseSnapshot k => simp [step, Event.withoutShadow, World.withoutShadow, List.eraseIdx_map]
  | writeFeature k =>
    simp only [step, Event.withoutShadow, World.writeFeature]
    have hfeatures : w.withoutShadow.pendingFeatures = w.pendingFeatures := rfl
    rw [hfeatures]
    cases w.pendingFeatures[k]? with
    | none => rfl
    | some r => rfl
  | calendar e => rfl
  | begin => rfl
  | loseFeature k => rfl
  | wait d => rfl

theorem run_withoutShadow (es : List (Event K)) :
    run sqrt digest (es.map Event.withoutShadow) = (run sqrt digest es).withoutShadow := by
  induction es using List.reverseRecOn with
  | nil => rfl
  | append_singleton es e ih =>
    have hlast : run sqrt digest (es ++ [e]) = step sqrt digest (run sqrt digest es) e := List.foldl_concat ..
    rw [hlast, ← step_withoutShadow, ← ih, List.map_append]
    exact List.foldl_concat ..

/-- What the shadow model has said in any of the cycles changes no label, decision or payload of any cycle, and nothing of
what the endpoint shows but its own probabilities. -/
theorem shadow_decides_nothing (es : List (Event K)) :
    (run sqrt digest (es.map Event.withoutShadow)).outputs = (run sqrt digest es).outputs ∧
      (run sqrt digest (es.map Event.withoutShadow)).features = (run sqrt digest es).features ∧
      (run sqrt digest (es.map Event.withoutShadow)).state =
        (run sqrt digest es).state.map fun s => (s.1.withoutShadow, s.2) := by
  rw [run_withoutShadow]
  refine ⟨rfl, rfl, ?_⟩
  simp only [World.state, World.withoutShadow]
  rw [newestFirst_withoutShadow, ← List.map_take]
  cases (newestFirst (run sqrt digest es).snapshots).take 3 with
  | nil => rfl
  | cons latest rows =>
    simp only [List.map_cons, List.map_map, Option.map_some]
    rfl

end Snapshot

end FxVol.RegimeGate
