import FxVol.FeatureEnrichment
import FxVol.NewestFirst
import Mathlib.Data.List.MinMax

/-!
# The panel of the regime features

`build_features_payload`: for each feature of the latest row its enrichment, stamped or computed from the last ninety days,
against what the context lets expect; and one line over the three, with the regime of the joint pattern, the dominant
feature and the action.
-/
namespace FxVol.RegimeFeatures

open DecimalRounding FeatureEnrichment KeyedLog NewestFirst
open FairTerm (level)
open RegimeGate (Feature SnapshotRow ninetyDays)

/-- The three buckets that the base patterns are written in -/
inductive Third | low | mid | high
  deriving DecidableEq

structure RegimePattern where
  regimeId : ℕ
  regimeName : String
  family : String
  actionDefault : String
  asymmetryNote : String
  intensityCount : ℕ
  deriving DecidableEq

structure BasePattern where
  pattern : Third × Third × Third
  regimeId : ℕ
  regimeName : String
  family : String
  actionDefault : String
  asymmetryNote : String

def basePatterns : List BasePattern :=
  [⟨(.low, .mid, .high), 1, "sleep_deep_steep_contango", "A_low_vol", "monitor_complacency",
      "long_short_dated_vol_carry_negative"⟩,
    ⟨(.low, .mid, .mid), 2, "calm_baseline", "A_low_vol", "no_action", "no_signal"⟩,
    ⟨(.low, .high, .mid), 3, "stable_level_agitated", "A_low_vol", "long_vega_long_vomma", "precursor_breakout"⟩,
    ⟨(.low, .mid, .low), 4, "flat_slope_low_level", "A_low_vol", "calendar_spread_event_play", "event_driven_local"⟩,
    ⟨(.low, .high, .low), 5, "flat_slope_agitated", "A_low_vol", "event_play_high_uncertainty", "volga_exposure"⟩,
    ⟨(.mid, .mid, .mid), 6, "pure_noise_baseline", "B_normal_vol", "no_action_vol_driven", "depend_on_other_signals"⟩,
    ⟨(.mid, .high, .mid), 7, "hidden_volatility", "B_normal_vol", "relative_value_vol_spreads",
      "dispersion_between_tenors"⟩,
    ⟨(.mid, .mid, .high), 8, "steep_slope_normal_level", "B_normal_vol", "calendar_spread_long_short",
      "convex_decay_with_event"⟩,
    ⟨(.mid, .mid, .low), 9, "incipient_local_stress", "B_normal_vol", "size_reduce_monitor", "transition_to_stressed"⟩,
    ⟨(.mid, .high, .high), 10, "cross_product_divergence", "B_normal_vol", "short_short_long_long_hedged_gamma",
      "terminal_cycle_repricing"⟩,
    ⟨(.high, .mid, .mid), 11, "elevated_calm", "C_high_vol", "structural_hot_regime", "new_setpoint_no_divergence"⟩,
    ⟨(.high, .high, .mid), 12, "active_stress_normal_slope", "C_high_vol", "reduced_sizing", "resolution_phase_unstable"⟩,
    ⟨(.high, .high, .low), 13, "full_stress", "C_high_vol", "no_directional_vol_focus_microstructure", "active_crisis"⟩,
    ⟨(.high, .mid, .low), 14, "elevated_calm_inverted_curve", "C_high_vol", "convergence_trade_patient", "exit_of_stress"⟩,
    ⟨(.high, .high, .high), 15, "stressed_contango_persists", "C_high_vol", "observation_only", "pre_crisis_signature"⟩]

abbrev Pattern := Bucket × Bucket × Bucket

def expansion : Third → List Bucket
  | .low => [.doubleMinus, .minus]
  | .mid => [.zero]
  | .high => [.plus, .doublePlus]

def Bucket.extreme : Bucket → Bool
  | .doublePlus | .doubleMinus => true
  | _ => false

def intensity (p : Pattern) : ℕ := [p.1, p.2.1, p.2.2].countP Bucket.extreme

def BasePattern.row (b : BasePattern) (p : Pattern) : RegimePattern :=
  ⟨b.regimeId, b.regimeName, b.family, b.actionDefault, b.asymmetryNote, intensity p⟩

/-- The patterns that a base pattern stands for, in the order of the product -/
def BasePattern.expand (b : BasePattern) : List (Pattern × RegimePattern) :=
  (expansion b.pattern.1).flatMap fun bl =>
    (expansion b.pattern.2.1).flatMap fun bv =>
      (expansion b.pattern.2.2).map fun bs => ((bl, bv, bs), b.row (bl, bv, bs))

/-- `_build_pattern_dict`: the first entry of a pattern stays. -/
def patternDict : List (Pattern × RegimePattern) := recordAll Prod.fst [] (basePatterns.flatMap BasePattern.expand)

def unmappedExtreme : RegimePattern :=
  ⟨99, "unmapped_extreme", "Z_fallback", "observation_only_log_for_review", "tail_combination_unseen_in_15_base_regimes", 0⟩

def lookupRegime (p : Pattern) : RegimePattern :=
  ((patternDict.find? fun e => e.1 = p).map Prod.snd).getD unmappedExtreme

def third : Bucket → Third
  | .doubleMinus | .minus => .low
  | .zero => .mid
  | .plus | .doublePlus => .high

theorem mem_expansion (b : Bucket) (t : Third) : b ∈ expansion t ↔ third b = t := by
  cases b <;> cases t <;> simp [expansion, third]

def collapse (p : Pattern) : Third × Third × Third := (third p.1, third p.2.1, third p.2.2)

theorem mem_expand (b : BasePattern) (e : Pattern × RegimePattern) :
    e ∈ b.expand ↔ collapse e.1 = b.pattern ∧ e.2 = b.row e.1 := by
  simp only [BasePattern.expand, List.mem_flatMap, List.mem_map, mem_expansion, collapse, Prod.ext_iff]
  constructor
  · rintro ⟨bl, hl, bv, hv, bs, hs, ⟨rfl, rfl, rfl⟩, hrow⟩
    exact ⟨⟨hl, hv, hs⟩, hrow.symm⟩
  · rintro ⟨⟨hl, hv, hs⟩, hrow⟩
    exact ⟨e.1.1, hl, e.1.2.1, hv, e.1.2.2, hs, ⟨rfl, rfl, rfl⟩, hrow.symm⟩

theorem find?_expand (b : BasePattern) (p : Pattern) :
    b.expand.find? (fun e => e.1 = p) = if b.pattern = collapse p then some (p, b.row p) else none := by
  by_cases h : b.pattern = collapse p
  · rw [if_pos h]
    cases hfind : b.expand.find? fun e => e.1 = p with
    | none =>
      have hmem : (p, b.row p) ∈ b.expand := (mem_expand b _).mpr ⟨h.symm, rfl⟩
      exact absurd (decide_eq_true rfl) (List.find?_eq_none.mp hfind _ hmem)
    | some e =>
      obtain ⟨-, hrow⟩ := (mem_expand b e).mp (List.mem_of_find?_eq_some hfind)
      have hfound := List.find?_some hfind
      have hkey : e.1 = p := of_decide_eq_true hfound
      rw [← hkey, ← hrow]
  · rw [if_neg h]
    refine List.find?_eq_none.mpr fun e he hkey => h ?_
    rw [← of_decide_eq_true hkey, ((mem_expand b e).mp he).1]

/-- A joint pattern has the regime of the base pattern that it collapses to. -/
theorem lookupRegime_eq (p : Pattern) : lookupRegime p =
    ((basePatterns.find? fun b => b.pattern = collapse p).map fun b => b.row p).getD unmappedExtreme := by
  have hdict : patternDict.find? (fun e => e.1 = p) = (basePatterns.flatMap BasePattern.expand).find? fun e => e.1 = p := by
    rw [patternDict, find?_recordAll]
    rfl
  have hfirst (bs : List BasePattern) : ((bs.flatMap BasePattern.expand).find? fun e => e.1 = p).map Prod.snd =
      (bs.find? fun b => b.pattern = collapse p).map fun b => b.row p := by
    induction bs with
    | nil => rfl
    | cons b bs ih =>
      rw [List.flatMap_cons, List.find?_append, find?_expand, List.find?_cons]
      by_cases h : b.pattern = collapse p
      · rw [if_pos h, decide_eq_true h]
        rfl
      · rw [if_neg h, decide_eq_false h]
        exact ih
  rw [lookupRegime, hdict, hfirst]

structure StampedRow (K : Type*) extends SnapshotRow K where
  stamp : Feature → Stamp K

inductive TimeOfDay | asia | londonOpen | overlap | nyClose
  deriving DecidableEq

/-- `_tod_bucket`, from the hour of the instant in UTC -/
def todBucket (timestamp : ℤ) : TimeOfDay :=
  let hour := timestamp / 3600000000 % 24
  if 7 ≤ hour ∧ hour < 12 then .londonOpen
  else if 12 ≤ hour ∧ hour < 16 then .overlap
  else if 16 ≤ hour ∧ hour < 22 then .nyClose
  else .asia

/-- `int` of a number -/
def truncate (x : ℚ) : ℤ := if 0 ≤ x then ⌊x⌋ else ⌈x⌉

def daysBucket (daysToEvent : Option ℚ) : ℕ :=
  daysToEvent.elim 4 fun days =>
    let d := truncate days
    if 0 ≤ d ∧ d ≤ 1 then 0 else if 2 ≤ d ∧ d ≤ 3 then 1 else if 4 ≤ d ∧ d ≤ 5 then 2 else if 6 ≤ d ∧ d ≤ 10 then 3 else 4

inductive Relaxation | exact | eventDays | event | unconditional | coldStart
  deriving DecidableEq

inductive Status | valid | approx
  deriving DecidableEq

structure Context where
  eventType : String
  daysBucket : ℕ
  todBucket : TimeOfDay
  deriving DecidableEq

structure Baseline (K : Type*) where
  mu : K
  sigma : K
  nObs : ℕ
  status : Status
  context : Context
  relaxation : Relaxation

def minObsValid : ℕ := 20

section Panel
variable {K : Type*} [Field K] [LinearOrder K] (sqrt : K → K) (upper : String → String)

def eventType (r : StampedRow K) : String :=
  match r.nextEventType with
  | none | some "" => "none"
  | some eventType => upper eventType

def contextOf (r : StampedRow K) : Context := ⟨eventType upper r, daysBucket r.daysToNextEvent, todBucket r.timestamp⟩

/-- The rows that a level of relaxation takes as of the same context -/
def Relaxation.agrees : Relaxation → Context → Context → Bool
  | .exact, c, c' => c = c'
  | .eventDays, c, c' => c.eventType = c'.eventType ∧ c.daysBucket = c'.daysBucket
  | .event, c, c' => c.eventType = c'.eventType
  | .unconditional, _, _ | .coldStart, _, _ => true

def zValues (feature : Feature) (latest : StampedRow K) (history : List (StampedRow K)) (level : Relaxation) : List K :=
  (history.filter fun r => level.agrees (contextOf upper latest) (contextOf upper r)).filterMap (·.z feature)

def sampleMean (zs : List K) : K := zs.sum / zs.length

/-- The standard deviation of the values themselves -/
def populationSd (zs : List K) : K :=
  sqrt (if 1 < zs.length then (zs.map fun v => (v - sampleMean zs) ^ 2).sum / zs.length else 0)

/-- The loop over the levels of `_lookup_baseline` -/
def lookupLevels (feature : Feature) (latest : StampedRow K) (history : List (StampedRow K)) : List Relaxation → Baseline K
  | [] => ⟨0, 1, 0, .approx, contextOf upper latest, .coldStart⟩
  | level :: levels =>
    let zs := zValues upper feature latest history level
    if zs = [] then lookupLevels feature latest history levels
    else if minObsValid ≤ zs.length ∨ level = .unconditional then
      ⟨sampleMean zs, populationSd sqrt zs, zs.length, if minObsValid ≤ zs.length then .valid else .approx,
        contextOf upper latest, level⟩
    else lookupLevels feature latest history levels

def lookupBaseline (feature : Feature) (latest : StampedRow K) (history : List (StampedRow K)) : Baseline K :=
  lookupLevels sqrt upper feature latest history [.exact, .eventDays, .event, .unconditional]

variable [FloorRing K]

structure FeatureRow (K : Type*) where
  value : Option K
  z : Option K
  bucket : Option Bucket
  deltaZ1h : Option K
  pct : Option ℤ
  signal : Option Signal
  expectedZ : Baseline K
  vsExpected : Option DeltaLabel

/-- The slope over the rows of the last hour, a missing z-score as zero -/
def recentSlope (feature : Feature) (latest : StampedRow K) (history : List (StampedRow K)) : Option K :=
  let recent := history.filter fun r => latest.timestamp - deltaWindow ≤ r.timestamp
  if 12 ≤ recent.length then deltaZ1h (minutesFrom (recent.map fun r => (r.timestamp, (r.z feature).getD 0))) 12 else none

def buildFeatureRow (feature : Feature) (latest : StampedRow K) (history : List (StampedRow K)) : FeatureRow K :=
  let value := latest.value feature
  let z := latest.z feature
  let stamped := latest.stamp feature
  let pctValue := stamped.pct <|> value.bind fun v => pct v (history.filterMap (·.value feature))
  let expected := lookupBaseline sqrt upper feature latest history
  { value := value.map (roundTo · 2)
    z := z.map (roundTo · 2)
    bucket := stamped.bucket <|> z.map fun z => bucket z (history.filterMap (·.z feature))
    deltaZ1h := (stamped.deltaZ1h <|> z.bind fun _ => recentSlope feature latest history).map (roundTo · 2)
    pct := pctValue
    signal := stamped.signal <|> z.map fun z => signal z pctValue
    expectedZ := expected
    vsExpected := z.map fun z => interpretDelta feature (z - expected.mu) }

/-- The entry `regime` of the line, under the keys of `_lookup_regime` -/
structure RegimePayload where
  id : ℕ
  name : String
  family : String
  actionDefault : String
  asymmetryNote : String
  intensityCount : ℕ
  deriving DecidableEq

/-- `_lookup_regime` -/
def regimePayload (p : Pattern) : RegimePayload :=
  let row := lookupRegime p
  ⟨row.regimeId, row.regimeName, row.family, row.actionDefault, row.asymmetryNote, row.intensityCount⟩

/-- `regime.get("regime_name")`: the name stands under `name`. -/
def RegimePayload.getRegimeName (_ : RegimePayload) : Option String := none

structure VsExpected (K : Type*) where
  feature : Feature
  deltaSigma : K
  label : DeltaLabel

inductive Modifier | asymmetricCalendar | alert | stop | monitor
  deriving DecidableEq

/-- The text of the action: half the size or all of it, and what to do -/
structure Action where
  halfSize : Bool
  modifier : Modifier
  deriving DecidableEq

def criticalPatterns : List Pattern :=
  [(.doublePlus, .doublePlus, .doubleMinus), (.doublePlus, .doublePlus, .minus), (.doubleMinus, .doublePlus, .doublePlus)]

def buildAction (jointPattern : Option Pattern) (regime : Option RegimePayload) (dominantSignal : Option Signal)
    (vsExpectedLabel : Option DeltaLabel) (eventDampener : Bool) : Action :=
  ⟨eventDampener,
    if vsExpectedLabel = some .underpriced ∧ dominantSignal = some .strong then .asymmetricCalendar
    else if dominantSignal = some .tail then .alert
    else if jointPattern.any fun p => p ∈ criticalPatterns then .stop
    else if (regime.bind RegimePayload.getRegimeName) = some "unmapped_extreme" then .alert
    else .monitor⟩

structure Synthesis (K : Type*) where
  jointPattern : Option Pattern
  regime : Option RegimePayload
  dominant : Option Feature
  vsExpected : Option (VsExpected K)
  action : Action

def features : List Feature := [.volLevel, .volOfVol, .termSlope]

/-- The features that have a z-score, the first of the largest ones -/
def dominantOf (row : Feature → FeatureRow K) : Option Feature :=
  (features.filter fun f => (row f).z.isSome).argmax fun f => |(row f).z.getD 0|

def buildSynthesis (row : Feature → FeatureRow K) (latest : StampedRow K) : Synthesis K :=
  let jointPattern := (row .volLevel).bucket.bind fun bl => (row .volOfVol).bucket.bind fun bv =>
    (row .termSlope).bucket.map fun bs => (bl, bv, bs)
  let regime := jointPattern.map regimePayload
  let dominant := dominantOf row
  let vsExpected := dominant.bind fun f => (row f).z.map fun z =>
    let delta := z - (row f).expectedZ.mu
    ⟨f, roundTo delta 2, interpretDelta f delta⟩
  ⟨jointPattern, regime, dominant, vsExpected,
    buildAction jointPattern regime (dominant.bind fun f => (row f).signal) (vsExpected.map (·.label)) latest.eventDampener⟩

structure FeaturesPayload (K : Type*) where
  timestamp : ℤ
  features : Feature → FeatureRow K
  synthesis : Synthesis K

def buildFeaturesPayload (table : List (StampedRow K)) : Option (FeaturesPayload K) :=
  (newestFirst (·.timestamp) table).head?.map fun latest =>
    let history := (table.filter fun r => latest.timestamp - ninetyDays ≤ r.timestamp ∧ r.timestamp ≤ latest.timestamp).insertionSort
      fun a b => a.timestamp ≤ b.timestamp
    let row := fun f => buildFeatureRow sqrt upper f latest history
    ⟨latest.timestamp, row, buildSynthesis row latest⟩

section Baseline
omit [FloorRing K]
variable (feature : Feature) (latest : StampedRow K) (history : List (StampedRow K))

theorem agrees_mono (c c' : Context) :
    [Relaxation.exact, .eventDays, .event, .unconditional].Pairwise fun l l' => l.agrees c c' = true → l'.agrees c c' = true := by
  simp only [List.pairwise_cons, Relaxation.agrees, List.mem_cons, List.not_mem_nil, or_false, forall_eq_or_imp, forall_eq,
    decide_eq_true_eq, IsEmpty.forall_iff, implies_true, List.Pairwise.nil, and_true]
  refine ⟨⟨?_, ?_⟩, ?_⟩
  · rintro rfl
    exact ⟨rfl, rfl⟩
  · rintro rfl
    rfl
  · exact And.left

omit [Field K] [LinearOrder K] in
/-- Each level takes the rows of the one before. -/
theorem zValues_mono : [Relaxation.exact, .eventDays, .event, .unconditional].Pairwise fun l l' =>
    (zValues upper feature latest history l).length ≤ (zValues upper feature latest history l').length := by
  have hall : ∀ r : StampedRow K, [Relaxation.exact, .eventDays, .event, .unconditional].Pairwise fun l l' =>
      l.agrees (contextOf upper latest) (contextOf upper r) = true →
        l'.agrees (contextOf upper latest) (contextOf upper r) = true := fun r => agrees_mono _ _
  have hpairs : [Relaxation.exact, .eventDays, .event, .unconditional].Pairwise fun l l' => ∀ r : StampedRow K,
      l.agrees (contextOf upper latest) (contextOf upper r) = true →
        l'.agrees (contextOf upper latest) (contextOf upper r) = true :=
    List.pairwise_iff_getElem.mpr fun i j hi hj hij r => List.pairwise_iff_getElem.mp (hall r) i j hi hj hij
  exact hpairs.imp fun h => ((List.monotone_filter_right history h).filterMap _).length_le

omit [Field K] [LinearOrder K] in
theorem zValues_unconditional : zValues upper feature latest history .unconditional = history.filterMap (·.z feature) := by
  have hall : history.filter (fun r => Relaxation.unconditional.agrees (contextOf upper latest) (contextOf upper r)) =
      history := List.filter_eq_self.mpr fun _ _ => rfl
  rw [zValues, hall]

omit [Field K] [LinearOrder K] in
theorem mem_zValues {level : Relaxation} {z : K} (h : z ∈ zValues upper feature latest history level) :
    z ∈ history.filterMap (·.z feature) :=
  (List.filter_sublist.filterMap _).subset h

def levelBaseline (level : Relaxation) : Baseline K :=
  let zs := zValues upper feature latest history level
  ⟨sampleMean zs, populationSd sqrt zs, zs.length, if minObsValid ≤ zs.length then .valid else .approx,
    contextOf upper latest, level⟩

/-- A level that has enough values, or is the last of all, and no level that has enough has fewer -/
structure IsChosen (levels : List Relaxation) (level : Relaxation) : Prop where
  mem : level ∈ levels
  values : zValues upper feature latest history level ≠ []
  enough : minObsValid ≤ (zValues upper feature latest history level).length ∨ level = .unconditional
  specific : ∀ level' ∈ levels, minObsValid ≤ (zValues upper feature latest history level').length →
    (zValues upper feature latest history level).length ≤ (zValues upper feature latest history level').length

variable {upper feature latest history}

omit [Field K] [LinearOrder K] in
theorem IsChosen.skip {levels : List Relaxation} {level first : Relaxation}
    (h : IsChosen upper feature latest history levels level)
    (hfew : ¬ minObsValid ≤ (zValues upper feature latest history first).length) :
    IsChosen upper feature latest history (first :: levels) level where
  mem := List.mem_cons_of_mem _ h.mem
  values := h.values
  enough := h.enough
  specific := by
    intro level' hlevel' henough
    rcases List.mem_cons.mp hlevel' with rfl | hlevel'
    · exact absurd henough hfew
    · exact h.specific level' hlevel' henough

omit [LinearOrder K] in
/-- Where there are values at all, the loop stops at a level. -/
theorem exists_isChosen {levels : List Relaxation} (hlast : .unconditional ∈ levels)
    (hmono : levels.Pairwise fun l l' =>
      (zValues upper feature latest history l).length ≤ (zValues upper feature latest history l').length)
    (hall : history.filterMap (·.z feature) ≠ []) :
    ∃ level, IsChosen upper feature latest history levels level ∧
      lookupLevels sqrt upper feature latest history levels = levelBaseline sqrt upper feature latest history level := by
  induction levels with
  | nil => exact absurd hlast List.not_mem_nil
  | cons first levels ih =>
    obtain ⟨hfirst, hrest⟩ := List.pairwise_cons.mp hmono
    by_cases hnil : zValues upper feature latest history first = []
    · have hne : first ≠ .unconditional := by
        rintro rfl
        exact hall ((zValues_unconditional upper feature latest history).symm.trans hnil)
      obtain ⟨level, hchosen, hlevel⟩ := ih ((List.mem_cons.mp hlast).resolve_left hne.symm) hrest
      refine ⟨level, hchosen.skip (by simp [hnil, minObsValid]), ?_⟩
      rw [lookupLevels, ← hlevel]
      exact if_pos hnil
    · by_cases hstop : minObsValid ≤ (zValues upper feature latest history first).length ∨ first = .unconditional
      · refine ⟨first, ⟨List.mem_cons_self, hnil, hstop, ?_⟩, ?_⟩
        · intro level' hlevel' _
          rcases List.mem_cons.mp hlevel' with rfl | hlevel'
          · exact le_rfl
          · exact hfirst level' hlevel'
        · rw [lookupLevels]
          exact (if_neg hnil).trans (if_pos hstop)
      · obtain ⟨hfew, hne⟩ := not_or.mp hstop
        obtain ⟨level, hchosen, hlevel⟩ := ih ((List.mem_cons.mp hlast).resolve_left (Ne.symm hne)) hrest
        refine ⟨level, hchosen.skip hfew, ?_⟩
        rw [lookupLevels, ← hlevel]
        exact (if_neg hnil).trans (if_neg hstop)

variable (upper feature latest history)

omit [LinearOrder K] in
theorem lookupLevels_nil {levels : List Relaxation} (hnil : history.filterMap (·.z feature) = []) :
    lookupLevels sqrt upper feature latest history levels = ⟨0, 1, 0, .approx, contextOf upper latest, .coldStart⟩ := by
  induction levels with
  | nil => rfl
  | cons first levels ih =>
    have hzs : zValues upper feature latest history first = [] :=
      List.eq_nil_iff_forall_not_mem.mpr fun z hz => List.not_mem_nil (hnil ▸ mem_zValues upper feature latest history hz)
    rw [lookupLevels, ← ih]
    exact if_pos hzs

theorem sampleMean_mem_Icc [IsStrictOrderedRing K] {zs : List K} (hne : zs ≠ []) {low high : K}
    (h : ∀ z ∈ zs, z ∈ Set.Icc low high) : sampleMean zs ∈ Set.Icc low high := by
  have hlength : (0 : K) < zs.length := by simpa [List.length_pos_iff] using hne
  constructor
  · rw [sampleMean, le_div_iff₀ hlength, mul_comm, ← nsmul_eq_mul]
    exact List.card_nsmul_le_sum zs low fun z hz => (h z hz).1
  · rw [sampleMean, div_le_iff₀ hlength, mul_comm, ← nsmul_eq_mul]
    exact List.sum_le_card_nsmul zs high fun z hz => (h z hz).2

/-- The baseline of a feature is valid just when the history has enough of its z-scores; it is the mean of those of the most
specific context that has enough, and lies between them. -/
theorem lookupBaseline_spec [IsStrictOrderedRing K] (feature : Feature) (latest : StampedRow K)
    (history : List (StampedRow K)) :
    let b := lookupBaseline sqrt upper feature latest history
    let all := history.filterMap (·.z feature)
    (b.status = .valid ↔ minObsValid ≤ all.length) ∧
      b.nObs = (if all = [] then 0 else (zValues upper feature latest history b.relaxation).length) ∧
      (∀ level ∈ [Relaxation.exact, .eventDays, .event, .unconditional],
        minObsValid ≤ (zValues upper feature latest history level).length →
          minObsValid ≤ b.nObs ∧ b.nObs ≤ (zValues upper feature latest history level).length) ∧
      ∀ low high : K, all ≠ [] → (∀ z ∈ all, z ∈ Set.Icc low high) → b.mu ∈ Set.Icc low high := by
  intro b all
  have hle (level : Relaxation) : (zValues upper feature latest history level).length ≤ all.length :=
    (List.filter_sublist.filterMap _).length_le
  by_cases hall : all = []
  · have hb : b = ⟨0, 1, 0, .approx, contextOf upper latest, .coldStart⟩ := lookupLevels_nil sqrt upper feature latest history hall
    have hnone (level : Relaxation) : ¬ minObsValid ≤ (zValues upper feature latest history level).length := by
      have hzero := hle level
      rw [hall, List.length_nil] at hzero
      rw [Nat.le_zero.mp hzero]
      decide
    refine ⟨?_, by rw [hb, if_pos hall], fun level _ henough => absurd henough (hnone level), fun _ _ hne => absurd hall hne⟩
    rw [hb, hall]
    exact iff_of_false (by simp) (by simp [minObsValid])
  · obtain ⟨level, hchosen, hlevel⟩ := exists_isChosen sqrt (by simp) (zValues_mono upper feature latest history) hall
    have hb : b = levelBaseline sqrt upper feature latest history level := hlevel
    have hunconditional : zValues upper feature latest history .unconditional = all :=
      zValues_unconditional upper feature latest history
    have henough : minObsValid ≤ all.length → minObsValid ≤ (zValues upper feature latest history level).length := by
      intro hmany
      rcases hchosen.enough with henough | rfl
      · exact henough
      · rwa [hunconditional]
    refine ⟨?_, ?_, ?_, ?_⟩
    · rw [hb, levelBaseline]
      simp only
      constructor
      · intro hvalid
        split_ifs at hvalid with hmany
        exact hmany.trans (hle level)
      · intro hmany
        rw [if_pos (henough hmany)]
    · rw [hb, if_neg hall]
      rfl
    · intro level' hlevel' hmany
      rw [hb]
      exact ⟨henough (hmany.trans (hle level')), hchosen.specific level' hlevel' hmany⟩
    · intro low high _ hrange
      rw [hb]
      exact sampleMean_mem_Icc hchosen.values fun z hz => hrange z (mem_zValues upper feature latest history hz)

end Baseline

/-- The modifier is an alert for a dominant feature in its tail and for nothing else: not for a pattern without a regime. -/
theorem buildAction_alert (jointPattern : Option Pattern) (regime : Option RegimePayload) (dominantSignal : Option Signal)
    (vsExpectedLabel : Option DeltaLabel) (eventDampener : Bool) :
    (buildAction jointPattern regime dominantSignal vsExpectedLabel eventDampener).modifier = .alert ↔
      dominantSignal = some .tail := by
  have hname : ¬ (regime.bind RegimePayload.getRegimeName) = some "unmapped_extreme" := by
    cases regime <;> simp [RegimePayload.getRegimeName]
  rw [buildAction, if_neg hname]
  simp only
  by_cases htail : dominantSignal = some .tail
  · have hstrong : ¬ (vsExpectedLabel = some .underpriced ∧ dominantSignal = some .strong) := by
      rintro ⟨-, h⟩
      rw [htail] at h
      cases h
    rw [if_neg hstrong, if_pos htail]
    exact iff_of_true rfl htail
  · rw [if_neg htail]
    refine iff_of_false ?_ htail
    split_ifs <;> simp

theorem buildAction_stop {jointPattern : Option Pattern} {regime : Option RegimePayload} {dominantSignal : Option Signal}
    {vsExpectedLabel : Option DeltaLabel} {eventDampener : Bool}
    (h : (buildAction jointPattern regime dominantSignal vsExpectedLabel eventDampener).modifier = .stop) :
    ∃ p ∈ criticalPatterns, jointPattern = some p := by
  rw [buildAction] at h
  simp only at h
  split_ifs at h with _ _ hcritical
  obtain ⟨p, hp, hmem⟩ := Option.any_eq_true _ _ |>.mp hcritical
  exact ⟨p, of_decide_eq_true hmem, hp⟩

omit [FloorRing K] in
theorem dominantOf_eq_some {row : Feature → FeatureRow K} {f : Feature} (h : dominantOf row = some f) :
    ∃ z, (row f).z = some z ∧ ∀ (f' : Feature) (z' : K), (row f').z = some z' → |z'| ≤ |z| := by
  obtain ⟨z, hz⟩ := Option.isSome_iff_exists.mp (List.mem_filter.mp (List.argmax_mem h)).2
  refine ⟨z, hz, ?_⟩
  intro f' z' hz'
  have hmem : f' ∈ features.filter fun f => (row f).z.isSome :=
    List.mem_filter.mpr ⟨by cases f' <;> simp [features], by rw [hz']; rfl⟩
  have hle := List.le_of_mem_argmax hmem h
  rwa [hz, hz'] at hle

omit [FloorRing K] in
theorem dominantOf_eq_none {row : Feature → FeatureRow K} (h : dominantOf row = none) (f : Feature) : (row f).z = none := by
  have hnil := List.argmax_eq_none.mp h
  by_contra hz
  have hmem : f ∈ features.filter fun f => (row f).z.isSome :=
    List.mem_filter.mpr ⟨by cases f <;> simp [features], Option.isSome_iff_ne_none.mpr hz⟩
  rw [hnil] at hmem
  exact List.not_mem_nil hmem

/-- The panel is that of the latest row, with half the size just when its dampener is on.  Its dominant feature is one with
no larger z-score beside it, its regime the base pattern that the buckets collapse to.  It alerts for a dominant feature in
its tail, and not for a pattern that has no regime; it stops for the critical patterns only. -/
theorem buildFeaturesPayload_synthesis (table : List (StampedRow K)) {payload : FeaturesPayload K}
    (h : buildFeaturesPayload sqrt upper table = some payload) :
    (∃ latest ∈ table, (∀ r ∈ table, r.timestamp ≤ latest.timestamp) ∧ payload.timestamp = latest.timestamp ∧
      payload.synthesis.action.halfSize = latest.eventDampener) ∧
    (∀ f, payload.synthesis.dominant = some f → ∃ z, (payload.features f).z = some z ∧
      ∀ (f' : Feature) (z' : K), (payload.features f').z = some z' → |z'| ≤ |z|) ∧
    (payload.synthesis.dominant = none → ∀ f, (payload.features f).z = none) ∧
    (∀ p, payload.synthesis.jointPattern = some p → payload.synthesis.regime.map (·.id) =
      some (((basePatterns.find? fun b => b.pattern = collapse p).map (·.regimeId)).getD 99)) ∧
    (payload.synthesis.action.modifier = .alert ↔
      ∃ f, payload.synthesis.dominant = some f ∧ (payload.features f).signal = some .tail) ∧
    (payload.synthesis.action.modifier = .stop → ∃ p ∈ criticalPatterns, payload.synthesis.jointPattern = some p) := by
  obtain ⟨latest, hlatest, rfl⟩ := Option.map_eq_some_iff.mp h
  refine ⟨⟨latest, mem_of_head? hlatest, le_of_head? hlatest, rfl, rfl⟩, ?_, ?_, ?_, ?_, buildAction_stop⟩
  · exact fun f => dominantOf_eq_some
  · exact dominantOf_eq_none
  · intro p hp
    have hregime : ∀ pattern : Option Pattern, pattern = some p → (pattern.map regimePayload).map (·.id) =
        some (((basePatterns.find? fun b => b.pattern = collapse p).map (·.regimeId)).getD 99) := by
      rintro _ rfl
      simp only [Option.map_some, regimePayload, lookupRegime_eq]
      cases basePatterns.find? fun b => b.pattern = collapse p <;> rfl
    exact hregime _ hp
  · refine (buildAction_alert _ _ _ _ _).trans ?_
    rw [Option.bind_eq_some_iff]
    exact Iff.rfl

end Panel

def hourlyRow (i : ℕ) : StampedRow ℚ where
  timestamp := i * 3600000000
  label := .calm
  value := fun _ => some (10 + i)
  z
    | .volLevel => some (i / 20 - 1)
    | .volOfVol => some (1 - i / 20)
    | .termSlope => none
  probabilities := none
  eventDampener := false
  daysToNextEvent := some 1
  nextEventType := some (if i % 2 = 0 then "ECB" else "NFP")
  stamp := fun _ => .empty

def hourly : List (StampedRow ℚ) := (List.range 50).map hourlyRow

def tailRow : StampedRow ℚ :=
  { hourlyRow 50 with
    label := .stressed
    z
      | .volLevel => some 3
      | .volOfVol => some 2
      | .termSlope => some (1 / 2)
    eventDampener := true }

/-- Half of the rows are before the event of the latest, and too few of them at its time of the day. -/
theorem lookupBaseline_spec_hourly :
    let b := lookupBaseline Rat.sqrt id .volLevel tailRow hourly
    b.status = .valid ∧ minObsValid ≤ b.nObs ∧ b.nObs ≤ 25 ∧ b.mu ∈ Set.Icc (-1 : ℚ) 2 := by
  obtain ⟨hvalid, -, hlevels, hrange⟩ := lookupBaseline_spec Rat.sqrt id .volLevel tailRow hourly
  have hevent : (zValues id .volLevel tailRow hourly .eventDays).length = 25 := by decide +kernel
  obtain ⟨henough, hmost⟩ := hlevels .eventDays (by simp) (by rw [hevent]; decide)
  refine ⟨hvalid.mpr (by decide +kernel), henough, hevent ▸ hmost, hrange (-1) 2 (by decide +kernel) ?_⟩
  decide +kernel

/-- The panel alerts for the vol level, the larger of the two. -/
theorem buildFeaturesPayload_synthesis_tail : ∃ payload,
    buildFeaturesPayload Rat.sqrt id (hourly ++ [tailRow]) = some payload ∧
    payload.synthesis.regime.map (·.id) = some 12 ∧ payload.synthesis.action.modifier = .alert ∧
    ∃ z, (payload.features .volLevel).z = some z ∧
      ∀ (f : Feature) (z' : ℚ), (payload.features f).z = some z' → |z'| ≤ |z| := by
  have hshown : (buildFeaturesPayload Rat.sqrt id (hourly ++ [tailRow])).map (fun payload =>
      (payload.synthesis.dominant, payload.synthesis.jointPattern, (payload.features .volLevel).signal)) =
      some (some .volLevel, some (.doublePlus, .doublePlus, .zero), some .tail) := by
    decide +kernel
  obtain ⟨payload, hpayload, heq⟩ := Option.map_eq_some_iff.mp hshown
  obtain ⟨hlevel, hpattern, htail⟩ : _ ∧ _ ∧ _ := by simpa only [Prod.mk.injEq] using heq
  obtain ⟨-, hdominant, -, hregime, halert, -⟩ :=
    buildFeaturesPayload_synthesis Rat.sqrt id (hourly ++ [tailRow]) hpayload
  exact ⟨payload, hpayload, hregime _ hpattern, halert.mpr ⟨.volLevel, hlevel, htail⟩, hdominant .volLevel hlevel⟩

end FxVol.RegimeFeatures
