import FxVol.GuardedRuns
import FxVol.KeyedLog
import FxVol.NewestFirst
import FxVol.Numerals
import FxVol.PcaOrientation
import FxVol.PublishedViews

/-!
# The history of the smile

The analytics engine samples the surface that the vol engine has published, at most once in a while, and the DB writer stores
the samples.  From the latest of them it computes the skews and convexities that the vol engine measures its own against,
and publishes them under a time to live; on its inline path the vol engine computes them itself, and keeps them for as long
as no newer sample is in the table.  Instants are microseconds.
-/
namespace FxVol.SurfaceHistory

open scoped Numerals
open GuardedRuns KeyedLog NewestFirst PcaOrientation PublishedViews

section Samples
variable {K : Type*} [Field K]

/-- What `latest_vol_surface` holds: the vols by the positions of `TENORS` and `DELTAS`, and the `butterfly_g_min` of the
tenors that have one -/
structure SurfacePayload (K : Type*) where
  iv : Fin 6 → Fin 5 → Option K
  butterflyGMin : List K

def featureVectorFromSurface (surface : SurfacePayload K) : Option (Features K) :=
  let iv (c : Fin 30) : Option K :=
    let p := (finProdFinEquiv (m := 6) (n := 5)).symm c
    surface.iv p.1 p.2
  if ∀ c, (iv c).isSome then some fun c => (iv c).getD 0 * 100 else none

def anyButterflyViolation [LinearOrder K] (surface : SurfacePayload K) : Bool := surface.butterflyGMin.any (· < 0)

/-- A row of `pca_surface_snapshot_history` of one symbol -/
structure SnapshotRow (K : Type*) extends Snapshot K where
  spotAtSnapshot : Option K
  nStrikesPresent : ℕ
  hasNoArbViolation : Bool

def latestTimestamp (rows : List (SnapshotRow K)) : Option ℤ := (newestFirst (·.timestamp) rows).head?.map (·.timestamp)

def pc3SnapshotLimit : ℕ := 200

def latestVectors (rows : List (SnapshotRow K)) : List (Features K) :=
  (clean (((newestFirst (·.timestamp) rows).take pc3SnapshotLimit).map (·.toSnapshot))).map Prod.snd

/-- `hist_skew` and `hist_convex` -/
def pc3Arrays (vectors : List (Features K)) : List K × List K :=
  (vectors.map fun x => (pc3SubMetrics x).1, vectors.map fun x => (pc3SubMetrics x).2)

/-- What `_recompute_pc3_history` publishes -/
structure Pc3History (K : Type*) where
  fitTimestamp : ℤ
  latestSnapshotTs : Option ℤ
  skew : List K
  convex : List K

end Samples

/-- `PCA_SNAPSHOT_INTERVAL_MIN` with its factor of 0.9 -/
structure Interval where
  gap : ℤ
  pos : 0 < gap

def Interval.hourly : Interval := ⟨54 * 60 * 1000000, by decide⟩

def ttlVolSurface : ℤ := 600 * 1000000

def ttlAnalytics : ℤ := 2 * 60 * 60 * 1000000

/-- A vector that `_collect_snapshot` has in hand, with the time of its cycle -/
structure Sample (K : Type*) where
  now : ℤ
  x : Features K
  violation : Bool

/-- The published surface with its expiry; the sample in hand, the rows on their way and in the table; the published history;
and of the inline path the timestamp that it has probed, its memo, and what it has answered beside what the table had. -/
structure World (K : Type*) where
  clock : ℤ
  surface : Option (SurfacePayload K × ℤ)
  sample : Option (Sample K)
  pending : List (SnapshotRow K)
  rows : List (SnapshotRow K)
  channel : Channel (Pc3History K)
  probe : Option (Option ℤ)
  memo : Option (Option ℤ × (List K × List K))
  answers : List ((List K × List K) × (List K × List K))

def World.start {K : Type*} : World K := ⟨0, none, none, [], [], .empty, none, none, []⟩

/-- `look` and `collect` are the steps of `_collect_snapshot` before and after its query, `readRows` and `publish` those of
`_recompute_pc3_history`, `probe` and `inline` the two queries of the inline path. -/
inductive Event (K : Type*)
  | publishSurface (surface : SurfacePayload K)
  | look
  | collect (spot : Option K)
  | readRows
  | publish
  | analyticsFail
  | land (k : ℕ)
  | lose (k : ℕ)
  | probe
  | inline
  | volFail
  | volRestart
  | wait (d : ℕ)

section System
variable {K : Type*} [Field K] (interval : Interval) (numeric : K → K)

def World.liveSurface (w : World K) : Option (SurfacePayload K) :=
  (w.surface.filter fun s => w.clock < s.2).map Prod.fst

def World.look [LinearOrder K] (w : World K) : World K :=
  { w with sample := w.liveSurface.bind fun surface =>
      (featureVectorFromSurface surface).map fun x => ⟨w.clock, x, anyButterflyViolation surface⟩ }

def Sample.row (s : Sample K) (spot : Option K) : SnapshotRow K :=
  ⟨⟨s.now, fun c => some (s.x c)⟩, spot, 30, s.violation⟩

/-- The rest of `_collect_snapshot`: a sample too soon after the latest row is dropped. -/
def World.collect (w : World K) (spot : Option K) : World K :=
  match w.sample with
  | none => w
  | some s =>
    if ∃ last ∈ latestTimestamp w.rows, s.now - last < interval.gap then { w with sample := none }
    else { w with sample := none, pending := w.pending ++ [s.row spot] }

def SnapshotRow.stored (row : SnapshotRow K) : SnapshotRow K := { row with iv := fun c => (row.iv c).map numeric }

/-- The writer stores a row, in any order; `ON CONFLICT (symbol, timestamp) DO NOTHING`. -/
def World.land (w : World K) (k : ℕ) : World K :=
  match w.pending[k]? with
  | none => w
  | some row => { w with pending := w.pending.eraseIdx k, rows := record (·.timestamp) w.rows (row.stored numeric) }

/-- What `_recompute_pc3_history` computes -/
def World.pc3History (w : World K) : Pc3History K :=
  let arrays := pc3Arrays (latestVectors w.rows)
  ⟨w.clock, latestTimestamp w.rows, arrays.1, arrays.2⟩

/-- `_read_pc3_history_from_analytics` -/
def World.readPc3History (w : World K) : List K × List K :=
  ((w.channel.read w.clock).map fun h => (h.skew, h.convex)).getD ([], [])

/-- The probe of the latest timestamp; where the memo has it, the memo answers. -/
def World.probeLatest (w : World K) : World K :=
  match w.memo with
  | some (key, arrays) =>
    if key = latestTimestamp w.rows then
      { w with answers := w.answers ++ [(arrays, pc3Arrays (latestVectors w.rows))] }
    else { w with probe := some (latestTimestamp w.rows) }
  | none => { w with probe := some (latestTimestamp w.rows) }

/-- The second query, which fills the memo -/
def World.inline (w : World K) : World K :=
  match w.probe with
  | none => w
  | some key =>
    let arrays := pc3Arrays (latestVectors w.rows)
    { w with probe := none, memo := some (key, arrays), answers := w.answers ++ [(arrays, arrays)] }

def step [LinearOrder K] (w : World K) : Event K → World K
  | .publishSurface surface => { w with surface := some (surface, w.clock + ttlVolSurface) }
  | .look => w.look
  | .collect spot => w.collect interval spot
  | .readRows => { w with channel := w.channel.look w.pc3History }
  | .publish => { w with channel := w.channel.write w.clock ttlAnalytics }
  | .analyticsFail => { w with sample := none, channel := w.channel.drop }
  | .land k => w.land numeric k
  | .lose k => { w with pending := w.pending.eraseIdx k }
  | .probe => w.probeLatest
  | .inline => w.inline
  | .volFail => { w with probe := none }
  | .volRestart => { w with probe := none, memo := none }
  | .wait d => { w with clock := w.clock + d }

def run [LinearOrder K] (es : List (Event K)) : World K := es.foldl (step interval numeric) .start

theorem mem_clean {rows : List (Snapshot K)} {p : Instant × Features K} (h : p ∈ clean rows) :
    ∃ r ∈ rows, r.timestamp = p.1 ∧ r.iv = fun c => some (p.2 c) := by
  obtain ⟨r, hr, rfl⟩ := List.mem_map.mp h
  obtain ⟨hmem, hall⟩ := List.mem_filter.mp hr
  have hall : ∀ c, (r.iv c).isSome := of_decide_eq_true hall
  refine ⟨r, hmem, rfl, ?_⟩
  funext c
  obtain ⟨v, hv⟩ := Option.isSome_iff_exists.mp (hall c)
  change r.iv c = some ((r.iv c).getD 0)
  rw [hv]
  rfl

theorem mem_latestVectors {rows : List (SnapshotRow K)} {v : Features K} (h : v ∈ latestVectors rows) :
    ∃ r ∈ rows, r.iv = fun c => some (v c) := by
  obtain ⟨p, hp, rfl⟩ := List.mem_map.mp h
  obtain ⟨r', hr', -, hiv⟩ := mem_clean hp
  obtain ⟨r, hr, rfl⟩ := List.mem_map.mp hr'
  exact ⟨r, (newestFirst_perm _ _).mem_iff.mp (List.mem_of_mem_take hr), hiv⟩

theorem probeLatest_table (w : World K) :
    w.probeLatest.sample = w.sample ∧ w.probeLatest.pending = w.pending ∧ w.probeLatest.rows = w.rows := by
  unfold World.probeLatest
  split
  · split <;> exact ⟨rfl, rfl, rfl⟩
  · exact ⟨rfl, rfl, rfl⟩

theorem inline_table (w : World K) :
    w.inline.sample = w.sample ∧ w.inline.pending = w.pending ∧ w.inline.rows = w.rows := by
  unfold World.inline
  split <;> exact ⟨rfl, rfl, rfl⟩

variable {interval numeric} [LinearOrder K]

/-- The vector of a complete surface that was live at the time -/
def Origin (interval : Interval) (numeric : K → K) (es : List (Event K)) (now : ℤ) (x : Features K) : Prop :=
  ∃ past surface, past <+: es ∧ (run interval numeric past).clock = now ∧
    (run interval numeric past).liveSurface = some surface ∧ featureVectorFromSurface surface = some x

theorem Origin.mono {es es' : List (Event K)} {now : ℤ} {x : Features K} (h : Origin interval numeric es now x)
    (hle : es <+: es') : Origin interval numeric es' now x := by
  obtain ⟨past, surface, hpast, hrest⟩ := h
  exact ⟨past, surface, hpast.trans hle, hrest⟩

/-- Each row is a sample, and each sample a surface that was live. -/
structure Genuine (interval : Interval) (numeric : K → K) (es : List (Event K)) (w : World K) : Prop where
  sample : ∀ s, w.sample = some s → Origin interval numeric es s.now s.x
  pending : ∀ r ∈ w.pending, ∃ x, Origin interval numeric es r.timestamp x ∧ r.iv = fun c => some (x c)
  rows : ∀ r ∈ w.rows, ∃ x, Origin interval numeric es r.timestamp x ∧ r.iv = fun c => some (numeric (x c))

namespace Genuine
variable {es : List (Event K)} {w : World K}

theorem mono {es' : List (Event K)} (h : Genuine interval numeric es w) (hle : es <+: es') :
    Genuine interval numeric es' w := by
  refine ⟨fun s hs => (h.sample s hs).mono hle, ?_, ?_⟩
  · intro r hr
    obtain ⟨x, horigin, hiv⟩ := h.pending r hr
    exact ⟨x, horigin.mono hle, hiv⟩
  · intro r hr
    obtain ⟨x, horigin, hiv⟩ := h.rows r hr
    exact ⟨x, horigin.mono hle, hiv⟩

theorem look (h : Genuine interval numeric es w) (hw : ∀ surface x, w.liveSurface = some surface →
    featureVectorFromSurface surface = some x → Origin interval numeric es w.clock x) :
    Genuine interval numeric es w.look := by
  refine ⟨?_, h.pending, h.rows⟩
  intro s hs
  obtain ⟨surface, hlive, hsample⟩ := Option.bind_eq_some_iff.mp hs
  obtain ⟨x, hx, rfl⟩ := Option.map_eq_some_iff.mp hsample
  exact hw surface x hlive hx

theorem collect (h : Genuine interval numeric es w) (spot : Option K) :
    Genuine interval numeric es (w.collect interval spot) := by
  rw [World.collect]
  cases hs : w.sample with
  | none => exact h
  | some s =>
    simp only
    split
    case isTrue => exact ⟨by simp, h.pending, h.rows⟩
    case isFalse =>
      refine ⟨by simp, ?_, h.rows⟩
      intro r hr
      rcases List.mem_append.mp hr with hr | hr
      · exact h.pending r hr
      · obtain rfl := List.mem_singleton.mp hr
        exact ⟨s.x, h.sample s hs, rfl⟩

theorem land (h : Genuine interval numeric es w) (k : ℕ) : Genuine interval numeric es (w.land numeric k) := by
  rw [World.land]
  cases hk : w.pending[k]? with
  | none => exact h
  | some row =>
    refine ⟨h.sample, fun r hr => h.pending r (List.mem_of_mem_eraseIdx hr), ?_⟩
    intro r hr
    rcases mem_record.mp hr with hr | ⟨rfl, -⟩
    · exact h.rows r hr
    · obtain ⟨x, horigin, hiv⟩ := h.pending row (List.mem_of_getElem? hk)
      refine ⟨x, horigin, ?_⟩
      funext c
      simp [SnapshotRow.stored, hiv]

theorem congr {w' : World K} (h : Genuine interval numeric es w) (hsample : w'.sample = w.sample)
    (hpending : w'.pending = w.pending) (hrows : w'.rows = w.rows) : Genuine interval numeric es w' :=
  ⟨hsample ▸ h.sample, hpending ▸ h.pending, hrows ▸ h.rows⟩

end Genuine

theorem run_concat (interval : Interval) (numeric : K → K) (es : List (Event K)) (e : Event K) :
    run interval numeric (es ++ [e]) = step interval numeric (run interval numeric es) e := List.foldl_concat ..

theorem Genuine.run (es : List (Event K)) : Genuine interval numeric es (run interval numeric es) := by
  induction es using List.reverseRecOn with
  | nil => exact ⟨by simp [SurfaceHistory.run, World.start], by simp [SurfaceHistory.run, World.start],
      by simp [SurfaceHistory.run, World.start]⟩
  | append_singleton es e ih =>
    have h := ih.mono (List.prefix_append es [e])
    rw [run_concat]
    cases e with
    | publishSurface surface => exact h.congr rfl rfl rfl
    | look =>
      refine h.look ?_
      intro surface x hlive hx
      exact ⟨es, surface, List.prefix_append es _, rfl, hlive, hx⟩
    | collect spot => exact h.collect spot
    | readRows => exact h.congr rfl rfl rfl
    | publish => exact h.congr rfl rfl rfl
    | analyticsFail => exact ⟨by simp [step], h.pending, h.rows⟩
    | land k => exact h.land k
    | lose k => exact ⟨h.sample, fun r hr => h.pending r (List.mem_of_mem_eraseIdx hr), h.rows⟩
    | probe => exact h.congr (probeLatest_table _).1 (probeLatest_table _).2.1 (probeLatest_table _).2.2
    | inline => exact h.congr (inline_table _).1 (inline_table _).2.1 (inline_table _).2.2
    | volFail => exact h.congr rfl rfl rfl
    | volRestart => exact h.congr rfl rfl rfl
    | wait d => exact h.congr rfl rfl rfl

theorem touched (w : World K) (e : Event K) : Touched (·.channel) (fun w : World K => some w.pc3History) (·.clock)
    ttlAnalytics w (step interval numeric w e).channel := by
  cases e with
  | collect spot =>
    have hsame : (w.collect interval spot).channel = w.channel := by
      unfold World.collect
      split
      · rfl
      · split <;> rfl
    rw [step, hsame]
    exact .kept
  | land k =>
    have hsame : (w.land numeric k).channel = w.channel := by
      unfold World.land
      split <;> rfl
    rw [step, hsame]
    exact .kept
  | probe =>
    have hsame : w.probeLatest.channel = w.channel := by
      unfold World.probeLatest
      split
      · split <;> rfl
      · rfl
    rw [step, hsame]
    exact .kept
  | inline =>
    have hsame : w.inline.channel = w.channel := by
      unfold World.inline
      split <;> rfl
    rw [step, hsame]
    exact .kept
  | readRows => exact .looked _ rfl
  | publish => exact .written
  | analyticsFail => exact .dropped
  | publishSurface surface => exact .kept
  | look => exact .kept
  | lose k => exact .kept
  | volFail => exact .kept
  | volRestart => exact .kept
  | wait d => exact .kept

/-- Over any run, what the vol engine reads of the history is nothing, or what its inline path would have computed afresh at
an earlier moment, published no longer ago than the time to live; it comes from complete surfaces that were live when they
were sampled, as the columns of the table keep them. -/
theorem served_history (es : List (Event K)) :
    (run interval numeric es).readPc3History = ([], []) ∨ ∃ past mid, past <+: mid ∧ mid <+: es ∧
      (run interval numeric es).clock < (run interval numeric mid).clock + ttlAnalytics ∧
      (run interval numeric es).readPc3History = pc3Arrays (latestVectors (run interval numeric past).rows) ∧
      ∀ v ∈ latestVectors (run interval numeric past).rows, ∃ now x, Origin interval numeric past now x ∧
        v = fun c => numeric (x c) := by
  cases hread : (run interval numeric es).channel.read (run interval numeric es).clock with
  | none =>
    left
    rw [World.readPc3History, hread]
    rfl
  | some h =>
    right
    have htraced : Traced (step interval numeric) (·.channel) (fun w : World K => some w.pc3History) (·.clock) ttlAnalytics
        (World.start : World K) es := .run (by rfl) touched es
    obtain ⟨past, mid, hpast, hmid, hview, hlive⟩ := htraced.read hread
    obtain rfl := Option.some.inj hview
    refine ⟨past, mid, hpast, hmid, hlive, ?_, ?_⟩
    · rw [World.readPc3History, hread]
      rfl
    · intro v hv
      obtain ⟨r, hr, hiv⟩ := mem_latestVectors hv
      obtain ⟨x, horigin, hstored⟩ := (Genuine.run past).rows r hr
      refine ⟨r.timestamp, x, horigin, ?_⟩
      funext c
      exact Option.some.inj (congrFun (hiv.symm.trans hstored) c)

omit [Field K] [LinearOrder K] in
theorem le_latestTimestamp {rows : List (SnapshotRow K)} {r : SnapshotRow K} (hr : r ∈ rows) :
    ∃ t, latestTimestamp rows = some t ∧ r.timestamp ≤ t := by
  cases hhead : (newestFirst (·.timestamp) rows).head? with
  | none =>
    rw [head?_eq_none.mp hhead] at hr
    exact absurd hr List.not_mem_nil
  | some latest => exact ⟨latest.timestamp, by rw [latestTimestamp, hhead]; rfl, le_of_head? hhead r hr⟩

omit [Field K] [LinearOrder K] in
theorem mem_of_latestTimestamp {rows : List (SnapshotRow K)} {t : ℤ} (h : latestTimestamp rows = some t) :
    ∃ r ∈ rows, r.timestamp = t := by
  obtain ⟨latest, hhead, ht⟩ := Option.map_eq_some_iff.mp h
  exact ⟨latest, mem_of_head? hhead, ht⟩

def InOrder (w : World K) : Event K → Prop
  | .land k => ∀ row ∈ w.pending[k]?, ∀ r ∈ w.rows, r.timestamp ≤ row.timestamp
  | _ => True

instance InOrder.decidable (w : World K) : ∀ e, Decidable (InOrder w e)
  | .land k => inferInstanceAs (Decidable (∀ row ∈ w.pending[k]?, ∀ r ∈ w.rows, r.timestamp ≤ row.timestamp))
  | .publishSurface _ | .look | .collect _ | .readRows | .publish | .analyticsFail | .lose _ | .probe | .inline
  | .volFail | .volRestart | .wait _ => .isTrue trivial

/-- A timestamp that the table has reached -/
def Reached (rows : List (SnapshotRow K)) (key : Option ℤ) : Prop := ∀ t ∈ key, ∃ r ∈ rows, t ≤ r.timestamp

omit [Field K] [LinearOrder K] in
theorem reached_latestTimestamp (rows : List (SnapshotRow K)) : Reached rows (latestTimestamp rows) := by
  intro t ht
  obtain ⟨r, hr, rfl⟩ := mem_of_latestTimestamp ht
  exact ⟨r, hr, le_rfl⟩

/-- The memo is what the table has, as long as the table has its timestamp for the latest. -/
structure Fresh (w : World K) : Prop where
  memo : ∀ key arrays, w.memo = some (key, arrays) → Reached w.rows key ∧
    (key = latestTimestamp w.rows → arrays = pc3Arrays (latestVectors w.rows))
  probe : ∀ key, w.probe = some key → Reached w.rows key
  answers : ∀ a ∈ w.answers, a.1 = a.2

namespace Fresh
variable {w : World K}

omit [LinearOrder K] in
theorem land (h : Fresh w) (k : ℕ) (hin : ∀ row ∈ w.pending[k]?, ∀ r ∈ w.rows, r.timestamp ≤ row.timestamp) :
    Fresh (w.land numeric k) := by
  rw [World.land]
  cases hk : w.pending[k]? with
  | none => exact h
  | some row =>
    have hle : ∀ r ∈ w.rows, r.timestamp ≤ row.timestamp := hin row hk
    simp only
    by_cases hseen : (row.stored numeric).timestamp ∈ w.rows.map (·.timestamp)
    · rw [record_seen hseen]
      exact ⟨h.memo, h.probe, h.answers⟩
    · rw [record_new hseen]
      have hlt : ∀ r ∈ w.rows, r.timestamp < row.timestamp := by
        intro r hr
        exact lt_of_le_of_ne (hle r hr) fun heq => hseen (List.mem_map.mpr ⟨r, hr, heq⟩)
      have hreached : ∀ key, Reached w.rows key → Reached (w.rows ++ [row.stored numeric]) key := by
        intro key hkey t ht
        obtain ⟨r, hr, hrt⟩ := hkey t ht
        exact ⟨r, List.mem_append_left _ hr, hrt⟩
      refine ⟨?_, fun key hkey => hreached key (h.probe key hkey), h.answers⟩
      intro key arrays hmemo
      have hkey := (h.memo key arrays hmemo).1
      refine ⟨hreached key hkey, ?_⟩
      -- the new row is the latest, and newer than the key
      rintro rfl
      have hnew : row.stored numeric ∈ w.rows ++ [row.stored numeric] := by simp
      obtain ⟨t, ht, hrow⟩ := le_latestTimestamp hnew
      obtain ⟨r, hr, hrt⟩ := hkey t ht
      exact absurd (hrow.trans hrt) (not_le.mpr (hlt r hr))

omit [LinearOrder K] in
theorem probeLatest (h : Fresh w) : Fresh w.probeLatest := by
  have hmiss : Fresh { w with probe := some (latestTimestamp w.rows) } := by
    refine ⟨h.memo, ?_, h.answers⟩
    intro key hkey
    obtain rfl := Option.some.inj hkey
    exact reached_latestTimestamp w.rows
  unfold World.probeLatest
  split
  · next key arrays hmemo =>
    split
    case isTrue hkey =>
      refine ⟨h.memo, h.probe, ?_⟩
      intro a ha
      rcases List.mem_append.mp ha with ha | ha
      · exact h.answers a ha
      · obtain rfl := List.mem_singleton.mp ha
        exact (h.memo key arrays hmemo).2 hkey
    case isFalse => exact hmiss
  · exact hmiss

omit [LinearOrder K] in
theorem inline (h : Fresh w) : Fresh w.inline := by
  rw [World.inline]
  cases hprobe : w.probe with
  | none => exact h
  | some key =>
    refine ⟨?_, by simp, ?_⟩
    · intro key' arrays hmemo
      obtain ⟨rfl, rfl⟩ := Prod.mk.inj (Option.some.inj hmemo)
      exact ⟨h.probe key hprobe, fun _ => rfl⟩
    · intro a ha
      rcases List.mem_append.mp ha with ha | ha
      · exact h.answers a ha
      · obtain rfl := List.mem_singleton.mp ha
        rfl

omit [LinearOrder K] in
theorem congr {w' : World K} (h : Fresh w) (hrows : w'.rows = w.rows) (hmemo : w'.memo = w.memo) (hprobe : w'.probe = w.probe)
    (hanswers : w'.answers = w.answers) : Fresh w' := by
  refine ⟨?_, ?_, hanswers ▸ h.answers⟩
  · rw [hrows, hmemo]
    exact h.memo
  · rw [hrows, hprobe]
    exact h.probe

theorem step (h : Fresh w) (e : Event K) (hin : InOrder w e) : Fresh (step interval numeric w e) := by
  cases e with
  | collect spot =>
    have hsame : (w.collect interval spot).rows = w.rows ∧ (w.collect interval spot).memo = w.memo ∧
        (w.collect interval spot).probe = w.probe ∧ (w.collect interval spot).answers = w.answers := by
      unfold World.collect
      split
      · exact ⟨rfl, rfl, rfl, rfl⟩
      · split <;> exact ⟨rfl, rfl, rfl, rfl⟩
    exact h.congr hsame.1 hsame.2.1 hsame.2.2.1 hsame.2.2.2
  | land k => exact h.land k hin
  | probe => exact h.probeLatest
  | inline => exact h.inline
  | volFail => exact ⟨h.memo, by simp [SurfaceHistory.step], h.answers⟩
  | volRestart => exact ⟨by simp [SurfaceHistory.step], by simp [SurfaceHistory.step], h.answers⟩
  | publishSurface surface => exact h.congr rfl rfl rfl rfl
  | look => exact h.congr rfl rfl rfl rfl
  | readRows => exact h.congr rfl rfl rfl rfl
  | publish => exact h.congr rfl rfl rfl rfl
  | analyticsFail => exact h.congr rfl rfl rfl rfl
  | lose k => exact h.congr rfl rfl rfl rfl
  | wait d => exact h.congr rfl rfl rfl rfl

end Fresh

/-- Where the rows land in the order of their timestamps, whatever is lost, the inline path answers from its memo what the table
has. -/
theorem inline_history (es : List (Event K)) (h : Guarded (step interval numeric) InOrder .start es) :
    ∀ a ∈ (run interval numeric es).answers, a.1 = a.2 := by
  have hstart : Fresh (World.start : World K) := ⟨by simp [World.start], by simp [World.start], by simp [World.start]⟩
  have hfresh : Fresh (run interval numeric es) := (Run.of_foldl es h).invariant (fun _ e hw he => hw.step e he) hstart
  exact hfresh.answers

/-- A sample is taken when none is on its way to the table. -/
def Prompt (w : World K) : Event K → Prop
  | .collect _ => w.pending = []
  | _ => True

instance Prompt.decidable (w : World K) : ∀ e, Decidable (Prompt w e)
  | .collect _ => decidable_of_iff (w.pending.isEmpty = true) List.isEmpty_iff
  | .publishSurface _ | .look | .readRows | .publish | .analyticsFail | .land _ | .lose _ | .probe | .inline
  | .volFail | .volRestart | .wait _ => .isTrue trivial

/-- The rows lie apart, and so does the one on its way. -/
structure Spaced (interval : Interval) (w : World K) : Prop where
  rows : w.rows.Pairwise fun a b => a.timestamp + interval.gap ≤ b.timestamp
  pending : w.pending = [] ∨ ∃ row, w.pending = [row] ∧ ∀ r ∈ w.rows, r.timestamp + interval.gap ≤ row.timestamp

namespace Spaced
variable {w : World K}

omit [Field K] [LinearOrder K] in
theorem erase (h : Spaced interval w) (k : ℕ) : Spaced interval { w with pending := w.pending.eraseIdx k } := by
  refine ⟨h.rows, ?_⟩
  rcases h.pending with hnone | ⟨row, hone, happart⟩
  · left
    simp [hnone]
  · cases k with
    | zero =>
      left
      simp [hone]
    | succ k =>
      right
      exact ⟨row, by simp [hone], happart⟩

omit [Field K] [LinearOrder K] in
theorem collect (h : Spaced interval w) (spot : Option K) (hpending : w.pending = []) :
    Spaced interval (w.collect interval spot) := by
  rw [World.collect]
  cases hs : w.sample with
  | none => exact h
  | some s =>
    simp only
    split
    case isTrue => exact ⟨h.rows, h.pending⟩
    case isFalse hsoon =>
      refine ⟨h.rows, .inr ⟨s.row spot, by simp [hpending], ?_⟩⟩
      intro r hr
      obtain ⟨last, hlast, hle⟩ := le_latestTimestamp hr
      have hfar : ¬ s.now - last < interval.gap := fun hlt => hsoon ⟨last, hlast, hlt⟩
      have hnow : (s.row spot).timestamp = s.now := rfl
      rw [hnow]
      exact (add_le_add_left hle _).trans (by linarith [not_lt.mp hfar])

omit [Field K] [LinearOrder K] in
theorem inOrder (h : Spaced interval w) (k : ℕ) :
    ∀ row ∈ w.pending[k]?, ∀ r ∈ w.rows, r.timestamp + interval.gap ≤ row.timestamp := by
  intro row hrow
  have hmem : row ∈ w.pending := List.mem_of_getElem? hrow
  rcases h.pending with hnone | ⟨row', hone, happart⟩
  · rw [hnone] at hmem
    exact absurd hmem List.not_mem_nil
  · rw [hone] at hmem
    obtain rfl := List.mem_singleton.mp hmem
    exact happart

omit [Field K] [LinearOrder K] in
theorem land (h : Spaced interval w) (k : ℕ) : Spaced interval (w.land numeric k) := by
  rw [World.land]
  cases hk : w.pending[k]? with
  | none => exact h
  | some row =>
    have hone : w.pending.eraseIdx k = [] := by
      rcases h.pending with hnone | ⟨row', hone, -⟩
      · simp [hnone]
      · rw [hone] at hk ⊢
        cases k with
        | zero => rfl
        | succ k => simp at hk
    refine ⟨?_, .inl hone⟩
    simp only
    by_cases hseen : (row.stored numeric).timestamp ∈ w.rows.map (·.timestamp)
    · rw [record_seen hseen]
      exact h.rows
    · rw [record_new hseen, List.pairwise_append]
      refine ⟨h.rows, List.pairwise_singleton _ _, ?_⟩
      intro r hr row' hrow'
      obtain rfl := List.mem_singleton.mp hrow'
      exact h.inOrder k row hk r hr

omit [Field K] [LinearOrder K] in
theorem congr {w' : World K} (h : Spaced interval w) (hrows : w'.rows = w.rows) (hpending : w'.pending = w.pending) :
    Spaced interval w' := by
  refine ⟨hrows ▸ h.rows, ?_⟩
  rw [hrows, hpending]
  exact h.pending

theorem step (h : Spaced interval w) (e : Event K) (hprompt : Prompt w e) :
    Spaced interval (step interval numeric w e) := by
  cases e with
  | collect spot => exact h.collect spot hprompt
  | land k => exact h.land k
  | lose k => exact h.erase k
  | probe => exact h.congr (probeLatest_table w).2.2 (probeLatest_table w).2.1
  | inline => exact h.congr (inline_table w).2.2 (inline_table w).2.1
  | publishSurface surface => exact h.congr rfl rfl
  | look => exact h.congr rfl rfl
  | readRows => exact h.congr rfl rfl
  | publish => exact h.congr rfl rfl
  | analyticsFail => exact h.congr rfl rfl
  | volFail => exact h.congr rfl rfl
  | volRestart => exact h.congr rfl rfl
  | wait d => exact h.congr rfl rfl

omit [Field K] [LinearOrder K] in
theorem start : Spaced interval (World.start : World K) := ⟨List.Pairwise.nil, .inl rfl⟩

end Spaced

/-- Where a sample is taken only when none is on its way, the rows of the table lie the interval apart, and land in the order
of their timestamps. -/
theorem snapshots_spaced (es : List (Event K)) (h : Guarded (step interval numeric) Prompt .start es) :
    ((run interval numeric es).rows.Pairwise fun a b => a.timestamp + interval.gap ≤ b.timestamp) ∧
      Guarded (step interval numeric) InOrder .start es := by
  constructor
  · have hspaced : Spaced interval (run interval numeric es) :=
      (Run.of_foldl es h).invariant (fun _ e hw he => hw.step e he) .start
    exact hspaced.rows
  · refine Guarded.imp (I := Spaced interval) (C := fun _ => True) ?_ .start (fun _ _ => trivial) h
    intro w e _ hw hprompt
    refine ⟨?_, hw.step e hprompt⟩
    cases e with
    | land k =>
      intro row hrow r hr
      have hapart := hw.inOrder k row hrow r hr
      have hpos := interval.pos
      linarith
    | _ => trivial

end System

def flatSurface : SurfacePayload ℚ := ⟨fun _ _ => some (1 / 10), []⟩

/-- Two samples, an hour apart, and three answers of the inline path, the last one from its memo -/
def twoSamples : List (Event ℚ) :=
  [.publishSurface flatSurface, .look, .collect none, .land 0, .probe, .inline, .wait 3600000000,
    .publishSurface flatSurface, .look, .collect none, .land 0, .probe, .inline, .probe]

theorem snapshots_spaced_two : (run .hourly id twoSamples).rows.length = 2 ∧
    (run .hourly id twoSamples).rows.Pairwise fun a b => a.timestamp + Interval.hourly.gap ≤ b.timestamp := by
  refine ⟨by decide +kernel, ?_⟩
  exact (snapshots_spaced twoSamples (by decide +kernel)).1

theorem inline_history_two : (run .hourly id twoSamples).answers.length = 3 ∧
    ∀ a ∈ (run .hourly id twoSamples).answers, a.1 = a.2 := by
  refine ⟨by decide +kernel, ?_⟩
  exact inline_history twoSamples (by decide +kernel)

end FxVol.SurfaceHistory
