import FxVol.GroupedRows
import FxVol.GuardedRuns
import FxVol.PositionMarks

/-!
# The daily rollup

`portfolio_daily` has a row for each UTC day with samples of the account: net liquidation at its open
and its close, the change since the close before, and what the positions closed that day realised.
-/
namespace FxVol.DailyRollups

open GroupedRows GuardedRuns

/-- A row of `account_history` -/
structure AccountSample where
  timestamp : Instant
  netLiqUsd : Option ℚ
  deriving DecidableEq

/-- A closed row of `booked_position` -/
structure PositionClose where
  closedAt : Instant
  netPnlUsd : Option ℚ
  deriving DecidableEq

structure History where
  samples : List AccountSample
  closes : List PositionClose

def History.append (h h' : History) : History := ⟨h.samples ++ h'.samples, h.closes ++ h'.closes⟩

structure DailySample where
  day : ℤ
  netLiqOpen : ℚ
  firstSampleAt : Instant
  netLiqClose : ℚ
  lastSampleAt : Instant
  nSamples : ℕ
  deriving DecidableEq

namespace DailySample

def first (x : Instant × ℚ) : DailySample := ⟨dateOrdinal x.1, x.2, x.1, x.2, x.1, 1⟩

def next (s : DailySample) (x : Instant × ℚ) : DailySample :=
  { s with netLiqClose := x.2, lastSampleAt := x.1, nSamples := s.nSamples + 1 }

end DailySample

/-- The samples that have a value, in the order of time -/
def ordered (samples : List AccountSample) : List (Instant × ℚ) :=
  (samples.filterMap fun s => s.netLiqUsd.map fun x => (s.timestamp, x)).insertionSort fun x y => x.1 ≤ y.1

/-- The samples of a day, in the order of time -/
def byDay : Grouping (Instant × ℚ) DailySample ℤ where
  key x := dateOrdinal x.1
  keyOf := DailySample.day
  start := DailySample.first
  extend := DailySample.next
  start_key _ := rfl
  extend_key _ _ := rfl

def daily (xs : List (Instant × ℚ)) : List DailySample := byDay.groupsOf xs

/-- `_daily_samples_portable` -/
def dailySamples (samples : List AccountSample) (start stop : ℤ) : List DailySample :=
  daily ((ordered samples).filter fun x => start ≤ dateOrdinal x.1 ∧ dateOrdinal x.1 ≤ stop)

/-- What the closes of a day realised, and how many there were -/
def realizedOn (closes : List PositionClose) (day : ℤ) : ℚ × ℕ :=
  let pnls := (closes.filter fun k => dateOrdinal k.closedAt = day).filterMap (·.netPnlUsd)
  (pnls.sum, pnls.length)

def realizedByDay (closes : List PositionClose) (start stop day : ℤ) : ℚ × ℕ :=
  realizedOn (closes.filter fun k => start ≤ dateOrdinal k.closedAt ∧ dateOrdinal k.closedAt ≤ stop) day

structure DailyRow where
  day : ℤ
  netLiqOpen : ℚ
  netLiqClose : ℚ
  mtmUsd : Option ℚ
  realizedUsd : ℚ
  nClosed : ℕ
  nSamples : ℕ
  firstSampleAt : Instant
  lastSampleAt : Instant
  deriving DecidableEq

def dailyRow (realized : ℤ → ℚ × ℕ) (prevClose : Option ℚ) (s : DailySample) : DailyRow where
  day := s.day
  netLiqOpen := s.netLiqOpen
  netLiqClose := s.netLiqClose
  mtmUsd := prevClose.map (s.netLiqClose - ·)
  realizedUsd := pyRound (realized s.day).1 2
  nClosed := (realized s.day).2
  nSamples := s.nSamples
  firstSampleAt := s.firstSampleAt
  lastSampleAt := s.lastSampleAt

def dailyRows (realized : ℤ → ℚ × ℕ) : Option ℚ → List DailySample → List DailyRow :=
  chain (dailyRow realized) (·.netLiqClose)

def backfillDays : ℕ := 400

def rollingDays : ℕ := 3

/-- The first day that a call refreshes -/
def windowStart (table : List DailyRow) (days : Option ℕ) (now : Instant) : ℤ :=
  dateOrdinal now - ((days.getD (if table = [] then backfillDays else rollingDays) : ℕ) - 1)

def refreshPortfolioDaily (h : History) (table : List DailyRow) (days : Option ℕ) (now : Instant) :
    List DailyRow :=
  let today := dateOrdinal now
  let start := windowStart table days now
  let samples := dailySamples h.samples start today
  if samples = [] then table
  else
    upsert (·.day)
      (dailyRows (realizedByDay h.closes start today) (lastBefore (·.day) (·.netLiqClose) start table)
        samples) table

/-- The clock, what was recorded up to the last call and since, and the table -/
structure World where
  clock : Instant
  settled : History
  fresh : History
  table : List DailyRow

def World.history (w : World) : History := w.settled.append w.fresh

/-- What happens that long after what happened before: a sample, maybe late, a close or a call. -/
inductive Event
  | sample (elapsed late : ℕ) (netLiqUsd : Option ℚ)
  | close (elapsed : ℕ) (netPnlUsd : Option ℚ)
  | refresh (elapsed : ℕ) (days : Option ℕ)
  deriving DecidableEq

namespace World

def start (clock : Instant) : World := ⟨clock, ⟨[], []⟩, ⟨[], []⟩, []⟩

def step (w : World) : Event → World
  | .sample elapsed late netLiqUsd =>
    { w with
      clock := w.clock + elapsed
      fresh := { w.fresh with samples := w.fresh.samples ++ [⟨w.clock + elapsed - late, netLiqUsd⟩] } }
  | .close elapsed netPnlUsd =>
    { w with
      clock := w.clock + elapsed
      fresh := { w.fresh with closes := w.fresh.closes ++ [⟨w.clock + elapsed, netPnlUsd⟩] } }
  | .refresh elapsed days =>
    { clock := w.clock + elapsed
      settled := w.history
      fresh := ⟨[], []⟩
      table := refreshPortfolioDaily w.history w.table days (w.clock + elapsed) }

end World

/-- A single computation over all that was recorded -/
def recompute (h : History) : List DailyRow := dailyRows (realizedOn h.closes) none (daily (ordered h.samples))

/-- The daily changes add up to the change from the first close to the last. -/
def Telescopes (table : List DailyRow) : Prop := ∀ a ∈ table, ∀ b ∈ table,
  (∀ r ∈ table, a.day ≤ r.day ∧ r.day ≤ b.day) →
    (table.map fun r => r.mtmUsd.getD 0).sum = b.netLiqClose - a.netLiqClose

structure UpToDate (w : World) : Prop where
  rows : w.table.Perm (recompute w.history)
  telescopes : Telescopes w.table

/-- What a call is to leave. -/
def Refreshed (w : World) : Event → Prop
  | .refresh elapsed days => UpToDate (w.step (.refresh elapsed days))
  | .sample .. | .close .. => True

/-- No day before the window of the call has a new sample, or a new close beside its samples. -/
def Covered (w : World) : Event → Prop
  | .refresh elapsed days =>
    let start := windowStart w.table days (w.clock + elapsed)
    (∀ s ∈ w.fresh.samples, s.netLiqUsd.isSome → start ≤ dateOrdinal s.timestamp) ∧
      ∀ k ∈ w.fresh.closes, k.netPnlUsd.isSome → dateOrdinal k.closedAt < start →
        ∀ s ∈ w.history.samples, s.netLiqUsd.isSome → dateOrdinal s.timestamp ≠ dateOrdinal k.closedAt
  | .sample .. | .close .. => True

section Days
variable {samples : List AccountSample} {closes : List PositionClose} {xs : List (Instant × ℚ)}

theorem dateOrdinal_mono {t u : Instant} (h : t ≤ u) : dateOrdinal t ≤ dateOrdinal u :=
  Int.add_le_add_right (Int.ediv_le_ediv (by norm_num) h) _

def values (samples : List AccountSample) : List (Instant × ℚ) :=
  samples.filterMap fun s => s.netLiqUsd.map fun x => (s.timestamp, x)

theorem mem_values {x : Instant × ℚ} :
    x ∈ values samples ↔ ∃ s ∈ samples, s.netLiqUsd = some x.2 ∧ s.timestamp = x.1 := by
  rw [values, List.mem_filterMap]
  constructor
  · rintro ⟨s, hs, hx⟩
    obtain ⟨y, hy, rfl⟩ := Option.map_eq_some_iff.mp hx
    exact ⟨s, hs, hy, rfl⟩
  · rintro ⟨s, hs, hy, ht⟩
    exact ⟨s, hs, Option.map_eq_some_iff.mpr ⟨x.2, hy, by rw [ht]⟩⟩

theorem ordered_perm (samples : List AccountSample) : (ordered samples).Perm (values samples) :=
  List.perm_insertionSort _ _

theorem ordered_filter (p : Instant × ℚ → Bool) :
    (ordered samples).filter p = ((values samples).filter p).insertionSort fun x y => x.1 ≤ y.1 :=
  haveI : Std.Total fun x y : Instant × ℚ => x.1 ≤ y.1 := ⟨fun _ _ => le_total _ _⟩
  haveI : IsTrans (Instant × ℚ) fun x y => x.1 ≤ y.1 := ⟨fun _ _ _ => le_trans⟩
  filter_insertionSort _ p _

theorem daily_increasing (xs : List (Instant × ℚ)) : Increasing DailySample.day (daily xs) :=
  Grouping.groupsOf_increasing (G := byDay) xs

theorem daily_filter (p : ℤ → Prop) [DecidablePred p] :
    daily (xs.filter fun x => p (dateOrdinal x.1)) = (daily xs).filter fun s => p s.day :=
  Grouping.groupsOf_filter (G := byDay) p xs

/-- The row of a day counts its samples. -/
theorem daily_count {s : DailySample} (h : s ∈ daily xs) :
    s.nSamples = (xs.filter fun x => dateOrdinal x.1 = s.day).length := by
  have hsummary : byDay.summary (xs.filter fun x => dateOrdinal x.1 = s.day) = some s :=
    ((Grouping.groupsOf_grouped xs).mem s).mp h
  have hfold : ∀ (ys : List (Instant × ℚ)) (g : DailySample),
      (ys.foldl DailySample.next g).nSamples = g.nSamples + ys.length := by
    intro ys
    induction ys with
    | nil => exact fun g => rfl
    | cons y ys ih =>
      intro g
      rw [List.foldl_cons, ih, List.length_cons]
      exact Nat.add_right_comm g.nSamples 1 ys.length
  cases hxs : xs.filter fun x => dateOrdinal x.1 = s.day with
  | nil =>
    rw [hxs] at hsummary
    cases hsummary
  | cons x ys =>
    rw [hxs] at hsummary
    rw [← Option.some.inj hsummary, List.length_cons]
    exact (hfold ys (DailySample.first x)).trans (Nat.add_comm 1 ys.length)

theorem realizedByDay_eq {start stop day : ℤ} (hstart : start ≤ day) (hstop : day ≤ stop) :
    realizedByDay closes start stop day = realizedOn closes day := by
  have hsame : (closes.filter fun k => start ≤ dateOrdinal k.closedAt ∧ dateOrdinal k.closedAt ≤ stop).filter
      (fun k => dateOrdinal k.closedAt = day) = closes.filter fun k => dateOrdinal k.closedAt = day := by
    rw [List.filter_filter]
    refine List.filter_congr fun k _ => ?_
    by_cases hk : dateOrdinal k.closedAt = day
    · simp [hk, hstart, hstop]
    · simp [hk]
  rw [realizedByDay, realizedOn, hsame]
  rfl

theorem realizedOn_append (closes' : List PositionClose) (day : ℤ) :
    (realizedOn (closes ++ closes') day).2 = (realizedOn closes day).2 + (realizedOn closes' day).2 := by
  simp [realizedOn]

/-- A new close of a day is counted. -/
theorem realizedOn_fresh {closes' : List PositionClose} {k : PositionClose} (hk : k ∈ closes')
    (hpnl : k.netPnlUsd.isSome) : (realizedOn closes (dateOrdinal k.closedAt)).2 <
      (realizedOn (closes ++ closes') (dateOrdinal k.closedAt)).2 := by
  obtain ⟨pnl, hpnl⟩ := Option.isSome_iff_exists.mp hpnl
  rw [realizedOn_append, realizedOn]
  dsimp only
  have hmem : pnl ∈ (closes'.filter fun c => dateOrdinal c.closedAt = dateOrdinal k.closedAt).filterMap
      (·.netPnlUsd) := List.mem_filterMap.mpr ⟨k, List.mem_filter.mpr ⟨hk, by simp⟩, hpnl⟩
  have hpos : 0 < (realizedOn closes' (dateOrdinal k.closedAt)).2 := List.length_pos_of_mem hmem
  exact Nat.lt_add_of_pos_right hpos

theorem realizedOn_stale {closes' : List PositionClose} {day : ℤ}
    (h : ∀ k ∈ closes', k.netPnlUsd.isSome → dateOrdinal k.closedAt ≠ day) :
    realizedOn (closes ++ closes') day = realizedOn closes day := by
  have hnone : (closes'.filter fun k => dateOrdinal k.closedAt = day).filterMap (·.netPnlUsd) = [] := by
    refine List.filterMap_eq_nil_iff.mpr fun k hk => ?_
    obtain ⟨hmem, hday⟩ := List.mem_filter.mp hk
    rw [← Option.not_isSome_iff_eq_none]
    exact fun hsome => h k hmem hsome (of_decide_eq_true hday)
  simp [realizedOn, hnone]

end Days

section Call
variable {h : History} {table : List DailyRow} {days : Option ℕ} {now : Instant}

theorem dailyRow_day (realized : ℤ → ℚ × ℕ) (before : Option ℚ) (s : DailySample) :
    (dailyRow realized before s).day = s.day := rfl

theorem dailyRow_close (realized : ℤ → ℚ × ℕ) (before : Option ℚ) (s : DailySample) :
    (dailyRow realized before s).netLiqClose = s.netLiqClose := rfl

/-- A call rewrites the days from the start of its window on. -/
theorem refresh_eq (hclock : ∀ x ∈ values h.samples, x.1 ≤ now) :
    refreshPortfolioDaily h table days now = upsert DailyRow.day
      (chain (dailyRow (realizedOn h.closes)) DailySample.netLiqClose
        (lastBefore DailyRow.day DailyRow.netLiqClose (windowStart table days now) table)
        ((daily (ordered h.samples)).filter fun s => windowStart table days now ≤ s.day)) table := by
  have htoday : ∀ s ∈ daily (ordered h.samples), s.day ≤ dateOrdinal now := by
    intro s hs
    obtain ⟨x, hx, hday⟩ := Grouping.mem_groupsOf_key hs
    have hle := hclock x ((ordered_perm h.samples).mem_iff.mp hx)
    change dateOrdinal x.1 = s.day at hday
    rw [← hday]
    exact dateOrdinal_mono hle
  have hsamples : dailySamples h.samples (windowStart table days now) (dateOrdinal now) =
      (daily (ordered h.samples)).filter fun s => windowStart table days now ≤ s.day := by
    rw [dailySamples, daily_filter fun d => windowStart table days now ≤ d ∧ d ≤ dateOrdinal now]
    refine List.filter_congr fun s hs => ?_
    simp [htoday s hs]
  simp only [refreshPortfolioDaily, hsamples]
  split_ifs with hnone
  · rw [hnone]
    simp [chain, upsert]
  · rw [dailyRows]
    congr 1
    refine chain_congr (fun s hs before => ?_) _
    obtain ⟨hmem, hle⟩ := List.mem_filter.mp hs
    rw [dailyRow, dailyRow, realizedByDay_eq (of_decide_eq_true hle) (htoday s hmem)]

/-- What two histories agree on before a day makes the same rows. -/
theorem rows_same_iff {old fresh : History} {k : ℤ} :
    chain (dailyRow (realizedOn old.closes)) DailySample.netLiqClose none
        ((daily (ordered old.samples)).filter fun s => s.day < k) =
      chain (dailyRow (realizedOn (old.append fresh).closes)) DailySample.netLiqClose none
        ((daily (ordered (old.append fresh).samples)).filter fun s => s.day < k) ↔
    (∀ s ∈ fresh.samples, s.netLiqUsd.isSome → k ≤ dateOrdinal s.timestamp) ∧
      ∀ c ∈ fresh.closes, c.netPnlUsd.isSome → dateOrdinal c.closedAt < k →
        ∀ s ∈ (old.append fresh).samples, s.netLiqUsd.isSome →
          dateOrdinal s.timestamp ≠ dateOrdinal c.closedAt := by
  have hvalues : values (old.append fresh).samples = values old.samples ++ values fresh.samples :=
    List.filterMap_append
  constructor
  · intro hsame
    -- the counts of the rows of a day before `k`
    have hcounts : ∀ x ∈ ordered (old.append fresh).samples, dateOrdinal x.1 < k →
        ((ordered old.samples).filter fun y => dateOrdinal y.1 = dateOrdinal x.1).length =
          ((ordered (old.append fresh).samples).filter fun y => dateOrdinal y.1 = dateOrdinal x.1).length ∧
        (realizedOn old.closes (dateOrdinal x.1)).2 =
          (realizedOn (old.append fresh).closes (dateOrdinal x.1)).2 := by
      intro x hx hbefore
      obtain ⟨s, hs, hday⟩ := Grouping.key_mem_groupsOf (G := byDay) hx
      change s.day = dateOrdinal x.1 at hday
      have hcols := congrArg (List.map fun r : DailyRow => (r.day, r.nSamples, r.nClosed)) hsame
      rw [chain_map (f := fun s : DailySample => (s.day, s.nSamples, (realizedOn old.closes s.day).2))
          fun _ _ => rfl,
        chain_map (f := fun s : DailySample =>
          (s.day, s.nSamples, (realizedOn (old.append fresh).closes s.day).2)) fun _ _ => rfl] at hcols
      have hmem : (s.day, s.nSamples, (realizedOn (old.append fresh).closes s.day).2) ∈
          ((daily (ordered (old.append fresh).samples)).filter fun s => s.day < k).map fun s =>
            (s.day, s.nSamples, (realizedOn (old.append fresh).closes s.day).2) :=
        List.mem_map.mpr ⟨s, List.mem_filter.mpr ⟨hs, by simpa [hday] using hbefore⟩, rfl⟩
      rw [← hcols] at hmem
      obtain ⟨s', hs', heq⟩ := List.mem_map.mp hmem
      obtain ⟨hs'day, hrest⟩ := Prod.mk.inj heq
      obtain ⟨hn, hclosed⟩ := Prod.mk.inj hrest
      rw [daily_count (List.mem_filter.mp hs').1, daily_count hs, hs'day, hday] at hn
      rw [hs'day, hday] at hclosed
      exact ⟨hn, hclosed⟩
    constructor
    · intro s hs hsome
      by_contra hbefore
      obtain ⟨y, hy⟩ := Option.isSome_iff_exists.mp hsome
      have hfresh : (s.timestamp, y) ∈ values fresh.samples := mem_values.mpr ⟨s, hs, hy, rfl⟩
      have hx : (s.timestamp, y) ∈ ordered (old.append fresh).samples := by
        rw [(ordered_perm _).mem_iff, hvalues]
        exact List.mem_append_right _ hfresh
      have hcount := (hcounts _ hx (not_le.mp hbefore)).1
      rw [((ordered_perm old.samples).filter _).length_eq,
        ((ordered_perm (old.append fresh).samples).filter _).length_eq, hvalues, List.filter_append,
        List.length_append] at hcount
      have hone : (s.timestamp, y) ∈
          (values fresh.samples).filter fun x => dateOrdinal x.1 = dateOrdinal s.timestamp :=
        List.mem_filter.mpr ⟨hfresh, by simp⟩
      have hpos := List.length_pos_of_mem hone
      dsimp only at hcount
      omega
    · intro c hc hpnl hbefore s hs hsome hday
      obtain ⟨y, hy⟩ := Option.isSome_iff_exists.mp hsome
      have hx : (s.timestamp, y) ∈ ordered (old.append fresh).samples :=
        (ordered_perm _).mem_iff.mpr (mem_values.mpr ⟨s, hs, hy, rfl⟩)
      have hclosed := (hcounts _ hx (by rw [hday]; exact hbefore)).2
      dsimp only at hclosed
      rw [hday] at hclosed
      exact (realizedOn_fresh hc hpnl).ne hclosed
  · rintro ⟨hsamples, hcloses⟩
    have hdays : ((daily (ordered (old.append fresh).samples)).filter fun s => s.day < k) =
        (daily (ordered old.samples)).filter fun s => s.day < k := by
      rw [← daily_filter (· < k), ← daily_filter (· < k), ordered_filter, ordered_filter, hvalues,
        List.filter_append]
      have hnone : (values fresh.samples).filter (fun x => dateOrdinal x.1 < k) = [] := by
        refine List.filter_eq_nil_iff.mpr fun x hx => ?_
        obtain ⟨s, hs, hy, ht⟩ := mem_values.mp hx
        have hle := hsamples s hs (Option.isSome_iff_exists.mpr ⟨_, hy⟩)
        rw [ht] at hle
        simpa using hle
      rw [hnone, List.append_nil]
    rw [hdays]
    refine chain_congr (fun s hs before => ?_) _
    obtain ⟨hmem, hbefore⟩ := List.mem_filter.mp hs
    obtain ⟨x, hx, hday⟩ := Grouping.mem_groupsOf_key hmem
    change dateOrdinal x.1 = s.day at hday
    obtain ⟨sample, hsample, hy, ht⟩ := mem_values.mp ((ordered_perm old.samples).mem_iff.mp hx)
    have hstale : realizedOn (old.append fresh).closes s.day = realizedOn old.closes s.day := by
      refine realizedOn_stale fun c hc hpnl hcday => ?_
      refine hcloses c hc hpnl (hcday ▸ of_decide_eq_true hbefore) sample (List.mem_append_left _ hsample)
        (Option.isSome_iff_exists.mpr ⟨_, hy⟩) ?_
      rw [ht, hday, hcday]
    rw [dailyRow, dailyRow, hstale]

end Call

theorem recompute_increasing (h : History) : Increasing DailyRow.day (recompute h) :=
  chain_increasing (dailyRow_day (realizedOn h.closes)) (daily_increasing _) none

/-- The changes of a single computation add up. -/
theorem recompute_telescopes (h : History) : Telescopes (recompute h) := by
  intro a ha b hb hbounds
  have hinc := recompute_increasing h
  have hunique : ∀ r ∈ recompute h, ∀ r' ∈ recompute h, r.day = r'.day → r = r' := fun r hr r' hr' hday =>
    List.inj_on_of_nodup_map hinc.nodup hr hr' hday
  cases hdays : daily (ordered h.samples) with
  | nil =>
    rw [recompute, hdays] at ha
    cases ha
  | cons s ss =>
    have hrows : recompute h = dailyRow (realizedOn h.closes) none s ::
        dailyRows (realizedOn h.closes) (some s.netLiqClose) ss := by
      rw [recompute, hdays]
      rfl
    -- the bounds are the first and the last row
    have hfirst : a.netLiqClose = s.netLiqClose := by
      have hhead : dailyRow (realizedOn h.closes) none s ∈ recompute h := hrows ▸ List.mem_cons_self
      have hle := (hbounds _ hhead).1
      rw [hrows] at ha hinc
      rcases List.mem_cons.mp ha with rfl | hlater
      · rfl
      · have hlt := (List.pairwise_cons.mp hinc).1 a hlater
        exact absurd hle (not_le.mpr hlt)
    have hlast : b.netLiqClose = (lastClose DailySample.netLiqClose (some s.netLiqClose) ss).getD s.netLiqClose := by
      have hcloses : (recompute h).map DailyRow.netLiqClose = (s :: ss).map DailySample.netLiqClose := by
        rw [recompute, hdays]
        exact chain_map (dailyRow_close (realizedOn h.closes)) none _
      have hend := congrArg List.getLast? hcloses
      rw [List.getLast?_map, ← hinc.argmax_eq (List.Perm.refl _), List.getLast?_map] at hend
      have hmax : (recompute h).argmax DailyRow.day = some b := by
        cases hmax : (recompute h).argmax DailyRow.day with
        | none =>
          rw [List.argmax_eq_none.mp hmax] at hb
          cases hb
        | some m =>
          have hm := List.argmax_mem hmax
          have hday := le_antisymm ((hbounds m hm).2) (List.le_of_mem_argmax hb hmax)
          rw [hunique m hm b hb hday]
      rw [hmax] at hend
      cases ss with
      | nil => simpa [lastClose] using hend
      | cons s' ss => simpa [lastClose, List.getLast?_eq_getLast_of_ne_nil] using hend
    have hsum : ((dailyRows (realizedOn h.closes) (some s.netLiqClose) ss).map fun r => r.mtmUsd.getD 0).sum =
        (lastClose DailySample.netLiqClose (some s.netLiqClose) ss).getD s.netLiqClose - s.netLiqClose :=
      chain_telescopes (fun _ _ => rfl) s.netLiqClose ss
    rw [hrows, List.map_cons, List.sum_cons, hsum, hfirst, hlast]
    exact zero_add _

theorem Telescopes.perm {rows table : List DailyRow} (hperm : table.Perm rows) (h : Telescopes rows) :
    Telescopes table := by
  intro a ha b hb hbounds
  rw [(hperm.map _).sum_eq]
  exact h a (hperm.mem_iff.mp ha) b (hperm.mem_iff.mp hb) fun r hr => hbounds r (hperm.mem_iff.mpr hr)

/-- The table is that of what was settled, and nothing is recorded ahead of the clock. -/
structure Settled (w : World) : Prop where
  rows : w.table.Perm (recompute w.settled)
  past : ∀ s ∈ w.history.samples, s.timestamp ≤ w.clock

theorem settled_start (clock : Instant) : Settled (.start clock) where
  rows := List.Perm.refl _
  past _ hs := nomatch hs

theorem refreshed_iff {w : World} (h : Settled w) (e : Event) : Refreshed w e ↔ Covered w e := by
  cases e with
  | sample | close => exact Iff.rfl
  | refresh elapsed days =>
    have hclock : ∀ x ∈ values w.history.samples, x.1 ≤ w.clock + elapsed := by
      intro x hx
      obtain ⟨s, hs, -, ht⟩ := mem_values.mp hx
      rw [← ht]
      exact (h.past s hs).trans (le_add_of_nonneg_right (Int.natCast_nonneg elapsed))
    have hkeys : ∀ s ∈ daily (ordered w.settled.samples),
        s.day ∈ (daily (ordered w.history.samples)).map DailySample.day := by
      intro s hs
      obtain ⟨x, hx, hday⟩ := Grouping.mem_groupsOf_key hs
      have hmem : x ∈ ordered w.history.samples := by
        rw [(ordered_perm _).mem_iff] at hx ⊢
        obtain ⟨sample, hsample, hy⟩ := mem_values.mp hx
        exact mem_values.mpr ⟨sample, List.mem_append_left _ hsample, hy⟩
      obtain ⟨s', hs', hday'⟩ := Grouping.key_mem_groupsOf (G := byDay) hmem
      exact List.mem_map.mpr ⟨s', hs', hday'.trans hday⟩
    have hperm := refresh_perm_iff (k := windowStart w.table days (w.clock + elapsed))
      (dailyRow_day (realizedOn w.history.closes)) (dailyRow_day (realizedOn w.settled.closes))
      (dailyRow_close (realizedOn w.history.closes)) (dailyRow_close (realizedOn w.settled.closes))
      (daily_increasing (ordered w.settled.samples)) (daily_increasing (ordered w.history.samples)) hkeys h.rows
    rw [← refresh_eq hclock] at hperm
    have hhistory : (w.step (.refresh elapsed days)).history = w.history := by
      simp [World.step, World.history, History.append]
    have hcovered : Covered w (.refresh elapsed days) ↔
        (w.step (.refresh elapsed days)).table.Perm (recompute (w.step (.refresh elapsed days)).history) := by
      rw [hhistory]
      exact (hperm.trans rows_same_iff).symm
    rw [hcovered, Refreshed]
    exact ⟨UpToDate.rows, fun hrows => ⟨hrows, Telescopes.perm hrows (recompute_telescopes _)⟩⟩

theorem Settled.step {w : World} (h : Settled w) {e : Event} (hq : Refreshed w e) : Settled (w.step e) := by
  cases e with
  | sample elapsed late netLiqUsd =>
    refine ⟨h.rows, fun s hs => ?_⟩
    have hclock : w.clock ≤ w.clock + elapsed := le_add_of_nonneg_right (Int.natCast_nonneg elapsed)
    have hcases : s ∈ w.history.samples ∨ s = ⟨w.clock + elapsed - late, netLiqUsd⟩ := by
      simpa [World.step, World.history, History.append, or_assoc] using hs
    rcases hcases with hs | rfl
    · exact (h.past s hs).trans hclock
    · exact Int.sub_le_self _ (Int.natCast_nonneg late)
  | close elapsed netPnlUsd =>
    exact ⟨h.rows, fun s hs => (h.past s hs).trans (le_add_of_nonneg_right (Int.natCast_nonneg elapsed))⟩
  | refresh elapsed days =>
    have hhistory : (w.step (.refresh elapsed days)).history = w.history := by
      simp [World.step, World.history, History.append]
    refine ⟨?_, fun s hs => ?_⟩
    · have hrows := hq.rows
      rwa [hhistory] at hrows
    · rw [hhistory] at hs
      exact (h.past s hs).trans (le_add_of_nonneg_right (Int.natCast_nonneg elapsed))

/-- Over any history and any schedule of calls each call leaves what a single computation over all that is
recorded gives, just when before each call nothing was added to a day that its window leaves out. -/
theorem rollup_iff (clock : Instant) (es : List Event) :
    (∀ past e, past ++ [e] <+: es → Refreshed (past.foldl World.step (.start clock)) e) ↔
      Guarded World.step Covered (.start clock) es :=
  guarded_iff_steps (I := Settled) (s := World.start clock) (fun _ _ h hq => h.step hq) (fun _ e h => refreshed_iff h e) (settled_start clock) es

instance (table : List DailyRow) : Decidable (Telescopes table) :=
  inferInstanceAs (Decidable (∀ a ∈ table, ∀ b ∈ table, _ → _))

instance (w : World) : Decidable (UpToDate w) :=
  decidable_of_iff (w.table.Perm (recompute w.history) ∧ Telescopes w.table)
    ⟨fun h => ⟨h.1, h.2⟩, fun h => ⟨h.rows, h.telescopes⟩⟩

def aDay : ℕ := 86400000000

/-- Noon of a day in March -/
def noon : Instant := 20529 * 86400000000 + 43200000000

/-- The engine is down for four days while the account is sampled. -/
def downtime : List Event :=
  [.sample 0 0 (some 100), .refresh 0 none, .sample aDay 0 (some 110), .sample aDay 0 (some 130),
    .sample aDay 0 (some 120), .sample aDay 0 (some 150), .refresh 0 none]

/-- The first day of the downtime never gets its row, and its change goes to the day after. -/
theorem day_lost :
    (downtime.foldl World.step (.start noon)).table.map (fun r => (r.netLiqClose, r.mtmUsd)) =
      [(100, none), (130, some 30), (120, some (-10)), (150, some 30)] ∧
    ¬ ∀ (clock : Instant) (es past : List Event) (e : Event), past ++ [e] <+: es →
      Refreshed (past.foldl World.step (.start clock)) e := by
  refine ⟨by decide +kernel, fun hall => ?_⟩
  have hlast : UpToDate ((downtime.dropLast.foldl World.step (.start noon)).step (.refresh 0 none)) :=
    hall noon downtime downtime.dropLast (.refresh 0 none) (List.prefix_refl _)
  revert hlast
  decide +kernel

end FxVol.DailyRollups
