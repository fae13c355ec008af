import FxVol.AlignedChanges
import FxVol.DailyRollups
import FxVol.SampleMoments
import FxVol.StructurePnl
import Mathlib.Data.Int.CardIntervalMod
import Mathlib.Data.Int.Interval
import Mathlib.Data.Nat.Size
import Mathlib.Data.Set.Finite.Lattice

/-!
# VaR from the account's history

`/var` falls back to the daily changes of net liquidation and leaves out the steps over more days than the configured
gap; the header shows a 99% VaR of the last 60 days that leaves none out.
-/
namespace FxVol.AccountVar

open AlignedChanges GroupedRows

/-- The columns of `portfolio_daily` the endpoints read -/
structure DailyRow where
  day : ℤ
  netLiqClose : Option ℚ
  computedAt : Instant

/-- `portfolio_daily` as it stands on a day: a row a day, and none ahead of it. -/
structure PortfolioDaily (today : ℤ) where
  rows : List DailyRow
  nodup : (rows.map (·.day)).Nodup
  past : ∀ r ∈ rows, r.day ≤ today

abbrev Close := ℤ × ℚ

def ordered (rows : List DailyRow) : List DailyRow := rows.insertionSort fun r r' => r.day ≤ r'.day

def closes (rows : List DailyRow) : List Close := rows.filterMap fun r => r.netLiqClose.map fun x => (r.day, x)

section Reads
variable {today : ℤ} (t : PortfolioDaily today)

def readPortfolioDaily (days : ℤ) : List DailyRow := ordered (t.rows.filter fun r => today - (days - 1) ≤ r.day)

/-- `read_nav_series`, the closes and when they were computed -/
def readNavSeries (days : ℤ) : List Close × Option Instant :=
  (closes (readPortfolioDaily t days), ((readPortfolioDaily t days).map (·.computedAt)).max?)

/-- All the daily closes there are, oldest first -/
def navSeries : List Close := closes (ordered t.rows)

end Reads

def percentile (sortedVals : List ℚ) (q : ℚ) : Option ℚ :=
  if sortedVals = [] then none else some (SampleMoments.quantile sortedVals q)

def sorted (vals : List ℚ) : List ℚ := vals.insertionSort (· ≤ ·)

def varMinObs : ℕ := 5

structure VarStats where
  var95 : ℚ
  var99 : ℚ
  es99 : ℚ

def varStats (deltas : List ℚ) : Option VarStats :=
  if deltas.length < varMinObs then none
  else
    match percentile (sorted deltas) (5 / 100), percentile (sorted deltas) (1 / 100) with
    | some var95, some var99 =>
      let tail := (sorted deltas).filter (· ≤ var99)
      some ⟨var95, var99, if tail = [] then var99 else tail.sum / tail.length⟩
    | _, _ => none

structure Bin where
  lo : ℚ
  hi : ℚ
  count : ℕ

/-- `_histogram` with Sturges' rule -/
def histogram (values : List ℚ) : List Bin :=
  if values.length < 2 then []
  else
    match values.min?, values.max? with
    | some lo, some hi =>
      if hi ≤ lo then []
      else
        let nbins := max 5 (min 21 (1 + values.length.size))
        let width := (hi - lo) / nbins
        (List.range nbins).map fun i =>
          { lo := pyRound (lo + i * width) 2
            hi := pyRound (lo + (i + 1) * width) 2
            count := values.countP fun v => min (nbins - 1) ⌊(v - lo) / width⌋₊ = i }
    | _, _ => []

/-- `int` of a number -/
def pyTrunc (x : ℚ) : ℤ := if 0 ≤ x then ⌊x⌋ else ⌈x⌉

/-- The scalars of the namespace `portfolio` -/
structure Settings where
  varLookbackDays : Option ℚ
  varMaxGapDays : Option ℚ

def Settings.lookback (s : Settings) : ℤ := pyTrunc (s.varLookbackDays.getD 504)

def Settings.maxGap (s : Settings) : ℤ := pyTrunc (s.varMaxGapDays.getD 3)

/-- The changes over steps of at most `maxGap` days -/
def dailyDeltas (maxGap : ℤ) (nav : List Close) : List ℚ :=
  (nav.zip nav.tail).filterMap fun p => if p.2.1 - p.1.1 ≤ maxGap then some (p.2.2 - p.1.2) else none

structure VarResponse where
  computedAt : Instant
  nDays : ℕ
  meanDailyUsd : Option ℚ
  var95Usd : Option ℚ
  var99Usd : Option ℚ
  es99Usd : Option ℚ
  hist : List Bin

section Endpoints
variable (now : Instant) (t : PortfolioDaily (dateOrdinal now))

/-- `value_at_risk` without scenarios to replay -/
def accountHistory (s : Settings) : VarResponse :=
  let nav := readNavSeries t s.lookback
  let deltas := dailyDeltas s.maxGap nav.1
  let stats := varStats deltas
  { computedAt := nav.2.getD now
    nDays := deltas.length
    meanDailyUsd := if deltas = [] then none else some (pyRound (deltas.sum / deltas.length) 2)
    var95Usd := stats.map fun x => pyRound x.var95 2
    var99Usd := stats.map fun x => pyRound x.var99 2
    es99Usd := stats.map fun x => pyRound x.es99 2
    hist := histogram deltas }

structure HeaderVar where
  usd : Option ℚ
  nDays : ℕ

/-- `var_1d_99` of `header_summary` -/
def headerVar : HeaderVar :=
  let dailyNl := (readNavSeries t 60).1.map Prod.snd
  let nDays := dailyNl.length - 1
  { usd := if 5 ≤ nDays then (percentile (sorted (changes dailyNl)) (1 / 100)).map (pyRound · 2) else none
    nDays := nDays }

end Endpoints

section Claim

/-- A capital move of `c` before the close of a day, seen in this close and all the later ones -/
def DailyRow.moved (day : ℤ) (c : ℚ) (r : DailyRow) : DailyRow :=
  if day ≤ r.day then { r with netLiqClose := r.netLiqClose.map (· + c) } else r

theorem day_moved (day : ℤ) (c : ℚ) (r : DailyRow) : (r.moved day c).day = r.day := by
  rw [DailyRow.moved]
  split_ifs <;> rfl

def deposit {today : ℤ} (day : ℤ) (c : ℚ) (t : PortfolioDaily today) : PortfolioDaily today where
  rows := t.rows.map (·.moved day c)
  nodup := by
    have hdays : DailyRow.day ∘ DailyRow.moved day c = DailyRow.day := funext (day_moved day c)
    rw [List.map_map, hdays]
    exact t.nodup
  past := by
    intro r hr
    obtain ⟨r', hr', rfl⟩ := List.mem_map.mp hr
    rw [day_moved]
    exact t.past r' hr'

variable (now : Instant) (t : PortfolioDaily (dateOrdinal now)) (s : Settings)

/-- Two closes in a row, further apart than the configured gap -/
def Hole (x y : Close) : Prop :=
  s.maxGap < y.1 - x.1 ∧ ∃ i : ℕ, (navSeries t)[i]? = some x ∧ (navSeries t)[i + 1]? = some y

/-- A capital move during a hole changes neither endpoint, and on the same closes they show the same VaR. -/
structure IgnoresGaps : Prop where
  var : ∀ x y c, Hole now t s x y → accountHistory now (deposit y.1 c t) s = accountHistory now t s
  header : ∀ x y c, Hole now t s x y → headerVar now (deposit y.1 c t) = headerVar now t
  same : (readNavSeries t 60).1 = (readNavSeries t s.lookback).1 →
    (headerVar now t).usd = (accountHistory now t s).var99Usd

/-- No step between the closes of a series is over more days than the gap. -/
def Gapless (maxGap : ℤ) (nav : List Close) : Prop := nav.IsChain fun x y => y.1 - x.1 ≤ maxGap

/-- The closes that the header reads are few, or no step between them is left out. -/
def HeaderGapless : Prop := (readNavSeries t 60).1.length ≤ 5 ∨ Gapless s.maxGap (readNavSeries t 60).1

end Claim

section Reads
variable {today : ℤ} {t : PortfolioDaily today} {day days : ℤ} {c : ℚ}

theorem closes_increasing {rows : List DailyRow} (h : rows.Pairwise fun r r' => r.day < r'.day) :
    (closes rows).Pairwise fun x y => x.1 < y.1 := by
  refine List.Pairwise.filterMap _ ?_ h
  intro r r' hlt x hx y hy
  obtain ⟨_, -, rfl⟩ := Option.map_eq_some_iff.mp hx
  obtain ⟨_, -, rfl⟩ := Option.map_eq_some_iff.mp hy
  exact hlt

theorem ordered_increasing (t : PortfolioDaily today) : (ordered t.rows).Pairwise fun r r' => r.day < r'.day := by
  have hnodup : ((ordered t.rows).map (·.day)).Nodup :=
    ((List.perm_insertionSort _ _).map _).nodup_iff.mpr t.nodup
  have hle : (ordered t.rows).Pairwise fun r r' => r.day ≤ r'.day := List.pairwise_insertionSort _ _
  exact (List.pairwise_map.mp hnodup).and hle |>.imp fun h => lt_of_le_of_ne h.2 h.1

theorem navSeries_increasing (t : PortfolioDaily today) : (navSeries t).Pairwise fun x y => x.1 < y.1 :=
  closes_increasing (ordered_increasing t)

/-- The closes read are the last ones. -/
theorem readNavSeries_eq (t : PortfolioDaily today) (days : ℤ) :
    (readNavSeries t days).1 = (navSeries t).filter fun x => today - (days - 1) ≤ x.1 := by
  have hread : readPortfolioDaily t days = (ordered t.rows).filter fun r => today - (days - 1) ≤ r.day :=
    (filter_insertionSort _ _ _).symm
  rw [readNavSeries, hread, navSeries, closes, closes, List.filterMap_filter, List.filter_filterMap]
  refine List.filterMap_congr fun r _ => ?_
  cases hclose : r.netLiqClose with
  | none => simp
  | some x => rw [Option.map_some, Option.filter_some]

/-- What a capital move does to a close -/
def shiftFrom (day : ℤ) (c : ℚ) (x : Close) : Close := if day ≤ x.1 then (x.1, x.2 + c) else x

theorem shiftFrom_fst (x : Close) : (shiftFrom day c x).1 = x.1 := by
  rw [shiftFrom]
  split_ifs <;> rfl

theorem closes_moved (rows : List DailyRow) :
    closes (rows.map (·.moved day c)) = (closes rows).map (shiftFrom day c) := by
  rw [closes, closes, List.filterMap_map, List.map_filterMap]
  refine List.filterMap_congr fun r _ => ?_
  rw [Function.comp_apply, day_moved, Option.map_map, DailyRow.moved]
  split_ifs with hday
  · rw [Option.map_map]
    refine Option.map_congr fun x _ => ?_
    exact (if_pos hday).symm
  · refine Option.map_congr fun x _ => ?_
    exact (if_neg hday).symm

theorem readPortfolioDaily_deposit :
    readPortfolioDaily (deposit day c t) days = (readPortfolioDaily t days).map (·.moved day c) := by
  have hfilter : (deposit day c t).rows.filter (fun r => today - (days - 1) ≤ r.day) =
      (t.rows.filter fun r => today - (days - 1) ≤ r.day).map (·.moved day c) := by
    rw [deposit, List.filter_map]
    congr 1
    refine List.filter_congr fun r _ => ?_
    rw [Function.comp_apply, day_moved]
  rw [readPortfolioDaily, hfilter, readPortfolioDaily, ordered, ordered]
  refine (List.map_insertionSort _ _ _ _ fun r _ r' _ => ?_).symm
  rw [day_moved, day_moved]

theorem readNavSeries_deposit : readNavSeries (deposit day c t) days =
    ((readNavSeries t days).1.map (shiftFrom day c), (readNavSeries t days).2) := by
  have hcomputed (r : DailyRow) : (r.moved day c).computedAt = r.computedAt := by
    rw [DailyRow.moved]
    split_ifs <;> rfl
  rw [readNavSeries, readNavSeries, readPortfolioDaily_deposit, closes_moved, List.map_map]
  congr 2
  exact List.map_congr_left fun r _ => hcomputed r

/-- Nothing lies between a close and the next one. -/
theorem le_of_lt_next {nav : List Close} (hinc : nav.Pairwise fun x y => x.1 < y.1) {i : ℕ} {x y u : Close}
    (hx : nav[i]? = some x) (hy : nav[i + 1]? = some y) (hu : u ∈ nav) (hlt : u.1 < y.1) : u.1 ≤ x.1 := by
  obtain ⟨hi, rfl⟩ := List.getElem?_eq_some_iff.mp hx
  obtain ⟨hi', rfl⟩ := List.getElem?_eq_some_iff.mp hy
  obtain ⟨j, hj, rfl⟩ := List.getElem_of_mem hu
  have hget := List.pairwise_iff_getElem.mp hinc
  rcases lt_trichotomy j i with hlow | rfl | hhigh
  · exact (hget j i hj hi hlow).le
  · exact le_rfl
  · rcases (Nat.succ_le_iff.mpr hhigh).lt_or_eq with hhigh | rfl
    · exact absurd hlt (hget (i + 1) j hi' hj hhigh).asymm
    · exact absurd hlt (lt_irrefl _)

end Reads

section Deltas
variable {maxGap day : ℤ} {c : ℚ} {nav : List Close}

theorem dailyDeltas_cons (x y : Close) (nav : List Close) : dailyDeltas maxGap (x :: y :: nav) =
    (if y.1 - x.1 ≤ maxGap then [y.2 - x.2] else []) ++ dailyDeltas maxGap (y :: nav) := by
  change List.filterMap _ ((x, y) :: (y :: nav).zip nav) = _
  rw [List.filterMap_cons]
  split_ifs <;> rfl

theorem length_dailyDeltas_le (maxGap : ℤ) (nav : List Close) : (dailyDeltas maxGap nav).length ≤ nav.length - 1 := by
  refine (List.length_filterMap_le _ _).trans ?_
  rw [List.length_zip, List.length_tail]
  omega

/-- Where no step is too long none is left out. -/
theorem dailyDeltas_gapless (h : Gapless maxGap nav) : dailyDeltas maxGap nav = changes (nav.map Prod.snd) := by
  induction nav with
  | nil => rfl
  | cons x nav ih =>
    cases nav with
    | nil => rfl
    | cons y nav =>
      obtain ⟨hxy, htail⟩ := List.isChain_cons_cons.mp h
      rw [dailyDeltas_cons, if_pos hxy, ih htail]
      rfl

/-- A capital move on a step that is left out changes none of the others. -/
theorem dailyDeltas_shiftFrom
    (h : nav.IsChain fun x y => x.1 < y.1 ∧ (x.1 < day → day ≤ y.1 → maxGap < y.1 - x.1)) :
    dailyDeltas maxGap (nav.map (shiftFrom day c)) = dailyDeltas maxGap nav := by
  induction nav with
  | nil => rfl
  | cons x nav ih =>
    cases nav with
    | nil => rfl
    | cons y nav =>
      obtain ⟨⟨hlt, hgap⟩, htail⟩ := List.isChain_cons_cons.mp h
      have hrest := ih htail
      rw [List.map_cons] at hrest
      rw [List.map_cons, List.map_cons, dailyDeltas_cons, dailyDeltas_cons, hrest, shiftFrom_fst, shiftFrom_fst]
      congr 1
      split_ifs with hstep
      · rcases lt_or_ge x.1 day with hx | hx
        · have hy : ¬day ≤ y.1 := fun hy => absurd hstep (hgap hx hy).not_ge
          rw [shiftFrom, shiftFrom, if_neg hy, if_neg hx.not_ge]
        · rw [shiftFrom, shiftFrom, if_pos (hx.trans hlt.le), if_pos hx, add_sub_add_right_eq_sub]
      · rfl

theorem gapless_shiftFrom (h : Gapless maxGap nav) : Gapless maxGap (nav.map (shiftFrom day c)) := by
  rw [Gapless, List.isChain_map]
  refine h.imp fun x y hxy => ?_
  rw [shiftFrom_fst, shiftFrom_fst]
  exact hxy

end Deltas

section Rollup
open DailyRollups (refreshPortfolioDaily)

/-- The table has a row a day, and none ahead of the clock. -/
structure Dated (w : DailyRollups.World) : Prop where
  nodup : (w.table.map (·.day)).Nodup
  past : ∀ r ∈ w.table, r.day ≤ dateOrdinal w.clock

theorem clock_le (w : DailyRollups.World) (elapsed : ℕ) : dateOrdinal w.clock ≤ dateOrdinal (w.clock + elapsed) :=
  DailyRollups.dateOrdinal_mono (le_add_of_nonneg_right (Int.natCast_nonneg elapsed))

theorem dated_refresh {w : DailyRollups.World} (h : Dated w) (elapsed : ℕ) (days : Option ℕ) :
    Dated (w.step (.refresh elapsed days)) := by
  have hkept : ∀ r ∈ w.table, r.day ≤ dateOrdinal (w.clock + elapsed) :=
    fun r hr => (h.past r hr).trans (clock_le w elapsed)
  have hdated : ((w.step (.refresh elapsed days)).table.map (·.day)).Nodup ∧
      ∀ r ∈ (w.step (.refresh elapsed days)).table, r.day ≤ dateOrdinal (w.clock + elapsed) := by
    change ((refreshPortfolioDaily w.history w.table days (w.clock + elapsed)).map (·.day)).Nodup ∧
      ∀ r ∈ refreshPortfolioDaily w.history w.table days (w.clock + elapsed), r.day ≤ dateOrdinal (w.clock + elapsed)
    rw [refreshPortfolioDaily]
    split_ifs
    · exact ⟨h.nodup, hkept⟩
    · constructor
      · refine upsert_nodup (Increasing.nodup ?_) h.nodup
        exact chain_increasing (DailyRollups.dailyRow_day _) (DailyRollups.daily_increasing _) _
      · intro r hr
        rcases List.mem_append.mp hr with hold | hnew
        · exact hkept r (List.mem_filter.mp hold).1
        · refine chain_keys (DailyRollups.dailyRow_day _) _ _ _ (p := (· ≤ _)) (fun g hg => ?_) r hnew
          obtain ⟨x, hx, hday⟩ := Grouping.mem_groupsOf_key hg
          have hrange := of_decide_eq_true (List.mem_filter.mp hx).2
          change dateOrdinal x.1 = g.day at hday
          rw [← hday]
          exact hrange.2
  exact ⟨hdated.1, hdated.2⟩

theorem dated_step {w : DailyRollups.World} (h : Dated w) (e : DailyRollups.Event) : Dated (w.step e) := by
  cases e with
  | sample elapsed late netLiqUsd => exact ⟨h.nodup, fun r hr => (h.past r hr).trans (clock_le w elapsed)⟩
  | close elapsed netPnlUsd => exact ⟨h.nodup, fun r hr => (h.past r hr).trans (clock_le w elapsed)⟩
  | refresh elapsed days => exact dated_refresh h elapsed days

theorem dated_run (clock : Instant) (events : List DailyRollups.Event) :
    Dated (events.foldl DailyRollups.World.step (DailyRollups.World.start clock)) := by
  have hstart : Dated (DailyRollups.World.start clock) := ⟨List.nodup_nil, fun r hr => absurd hr List.not_mem_nil⟩
  exact (GuardedRuns.Run.of_events events).invariant (fun _ e h _ => dated_step h e) hstart

/-- What the rollup leaves after a run is a table that the endpoints read. -/
def ofRollup (clock : Instant) (events : List DailyRollups.Event) (computedAt : DailyRollups.DailyRow → Instant) :
    PortfolioDaily (dateOrdinal (events.foldl DailyRollups.World.step (DailyRollups.World.start clock)).clock) where
  rows := (events.foldl DailyRollups.World.step (DailyRollups.World.start clock)).table.map fun r =>
    ⟨r.day, some r.netLiqClose, computedAt r⟩
  nodup := by
    rw [List.map_map]
    exact (dated_run clock events).nodup
  past := by
    intro r hr
    obtain ⟨r', hr', rfl⟩ := List.mem_map.mp hr
    exact (dated_run clock events).past r' hr'

end Rollup

section Agreement
variable {now : Instant} {t : PortfolioDaily (dateOrdinal now)} {s : Settings}

theorem length_sorted (vals : List ℚ) : (sorted vals).length = vals.length := List.length_insertionSort _ _

theorem percentile_sorted {deltas : List ℚ} (h : deltas ≠ []) (q : ℚ) :
    percentile (sorted deltas) q = some (SampleMoments.quantile (sorted deltas) q) := by
  refine if_neg fun hnil => h ?_
  rw [← List.length_eq_zero_iff, ← length_sorted, hnil, List.length_nil]

theorem varStats_var99 (deltas : List ℚ) : (varStats deltas).map (·.var99) =
    if deltas.length < varMinObs then none else percentile (sorted deltas) (1 / 100) := by
  rw [varStats]
  split_ifs with hlen
  · rfl
  · have hne : deltas ≠ [] := by
      intro hnil
      rw [hnil] at hlen
      exact hlen (by decide)
    rw [percentile_sorted hne, percentile_sorted hne]
    rfl

theorem var99Usd_eq (now : Instant) (t : PortfolioDaily (dateOrdinal now)) (s : Settings) :
    (accountHistory now t s).var99Usd = if (dailyDeltas s.maxGap (readNavSeries t s.lookback).1).length < varMinObs then none
      else (percentile (sorted (dailyDeltas s.maxGap (readNavSeries t s.lookback).1)) (1 / 100)).map (pyRound · 2) := by
  have hmap : (accountHistory now t s).var99Usd =
      ((varStats (dailyDeltas s.maxGap (readNavSeries t s.lookback).1)).map (·.var99)).map (pyRound · 2) := by
    rw [Option.map_map]
    rfl
  rw [hmap, varStats_var99]
  split_ifs <;> rfl

/-- Among the closes read a step across a hole is too long as well. -/
theorem gap_kept {x y : Close} (h : Hole now t s x y) (days : ℤ) : (readNavSeries t days).1.IsChain fun u v =>
    u.1 < v.1 ∧ (u.1 < y.1 → y.1 ≤ v.1 → s.maxGap < v.1 - u.1) := by
  obtain ⟨hgap, i, hx, hy⟩ := h
  rw [readNavSeries_eq]
  refine (((navSeries_increasing t).filter _).imp_of_mem fun hu _ hlt => ⟨hlt, fun hlow hhigh => ?_⟩).isChain
  have hle := le_of_lt_next (navSeries_increasing t) hx hy (List.mem_filter.mp hu).1 hlow
  omega

/-- The fallback of `/var` ignores a capital move during a hole. -/
theorem accountHistory_deposit {x y : Close} (h : Hole now t s x y) (c : ℚ) :
    accountHistory now (deposit y.1 c t) s = accountHistory now t s := by
  rw [accountHistory, readNavSeries_deposit, accountHistory]
  dsimp only
  rw [dailyDeltas_shiftFrom (gap_kept h s.lookback)]

theorem headerVar_deposit (h : HeaderGapless now t s) {x y : Close} (hhole : Hole now t s x y) (c : ℚ) :
    headerVar now (deposit y.1 c t) = headerVar now t := by
  have hlen : (((readNavSeries t 60).1.map (shiftFrom y.1 c)).map Prod.snd).length =
      ((readNavSeries t 60).1.map Prod.snd).length := by
    rw [List.length_map, List.length_map, List.length_map]
  rw [headerVar, readNavSeries_deposit, headerVar]
  dsimp only
  rw [hlen]
  rcases h with hshort | hgapless
  · have hfew : ¬5 ≤ ((readNavSeries t 60).1.map Prod.snd).length - 1 := by
      rw [List.length_map]
      omega
    rw [if_neg hfew, if_neg hfew]
  · rw [← dailyDeltas_gapless hgapless, ← dailyDeltas_gapless (gapless_shiftFrom hgapless),
      dailyDeltas_shiftFrom (gap_kept hhole 60)]

theorem same_of_gapless (h : HeaderGapless now t s) (hsame : (readNavSeries t 60).1 = (readNavSeries t s.lookback).1) :
    (headerVar now t).usd = (accountHistory now t s).var99Usd := by
  have hdeltas := length_dailyDeltas_le s.maxGap (readNavSeries t 60).1
  have hchanges := length_changes ((readNavSeries t 60).1.map Prod.snd)
  rw [List.length_map] at hchanges
  rw [var99Usd_eq, ← hsame, headerVar]
  dsimp only
  rw [List.length_map]
  rcases h with hshort | hgapless
  · rw [if_neg (by omega), if_pos (by rw [varMinObs]; omega)]
  · rw [dailyDeltas_gapless hgapless, hchanges, varMinObs]
    split_ifs <;> first | rfl | omega

end Agreement

section Holes
variable {now : Instant} {t : PortfolioDaily (dateOrdinal now)} {s : Settings}

/-- There are at most as many closes as days. -/
theorem length_readNavSeries_le (now : Instant) (t : PortfolioDaily (dateOrdinal now)) :
    (readNavSeries t 60).1.length ≤ 60 := by
  have hnodup : ((readNavSeries t 60).1.map Prod.fst).Nodup := by
    rw [readNavSeries_eq, List.Nodup, List.pairwise_map]
    exact ((navSeries_increasing t).filter _).imp ne_of_lt
  have hdays : ((readNavSeries t 60).1.map Prod.fst).toFinset ⊆ Finset.Icc (dateOrdinal now - 59) (dateOrdinal now) := by
    intro day hday
    obtain ⟨x, hx, rfl⟩ := List.mem_map.mp (List.mem_toFinset.mp hday)
    obtain ⟨r, hr, hsome⟩ := List.mem_filterMap.mp hx
    obtain ⟨_, -, rfl⟩ := Option.map_eq_some_iff.mp hsome
    obtain ⟨hmem, hfrom⟩ := List.mem_filter.mp ((List.mem_insertionSort _).mp hr)
    have hpast := t.past r hmem
    have hfrom := of_decide_eq_true hfrom
    rw [Finset.mem_Icc]
    dsimp only
    omega
  have hcard := Finset.card_le_card hdays
  rw [List.toFinset_card_of_nodup hnodup, List.length_map, Int.card_Icc] at hcard
  omega

theorem filter_suffix {nav : List Close} (hinc : nav.Pairwise fun x y => x.1 < y.1) (start : ℤ) :
    nav.filter (fun x => start ≤ x.1) <:+ nav := by
  induction nav with
  | nil => exact List.suffix_rfl
  | cons x nav ih =>
    obtain ⟨hlt, hinc⟩ := List.pairwise_cons.mp hinc
    by_cases hx : start ≤ x.1
    · have hall : ∀ y ∈ x :: nav, decide (start ≤ y.1) = true := by
        intro y hy
        rcases List.mem_cons.mp hy with rfl | hy
        · exact decide_eq_true hx
        · exact decide_eq_true (hx.trans (hlt y hy).le)
      rw [List.filter_eq_self.mpr hall]
    · rw [List.filter_cons_of_neg (by simpa using hx)]
      exact (ih hinc).trans (List.suffix_cons x nav)

/-- The change that a capital move is in -/
theorem changes_shiftFrom {before after : List Close} {x y : Close} (c : ℚ)
    (hinc : (before ++ x :: y :: after).Pairwise fun u v => u.1 < v.1) :
    changes (((before ++ x :: y :: after).map (shiftFrom y.1 c)).map Prod.snd) =
      changes (before.map Prod.snd ++ [x.2]) ++ (y.2 - x.2 + c) :: changes (y.2 :: after.map Prod.snd) := by
  obtain ⟨-, hlast, hbefore⟩ := List.pairwise_append.mp hinc
  obtain ⟨hx, hy⟩ := List.pairwise_cons.mp hlast
  have hlow (u : Close) (hu : u.1 < y.1) : shiftFrom y.1 c u = u := if_neg hu.not_ge
  have hhigh (u : Close) (hu : u ∈ y :: after) : shiftFrom y.1 c u = (u.1, u.2 + c) := by
    rcases List.mem_cons.mp hu with rfl | hu
    · exact if_pos le_rfl
    · exact if_pos ((List.pairwise_cons.mp hy).1 u hu).le
  have hfirst : (before.map (shiftFrom y.1 c)).map Prod.snd = before.map Prod.snd := by
    rw [List.map_congr_left fun u hu => hlow u (hbefore u hu y (by simp)), List.map_id']
  have hrest : ((y :: after).map (shiftFrom y.1 c)).map Prod.snd = (y.2 :: after.map Prod.snd).map (· + c) := by
    rw [List.map_map, ← List.map_cons, List.map_map]
    refine List.map_congr_left fun u hu => ?_
    rw [Function.comp_apply, hhigh u hu]
    rfl
  rw [List.map_append, List.map_append, List.map_cons, List.map_cons, hfirst, hrest, hlow x (hx y List.mem_cons_self),
    List.map_cons, changes_append, ← List.map_cons (f := (· + c)), changes_shift]
  congr 2
  ring

/-- Of fewer than a hundred values more the lowest percentile is next to the least one, and moves with it. -/
theorem percentile_low {before after : List ℚ} (hne : before ++ after ≠ []) (hfew : (before ++ after).length < 100) :
    ∃ next : ℚ, ∀ least, (∀ v ∈ before ++ after, least ≤ v) →
      percentile (sorted (before ++ least :: after)) (1 / 100) =
        some (least + 1 / 100 * ((before ++ after).length : ℕ) * (next - least)) := by
  cases hrest : sorted (before ++ after) with
  | nil =>
    have hlen := length_sorted (before ++ after)
    rw [hrest] at hlen
    exact absurd (List.length_eq_zero_iff.mp hlen.symm) hne
  | cons next rest =>
    have hlen : rest.length + 1 = (before ++ after).length := by
      have hlen := length_sorted (before ++ after)
      rwa [hrest, List.length_cons] at hlen
    refine ⟨next, fun least hleast => ?_⟩
    have hsorted : sorted (before ++ least :: after) = least :: next :: rest := by
      have hperm : (sorted (before ++ least :: after)).Perm (sorted (least :: (before ++ after))) :=
        (List.perm_insertionSort _ _).trans (List.perm_middle.trans (List.perm_insertionSort _ _).symm)
      have hsame : sorted (before ++ least :: after) = sorted (least :: (before ++ after)) :=
        hperm.eq_of_pairwise' (List.pairwise_insertionSort _ _) (List.pairwise_insertionSort _ _)
      rw [hsame, ← hrest]
      exact List.insertionSort_cons_of_forall_rel _ hleast
    have hlow : (1 / 100 : ℚ) * (rest.length + 1 : ℕ) < 1 := by
      rw [hlen]
      have : (((before ++ after).length : ℕ) : ℚ) < 100 := by exact_mod_cast hfew
      linarith
    rw [percentile_sorted (by simp), hsorted, SampleMoments.quantile_low hlow, hlen]

/-- So at two least values it is not the same to the cent. -/
theorem percentile_moves {before after : List ℚ} (hne : before ++ after ≠ []) (hfew : (before ++ after).length < 99)
    {usd : Option ℚ} (h : ∀ v, (percentile (sorted (before ++ v :: after)) (1 / 100)).map (pyRound · 2) = usd) :
    False := by
  obtain ⟨next, hnext⟩ := percentile_low hne (by omega)
  obtain ⟨least, hleast⟩ := (before ++ after).toFinset.bddBelow
  have hbelow : ∀ v ∈ before ++ after, least ≤ v := fun v hv => hleast (Finset.mem_coe.mpr (List.mem_toFinset.mpr hv))
  have hrounded := (h least).trans (h (least - 1)).symm
  rw [hnext least hbelow, hnext (least - 1) fun v hv => (sub_one_lt least).le.trans (hbelow v hv),
    Option.map_some, Option.map_some, Option.some.injEq] at hrounded
  have hnear := (abs_le.mp (pyRound_cents_eq hrounded)).2
  have hfew : (((before ++ after).length : ℕ) : ℚ) < 99 := by exact_mod_cast hfew
  linarith

theorem headerGapless_of_ignores (h : IgnoresGaps now t s) : HeaderGapless now t s := by
  by_contra hnot
  obtain ⟨hmany, hgapped⟩ := not_or.mp hnot
  obtain ⟨before, x, y, after, hread, hgap⟩ : ∃ before x y after,
      (readNavSeries t 60).1 = before ++ x :: y :: after ∧ s.maxGap < y.1 - x.1 := by
    by_contra hnone
    refine hgapped (List.isChain_iff_forall_rel_of_append_cons_cons.mpr fun x y before after hread => ?_)
    exact not_lt.mp fun hgap => hnone ⟨before, x, y, after, hread, hgap⟩
  have hinc : (before ++ x :: y :: after).Pairwise fun u v => u.1 < v.1 := by
    rw [← hread, readNavSeries_eq]
    exact (navSeries_increasing t).filter _
  obtain ⟨old, hold⟩ : (before ++ x :: y :: after) <:+ navSeries t := by
    rw [← hread, readNavSeries_eq]
    exact filter_suffix (navSeries_increasing t) _
  have hkept (c : ℚ) : headerVar now (deposit y.1 c t) = headerVar now t := by
    refine h.header x y c ⟨hgap, (old ++ before).length, ?_, ?_⟩
    · rw [← hold, ← List.append_assoc, List.getElem?_append_right le_rfl, Nat.sub_self]
      rfl
    · rw [← hold, ← List.append_assoc, List.getElem?_append_right (Nat.le_add_right _ 1), Nat.add_sub_cancel_left]
      rfl
  have hlength := length_readNavSeries_le now t
  rw [hread, List.length_append, List.length_cons, List.length_cons] at hlength hmany
  have husd (v : ℚ) : (percentile (sorted (changes (before.map Prod.snd ++ [x.2]) ++
      v :: changes (y.2 :: after.map Prod.snd))) (1 / 100)).map (pyRound · 2) = (headerVar now t).usd := by
    rw [← hkept (v - (y.2 - x.2)), headerVar, readNavSeries_deposit, hread]
    dsimp only
    rw [changes_shiftFrom _ hinc, add_sub_cancel]
    refine (if_pos ?_).symm
    rw [List.length_map, List.length_map, List.length_append, List.length_cons, List.length_cons]
    omega
  have hothers : (changes (before.map Prod.snd ++ [x.2]) ++ changes (y.2 :: after.map Prod.snd)).length =
      before.length + after.length := by
    simp [length_changes]
  exact percentile_moves (List.ne_nil_of_length_pos (by omega)) (by omega) husd

end Holes

/-- The header ignores capital moves during holes exactly when it reads few closes or no hole. -/
theorem ignores_gaps_iff (now : Instant) (t : PortfolioDaily (dateOrdinal now)) (s : Settings) :
    IgnoresGaps now t s ↔ HeaderGapless now t s where
  mp := headerGapless_of_ignores
  mpr h :=
    { var := fun _ _ c hhole => accountHistory_deposit hhole c
      header := fun _ _ c hhole => headerVar_deposit h hhole c
      same := same_of_gapless h }

/-- Three closes a week and a half before the last three -/
def twoWeeks : PortfolioDaily (dateOrdinal 0) where
  rows := [719149, 719150, 719151, 719161, 719162, 719163].map fun day => ⟨day, some 0, 0⟩
  nodup := by decide
  past := by decide

/-- A withdrawal of 100 in between, and the header shows a VaR of 96 where nothing was lost. -/
theorem not_ignores_gaps : ¬IgnoresGaps 0 twoWeeks ⟨none, none⟩ := by
  intro h
  have hhole : Hole 0 twoWeeks ⟨none, none⟩ (719151, 0) (719161, 0) := ⟨by decide, 2, by decide, by decide⟩
  have hsame := congrArg HeaderVar.usd (h.header _ _ (-100) hhole)
  have hkept : (headerVar 0 twoWeeks).usd = some 0 := by decide +kernel
  have hmoved : (headerVar 0 (deposit 719161 (-100) twoWeeks)).usd = some (-96) := by decide +kernel
  rw [hkept, hmoved] at hsame
  exact absurd hsame (by decide)

end FxVol.AccountVar
