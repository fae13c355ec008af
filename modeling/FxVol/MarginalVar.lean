import FxVol.AlignedChanges
import FxVol.ComponentVar
import FxVol.DailyRollups
import Mathlib.Data.Int.ConditionallyCompleteOrder
import Mathlib.Data.Prod.Lex
import Mathlib.Data.String.Basic

/-!
# Marginal VaR

`/marginal-var` splits the VaR of the open book.  Without scenarios to replay it takes the P&L of each position from
`open_position_history`, the last snapshot of each day, and aligns the daily changes by count; the history keeps the
snapshots of positions that have been closed since.
-/
namespace FxVol.MarginalVar

open AlignedChanges GroupedRows
open ComponentVar (componentVar alignedDays withSeries lastDays portfolio minDays)

/-- The columns of `open_position` the endpoint reads -/
structure OpenPosition where
  id : ℕ
  productLabel : Option String
  «structure» : String
  tradeId : Option ℕ
  packageId : Option ℕ
  deltaUsd : Option ℚ
  vegaUsd : Option ℚ
  vannaUsd : Option ℚ
  volgaUsd : Option ℚ

/-- `open_position`, under its primary key -/
structure Book where
  positions : List OpenPosition
  nodup : (positions.map (·.id)).Nodup

/-- A row of `open_position_history` -/
structure Snapshot where
  positionId : ℕ
  timestamp : Instant
  currentPnlUsd : Option ℚ
  deriving DecidableEq

/-- A row of `daily` -/
structure DailyClose where
  positionId : ℕ
  day : ℤ
  timestamp : Instant
  currentPnlUsd : ℚ
  deriving DecidableEq

/-- The 120 days the query reads, in microseconds -/
def window : ℤ := 120 * 86400000000

/-- What the query keeps of a row, if anything -/
def recent (now : Instant) (s : Snapshot) : Option DailyClose :=
  if now - window ≤ s.timestamp then
    s.currentPnlUsd.map fun pnl => ⟨s.positionId, dateOrdinal s.timestamp, s.timestamp, pnl⟩
  else none

/-- `DISTINCT ON (position_id, day)`, the latest row of each -/
def byDay : Grouping DailyClose DailyClose (ℕ ×ₗ ℤ) where
  key c := toLex (c.positionId, c.day)
  keyOf c := toLex (c.positionId, c.day)
  start c := c
  extend c c' := if c.timestamp < c'.timestamp then { c with timestamp := c'.timestamp, currentPnlUsd := c'.currentPnlUsd } else c
  start_key _ := rfl
  extend_key c c' := by split_ifs <;> rfl

def daily (now : Instant) (history : List Snapshot) : List DailyClose := byDay.groupsOf (history.filterMap (recent now))

/-- `cum.setdefault(str(pid), []).append(float(pnl))` -/
def byPosition : Grouping DailyClose (String × List ℚ) String where
  key c := toString c.positionId
  keyOf e := e.1
  start c := (toString c.positionId, [c.currentPnlUsd])
  extend e c := (e.1, e.2 ++ [c.currentPnlUsd])
  start_key _ := rfl
  extend_key _ _ := rfl

def cum (now : Instant) (history : List Snapshot) : List (String × List ℚ) := (daily now history).foldl byPosition.addTo []

def seriesById (now : Instant) (history : List Snapshot) : List (String × List ℚ) :=
  ((cum now history).filter fun e => 2 ≤ e.2.length).map fun e => (e.1, changes e.2)

inductive Factor | spot | level | skew | curv
  deriving DecidableEq

inductive Method | historicalSimulation | accountHistory
  deriving DecidableEq

def Factor.all : List Factor := [.spot, .level, .skew, .curv]

def OpenPosition.cand (pos : OpenPosition) : Factor → ℚ
  | .spot => |pos.deltaUsd.getD 0|
  | .level => |pos.vegaUsd.getD 0|
  | .skew => |pos.vannaUsd.getD 0|
  | .curv => |pos.volgaUsd.getD 0|

structure PositionMeta where
  label : String
  trade : Option String
  factor : Factor

/-- `meta` -/
def OpenPosition.positionMeta (pos : OpenPosition) : PositionMeta where
  label := (pos.productLabel.filter (· ≠ "")).getD pos.structure
  trade := (pos.tradeId.map fun id => "T-" ++ toString id).or (pos.packageId.map fun id => "PKG-" ++ toString id)
  factor := (Factor.all.argmax pos.cand).getD .spot

structure Row where
  id : String
  standaloneUsd : ℚ
  componentUsd : ℚ
  pct : ℚ
  label : String
  trade : Option String
  factor : Factor

structure Response where
  positions : List Row
  /-- The portfolio VaR and the diversification -/
  total : Option (ℚ × ℚ)
  nDays : ℕ
  method : Method

def row (book : Book) (p : ComponentVar.PositionVar ℚ) : Row :=
  let known := (book.positions.find? fun pos => toString pos.id = p.id).map OpenPosition.positionMeta
  { id := p.id
    standaloneUsd := p.standaloneUsd
    componentUsd := p.componentUsd
    pct := p.pct
    label := (known.map (·.label)).getD p.id
    trade := known.bind (·.trade)
    factor := (known.map (·.factor)).getD .spot }

/-- `marginal_var`, with the vectors of `_hist_sim` where there are any -/
def marginalVar (book : Book) (now : Instant) (sim : Option (List (String × List ℚ))) (history : List Snapshot) : Response :=
  if book.positions = [] then ⟨[], none, 0, .historicalSimulation⟩
  else
    let res := componentVar pyRound (sim.getD (seriesById now history)) (99 / 100)
    let out := res.positions.map (row book)
    { positions := out
      total := if out = [] then none else some (res.portfolioVarUsd, res.diversificationPct)
      nDays := res.nDays
      method := if sim.isSome then .historicalSimulation else .accountHistory }

section Claim
variable (book : Book) (now : Instant) (history : List Snapshot) (id : ℕ)

def closesOf : List DailyClose := (daily now history).filter fun c => c.positionId = id

/-- The days a position has a close on, from the newest backwards -/
def daysOf : List ℤ := ((closesOf now history id).map (·.day)).reverse

def closeOn (day : ℤ) : Option ℚ := ((closesOf now history id).find? fun c => c.day = day).map (·.currentPnlUsd)

/-- The change of the P&L over a calendar day -/
def changeOn (day : ℤ) : Option ℚ :=
  (closeOn now history id day).bind fun later => (closeOn now history id (day - 1)).map fun earlier => later - earlier

def shown : List OpenPosition :=
  book.positions.filter fun pos => toString pos.id ∈ (marginalVar book now none history).positions.map (·.id)

/-- The rows are about the open book, and the days of the portfolio are calendar days. -/
structure TodaysBook : Prop where
  openOnly : ∀ row ∈ (marginalVar book now none history).positions, ∃ pos ∈ book.positions, toString pos.id = row.id
  byDate : (marginalVar book now none history).positions ≠ [] →
    ∃ day : Fin (marginalVar book now none history).nDays → ℤ, StrictMono day ∧ ∀ i,
      (∀ pos ∈ shown book now history, (changeOn now history pos.id (day i)).isSome) ∧
      portfolio (seriesById now history) _ i =
        ((shown book now history).map fun pos => (changeOn now history pos.id (day i)).getD 0).sum

/-- A snapshot but for its value -/
def Snapshot.stamp (s : Snapshot) : ℕ × Instant × Bool := (s.positionId, s.timestamp, s.currentPnlUsd.isSome)

/-- The positions that have a change -/
def tracked : Set ℕ := {id | 2 ≤ (daysOf now history id).length}

/-- Where the shortest series has enough days, the positions with a series are all open, and over so many days up to
the last each has a close on every one. -/
def AlignedByDate : Prop :=
  book.positions = [] ∨ ∀ m, IsLeast ((fun id => (daysOf now history id).length) '' tracked now history) m → minDays < m →
    ∃ last, ∀ id ∈ tracked now history, id ∈ book.positions.map (·.id) ∧ Unbroken m last (daysOf now history id)

end Claim

section Closes
variable {now : Instant} {history history' : List Snapshot} {id : ℕ} {day : ℤ}

theorem toString_injective {id id' : ℕ} (h : toString id = toString id') : id = id' := by
  have hdecode (n : ℕ) : Nat.ofDigitChars 10 (toString n).toList 0 = n := by
    change Nat.ofDigitChars 10 n.repr.toList 0 = n
    rw [Nat.toList_repr]
    exact Nat.ofDigitChars_ten_toDigits
  have hdecoded := congrArg (fun s : String => Nat.ofDigitChars 10 s.toList 0) h
  rwa [hdecode, hdecode] at hdecoded

theorem daily_increasing (now : Instant) (history : List Snapshot) : Increasing byDay.keyOf (daily now history) :=
  Grouping.groupsOf_increasing _

/-- A close is a row of its position and day. -/
theorem mem_daily {c : DailyClose} (h : c ∈ daily now history) : c ∈ history.filterMap (recent now) := by
  have hsummary := ((Grouping.groupsOf_grouped (history.filterMap (recent now))).mem c).mp h
  have hfold (xs : List DailyClose) (g : DailyClose) (hxs : ∀ x ∈ xs, byDay.key x = byDay.key g) :
      xs.foldl byDay.extend g ∈ g :: xs := by
    induction xs generalizing g with
    | nil => exact List.mem_cons_self
    | cons x xs ih =>
      have hx : byDay.key x = byDay.key g := hxs x List.mem_cons_self
      have hcases : byDay.extend g x = g ∨ byDay.extend g x = x := by
        obtain ⟨hid, hday⟩ := Prod.ext_iff.mp (toLex_inj.mp hx)
        simp only [byDay]
        split_ifs
        · right
          cases x
          cases g
          cases hid
          cases hday
          rfl
        · exact .inl rfl
      rw [List.foldl_cons]
      rcases hcases with heq | heq
      · rw [heq]
        rcases List.mem_cons.mp (ih g fun y hy => hxs y (List.mem_cons_of_mem _ hy)) with hmem | hmem
        · rw [hmem]
          exact List.mem_cons_self
        · exact List.mem_cons_of_mem _ (List.mem_cons_of_mem _ hmem)
      · rw [heq]
        exact List.mem_cons_of_mem _ (ih x fun y hy => (hxs y (List.mem_cons_of_mem _ hy)).trans hx.symm)
  cases hxs : (history.filterMap (recent now)).filter fun x => byDay.key x = byDay.keyOf c with
  | nil =>
    rw [hxs] at hsummary
    cases hsummary
  | cons x xs =>
    have hkeys (y : DailyClose) (hy : y ∈ x :: xs) : byDay.key y = byDay.keyOf c := by
      rw [← hxs] at hy
      exact of_decide_eq_true (List.mem_filter.mp hy).2
    rw [hxs] at hsummary
    have hmem := hfold xs x fun y hy =>
      (hkeys y (List.mem_cons_of_mem _ hy)).trans (hkeys x List.mem_cons_self).symm
    rw [show xs.foldl byDay.extend x = c from Option.some.inj hsummary, ← hxs] at hmem
    exact (List.mem_filter.mp hmem).1

theorem mem_closesOf {c : DailyClose} : c ∈ closesOf now history id ↔ c ∈ daily now history ∧ c.positionId = id := by
  rw [closesOf, List.mem_filter, decide_eq_true_iff]

theorem closesOf_increasing (now : Instant) (history : List Snapshot) (id : ℕ) :
    (closesOf now history id).Pairwise fun c c' => c.day < c'.day := by
  refine ((daily_increasing now history).filter _).imp_of_mem ?_
  intro c c' hc hc' hlt
  have hid : c.positionId = id := of_decide_eq_true (List.mem_filter.mp hc).2
  have hid' : c'.positionId = id := of_decide_eq_true (List.mem_filter.mp hc').2
  rcases Prod.Lex.toLex_lt_toLex.mp hlt with h | h
  · exact absurd h (by rw [hid, hid']; exact lt_irrefl id)
  · exact h.2

theorem daysOf_decreasing (now : Instant) (history : List Snapshot) (id : ℕ) : (daysOf now history id).Pairwise (· > ·) :=
  List.pairwise_reverse.mpr (List.pairwise_map.mpr (closesOf_increasing now history id))

theorem length_daysOf : (daysOf now history id).length = (closesOf now history id).length := by
  rw [daysOf, List.length_reverse, List.length_map]

theorem mem_daysOf : day ∈ daysOf now history id ↔
    ∃ s ∈ history, s.positionId = id ∧ dateOrdinal s.timestamp = day ∧ now - window ≤ s.timestamp ∧ s.currentPnlUsd.isSome := by
  have hrecent (s : Snapshot) (c : DailyClose) : recent now s = some c →
      c.positionId = s.positionId ∧ c.day = dateOrdinal s.timestamp ∧ now - window ≤ s.timestamp ∧ s.currentPnlUsd.isSome := by
    intro h
    rw [recent] at h
    split_ifs at h with hrange
    obtain ⟨pnl, hpnl, rfl⟩ := Option.map_eq_some_iff.mp h
    exact ⟨rfl, rfl, hrange, Option.isSome_iff_exists.mpr ⟨pnl, hpnl⟩⟩
  rw [daysOf, List.mem_reverse, List.mem_map]
  constructor
  · rintro ⟨c, hc, rfl⟩
    obtain ⟨hdaily, rfl⟩ := mem_closesOf.mp hc
    obtain ⟨s, hs, hsome⟩ := List.mem_filterMap.mp (mem_daily hdaily)
    obtain ⟨hid, hday, hrange, hpnl⟩ := hrecent s c hsome
    exact ⟨s, hs, hid.symm, hday.symm, hrange, hpnl⟩
  · rintro ⟨s, hs, rfl, rfl, hrange, hpnl⟩
    obtain ⟨pnl, hpnl⟩ := Option.isSome_iff_exists.mp hpnl
    have hsome : recent now s = some ⟨s.positionId, dateOrdinal s.timestamp, s.timestamp, pnl⟩ := by
      rw [recent, if_pos hrange, hpnl, Option.map_some]
    obtain ⟨c, hc, hkey⟩ := Grouping.key_mem_groupsOf (G := byDay) (List.mem_filterMap.mpr ⟨s, hs, hsome⟩)
    obtain ⟨hid, hday⟩ := Prod.ext_iff.mp (toLex_inj.mp hkey)
    exact ⟨c, mem_closesOf.mpr ⟨hc, hid⟩, hday⟩

/-- The days depend on the snapshots there are, not on their values. -/
theorem daysOf_congr (h : history'.map Snapshot.stamp = history.map Snapshot.stamp) :
    daysOf now history' id = daysOf now history id := by
  have hmem (day : ℤ) : day ∈ daysOf now history' id ↔ day ∈ daysOf now history id := by
    have hstamp (hs : List Snapshot) : day ∈ daysOf now hs id ↔ ∃ t ∈ hs.map Snapshot.stamp,
        t.1 = id ∧ dateOrdinal t.2.1 = day ∧ now - window ≤ t.2.1 ∧ t.2.2 := by
      rw [mem_daysOf]
      simp only [List.mem_map, exists_exists_and_eq_and, Snapshot.stamp]
    rw [hstamp, hstamp, h]
  have hnodup (hs : List Snapshot) : (daysOf now hs id).Nodup := (daysOf_decreasing now hs id).imp ne_of_gt
  exact ((List.perm_ext_iff_of_nodup (hnodup _) (hnodup _)).mpr hmem).eq_of_pairwise
    (fun _ _ _ _ hlt hgt => absurd hlt (asymm hgt)) (daysOf_decreasing now history' id) (daysOf_decreasing now history id)

theorem closeOn_mem {c : DailyClose} (h : c ∈ closesOf now history id) :
    closeOn now history id c.day = some c.currentPnlUsd := by
  cases hfind : (closesOf now history id).find? fun c' => c'.day = c.day with
  | none => exact absurd (decide_eq_true rfl) (List.find?_eq_none.mp hfind c h)
  | some c' =>
    have hday : c'.day = c.day := of_decide_eq_true (List.find?_some (p := fun c' : DailyClose => decide (c'.day = c.day)) hfind)
    have hinj := List.inj_on_of_nodup_map (f := DailyClose.day)
      (List.pairwise_map.mpr ((closesOf_increasing now history id).imp ne_of_lt)) (List.mem_of_find?_eq_some hfind) h hday
    rw [closeOn, hfind, Option.map_some, hinj]

theorem closeOn_isSome : (closeOn now history id day).isSome ↔ day ∈ daysOf now history id := by
  rw [closeOn, Option.isSome_map, List.find?_isSome, daysOf, List.mem_reverse, List.mem_map]
  simp only [decide_eq_true_eq]

theorem changeOn_isSome : (changeOn now history id day).isSome ↔
    day ∈ daysOf now history id ∧ day - 1 ∈ daysOf now history id := by
  rw [← closeOn_isSome, ← closeOn_isSome, changeOn]
  cases closeOn now history id day with
  | none => simp
  | some later => simp

end Closes

section Series
variable {now : Instant} {history : List Snapshot} {id n : ℕ}

/-- The P&L of a position at its closes -/
def valuesOf (now : Instant) (history : List Snapshot) (id : ℕ) : List ℚ := (closesOf now history id).map (·.currentPnlUsd)

/-- Its entry in `series_by_id` -/
def entryOf (now : Instant) (history : List Snapshot) (id : ℕ) : String × List ℚ :=
  (toString id, changes (valuesOf now history id))

theorem summary_byPosition (c : DailyClose) (cs : List DailyClose) :
    byPosition.summary (c :: cs) = some (toString c.positionId, (c :: cs).map (·.currentPnlUsd)) := by
  have hfold (xs : List DailyClose) (e : String × List ℚ) :
      xs.foldl byPosition.extend e = (e.1, e.2 ++ xs.map (·.currentPnlUsd)) := by
    induction xs generalizing e with
    | nil => rw [List.foldl_nil, List.map_nil, List.append_nil]
    | cons x xs ih =>
      rw [List.foldl_cons, ih, List.map_cons]
      exact congrArg (Prod.mk e.1) (List.append_cons e.2 _ _).symm
  exact congrArg some (hfold cs (toString c.positionId, [c.currentPnlUsd]))

theorem mem_cum {e : String × List ℚ} : e ∈ cum now history ↔
    ∃ id, closesOf now history id ≠ [] ∧ e = (toString id, valuesOf now history id) := by
  rw [cum, (Grouping.grouped_fold (G := byPosition) (daily now history)).mem]
  have hclosed (id : ℕ) : (daily now history).filter (fun c => byPosition.key c = toString id) = closesOf now history id := by
    refine List.filter_congr fun c _ => ?_
    rw [decide_eq_decide]
    exact ⟨toString_injective, congrArg fun id : ℕ => toString id⟩
  constructor
  · intro h
    cases hcs : (daily now history).filter fun c => byPosition.key c = byPosition.keyOf e with
    | nil =>
      rw [hcs] at h
      cases h
    | cons c cs =>
      have hkey : byPosition.keyOf e = toString c.positionId := by
        have hmem : c ∈ (daily now history).filter fun c => byPosition.key c = byPosition.keyOf e := by
          rw [hcs]
          exact List.mem_cons_self
        exact (of_decide_eq_true (List.mem_filter.mp hmem).2).symm
      rw [hcs, summary_byPosition] at h
      rw [hkey, hclosed] at hcs
      refine ⟨c.positionId, by rw [hcs]; exact List.cons_ne_nil c cs, ?_⟩
      rw [valuesOf, hcs]
      exact (Option.some.inj h).symm
  · rintro ⟨id, hne, rfl⟩
    change byPosition.summary ((daily now history).filter fun c => byPosition.key c = toString id) = _
    rw [hclosed, valuesOf]
    cases hcs : closesOf now history id with
    | nil => exact absurd hcs hne
    | cons c cs =>
      have hid : c.positionId = id := (mem_closesOf.mp (by rw [hcs]; exact List.mem_cons_self)).2
      rw [summary_byPosition, hid]

theorem mem_seriesById {e : String × List ℚ} : e ∈ seriesById now history ↔ ∃ id ∈ tracked now history, e = entryOf now history id := by
  rw [seriesById, List.mem_map]
  constructor
  · rintro ⟨e, he, rfl⟩
    obtain ⟨hcum, hlen⟩ := List.mem_filter.mp he
    obtain ⟨id, -, rfl⟩ := mem_cum.mp hcum
    have hlen' : 2 ≤ (valuesOf now history id).length := of_decide_eq_true hlen
    rw [valuesOf, List.length_map, ← length_daysOf] at hlen'
    exact ⟨id, hlen', rfl⟩
  · rintro ⟨id, hid, rfl⟩
    have hlen : 2 ≤ (closesOf now history id).length := by
      rw [← length_daysOf]
      exact hid
    refine ⟨(toString id, valuesOf now history id), List.mem_filter.mpr ⟨mem_cum.mpr ⟨id, ?_, rfl⟩, ?_⟩, rfl⟩
    · exact List.ne_nil_of_length_pos (by omega)
    · rw [decide_eq_true_iff, valuesOf, List.length_map]
      exact hlen

theorem seriesById_nodup (now : Instant) (history : List Snapshot) : ((seriesById now history).map Prod.fst).Nodup := by
  rw [seriesById, List.map_map]
  exact (Grouping.grouped_fold (G := byPosition) (daily now history)).nodup.sublist (List.filter_sublist.map _)

theorem length_entryOf : (entryOf now history id).2.length = (daysOf now history id).length - 1 := by
  rw [entryOf, length_changes, valuesOf, List.length_map, length_daysOf]

theorem withSeries_seriesById (now : Instant) (history : List Snapshot) :
    withSeries (seriesById now history) = seriesById now history := by
  refine List.filter_eq_self.mpr fun e he => decide_eq_true ?_
  obtain ⟨id, hid, rfl⟩ := mem_seriesById.mp he
  have hlen : 2 ≤ (daysOf now history id).length := hid
  refine List.ne_nil_of_length_pos ?_
  rw [length_entryOf]
  omega

/-- The days that every series has are one less than the closes of the shortest. -/
theorem alignedDays_iff : alignedDays (seriesById now history) = some n ↔
    IsLeast ((fun id => (daysOf now history id).length) '' tracked now history) (n + 1) := by
  have hmem (k : ℕ) : k ∈ (withSeries (seriesById now history)).map (·.2.length) ↔
      k + 1 ∈ (fun id => (daysOf now history id).length) '' tracked now history := by
    rw [withSeries_seriesById, List.mem_map]
    constructor
    · rintro ⟨e, he, rfl⟩
      obtain ⟨id, hid, rfl⟩ := mem_seriesById.mp he
      have hlen : 2 ≤ (daysOf now history id).length := hid
      refine ⟨id, hid, ?_⟩
      rw [length_entryOf]
      dsimp only
      omega
    · rintro ⟨id, hid, hk⟩
      refine ⟨entryOf now history id, mem_seriesById.mpr ⟨id, hid, rfl⟩, ?_⟩
      rw [length_entryOf]
      dsimp only at hk
      omega
  rw [alignedDays, List.min?_eq_some_iff, hmem]
  refine and_congr_right fun _ => ⟨fun h => ?_, fun h k hk => ?_⟩
  · rintro _ ⟨id, hid, rfl⟩
    have hlen : 2 ≤ (daysOf now history id).length := hid
    have hpred : (daysOf now history id).length - 1 + 1 = (daysOf now history id).length := by omega
    have hle := h ((daysOf now history id).length - 1) ((hmem _).mpr ⟨id, hid, hpred.symm⟩)
    dsimp only
    omega
  · have hle := h ((hmem k).mp hk)
    omega

end Series

section Rows
variable {book : Book} {now : Instant} {history : List Snapshot} {n : ℕ}

theorem rows_none (h : alignedDays (seriesById now history) = none) : (marginalVar book now none history).positions = [] := by
  simp only [marginalVar, Option.getD_none, componentVar, h]
  split_ifs <;> rfl

theorem rows_short (h : alignedDays (seriesById now history) = some n) (hn : n < minDays) :
    (marginalVar book now none history).positions = [] := by
  simp only [marginalVar, Option.getD_none, componentVar, h, if_pos hn]
  split_ifs <;> rfl

/-- There is a row for every series. -/
theorem rows_ids (hbook : book.positions ≠ []) (h : alignedDays (seriesById now history) = some n) (hn : minDays ≤ n) :
    (marginalVar book now none history).positions.map (·.id) = (seriesById now history).map Prod.fst ∧
      (marginalVar book now none history).nDays = n := by
  simp only [marginalVar, if_neg hbook, Option.getD_none, componentVar, h, if_neg (not_lt.mpr hn), List.map_map,
    withSeries_seriesById, and_true]
  rfl

theorem mem_shown (hbook : book.positions ≠ []) (h : alignedDays (seriesById now history) = some n) (hn : minDays ≤ n)
    {pos : OpenPosition} : pos ∈ shown book now history ↔ pos ∈ book.positions ∧ pos.id ∈ tracked now history := by
  rw [shown, List.mem_filter, decide_eq_true_iff, (rows_ids hbook h hn).1, List.mem_map]
  refine and_congr_right fun _ => ⟨?_, fun hid => ⟨entryOf now history pos.id, mem_seriesById.mpr ⟨pos.id, hid, rfl⟩, rfl⟩⟩
  rintro ⟨e, he, heq⟩
  obtain ⟨id, hid, rfl⟩ := mem_seriesById.mp he
  rwa [← toString_injective heq]

theorem shown_nodup (book : Book) (now : Instant) (history : List Snapshot) : ((shown book now history).map (·.id)).Nodup :=
  book.nodup.sublist (List.filter_sublist.map _)

/-- Where the positions with a series are open they are the positions with a row. -/
theorem portfolio_shown (hbook : book.positions ≠ []) (h : alignedDays (seriesById now history) = some n) (hn : minDays ≤ n)
    (hopen : ∀ id ∈ tracked now history, id ∈ book.positions.map (·.id)) (i : Fin n) :
    portfolio (seriesById now history) n i =
      (((shown book now history).map (·.id)).map fun id => lastDays n (entryOf now history id).2 i).sum := by
  have hperm : (seriesById now history).Perm (((shown book now history).map (·.id)).map (entryOf now history)) := by
    refine (List.perm_ext_iff_of_nodup (List.Nodup.of_map _ (seriesById_nodup now history)) ?_).mpr fun e => ?_
    · exact (shown_nodup book now history).map fun a b hab => toString_injective (Prod.ext_iff.mp hab).1
    · rw [mem_seriesById, List.mem_map]
      constructor
      · rintro ⟨id, hid, rfl⟩
        obtain ⟨pos, hpos, rfl⟩ := List.mem_map.mp (hopen id hid)
        exact ⟨pos.id, List.mem_map_of_mem ((mem_shown hbook h hn).mpr ⟨hpos, hid⟩), rfl⟩
      · rintro ⟨id, hid, rfl⟩
        obtain ⟨pos, hpos, rfl⟩ := List.mem_map.mp hid
        exact ⟨pos.id, ((mem_shown hbook h hn).mp hpos).2, rfl⟩
  rw [portfolio, withSeries_seriesById, (hperm.map _).sum_eq, List.map_map]
  rfl

end Rows

section Change
variable {now : Instant} {history : List Snapshot} {id n : ℕ}

theorem lastDays_newest {series : List ℚ} (hn : n ≤ series.length) (i : Fin n) :
    lastDays n series i = (series.reverse[n - 1 - i]?).getD 0 := by
  have hi := i.isLt
  rw [lastDays, List.getD_eq_getElem?_getD, List.getElem?_drop, List.getElem?_reverse (by omega)]
  congr 2
  omega

/-- The change at place `k` from the newest is between closes next to each other. -/
theorem change_eq (hn : n < (daysOf now history id).length) (i : Fin n) : ∃ later earlier,
    later ∈ closesOf now history id ∧ earlier ∈ closesOf now history id ∧
      (daysOf now history id)[n - 1 - i]? = some later.day ∧ (daysOf now history id)[n - 1 - i + 1]? = some earlier.day ∧
      lastDays n (entryOf now history id).2 i = later.currentPnlUsd - earlier.currentPnlUsd := by
  have hi := i.isLt
  have hlen : (daysOf now history id).length = (closesOf now history id).length := length_daysOf
  have hget (k : ℕ) (hk : k < (closesOf now history id).length) : ∃ c ∈ closesOf now history id,
      (closesOf now history id).reverse[k]? = some c := by
    refine ⟨_, List.mem_reverse.mp (List.getElem_mem _), List.getElem?_eq_getElem ?_⟩
    rwa [List.length_reverse]
  obtain ⟨later, hmem, hlater⟩ := hget (n - 1 - i) (by omega)
  obtain ⟨earlier, hmem', hearlier⟩ := hget (n - 1 - i + 1) (by omega)
  refine ⟨later, earlier, hmem, hmem', ?_, ?_, ?_⟩
  · rw [daysOf, ← List.map_reverse, List.getElem?_map, hlater, Option.map_some]
  · rw [daysOf, ← List.map_reverse, List.getElem?_map, hearlier, Option.map_some]
  · have hchange : (entryOf now history id).2.reverse[n - 1 - i]? = some (later.currentPnlUsd - earlier.currentPnlUsd) := by
      refine newest_change ?_ ?_
      · rw [valuesOf, ← List.map_reverse, List.getElem?_map, hlater, Option.map_some]
      · rw [valuesOf, ← List.map_reverse, List.getElem?_map, hearlier, Option.map_some]
    rw [lastDays_newest (by rw [length_entryOf]; omega), hchange, Option.getD_some]

end Change

section ByDate
variable {book : Book} {now : Instant} {history history' : List Snapshot} {id m : ℕ}

theorem tracked_congr (h : history'.map Snapshot.stamp = history.map Snapshot.stamp) :
    tracked now history' = tracked now history := by
  simp only [tracked, daysOf_congr h]

theorem alignedByDate_congr (h : history'.map Snapshot.stamp = history.map Snapshot.stamp) :
    AlignedByDate book now history' ↔ AlignedByDate book now history := by
  simp only [AlignedByDate, tracked_congr h, daysOf_congr h]

theorem todaysBook_of_rows (h : (marginalVar book now none history).positions = []) : TodaysBook book now history where
  openOnly row hrow := by
    rw [h] at hrow
    cases hrow
  byDate hrows := absurd h hrows

theorem todaysBook_of_aligned (h : AlignedByDate book now history) : TodaysBook book now history := by
  rcases h with hbook | h
  · exact todaysBook_of_rows (by rw [marginalVar, if_pos hbook])
  by_cases hbook : book.positions = []
  · exact todaysBook_of_rows (by rw [marginalVar, if_pos hbook])
  cases hn : alignedDays (seriesById now history) with
  | none => exact todaysBook_of_rows (rows_none hn)
  | some n =>
    by_cases hmin : n < minDays
    · exact todaysBook_of_rows (rows_short hn hmin)
    rw [not_lt] at hmin
    obtain ⟨last, hall⟩ := h (n + 1) (alignedDays_iff.mp hn) (by omega)
    obtain ⟨hids, hdays⟩ := rows_ids hbook hn hmin
    have hopen (id : ℕ) (hid : id ∈ tracked now history) : id ∈ book.positions.map (·.id) := (hall id hid).1
    refine ⟨fun row hrow => ?_, fun _ => ?_⟩
    · have hkey : row.id ∈ (seriesById now history).map Prod.fst := hids ▸ List.mem_map_of_mem hrow
      obtain ⟨e, he, hrow⟩ := List.mem_map.mp hkey
      obtain ⟨id, hid, rfl⟩ := mem_seriesById.mp he
      obtain ⟨pos, hpos, rfl⟩ := List.mem_map.mp (hopen id hid)
      exact ⟨pos, hpos, hrow⟩
    · rw [hdays]
      refine ⟨fun i => last - (n - 1 - i : ℕ), fun i j hij => ?_, fun i => ?_⟩
      · have hlt : i.val < j.val := hij
        have hj := j.isLt
        dsimp only
        omega
      · have hi := i.isLt
        have hchange (pos : OpenPosition) (hpos : pos ∈ shown book now history) :
            changeOn now history pos.id (last - (n - 1 - i : ℕ)) = some (lastDays n (entryOf now history pos.id).2 i) := by
          have htracked := ((mem_shown hbook hn hmin).mp hpos).2
          have hrun := (hall pos.id htracked).2
          have hlen : n < (daysOf now history pos.id).length :=
            (List.getElem?_eq_some_iff.mp (hrun n (Nat.lt_succ_self n))).1
          obtain ⟨later, earlier, hlater, hearlier, hday, hday', heq⟩ := change_eq hlen i
          have h1 := (hrun (n - 1 - i) (by omega)).symm.trans hday
          have h2 := (hrun (n - 1 - i + 1) (by omega)).symm.trans hday'
          have h3 : last - (n - 1 - i : ℕ) - 1 = earlier.day := by
            rw [← Option.some.inj h2]
            push_cast
            ring
          rw [changeOn, h3, Option.some.inj h1, closeOn_mem hlater, closeOn_mem hearlier, heq]
          rfl
        refine ⟨fun pos hpos => by rw [hchange pos hpos]; rfl, ?_⟩
        rw [portfolio_shown hbook hn hmin hopen, List.map_map]
        congr 1
        refine List.map_congr_left fun pos hpos => ?_
        rw [hchange pos hpos]
        rfl

end ByDate

section Revalued
variable {book : Book} {now : Instant} {history : List Snapshot} {id n : ℕ}

/-- The same snapshots with the P&L that a position has on a day -/
def revalue (value : ℕ → ℤ → ℚ) (history : List Snapshot) : List Snapshot :=
  history.map fun s => { s with currentPnlUsd := s.currentPnlUsd.map fun _ => value s.positionId (dateOrdinal s.timestamp) }

theorem stamp_revalue (value : ℕ → ℤ → ℚ) (history : List Snapshot) :
    (revalue value history).map Snapshot.stamp = history.map Snapshot.stamp := by
  rw [revalue, List.map_map]
  refine List.map_congr_left fun s _ => ?_
  simp only [Snapshot.stamp, Function.comp_apply, Option.isSome_map]

theorem closesOf_revalue {value : ℕ → ℤ → ℚ} {c : DailyClose} (h : c ∈ closesOf now (revalue value history) id) :
    c.currentPnlUsd = value id c.day := by
  obtain ⟨hdaily, rfl⟩ := mem_closesOf.mp h
  obtain ⟨s, hs, hrecent⟩ := List.mem_filterMap.mp (mem_daily hdaily)
  obtain ⟨t, -, rfl⟩ := List.mem_map.mp hs
  rw [recent] at hrecent
  split_ifs at hrecent
  obtain ⟨pnl, hpnl, rfl⟩ := Option.map_eq_some_iff.mp hrecent
  obtain ⟨-, -, rfl⟩ := Option.map_eq_some_iff.mp hpnl
  rfl

theorem closeOn_revalue {value : ℕ → ℤ → ℚ} {day : ℤ} (h : day ∈ daysOf now (revalue value history) id) :
    closeOn now (revalue value history) id day = some (value id day) := by
  rw [daysOf, List.mem_reverse, List.mem_map] at h
  obtain ⟨c, hc, rfl⟩ := h
  rw [closeOn_mem hc, closesOf_revalue hc]

/-- One position with one day on which it has a P&L -/
def spike (id : ℕ) (day : ℤ) (id' : ℕ) (day' : ℤ) : ℚ := if id' = id ∧ day' = day then 1 else 0

theorem sum_one {ids : List ℕ} (hids : ids.Nodup) (hid : id ∈ ids) {f : ℕ → ℚ} (h : ∀ id' ∈ ids, id' ≠ id → f id' = 0) :
    (ids.map f).sum = f id := by
  rw [← List.sum_toFinset f hids]
  refine Finset.sum_eq_single id (fun id' hid' hne => h id' (List.mem_toFinset.mp hid') hne) fun hnone => ?_
  exact absurd (List.mem_toFinset.mpr hid) hnone

section Spike
variable {p : ℕ} {day : ℤ}

theorem spike_ne {id : ℕ} (h : id ≠ p) (day' : ℤ) : spike p day id day' = 0 := if_neg fun hsame => h hsame.1

theorem alignedDays_revalue {value : ℕ → ℤ → ℚ} (h : alignedDays (seriesById now history) = some n) :
    alignedDays (seriesById now (revalue value history)) = some n := by
  rw [alignedDays_iff] at h ⊢
  simp only [tracked_congr (stamp_revalue value history), daysOf_congr (stamp_revalue value history)]
  exact h

variable (hbook : book.positions ≠ []) (hn : alignedDays (seriesById now history) = some n) (hmin : minDays ≤ n)
  (hopen : ∀ id ∈ tracked now history, id ∈ book.positions.map (·.id))
include hbook hn hmin hopen

theorem mem_shown_revalue (value : ℕ → ℤ → ℚ) (id : ℕ) :
    id ∈ (shown book now (revalue value history)).map (·.id) ↔ id ∈ tracked now history := by
  have hn' : alignedDays (seriesById now (revalue value history)) = some n := alignedDays_revalue hn
  have hshown {pos : OpenPosition} : pos ∈ shown book now (revalue value history) ↔
      pos ∈ book.positions ∧ pos.id ∈ tracked now history := by
    rw [mem_shown hbook hn' hmin, tracked_congr (stamp_revalue value history)]
  rw [List.mem_map]
  constructor
  · rintro ⟨pos, hpos, rfl⟩
    exact (hshown.mp hpos).2
  · intro hid
    obtain ⟨pos, hpos, rfl⟩ := List.mem_map.mp (hopen id hid)
    exact ⟨pos, hshown.mpr ⟨hpos, hid⟩, rfl⟩

/-- On the row whose newer close is the one with a P&L the portfolio has that P&L. -/
theorem portfolio_spike (hp : p ∈ tracked now history) (i : Fin n) (hday : (daysOf now history p)[n - 1 - i]? = some day) :
    portfolio (seriesById now (revalue (spike p day) history)) n i = 1 := by
  have hstamp := stamp_revalue (spike p day) history
  have hn' : alignedDays (seriesById now (revalue (spike p day) history)) = some n := alignedDays_revalue hn
  have hids := mem_shown_revalue hbook hn hmin hopen (spike p day)
  have hchange (id : ℕ) (hid : id ∈ tracked now history) :
      ∃ later earlier, (daysOf now history id)[n - 1 - i]? = some later ∧ (daysOf now history id)[n - 1 - i + 1]? = some earlier ∧
        lastDays n (entryOf now (revalue (spike p day) history) id).2 i = spike p day id later - spike p day id earlier := by
    have hlen : n < (daysOf now (revalue (spike p day) history) id).length := by
      rw [daysOf_congr hstamp]
      exact (alignedDays_iff.mp hn).2 ⟨id, hid, rfl⟩
    obtain ⟨later, earlier, hlater, hearlier, hl, he, heq⟩ := change_eq hlen i
    rw [closesOf_revalue hlater, closesOf_revalue hearlier] at heq
    rw [daysOf_congr hstamp] at hl he
    exact ⟨later.day, earlier.day, hl, he, heq⟩
  rw [portfolio_shown hbook hn' hmin (tracked_congr hstamp ▸ hopen), sum_one (shown_nodup _ _ _) ((hids p).mpr hp)]
  · obtain ⟨later, earlier, hl, he, heq⟩ := hchange p hp
    obtain rfl := Option.some.inj (hl.symm.trans hday)
    have hne : earlier ≠ later := by
      obtain ⟨hk, hl⟩ := List.getElem?_eq_some_iff.mp hl
      obtain ⟨hk', he⟩ := List.getElem?_eq_some_iff.mp he
      have hgt := List.pairwise_iff_getElem.mp (daysOf_decreasing now history p) _ _ hk hk' (Nat.lt_add_one _)
      rw [hl, he] at hgt
      exact ne_of_lt hgt
    rw [heq, spike, spike, if_pos ⟨rfl, rfl⟩, if_neg fun hsame => hne hsame.2, sub_zero]
  · intro id hid hne
    obtain ⟨later, earlier, -, -, heq⟩ := hchange id ((hids id).mp hid)
    rw [heq, spike_ne hne, spike_ne hne, sub_zero]

/-- Over a calendar day only the position with the P&L changes, on the day itself and the day after. -/
theorem changes_spike (hp : p ∈ tracked now history) {d : ℤ}
    (hknown : ∀ pos ∈ shown book now (revalue (spike p day) history),
      (changeOn now (revalue (spike p day) history) pos.id d).isSome) :
    ((shown book now (revalue (spike p day) history)).map fun pos =>
      (changeOn now (revalue (spike p day) history) pos.id d).getD 0).sum = spike p day p d - spike p day p (d - 1) := by
  have hids := mem_shown_revalue hbook hn hmin hopen (spike p day)
  have hchange (id : ℕ) (hid : id ∈ (shown book now (revalue (spike p day) history)).map (·.id)) :
      (changeOn now (revalue (spike p day) history) id d).getD 0 = spike p day id d - spike p day id (d - 1) := by
    obtain ⟨pos, hpos, rfl⟩ := List.mem_map.mp hid
    have hdays := changeOn_isSome.mp (hknown pos hpos)
    rw [changeOn, closeOn_revalue hdays.1, closeOn_revalue hdays.2]
    rfl
  have hmap : ((shown book now (revalue (spike p day) history)).map fun pos =>
      (changeOn now (revalue (spike p day) history) pos.id d).getD 0) =
        ((shown book now (revalue (spike p day) history)).map (·.id)).map fun id =>
          (changeOn now (revalue (spike p day) history) id d).getD 0 := by
    rw [List.map_map]
    rfl
  rw [hmap, sum_one (shown_nodup _ _ _) ((hids p).mpr hp), hchange p ((hids p).mpr hp)]
  intro id hid hne
  rw [hchange id hid, spike_ne hne, spike_ne hne, sub_zero]

end Spike

theorem open_of_todaysBook (hbook : book.positions ≠ []) (h : TodaysBook book now history)
    (hn : alignedDays (seriesById now history) = some n) (hmin : minDays ≤ n) :
    ∀ id ∈ tracked now history, id ∈ book.positions.map (·.id) := by
  intro id hid
  have hkey : toString id ∈ (marginalVar book now none history).positions.map (·.id) := by
    rw [(rows_ids hbook hn hmin).1]
    exact List.mem_map.mpr ⟨entryOf now history id, mem_seriesById.mpr ⟨id, hid, rfl⟩, rfl⟩
  obtain ⟨row, hrow, hrowId⟩ := List.mem_map.mp hkey
  obtain ⟨pos, hpos, heq⟩ := h.openOnly row hrow
  exact List.mem_map.mpr ⟨pos, hpos, toString_injective (heq.trans hrowId)⟩

/-- A day that is the newer one of a change in one series is a day with a change in all of them. -/
theorem shared_of_todaysBook (hbook : book.positions ≠ []) (hn : alignedDays (seriesById now history) = some n)
    (hmin : minDays ≤ n) (hopen : ∀ id ∈ tracked now history, id ∈ book.positions.map (·.id)) {p q : ℕ} {day : ℤ}
    (h : TodaysBook book now (revalue (spike p day) history)) (hp : p ∈ tracked now history) (hq : q ∈ tracked now history)
    (i : Fin n) (hday : (daysOf now history p)[n - 1 - i]? = some day) :
    day ∈ daysOf now history q ∧ day - 1 ∈ daysOf now history q := by
  have hn' : alignedDays (seriesById now (revalue (spike p day) history)) = some n := alignedDays_revalue hn
  have hids := mem_shown_revalue hbook hn hmin hopen (spike p day)
  obtain ⟨pos, hpos, rfl⟩ := List.mem_map.mp ((hids q).mpr hq)
  have hrows : (marginalVar book now none (revalue (spike p day) history)).positions ≠ [] := by
    intro hnil
    have hshown := (List.mem_filter.mp hpos).2
    rw [hnil] at hshown
    cases of_decide_eq_true hshown
  have hbyDate := h.byDate hrows
  rw [(rows_ids hbook hn' hmin).2] at hbyDate
  obtain ⟨dayAt, -, hdayAt⟩ := hbyDate
  obtain ⟨hknown, hsum⟩ := hdayAt i
  rw [portfolio_spike hbook hn hmin hopen hp i hday, changes_spike hbook hn hmin hopen hp hknown] at hsum
  have hd : dayAt i = day := by
    by_contra hne
    rw [spike, if_neg fun hsame => hne hsame.2, spike] at hsum
    split_ifs at hsum <;> norm_num at hsum
  have hboth := changeOn_isSome.mp (hknown pos hpos)
  rwa [daysOf_congr (stamp_revalue _ _), hd] at hboth

theorem aligned_of_todaysBook
    (h : ∀ history', history'.map Snapshot.stamp = history.map Snapshot.stamp → TodaysBook book now history') :
    AlignedByDate book now history := by
  by_cases hbook : book.positions = []
  · exact .inl hbook
  refine .inr fun m hm hmin => ?_
  have hpred : m - 1 + 1 = m := by omega
  have hn : alignedDays (seriesById now history) = some (m - 1) := by
    rw [alignedDays_iff, hpred]
    exact hm
  have hmin' : minDays ≤ m - 1 := by omega
  have hopen := open_of_todaysBook hbook (h history rfl) hn hmin'
  have hone : 1 < m := lt_of_lt_of_le (by decide) (Nat.succ_le_of_lt hmin)
  obtain ⟨last, hlast⟩ := unbroken_of_shared hone (fun p _ => daysOf_decreasing now history p)
    (fun p hp => hm.2 ⟨p, hp, rfl⟩) fun p hp q hq k day hk hday => by
      have hplace : m - 1 - 1 - (m - 1 - 1 - k) = k := by omega
      refine shared_of_todaysBook hbook hn hmin' hopen (h _ (stamp_revalue _ _)) hp hq ⟨m - 1 - 1 - k, by omega⟩ ?_
      rw [hplace]
      exact hday
  exact ⟨last, fun id hid => ⟨hopen id hid, hlast id hid⟩⟩

end Revalued

/-- A position open today, and six days of another that has been closed since -/
def closedBook : Book := ⟨[⟨1, none, "6EU6", none, none, none, none, none, none⟩], List.nodup_singleton 1⟩

def closedHistory : List Snapshot := (List.range 6).map fun day => ⟨2, day * 86400000000, some 0⟩

theorem daysOf_closed : daysOf (6 * 86400000000) closedHistory 2 = [719168, 719167, 719166, 719165, 719164, 719163] := by
  decide +kernel

/-- The closed position has a row. -/
theorem not_todays_book : ¬ ∀ book now history, TodaysBook book now history := by
  intro h
  have haligned : AlignedByDate closedBook (6 * 86400000000) closedHistory :=
    aligned_of_todaysBook fun history' _ => h closedBook (6 * 86400000000) history'
  have hlength : (daysOf (6 * 86400000000) closedHistory 2).length = 6 := by
    rw [daysOf_closed]
    rfl
  have htracked : 2 ∈ tracked (6 * 86400000000) closedHistory := by
    change 2 ≤ (daysOf (6 * 86400000000) closedHistory 2).length
    omega
  have honly (id : ℕ) (hid : id ∈ tracked (6 * 86400000000) closedHistory) : id = 2 := by
    have hlen : 2 ≤ (daysOf (6 * 86400000000) closedHistory id).length := hid
    obtain ⟨day, hday⟩ := List.exists_mem_of_length_pos (lt_of_lt_of_le two_pos hlen)
    obtain ⟨s, hs, hsid, -⟩ := mem_daysOf.mp hday
    obtain ⟨n, -, rfl⟩ := List.mem_map.mp hs
    exact hsid.symm
  have hleast : IsLeast ((fun id => (daysOf (6 * 86400000000) closedHistory id).length) ''
      tracked (6 * 86400000000) closedHistory) 6 := by
    refine ⟨⟨2, htracked, hlength⟩, ?_⟩
    rintro _ ⟨id, hid, rfl⟩
    rw [honly id hid]
    exact hlength.ge
  rcases haligned with hnone | hall
  · cases hnone
  · obtain ⟨last, hlast⟩ := hall 6 hleast (by decide)
    have hopen := (hlast 2 htracked).1
    revert hopen
    decide

/-- Whatever the P&L of the snapshots: the rows are about the open book and the portfolio is summed by date exactly if
the positions with a series are open and on the same days without a gap. -/
theorem todays_book_iff (book : Book) (now : Instant) (history : List Snapshot) :
    (∀ history', history'.map Snapshot.stamp = history.map Snapshot.stamp → TodaysBook book now history') ↔
      AlignedByDate book now history := by
  constructor
  · exact aligned_of_todaysBook
  · intro haligned history' hstamp
    exact todaysBook_of_aligned ((alignedByDate_congr hstamp).mpr haligned)

end FxVol.MarginalVar
