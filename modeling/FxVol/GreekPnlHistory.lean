import FxVol.PnlAttributions
import FxVol.TableTotals

/-!
# The greek P&L history

`/greek-pnl-history` walks each position of IB from bucket to bucket and cumulates the four terms that the attribution
gives for a window.  It multiplies the delta, which is in USD, by the move of the forward, and the vega, which is per
vol point, by the move of an IV that is a fraction.
-/
namespace FxVol.GreekPnlHistory

open Greeks RiskSnapshots PnlAttributions

/-- The computable order, which a search by instances does not find first -/
local instance historyOrder : Preorder ℤ := Int.instLinearOrder.toPartialOrder.toPreorder

inductive TaylorTerm | delta | gamma | vega | theta
  deriving DecidableEq

/-- What the series reads of a position in a bucket -/
structure Snap where
  delta : Option ℚ
  gamma : Option ℚ
  vega : Option ℚ
  theta : Option ℚ
  iv : Option ℚ
  deriving DecidableEq

/-- The gamma is made one per unit of the spot. -/
def snapOf (c : SnapshotRow) : Snap := ⟨c.deltaUsd, c.gammaUsd.map (· / pipSize), c.vegaUsd, c.thetaUsd, c.iv⟩

section Taylor
variable (forward : Instant → Option ℚ)

/-- What an interval adds, with the greeks at its start; a missing input adds nothing. -/
def increment (prev cur : Instant × Snap) : TaylorTerm → ℚ
  | .delta => (Option.map₂ (· * ·) prev.2.delta (change (forward cur.1) (forward prev.1))).getD 0
  | .gamma =>
    (Option.map₂ (fun g d => 1 / 2 * g * d * d) prev.2.gamma (change (forward cur.1) (forward prev.1))).getD 0
  | .vega => (Option.map₂ (· * ·) prev.2.vega (change cur.2.iv prev.2.iv)).getD 0
  | .theta => (prev.2.theta.map (· * daysBetween prev.1 cur.1)).getD 0

/-- Each snapshot with the next one -/
def intervals {α : Type} (snaps : List α) : List (α × α) := snaps.zip snaps.tail

def walk (snaps : List (Instant × Snap)) : List (Instant × (TaylorTerm → ℚ)) :=
  (intervals snaps).map fun i => (i.2.1, increment forward i.1 i.2)

/-- `inc` at a bucket -/
def incrementsAt (added : List (Instant × (TaylorTerm → ℚ))) (b : Instant) : TaylorTerm → ℚ :=
  ((added.filter fun e => e.1 = b).map (·.2)).sum

def cumulate (ρ : Rounding) (inc : Instant → TaylorTerm → ℚ) (cum : TaylorTerm → ℚ) :
    List Instant → List (Instant × (TaylorTerm → ℚ))
  | [] => []
  | b :: bs => (b, fun k => ρ.round ((cum + inc b) k) 2) :: cumulate ρ inc (cum + inc b) bs

/-- `_taylor_pnl_series`, the snapshots of a position in the order of their buckets -/
def taylorPnlSeries (ρ : Rounding) (perPosition : List (ℕ × List (Instant × Snap))) (buckets : List Instant) :
    List (Instant × (TaylorTerm → ℚ)) :=
  cumulate ρ (incrementsAt (perPosition.flatMap fun p => walk forward p.2)) 0 buckets

end Taylor

inductive HistoryWindow | d1 | d7 | d30 | y1 | all
  deriving DecidableEq

/-- `_WINDOW_SPECS`: the days back and the seconds of a bucket -/
def HistoryWindow.spec : HistoryWindow → ℤ × ℤ
  | d1 => (1, 60)
  | d7 => (7, 300)
  | d30 => (30, 1800)
  | y1 => (365, 14400)
  | all => (3650, 86400)

/-- A call of the endpoint -/
structure HistoryRequest where
  now : Instant
  window : HistoryWindow

namespace HistoryRequest

def cutoff (q : HistoryRequest) : Instant := q.now - q.window.spec.1 * 86400000000

def bucketTs (q : HistoryRequest) (t : Instant) : Instant :=
  t / (q.window.spec.2 * 1000000) * (q.window.spec.2 * 1000000)

end HistoryRequest

section Endpoint
variable (s : Tables) (q : HistoryRequest)

def historyOf (id : ℕ) : List IbHistory :=
  s.openHistory.filter fun h => h.columns.positionId = id ∧ q.cutoff ≤ h.timestamp

def buckets : List Instant :=
  (s.openPositions.flatMap fun r =>
    (historyOf s q r.columns.positionId).map fun h => q.bucketTs h.timestamp).dedup.insertionSort (· ≤ ·)

def latestIn (id : ℕ) (b : Instant) : Option SnapshotRow :=
  (((historyOf s q id).filter fun h => q.bucketTs h.timestamp = b).argmax (·.timestamp)).map (·.columns)

def snapsOf (id : ℕ) : List (Instant × SnapshotRow) :=
  (buckets s q).filterMap fun b => (latestIn s q id b).map fun c => (b, c)

def forwardMark (b : Instant) : Option ℚ :=
  (s.openPositions.filterMap fun r =>
    if ['6', 'E'].isPrefixOf r.localSymbol.toList then
      (latestIn s q r.columns.positionId b).bind (·.marketPrice)
    else none).getLast?

/-- A bucket without a mark takes that of the bucket before. -/
def forwardFill (marks : Instant → Option ℚ) : Option ℚ → List Instant → List (Instant × Option ℚ)
  | _, [] => []
  | last, b :: bs =>
    let last := (marks b).or last
    (b, last) :: forwardFill marks last bs

def forwardAt (b : Instant) : Option ℚ := ((forwardFill (forwardMark s q) none (buckets s q)).lookup b).join

def greekPnlHistory (ρ : Rounding) : List (Instant × (TaylorTerm → ℚ)) :=
  taylorPnlSeries (forwardAt s q) ρ
    (s.openPositions.map fun r =>
      (r.columns.positionId, (snapsOf s q r.columns.positionId).map fun x => (x.1, snapOf x.2)))
    (buckets s q)

end Endpoint

/-- What `decompose_row` returns for a term -/
def TaylorTerm.attributed : TaylorTerm → Decomposition → Option ℚ
  | delta => Decomposition.deltaPnlUsd
  | gamma => Decomposition.gammaPnlUsd
  | vega => Decomposition.vegaPnlUsd
  | theta => Decomposition.thetaPnlUsd

section Claim
variable (forward : Instant → Option ℚ) (r : IbRow) (prev cur : Instant × SnapshotRow)

/-- The spots at both ends that the attribution reads a leg with, the later first -/
def intervalSpots : Option ℚ × Option ℚ :=
  if r.isFuture then (cur.2.marketPrice, prev.2.marketPrice) else (forward cur.1, forward prev.1)

/-- The attribution of an interval, before rounding -/
def intervalTerms : Decomposition :=
  let spots := intervalSpots forward r prev cur
  decomposeRow .exact cur.1 (ibReading r.isFuture spots.1 (some cur.2)) (ibReading r.isFuture spots.2 (some prev.2))
    (some prev.1) (if r.isFuture then 1 else 1 / pipSize)

/-- What the attribution gives for a term, nothing where it has none -/
def attributedTerm (k : TaylorTerm) : ℚ := (k.attributed (intervalTerms forward r prev cur)).getD 0

def seriesTerm (k : TaylorTerm) : ℚ := increment forward (prev.1, snapOf prev.2) (cur.1, snapOf cur.2) k

end Claim

def intervalsOf (s : Tables) (q : HistoryRequest) (r : IbRow) : List ((Instant × SnapshotRow) × (Instant × SnapshotRow)) :=
  intervals (snapsOf s q r.columns.positionId)

/-- Each interval adds what it is attributed, and the series ends at the sum of these, to the cent. -/
structure Agrees (s : Tables) (q : HistoryRequest) : Prop where
  interval : ∀ r ∈ s.openPositions, ∀ i ∈ intervalsOf s q r, ∀ k,
    seriesTerm (forwardAt s q) i.1 i.2 k = attributedTerm (forwardAt s q) r i.1 i.2 k
  window : ∀ ρ, ∀ point ∈ (greekPnlHistory s q ρ).getLast?, ∀ k, point.2 k = ρ.round
    (s.openPositions.map fun r =>
      ((intervalsOf s q r).map fun i => attributedTerm (forwardAt s q) r i.1 i.2 k).sum).sum 2

section Condition
variable (forward : Instant → Option ℚ) (r : IbRow) (prev cur : Instant × SnapshotRow)

/-- The greek that the attribution takes: the one at the start, or else the one at the end -/
def anchored (start latest : Option ℚ) : ℚ := (start.or latest).getD 0

/-- The delta that the attribution takes, divided by the spot at its own end -/
def anchoredDelta : ℚ :=
  let spots := intervalSpots forward r prev cur
  anchored (perSpot prev.2.deltaUsd spots.2) (perSpot cur.2.deltaUsd spots.1)

def forwardMove : ℚ := (change (forward cur.1) (forward prev.1)).getD 0

def ivMove : ℚ := (change cur.2.iv prev.2.iv).getD 0

/-- The series adds nothing for gamma, vega and theta. -/
structure Flat : Prop where
  gamma : prev.2.gammaUsd.getD 0 = 0 ∨ forwardMove forward prev cur = 0
  vega : prev.2.vegaUsd.getD 0 = 0 ∨ ivMove prev cur = 0
  theta : prev.2.thetaUsd.getD 0 = 0

/-- An option whose P&L is known at both ends -/
structure OptionMeets : Prop where
  delta : prev.2.deltaUsd.getD 0 = anchoredDelta forward r prev cur ∨ forwardMove forward prev cur = 0
  gamma : prev.2.gammaUsd.getD 0 = anchored prev.2.gammaUsd cur.2.gammaUsd ∨ forwardMove forward prev cur = 0
  vega : anchored prev.2.vegaUsd cur.2.vegaUsd = 0 ∨ ivMove prev cur = 0
  theta : prev.2.thetaUsd.getD 0 = anchored prev.2.thetaUsd cur.2.thetaUsd

/-- Where the P&L of a leg is not known the series is to add nothing; for a future, its delta alone, by its own marks;
and for an option, what its anchors give. -/
def Meets : Prop :=
  if (change cur.2.currentPnlUsd prev.2.currentPnlUsd).isNone then
    (prev.2.deltaUsd.getD 0 = 0 ∨ forwardMove forward prev cur = 0) ∧ Flat forward prev cur
  else if r.isFuture then
    prev.2.deltaUsd.getD 0 * forwardMove forward prev cur =
      anchoredDelta forward r prev cur * (change cur.2.marketPrice prev.2.marketPrice).getD 0 ∧ Flat forward prev cur
  else OptionMeets forward r prev cur

end Condition

theorem mul_getD (a b : Option ℚ) : (Option.map₂ (· * ·) a b).getD 0 = a.getD 0 * b.getD 0 := by
  cases a <;> cases b <;> simp

theorem square_getD (c : ℚ) (a b : Option ℚ) :
    (Option.map₂ (fun g d => 1 / 2 * g * c * d * d) a b).getD 0 = 1 / 2 * a.getD 0 * c * b.getD 0 * b.getD 0 := by
  cases a <;> cases b <;> simp

section Interval
variable {forward : Instant → Option ℚ} {r : IbRow} {prev cur : Instant × SnapshotRow}

theorem seriesTerm_eq (k : TaylorTerm) : seriesTerm forward prev cur k =
    match k with
    | .delta => prev.2.deltaUsd.getD 0 * forwardMove forward prev cur
    | .gamma => 1 / 2 * prev.2.gammaUsd.getD 0 * (1 / pipSize) * forwardMove forward prev cur *
        forwardMove forward prev cur
    | .vega => prev.2.vegaUsd.getD 0 * ivMove prev cur
    | .theta => prev.2.thetaUsd.getD 0 * daysBetween prev.1 cur.1 := by
  cases k with
  | delta => exact mul_getD _ _
  | gamma =>
    have hpip : (prev.2.gammaUsd.map (· / pipSize)).getD 0 = prev.2.gammaUsd.getD 0 / pipSize := by
      cases prev.2.gammaUsd <;> simp
    have hsquare := square_getD 1 (prev.2.gammaUsd.map (· / pipSize)) (change (forward cur.1) (forward prev.1))
    simp only [mul_one] at hsquare
    simp only [seriesTerm, increment, snapOf, forwardMove]
    rw [hsquare, hpip]
    ring
  | vega => exact mul_getD _ _
  | theta =>
    simp only [seriesTerm, increment, snapOf]
    cases prev.2.thetaUsd <;> simp

theorem attributedTerm_unknown (h : change cur.2.currentPnlUsd prev.2.currentPnlUsd = none) (k : TaylorTerm) :
    attributedTerm forward r prev cur k = 0 := by
  have hterms : intervalTerms forward r prev cur = ⟨none, none, none, none, none, none⟩ := by
    simp only [intervalTerms, decomposeRow, ibReading, Option.bind_some, h]
  rw [attributedTerm, hterms]
  cases k <;> rfl

variable (forward r) in
/-- The terms of a leg whose P&L is known -/
theorem attributedTerm_known {actual : ℚ} (h : change cur.2.currentPnlUsd prev.2.currentPnlUsd = some actual)
    (k : TaylorTerm) :
    let spotMove := (change (intervalSpots forward r prev cur).1 (intervalSpots forward r prev cur).2).getD 0
    attributedTerm forward r prev cur k =
      match k with
      | .delta => anchoredDelta forward r prev cur * spotMove
      | .gamma => if r.isFuture then 0
          else 1 / 2 * anchored prev.2.gammaUsd cur.2.gammaUsd * (1 / pipSize) * spotMove * spotMove
      | .vega => if r.isFuture then 0 else anchored prev.2.vegaUsd cur.2.vegaUsd * (100 * ivMove prev cur)
      | .theta => if r.isFuture then 0 else anchored prev.2.thetaUsd cur.2.thetaUsd * daysBetween prev.1 cur.1 := by
  have hexact : ∀ x : Option ℚ, (x.map fun x => Rounding.exact.round x 2) = x := fun x => by
    simp [Rounding.exact]
  have hzero : ∀ x : Option ℚ, (Option.some (0 : ℚ)).or x = some 0 := fun _ => rfl
  have hpoints : (change (ivFractionToPts cur.2.iv) (ivFractionToPts prev.2.iv)).getD 0 = 100 * ivMove prev cur := by
    rw [ivMove]
    cases cur.2.iv <;> cases prev.2.iv <;> simp [change, ivFractionToPts]
    ring
  cases k with
  | delta =>
    simp only [attributedTerm, TaylorTerm.attributed, intervalTerms, decomposeRow, ibReading, Option.bind_some, h, hexact,
      mul_getD]
    rfl
  | gamma =>
    simp only [attributedTerm, TaylorTerm.attributed, intervalTerms, decomposeRow, ibReading, Option.bind_some, h, hexact,
      square_getD]
    split_ifs with hfuture
    · simp
    · rfl
  | vega =>
    simp only [attributedTerm, TaylorTerm.attributed, intervalTerms, decomposeRow, ibReading, Option.bind_some, h, hexact,
      mul_getD]
    split_ifs with hfuture
    · simp
    · rw [hpoints]
      rfl
  | theta =>
    simp only [attributedTerm, TaylorTerm.attributed, intervalTerms, decomposeRow, ibReading, Option.bind_some, h, hexact,
      Option.map_some, mul_getD]
    split_ifs with hfuture
    · simp
    · rfl

theorem forall_term {P : TaylorTerm → Prop} : (∀ k, P k) ↔ P .delta ∧ P .gamma ∧ P .vega ∧ P .theta := by
  constructor
  · exact fun h => ⟨h _, h _, h _, h _⟩
  · rintro ⟨hdelta, hgamma, hvega, htheta⟩ k
    cases k <;> assumption

theorem daysBetween_ne_zero {earlier later : Instant} (h : earlier < later) : daysBetween earlier later ≠ 0 := by
  have hne : ((later - earlier : ℤ) : ℚ) ≠ 0 := by
    rw [Int.cast_ne_zero]
    exact sub_ne_zero.mpr (ne_of_gt h)
  exact div_ne_zero hne (by norm_num)

theorem square_eq_iff (g a c d : ℚ) (hc : c ≠ 0) : 1 / 2 * g * c * d * d = 1 / 2 * a * c * d * d ↔ g = a ∨ d = 0 := by
  have hleft : 1 / 2 * g * c * d * d = g * (1 / 2 * c * d * d) := by ring
  have hright : 1 / 2 * a * c * d * d = a * (1 / 2 * c * d * d) := by ring
  rw [hleft, hright, mul_eq_mul_right_iff]
  simp [hc]

/-- The series adds nothing for gamma, vega and theta just where it is flat. -/
theorem flat_iff (htime : prev.1 < cur.1) : (seriesTerm forward prev cur .gamma = 0 ∧
    seriesTerm forward prev cur .vega = 0 ∧ seriesTerm forward prev cur .theta = 0) ↔ Flat forward prev cur := by
  have hgamma : seriesTerm forward prev cur .gamma = 0 ↔
      prev.2.gammaUsd.getD 0 = 0 ∨ forwardMove forward prev cur = 0 := by
    have hsquare := square_eq_iff (prev.2.gammaUsd.getD 0) 0 (1 / pipSize) (forwardMove forward prev cur) (by
      norm_num [pipSize])
    rw [seriesTerm_eq, ← hsquare]
    simp
  have hvega : seriesTerm forward prev cur .vega = 0 ↔ prev.2.vegaUsd.getD 0 = 0 ∨ ivMove prev cur = 0 := by
    rw [seriesTerm_eq]
    exact mul_eq_zero
  have htheta : seriesTerm forward prev cur .theta = 0 ↔ prev.2.thetaUsd.getD 0 = 0 := by
    rw [seriesTerm_eq]
    exact mul_eq_zero_iff_right (daysBetween_ne_zero htime)
  rw [hgamma, hvega, htheta]
  constructor
  · rintro ⟨hg, hv, ht⟩
    exact ⟨hg, hv, ht⟩
  · rintro ⟨hg, hv, ht⟩
    exact ⟨hg, hv, ht⟩

/-- An interval agrees on every term just where it meets the condition. -/
theorem interval_iff (htime : prev.1 < cur.1) :
    (∀ k, seriesTerm forward prev cur k = attributedTerm forward r prev cur k) ↔ Meets forward r prev cur := by
  rw [forall_term, Meets]
  cases hpnl : change cur.2.currentPnlUsd prev.2.currentPnlUsd with
  | none =>
    simp only [attributedTerm_unknown hpnl, flat_iff htime, Option.isNone_none, if_true]
    rw [seriesTerm_eq, mul_eq_zero]
  | some actual =>
    simp only [attributedTerm_known forward r hpnl, Option.isNone_some, Bool.false_eq_true, if_false]
    by_cases hfuture : r.isFuture = true
    · simp only [hfuture, if_true, flat_iff htime]
      rw [seriesTerm_eq]
      simp only [intervalSpots, hfuture, if_true]
    · have hspots : intervalSpots forward r prev cur = (forward cur.1, forward prev.1) := if_neg hfuture
      have hmove : (change (intervalSpots forward r prev cur).1 (intervalSpots forward r prev cur).2).getD 0 =
          forwardMove forward prev cur := by rw [hspots]; rfl
      simp only [if_neg hfuture, hmove, seriesTerm_eq]
      have hdelta : prev.2.deltaUsd.getD 0 * forwardMove forward prev cur =
          anchoredDelta forward r prev cur * forwardMove forward prev cur ↔
          prev.2.deltaUsd.getD 0 = anchoredDelta forward r prev cur ∨ forwardMove forward prev cur = 0 :=
        mul_eq_mul_right_iff
      have hgamma := square_eq_iff (prev.2.gammaUsd.getD 0) (anchored prev.2.gammaUsd cur.2.gammaUsd) (1 / pipSize)
        (forwardMove forward prev cur) (by norm_num [pipSize])
      have hvega : prev.2.vegaUsd.getD 0 * ivMove prev cur =
          anchored prev.2.vegaUsd cur.2.vegaUsd * (100 * ivMove prev cur) ↔
          anchored prev.2.vegaUsd cur.2.vegaUsd = 0 ∨ ivMove prev cur = 0 := by
        rw [← mul_eq_zero]
        cases hstart : prev.2.vegaUsd with
        | none =>
          rw [Option.getD_none, zero_mul]
          constructor <;> intro h <;> linarith
        | some vega =>
          rw [Option.getD_some, anchored, Option.some_or, Option.getD_some]
          constructor <;> intro h <;> linarith
      have htheta : prev.2.thetaUsd.getD 0 * daysBetween prev.1 cur.1 =
          anchored prev.2.thetaUsd cur.2.thetaUsd * daysBetween prev.1 cur.1 ↔
          prev.2.thetaUsd.getD 0 = anchored prev.2.thetaUsd cur.2.thetaUsd :=
        mul_left_inj' (daysBetween_ne_zero htime)
      rw [hdelta, hgamma, hvega, htheta]
      constructor
      · rintro ⟨hd, hg, hv, ht⟩
        exact ⟨hd, hg, hv, ht⟩
      · rintro ⟨hd, hg, hv, ht⟩
        exact ⟨hd, hg, hv, ht⟩

end Interval

theorem intervals_lt {α : Type} {time : α → Instant} : ∀ {snaps : List α}, snaps.Pairwise (fun a b => time a < time b) →
    ∀ i ∈ intervals snaps, time i.1 < time i.2 ∧ i.2 ∈ snaps
  | [], _, i, hi => by cases hi
  | [x], _, i, hi => by cases hi
  | x :: y :: rest, h, i, hi => by
    obtain ⟨hx, hrest⟩ := List.pairwise_cons.mp h
    rcases List.mem_cons.mp hi with rfl | hi
    · exact ⟨hx y List.mem_cons_self, List.mem_cons_of_mem _ List.mem_cons_self⟩
    · obtain ⟨hlt, hmem⟩ := intervals_lt hrest i hi
      exact ⟨hlt, List.mem_cons_of_mem _ hmem⟩

theorem sum_apply (xs : List (TaylorTerm → ℚ)) (k : TaylorTerm) : xs.sum k = (xs.map (· k)).sum := by
  induction xs with
  | nil => rfl
  | cons x xs ih => rw [List.sum_cons, Pi.add_apply, ih, List.map_cons, List.sum_cons]

/-- The series ends at what all its buckets add. -/
theorem cumulate_last (ρ : Rounding) (inc : Instant → TaylorTerm → ℚ) (cum : TaylorTerm → ℚ) (bs : List Instant) :
    ∀ point ∈ (cumulate ρ inc cum bs).getLast?, ∀ k, point.2 k = ρ.round ((cum + (bs.map inc).sum) k) 2 := by
  induction bs generalizing cum with
  | nil => simp [cumulate]
  | cons b bs ih =>
    intro point hpoint k
    rw [cumulate] at hpoint
    rw [List.map_cons, List.sum_cons, ← add_assoc]
    cases hbs : bs with
    | nil =>
      rw [hbs, cumulate] at hpoint
      obtain rfl := Option.some.inj hpoint
      simp
    | cons b' bs' =>
      rw [hbs, cumulate, List.getLast?_cons_cons, ← cumulate, ← hbs] at hpoint
      rw [← hbs]
      exact ih _ point hpoint k

section Series
variable {s : Tables} {q : HistoryRequest}

theorem buckets_lt : (buckets s q).Pairwise (· < ·) := by
  have hsorted := List.pairwise_insertionSort (fun a b : Instant => a ≤ b) (s.openPositions.flatMap fun r =>
    (historyOf s q r.columns.positionId).map fun h => q.bucketTs h.timestamp).dedup
  have hnodup : (buckets s q).Nodup := (List.perm_insertionSort _ _).nodup_iff.mpr (List.nodup_dedup _)
  exact (hsorted.and hnodup).imp fun ⟨hle, hne⟩ => lt_of_le_of_ne hle hne

theorem snaps_lt (id : ℕ) : (snapsOf s q id).Pairwise (fun a b => a.1 < b.1) := by
  apply buckets_lt.filterMap
  rintro b b' hlt x hx y hy
  obtain ⟨c, -, rfl⟩ := Option.map_eq_some_iff.mp hx
  obtain ⟨c', -, rfl⟩ := Option.map_eq_some_iff.mp hy
  exact hlt

theorem snaps_bucket {id : ℕ} {x : Instant × SnapshotRow} (hx : x ∈ snapsOf s q id) : x.1 ∈ buckets s q := by
  obtain ⟨b, hb, hbx⟩ := List.mem_filterMap.mp hx
  obtain ⟨c, -, rfl⟩ := Option.map_eq_some_iff.mp hbx
  exact hb

/-- What is added for a position, interval by interval -/
theorem walk_snaps (forward : Instant → Option ℚ) (snaps : List (Instant × SnapshotRow)) :
    walk forward (snaps.map fun x => (x.1, snapOf x.2)) =
      (intervals snaps).map fun i => (i.2.1, seriesTerm forward i.1 i.2) := by
  rw [walk, intervals, intervals, ← List.map_tail, List.zip_map, List.map_map]
  rfl

/-- The series ends at what is added for all positions over all intervals. -/
theorem series_last {ρ : Rounding} {point : Instant × (TaylorTerm → ℚ)}
    (hpoint : point ∈ (greekPnlHistory s q ρ).getLast?) (k : TaylorTerm) : point.2 k = ρ.round
      (s.openPositions.map fun r =>
        ((intervalsOf s q r).map fun i => seriesTerm (forwardAt s q) i.1 i.2 k).sum).sum 2 := by
  let added := s.openPositions.flatMap fun r =>
    (intervalsOf s q r).map fun i => (i.2.1, seriesTerm (forwardAt s q) i.1 i.2)
  have hadded : greekPnlHistory s q ρ = cumulate ρ (incrementsAt added) 0 (buckets s q) := by
    simp only [greekPnlHistory, taylorPnlSeries, List.flatMap_map, walk_snaps]
    rfl
  have hbuckets : ∀ e ∈ added, e.1 ∈ buckets s q := by
    intro e he
    obtain ⟨r, -, hr⟩ := List.mem_flatMap.mp he
    obtain ⟨i, hi, rfl⟩ := List.mem_map.mp hr
    exact snaps_bucket (intervals_lt (snaps_lt _) i hi).2
  have hsum : ((buckets s q).map (incrementsAt added)).sum = (added.map (·.2)).sum :=
    TableTotals.sum_by_key added (·.1) (·.2) (buckets_lt.imp fun hlt => ne_of_lt hlt) hbuckets
  rw [hadded] at hpoint
  rw [cumulate_last ρ _ 0 _ point hpoint k, zero_add, hsum, sum_apply, List.map_map, List.map_flatMap,
    List.flatMap_def, List.sum_flatten, List.map_map]
  simp only [List.map_map, Function.comp_def]

/-- The series tells what the attribution of its intervals tells just where every interval meets the condition. -/
theorem series_attributed_iff (s : Tables) (q : HistoryRequest) : Agrees s q ↔
    ∀ r ∈ s.openPositions, ∀ i ∈ intervalsOf s q r, Meets (forwardAt s q) r i.1 i.2 := by
  constructor
  · intro h r hr i hi
    exact (interval_iff (intervals_lt (snaps_lt _) i hi).1).mp (h.interval r hr i hi)
  · intro h
    have hinterval : ∀ r ∈ s.openPositions, ∀ i ∈ intervalsOf s q r, ∀ k,
        seriesTerm (forwardAt s q) i.1 i.2 k = attributedTerm (forwardAt s q) r i.1 i.2 k :=
      fun r hr i hi => (interval_iff (intervals_lt (snaps_lt _) i hi).1).mpr (h r hr i hi)
    refine ⟨hinterval, fun ρ point hpoint k => ?_⟩
    rw [series_last hpoint]
    congr 2
    apply List.map_congr_left
    intro r hr
    congr 1
    exact List.map_congr_left fun i hi => hinterval r hr i hi k

/-- An option with all its columns: the forward stood still, or is one, or there is no delta; and the vol stood still, or
there is no vega. -/
theorem optionMeets_full {forward : Instant → Option ℚ} {r : IbRow} {prev cur : Instant × SnapshotRow} {D V F : ℚ}
    (hfuture : r.isFuture = false) (hdelta : prev.2.deltaUsd = some D) (hgamma : prev.2.gammaUsd.isSome)
    (hvega : prev.2.vegaUsd = some V) (htheta : prev.2.thetaUsd.isSome) (hforward : forward prev.1 = some F)
    (hF : F ≠ 0) : OptionMeets forward r prev cur ↔
      ((D = 0 ∨ F = 1) ∨ forwardMove forward prev cur = 0) ∧ (V = 0 ∨ ivMove prev cur = 0) := by
  have hspots : intervalSpots forward r prev cur = (forward cur.1, forward prev.1) := by
    rw [intervalSpots, hfuture, if_neg (by decide)]
  have hanchored : anchoredDelta forward r prev cur = D / F := by
    rw [anchoredDelta, hspots, anchored, hdelta, hforward, perSpot, Option.filter_some, if_pos (by simpa using hF)]
    rfl
  have hsame : D = D / F ↔ D = 0 ∨ F = 1 := by
    rw [eq_div_iff hF]
    constructor
    · intro h
      rcases eq_or_ne D 0 with hD | hD
      · exact Or.inl hD
      · exact Or.inr (mul_left_cancel₀ hD (h.trans (mul_one D).symm))
    · rintro (rfl | rfl) <;> simp
  obtain ⟨G, hG⟩ := Option.isSome_iff_exists.mp hgamma
  obtain ⟨T, hT⟩ := Option.isSome_iff_exists.mp htheta
  constructor
  · rintro ⟨hd, -, hv, -⟩
    rw [hdelta, Option.getD_some, hanchored, hsame] at hd
    rw [hvega] at hv
    exact ⟨hd, hv⟩
  · rintro ⟨hd, hv⟩
    refine ⟨?_, Or.inl ?_, ?_, ?_⟩
    · rwa [hdelta, Option.getD_some, hanchored, hsame]
    · rw [hG]
      rfl
    · rwa [hvega]
    · rw [hT]
      rfl

end Series

/-- A call of a net delta of 54 000 EUR, that has made 1 000 dollars, and the future behind it -/
def callColumns (pnl : ℚ) : SnapshotRow :=
  ⟨1, some (15 / 1000), some pnl, some 58320, some 100, some 250, some (-40), some (75 / 1000), none, none⟩

def futureColumns (mark : ℚ) : SnapshotRow :=
  ⟨2, some mark, some 0, some 135000, some 0, some 0, some 0, none, none, none⟩

def dayTables : Tables where
  openPositions := [⟨callColumns 1000, "EUUM6 C1085", some .vanillaCall⟩, ⟨futureColumns (110 / 100), "6EM6", some .future6E⟩]
  openHistory :=
    [⟨0, callColumns 0⟩, ⟨0, futureColumns (108 / 100)⟩, ⟨86400000000, callColumns 1000⟩,
      ⟨86400000000, futureColumns (110 / 100)⟩]
  bookedPositions := []
  metricHistory := []

/-- Over a rise of two cents the delta of the call makes 1 166 dollars in the series, and 1 080 in the attribution. -/
theorem series_overstates : ¬ ∀ (s : Tables) (q : HistoryRequest), Agrees s q := by
  intro h
  let q : HistoryRequest := ⟨86400000000, .d30⟩
  have hone : ∃ i ∈ intervalsOf dayTables q ⟨callColumns 1000, "EUUM6 C1085", some .vanillaCall⟩,
      seriesTerm (forwardAt dayTables q) i.1 i.2 .delta ≠
        attributedTerm (forwardAt dayTables q) ⟨callColumns 1000, "EUUM6 C1085", some .vanillaCall⟩ i.1 i.2 .delta := by
    decide +kernel
  obtain ⟨i, hi, hne⟩ := hone
  exact hne ((h dayTables q).interval _ List.mem_cons_self i hi .delta)

end FxVol.GreekPnlHistory
