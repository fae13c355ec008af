import FxVol.Numerals
import FxVol.SampleMoments
import FxVol.TableTotals
import Mathlib.Data.List.Perm.Basic
import Mathlib.Data.Rat.Floor
import Mathlib.Order.Interval.Set.Basic

/-!
# Component VaR

`component_var` of `core.risk.marginal_var` gives each position the part of the portfolio VaR that its covariance with the
portfolio has in the variance.  Without variance there is nothing to divide by, and a portfolio that loses the same every
day has its VaR given to no position.
-/
namespace FxVol.ComponentVar

open scoped Numerals
open SampleMoments

variable {K : Type*} [Field K] [LinearOrder K] [FloorSemiring K]

def minDays : ℕ := 5

def lossVar {n : ℕ} (series : Fin n → K) (conf : K) : K :=
  if n = 0 then 0 else max 0 (-quantile ((List.ofFn series).insertionSort (· ≤ ·)) (1 - conf))

structure PositionVar (K : Type*) where
  id : String
  standaloneUsd : K
  componentUsd : K
  pct : K

structure VarSplit (K : Type*) where
  portfolioVarUsd : K
  diversificationPct : K
  nDays : ℕ
  positions : List (PositionVar K)

/-- `series_by_id[k][-n:]` -/
def lastDays (n : ℕ) (series : List K) : Fin n → K := fun i => (series.drop (series.length - n)).getD i 0

def withSeries (seriesById : List (String × List K)) : List (String × List K) := seriesById.filter fun e => e.2 ≠ []

def alignedDays (seriesById : List (String × List K)) : Option ℕ := ((withSeries seriesById).map (·.2.length)).min?

/-- `pf` -/
def portfolio (seriesById : List (String × List K)) (n : ℕ) : Fin n → K := fun i =>
  ((withSeries seriesById).map fun e => lastDays n e.2 i).sum

/-- `or 1.0` -/
def orOne (x : K) : K := if x = 0 then 1 else x

section Component
variable (round : K → ℕ → K) (conf : K) {n : ℕ} (pf : Fin n → K)

/-- `comp` -/
def component (x : Fin n → K) : K := lossVar pf conf * cov x pf / orOne (variance pf)

def positionVar (e : String × List K) : PositionVar K where
  id := e.1
  standaloneUsd := round (lossVar (lastDays n e.2) conf) 2
  componentUsd := round (component conf pf (lastDays n e.2)) 2
  pct := if lossVar pf conf ≠ 0 then round (100 * component conf pf (lastDays n e.2) / lossVar pf conf) 1 else 0

end Component

def componentVar (round : K → ℕ → K) (seriesById : List (String × List K)) (conf : K) : VarSplit K :=
  match alignedDays seriesById with
  | none => ⟨0, 0, 0, []⟩
  | some n =>
    if n < minDays then ⟨0, 0, n, []⟩
    else
      let pf := portfolio seriesById n
      let standaloneSum := ((withSeries seriesById).map fun e => lossVar (lastDays n e.2) conf).sum
      { portfolioVarUsd := round (lossVar pf conf) 2
        diversificationPct := if standaloneSum ≠ 0 then round (100 * (1 - lossVar pf conf / standaloneSum)) 1 else 0
        nDays := n
        positions := (withSeries seriesById).map (positionVar round conf pf) }

/-- Before rounding -/
def exactVar (seriesById : List (String × List K)) (conf : K) : VarSplit K := componentVar (fun x _ => x) seriesById conf

/-- The VaR is allocated to the positions, and what a position is split into is of no concern to the others. -/
structure EulerAllocation (seriesById : List (String × List K)) (conf : K) : Prop where
  total : ((exactVar seriesById conf).positions.map (·.componentUsd)).sum = (exactVar seriesById conf).portfolioVarUsd
  pct : 0 < (exactVar seriesById conf).portfolioVarUsd → ((exactVar seriesById conf).positions.map (·.pct)).sum = 100
  split : ∀ pre post id ida idb a b split, seriesById = pre ++ (id, List.zipWith (· + ·) a b) :: post →
    a.length = b.length → (∀ k ∈ [id, ida, idb], k ∉ (pre ++ post).map (·.1)) →
    split.Perm (pre ++ (ida, a) :: (idb, b) :: post) →
      (exactVar split conf).portfolioVarUsd = (exactVar seriesById conf).portfolioVarUsd ∧
      ((exactVar split conf).positions.filter fun p => p.id ∈ (pre ++ post).map (·.1)).Perm
        ((exactVar seriesById conf).positions.filter fun p => p.id ∈ (pre ++ post).map (·.1))

/-- The portfolio loses the same on each of its days. -/
def LosesDaily (seriesById : List (String × List K)) : Prop :=
  ∃ n ∈ alignedDays seriesById, minDays ≤ n ∧ ∃ loss < 0, ∀ i, portfolio seriesById n i = loss

section Sums
variable {seriesById : List (String × List K)} {conf : K} {n : ℕ}

theorem exactVar_none (h : alignedDays seriesById = none) : exactVar seriesById conf = ⟨0, 0, 0, []⟩ := by
  simp only [exactVar, componentVar, h]

theorem exactVar_short (h : alignedDays seriesById = some n) (hn : n < minDays) : exactVar seriesById conf = ⟨0, 0, n, []⟩ := by
  simp only [exactVar, componentVar, h, if_pos hn]

theorem exactVar_positions (h : alignedDays seriesById = some n) (hn : minDays ≤ n) : (exactVar seriesById conf).positions =
    (withSeries seriesById).map (positionVar (fun x _ => x) conf (portfolio seriesById n)) := by
  simp only [exactVar, componentVar, h, if_neg (not_lt.mpr hn)]

theorem exactVar_portfolioVar (h : alignedDays seriesById = some n) (hn : minDays ≤ n) :
    (exactVar seriesById conf).portfolioVarUsd = lossVar (portfolio seriesById n) conf := by
  simp only [exactVar, componentVar, h, if_neg (not_lt.mpr hn)]

omit [LinearOrder K] [FloorSemiring K] in
/-- The covariances of the positions with the portfolio are its variance. -/
theorem cov_portfolio (seriesById : List (String × List K)) (n : ℕ) :
    ((withSeries seriesById).map fun e => cov (lastDays n e.2) (portfolio seriesById n)).sum =
      variance (portfolio seriesById n) :=
  (cov_sum (withSeries seriesById) (fun e => lastDays n e.2) (portfolio seriesById n)).symm

theorem component_sum (h : alignedDays seriesById = some n) (hn : minDays ≤ n) :
    ((exactVar seriesById conf).positions.map (·.componentUsd)).sum =
      lossVar (portfolio seriesById n) conf * variance (portfolio seriesById n) / orOne (variance (portfolio seriesById n)) := by
  have hcomponent : (·.componentUsd) ∘ positionVar (fun x _ => x) conf (portfolio seriesById n) = fun e =>
      lossVar (portfolio seriesById n) conf * cov (lastDays n e.2) (portfolio seriesById n) *
        (orOne (variance (portfolio seriesById n)))⁻¹ := by
    funext e
    exact div_eq_mul_inv _ _
  rw [exactVar_positions h hn, List.map_map, hcomponent, List.sum_map_mul_right, List.sum_map_mul_left, cov_portfolio,
    ← div_eq_mul_inv]

theorem pct_sum (h : alignedDays seriesById = some n) (hn : minDays ≤ n) (hvar : lossVar (portfolio seriesById n) conf ≠ 0) :
    ((exactVar seriesById conf).positions.map (·.pct)).sum =
      100 * ((exactVar seriesById conf).positions.map (·.componentUsd)).sum / lossVar (portfolio seriesById n) conf := by
  rw [exactVar_positions h hn, List.map_map, List.map_map, ← List.sum_map_mul_left, div_eq_mul_inv, ← List.sum_map_mul_right]
  congr 1
  apply List.map_congr_left
  intro e _
  exact (if_pos hvar).trans (div_eq_mul_inv _ _)

end Sums

section Degenerate
variable [IsStrictOrderedRing K] {conf : K} {n : ℕ}

theorem lossVar_const (hn : n ≠ 0) {series : Fin n → K} {c : K} (h : ∀ i, series i = c) (hconf : 0 ≤ conf) :
    lossVar series conf = max 0 (-c) := by
  rw [lossVar, if_neg hn, quantile_const _ _ (sub_le_self 1 hconf)]
  · intro hnil
    have hlen := congrArg List.length hnil
    rw [List.length_insertionSort, List.length_ofFn] at hlen
    exact hn hlen
  · intro x hx
    rw [List.mem_insertionSort, List.mem_ofFn] at hx
    obtain ⟨i, rfl⟩ := hx
    exact h i

/-- The components are the VaR unless there is a VaR and no variance. -/
theorem total_iff (hn : minDays ≤ n) (pf : Fin n → K) (hconf : 0 ≤ conf) :
    lossVar pf conf * variance pf / orOne (variance pf) = lossVar pf conf ↔ ¬ ∃ loss < 0, ∀ i, pf i = loss := by
  have hn1 : 1 < n := lt_of_lt_of_le (by decide) hn
  by_cases hvar : variance pf = 0
  · obtain ⟨c, hc⟩ := (variance_eq_zero_iff hn1).mp hvar
    rw [hvar, mul_zero, zero_div, lossVar_const (by omega) hc hconf]
    constructor
    · rintro hmax ⟨loss, hneg, hloss⟩
      have hsame : c = loss := (hc ⟨0, by omega⟩).symm.trans (hloss ⟨0, by omega⟩)
      have hle := le_max_right 0 (-c)
      rw [← hmax, hsame] at hle
      linarith
    · intro hnone
      refine (max_eq_left (neg_nonpos.mpr (not_lt.mp fun hneg => hnone ⟨c, hneg, hc⟩))).symm
  · rw [orOne, if_neg hvar, mul_div_cancel_right₀ _ hvar]
    refine iff_of_true rfl fun hloss => hvar ?_
    obtain ⟨loss, -, hloss⟩ := hloss
    exact (variance_eq_zero_iff hn1).mpr ⟨loss, hloss⟩

end Degenerate

section Split
variable {l m split pre post : List (String × List K)} {id ida idb : String} {a b : List K} {conf : K} {n : ℕ}

theorem min?_congr {xs ys : List ℕ} (h : ∀ n, n ∈ xs ↔ n ∈ ys) : xs.min? = ys.min? := by
  apply Option.ext
  intro n
  simp only [List.min?_eq_some_iff, h]

omit [LinearOrder K] [FloorSemiring K] in
theorem getD_zipWith (hlen : a.length = b.length) (i : ℕ) :
    (List.zipWith (· + ·) a b).getD i 0 = a.getD i 0 + b.getD i 0 := by
  simp only [List.getD_eq_getElem?_getD]
  by_cases hi : i < a.length
  · have hi' : i < b.length := hlen ▸ hi
    rw [List.getElem?_eq_getElem hi, List.getElem?_eq_getElem hi', List.getElem?_eq_getElem (by simpa using ⟨hi, hi'⟩),
      List.getElem_zipWith]
    rfl
  · rw [not_lt] at hi
    have hz : (List.zipWith (· + ·) a b).length ≤ i := by
      rw [List.length_zipWith]
      exact (min_le_left _ _).trans hi
    rw [List.getElem?_eq_none hi, List.getElem?_eq_none (hlen.symm.trans_le hi), List.getElem?_eq_none hz]
    exact (add_zero 0).symm

omit [LinearOrder K] [FloorSemiring K] in
theorem lastDays_zipWith (hlen : a.length = b.length) (n : ℕ) (i : Fin n) :
    lastDays n (List.zipWith (· + ·) a b) i = lastDays n a i + lastDays n b i := by
  have hz : (List.zipWith (· + ·) a b).length = a.length := by
    rw [List.length_zipWith, ← hlen, Nat.min_self]
  rw [lastDays, lastDays, lastDays, hz, ← hlen, ← getD_zipWith (by simp [hlen]), List.drop_zipWith]

omit [Field K] [LinearOrder K] [FloorSemiring K] in
/-- Of the positions with a series, those that are not split -/
theorem withSeries_others (h : l.Perm (pre ++ m ++ post)) (hm : ∀ e ∈ m, e.1 ∉ (pre ++ post).map (·.1)) :
    ((withSeries l).filter fun e => e.1 ∈ (pre ++ post).map (·.1)).Perm (withSeries (pre ++ post)) := by
  have hothers : ∀ part : List (String × List K), (∀ e ∈ part, e.1 ∈ (pre ++ post).map (·.1)) →
      (part.filter fun e => e.1 ∈ (pre ++ post).map (·.1)) = part := fun part hpart =>
    List.filter_eq_self.mpr fun e he => decide_eq_true (hpart e he)
  have hnone : (m.filter fun e => e.1 ∈ (pre ++ post).map (·.1)) = [] :=
    List.filter_eq_nil_iff.mpr fun e he => by simpa using hm e he
  have hsplit : (l.filter fun e => e.1 ∈ (pre ++ post).map (·.1)).Perm (pre ++ post) := by
    refine (h.filter _).trans ?_
    rw [List.filter_append, List.filter_append, hnone, List.append_nil,
      hothers pre fun e he => List.mem_map_of_mem (List.mem_append_left _ he),
      hothers post fun e he => List.mem_map_of_mem (List.mem_append_right _ he)]
  rw [withSeries, List.filter_comm]
  exact hsplit.filter _

variable (hlen : a.length = b.length)
include hlen

omit [LinearOrder K] [FloorSemiring K] in
theorem alignedDays_split (id : String) (h : split.Perm (pre ++ (ida, a) :: (idb, b) :: post)) :
    alignedDays split = alignedDays (pre ++ (id, List.zipWith (· + ·) a b) :: post) := by
  have hz : (List.zipWith (· + ·) a b).length = a.length := by
    rw [List.length_zipWith, ← hlen, Nat.min_self]
  apply min?_congr
  intro k
  simp only [withSeries, List.mem_map, List.mem_filter, h.mem_iff, List.mem_append, List.mem_cons, decide_eq_true_eq,
    ← List.length_pos_iff]
  constructor
  · rintro ⟨e, ⟨hpre | rfl | rfl | hpost, hne⟩, rfl⟩
    · exact ⟨e, ⟨.inl hpre, hne⟩, rfl⟩
    · exact ⟨(id, _), ⟨.inr (.inl rfl), hz.symm ▸ hne⟩, hz⟩
    · exact ⟨(id, _), ⟨.inr (.inl rfl), by rw [hz, hlen]; exact hne⟩, hz.trans hlen⟩
    · exact ⟨e, ⟨.inr (.inr hpost), hne⟩, rfl⟩
  · rintro ⟨e, ⟨hpre | rfl | hpost, hne⟩, rfl⟩
    · exact ⟨e, ⟨.inl hpre, hne⟩, rfl⟩
    · exact ⟨(ida, a), ⟨.inr (.inl rfl), hz ▸ hne⟩, hz.symm⟩
    · exact ⟨e, ⟨.inr (.inr (.inr hpost)), hne⟩, rfl⟩

omit [LinearOrder K] [FloorSemiring K] in
theorem portfolio_split (id : String) (h : split.Perm (pre ++ (ida, a) :: (idb, b) :: post)) (n : ℕ) :
    portfolio split n = portfolio (pre ++ (id, List.zipWith (· + ·) a b) :: post) n := by
  -- an empty series adds nothing, so it need not be left out
  have hall : ∀ (part : List (String × List K)) (i : Fin n),
      ((withSeries part).map fun e => lastDays n e.2 i).sum = (part.map fun e => lastDays n e.2 i).sum := by
    intro part i
    rw [withSeries, ← TableTotals.sum_selected]
    congr 1
    apply List.map_congr_left
    intro e _
    by_cases hne : e.2 = []
    · rw [if_neg (by simpa using hne), lastDays, hne]
      simp
    · exact if_pos (by simpa using hne)
  funext i
  rw [portfolio, portfolio, hall, hall, (h.map _).sum_eq]
  simp only [List.map_append, List.map_cons, List.sum_append, List.sum_cons, lastDays_zipWith hlen, add_assoc]

/-- The others do not see the split. -/
theorem exactVar_split (h : split.Perm (pre ++ (ida, a) :: (idb, b) :: post))
    (hfresh : ∀ k ∈ [id, ida, idb], k ∉ (pre ++ post).map (·.1)) :
    (exactVar split conf).portfolioVarUsd =
        (exactVar (pre ++ (id, List.zipWith (· + ·) a b) :: post) conf).portfolioVarUsd ∧
      ((exactVar split conf).positions.filter fun p => p.id ∈ (pre ++ post).map (·.1)).Perm
        ((exactVar (pre ++ (id, List.zipWith (· + ·) a b) :: post) conf).positions.filter
          fun p => p.id ∈ (pre ++ post).map (·.1)) := by
  have hdays := alignedDays_split hlen id h
  cases hn : alignedDays split with
  | none =>
    rw [exactVar_none hn, exactVar_none (hdays.symm.trans hn)]
    exact ⟨rfl, .refl _⟩
  | some n =>
    have hn' := hdays.symm.trans hn
    by_cases hshort : n < minDays
    · rw [exactVar_short hn hshort, exactVar_short hn' hshort]
      exact ⟨rfl, .refl _⟩
    · rw [not_lt] at hshort
      rw [exactVar_portfolioVar hn hshort, exactVar_portfolioVar hn' hshort, exactVar_positions hn hshort,
        exactVar_positions hn' hshort, portfolio_split hlen id h, List.filter_map, List.filter_map]
      refine ⟨rfl, List.Perm.map _ ?_⟩
      have hsplit := withSeries_others (m := [(ida, a), (idb, b)]) (by simpa using h) fun e he => by
        rcases List.mem_pair.mp he with rfl | rfl
        · exact hfresh ida (by simp)
        · exact hfresh idb (by simp)
      have hwhole := withSeries_others (l := pre ++ (id, List.zipWith (· + ·) a b) :: post)
        (m := [(id, List.zipWith (· + ·) a b)]) (.of_eq (List.append_cons _ _ _)) fun e he => by
          rw [List.mem_singleton.mp he]
          exact hfresh id (by simp)
      exact hsplit.trans hwhole.symm

end Split

section Allocation
variable [IsStrictOrderedRing K]

theorem total_of (seriesById : List (String × List K)) {conf : K} (hconf : 0 ≤ conf) :
    ((exactVar seriesById conf).positions.map (·.componentUsd)).sum = (exactVar seriesById conf).portfolioVarUsd ↔
      ¬ LosesDaily seriesById := by
  cases hn : alignedDays seriesById with
  | none =>
    rw [exactVar_none hn]
    exact iff_of_true rfl fun ⟨n, h, _⟩ => by rw [hn] at h; cases h
  | some n =>
    have hloses : LosesDaily seriesById ↔ minDays ≤ n ∧ ∃ loss < 0, ∀ i, portfolio seriesById n i = loss := by
      simp only [LosesDaily, hn, Option.mem_some_iff, exists_eq_left']
    by_cases hshort : n < minDays
    · rw [exactVar_short hn hshort, hloses]
      exact iff_of_true rfl fun h => absurd hshort (not_lt.mpr h.1)
    · rw [not_lt] at hshort
      rw [component_sum hn hshort, exactVar_portfolioVar hn hshort, total_iff hshort _ hconf, hloses,
        and_iff_right hshort]

/-- One position that loses a dollar every day has none of the dollar of VaR. -/
theorem not_euler : ¬ ∀ (seriesById : List (String × List ℚ)) (conf : Set.Icc (0 : ℚ) 1), EulerAllocation seriesById conf := by
  intro h
  have htotal := (h [("1", [-1, -1, -1, -1, -1])] ⟨99 / 100, by norm_num, by norm_num⟩).total
  refine (total_of _ (by norm_num)).mp htotal ⟨5, rfl, le_rfl, -1, by norm_num, ?_⟩
  decide +kernel

/-- The VaR is allocated unless the portfolio loses the same every day. -/
theorem euler_iff (seriesById : List (String × List K)) (conf : Set.Icc (0 : K) 1) :
    EulerAllocation seriesById conf ↔ ¬ LosesDaily seriesById := by
  have htotal := total_of seriesById conf.2.1
  refine ⟨fun h => htotal.mp h.total, fun h => ⟨htotal.mpr h, fun hvar => ?_, ?_⟩⟩
  · cases hn : alignedDays seriesById with
    | none =>
      rw [exactVar_none hn] at hvar
      exact absurd hvar (lt_irrefl 0)
    | some n =>
      by_cases hshort : n < minDays
      · rw [exactVar_short hn hshort] at hvar
        exact absurd hvar (lt_irrefl 0)
      · rw [not_lt] at hshort
        have hsum := htotal.mpr h
        rw [exactVar_portfolioVar hn hshort] at hvar hsum
        rw [pct_sum hn hshort hvar.ne', hsum, mul_div_cancel_right₀ _ hvar.ne']
  · rintro pre post id ida idb a b split rfl hlen hfresh hperm
    exact exactVar_split hlen hperm hfresh

/-- Two positions that offset each other on most days -/
def offsetting : List (String × List ℚ) := [("1", [1, -2, 3, -1, 2]), ("2", [-1, 2, -2, 1, -1])]

theorem euler_offsetting : EulerAllocation offsetting (99 / 100) := by
  refine (euler_iff offsetting ⟨99 / 100, by norm_num, by norm_num⟩).mpr ?_
  rintro ⟨n, hn, -, loss, hneg, hloss⟩
  cases (show some 5 = some n from hn)
  have hzero : portfolio offsetting 5 0 = 0 := by decide +kernel
  rw [← hloss 0, hzero] at hneg
  exact lt_irrefl 0 hneg

end Allocation

end FxVol.ComponentVar
