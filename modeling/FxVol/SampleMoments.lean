import Mathlib.Algebra.BigOperators.Field
import Mathlib.Algebra.BigOperators.Fin
import Mathlib.Algebra.Order.BigOperators.Ring.Finset
import Mathlib.Algebra.Order.Floor.Ring
import Mathlib.Data.List.GetD
import Mathlib.Data.List.Sort
import Mathlib.Tactic.FieldSimp
import Mathlib.Tactic.Linarith

/-!
# Moments and quantiles of a sample

The sample covariance is bilinear, so a sum of samples has the covariances of its parts; a sample without variance
is constant.  A quantile is read between two places of the sorted sample.  A histogram counts each value in one bin.
-/
namespace FxVol.SampleMoments

open Finset

section Covariance
variable {K ι : Type*} [Field K] {n : ℕ}

def mean (x : Fin n → K) : K := (∑ i, x i) / n

/-- The covariance with the divisor `n - 1` -/
def cov (x y : Fin n → K) : K := (∑ i, (x i - mean x) * (y i - mean y)) / (n - 1 : ℕ)

def variance (x : Fin n → K) : K := cov x x

theorem cov_add (x x' y : Fin n → K) : cov (fun i => x i + x' i) y = cov x y + cov x' y := by
  have hmean : mean (fun i => x i + x' i) = mean x + mean x' := by
    rw [mean, mean, mean, sum_add_distrib, add_div]
  rw [cov, cov, cov, ← add_div, ← sum_add_distrib, hmean]
  congr 2
  funext i
  ring

theorem cov_zero (y : Fin n → K) : cov (fun _ => 0) y = 0 := by simp [cov, mean]

/-- The covariance of a sum is the sum of the covariances. -/
theorem cov_sum (l : List ι) (x : ι → Fin n → K) (y : Fin n → K) :
    cov (fun i => (l.map fun k => x k i).sum) y = (l.map fun k => cov (x k) y).sum := by
  induction l with
  | nil => exact cov_zero y
  | cons k l ih =>
    rw [List.map_cons, List.sum_cons, ← ih, ← cov_add]
    simp only [List.map_cons, List.sum_cons]

theorem mean_const [CharZero K] (hn : n ≠ 0) (c : K) : mean (fun _ : Fin n => c) = c := by
  rw [mean, sum_const, card_univ, Fintype.card_fin, nsmul_eq_mul]
  exact mul_div_cancel_left₀ c (Nat.cast_ne_zero.mpr hn)

/-- A constant sample is uncorrelated with any other. -/
theorem cov_const [CharZero K] (hn : n ≠ 0) (x : Fin n → K) (c : K) : cov x (fun _ => c) = 0 := by
  simp [cov, mean_const hn]

end Covariance

section Variance
variable {K : Type*} [Field K] [LinearOrder K] [IsStrictOrderedRing K] {n : ℕ}

theorem variance_eq_zero_iff (hn : 1 < n) {x : Fin n → K} : variance x = 0 ↔ ∃ c, ∀ i, x i = c where
  mp h := by
    refine ⟨mean x, fun i => ?_⟩
    have hdiv : ((n - 1 : ℕ) : K) ≠ 0 := Nat.cast_ne_zero.mpr (by omega)
    have hsum : ∑ i, (x i - mean x) * (x i - mean x) = 0 := (div_eq_zero_iff.mp h).resolve_right hdiv
    have hzero := (sum_eq_zero_iff_of_nonneg fun i _ => mul_self_nonneg (x i - mean x)).mp hsum i (mem_univ i)
    exact sub_eq_zero.mp (mul_self_eq_zero.mp hzero)
  mpr h := by
    obtain ⟨c, hc⟩ := h
    rw [variance, funext hc]
    exact cov_const (by omega) _ c

end Variance

section Quantile
variable {K : Type*} [Field K] [LinearOrder K] [FloorSemiring K]

/-- The value at a rank of the sorted sample, linear between two places -/
def quantile (sorted : List K) (q : K) : K :=
  let rank := q * (sorted.length - 1 : ℕ)
  let lo := ⌊rank⌋₊
  let hi := min (lo + 1) (sorted.length - 1)
  sorted.getD lo 0 + (rank - lo) * (sorted.getD hi 0 - sorted.getD lo 0)

variable [IsStrictOrderedRing K] {sorted : List K} {q : K}

theorem floor_rank_lt (hne : sorted ≠ []) (hq : q ≤ 1) : ⌊q * (sorted.length - 1 : ℕ)⌋₊ < sorted.length := by
  have hlen := List.length_pos_of_ne_nil hne
  have hn : (0 : K) ≤ (sorted.length - 1 : ℕ) := Nat.cast_nonneg _
  have hrank : q * (sorted.length - 1 : ℕ) ≤ (sorted.length - 1 : ℕ) := mul_le_of_le_one_left hn hq
  have hfloor := Nat.floor_le_of_le hrank
  omega

/-- The quantiles of a constant sample -/
theorem quantile_const {c : K} (hne : sorted ≠ []) (h : ∀ x ∈ sorted, x = c) (hq : q ≤ 1) :
    quantile sorted q = c := by
  have hget : ∀ i < sorted.length, sorted.getD i 0 = c := by
    intro i hi
    rw [List.getD_eq_getElem?_getD, List.getElem?_eq_getElem hi]
    exact h _ (List.getElem_mem hi)
  have hlo := floor_rank_lt hne hq
  rw [quantile, hget _ hlo, hget _ (by omega)]
  ring

/-- Far down a small sample a quantile is between its two least values. -/
theorem quantile_low {a b : K} {rest : List K} (hlow : q * (rest.length + 1 : ℕ) < 1) :
    quantile (a :: b :: rest) q = a + q * (rest.length + 1 : ℕ) * (b - a) := by
  have hfloor : ⌊q * (rest.length + 1 : ℕ)⌋₊ = 0 := Nat.floor_eq_zero.mpr hlow
  have hlen : (a :: b :: rest).length - 1 = rest.length + 1 := rfl
  have hmin : min (0 + 1) (rest.length + 1) = 1 := min_eq_left (by omega)
  rw [quantile, hlen]
  simp only [hfloor, hmin, Nat.cast_zero, sub_zero]
  rfl

omit [FloorSemiring K] [IsStrictOrderedRing K] in
theorem getD_le_getD (hsorted : sorted.Pairwise (· ≤ ·)) {i j : ℕ} (hij : i ≤ j) (hj : j < sorted.length) :
    sorted.getD i 0 ≤ sorted.getD j 0 := by
  rw [List.getD_eq_getElem _ _ (hij.trans_lt hj), List.getD_eq_getElem _ _ hj]
  rcases hij.eq_or_lt with rfl | hlt
  · exact le_rfl
  · exact List.pairwise_iff_getElem.mp hsorted i j _ hj hlt

/-- A quantile lies between the values at the places next to its rank. -/
theorem quantile_between (hsorted : sorted.Pairwise (· ≤ ·)) (hne : sorted ≠ []) (hq : 0 ≤ q) (hq' : q ≤ 1) :
    sorted.getD ⌊q * (sorted.length - 1 : ℕ)⌋₊ 0 ≤ quantile sorted q ∧
      quantile sorted q ≤ sorted.getD (min (⌊q * (sorted.length - 1 : ℕ)⌋₊ + 1) (sorted.length - 1)) 0 := by
  have hlo := floor_rank_lt hne hq'
  have hrank : 0 ≤ q * (sorted.length - 1 : ℕ) := mul_nonneg hq (Nat.cast_nonneg _)
  have hpart : 0 ≤ q * (sorted.length - 1 : ℕ) - (⌊q * (sorted.length - 1 : ℕ)⌋₊ : K) := sub_nonneg.mpr (Nat.floor_le hrank)
  have hpart' : q * (sorted.length - 1 : ℕ) - (⌊q * (sorted.length - 1 : ℕ)⌋₊ : K) ≤ 1 := by
    linarith [Nat.lt_floor_add_one (q * ((sorted.length - 1 : ℕ) : K))]
  have hstep := sub_nonneg.mpr (getD_le_getD hsorted
    (i := ⌊q * (sorted.length - 1 : ℕ)⌋₊) (j := min (⌊q * (sorted.length - 1 : ℕ)⌋₊ + 1) (sorted.length - 1)) (by omega) (by omega))
  rw [quantile]
  constructor
  · linarith [mul_nonneg hpart hstep]
  · linarith [mul_le_of_le_one_left hstep hpart']

/-- A larger rank has no smaller quantile. -/
theorem quantile_mono (hsorted : sorted.Pairwise (· ≤ ·)) (hne : sorted ≠ []) {q' : K} (hq : 0 ≤ q) (hqq : q ≤ q')
    (hq' : q' ≤ 1) : quantile sorted q ≤ quantile sorted q' := by
  have hrank : q * (sorted.length - 1 : ℕ) ≤ q' * (sorted.length - 1 : ℕ) := mul_le_mul_of_nonneg_right hqq (Nat.cast_nonneg _)
  have hlo := floor_rank_lt hne hq'
  rcases (Nat.floor_le_floor hrank).eq_or_lt with heq | hlt
  · have hstep := sub_nonneg.mpr (getD_le_getD hsorted
      (i := ⌊q' * (sorted.length - 1 : ℕ)⌋₊) (j := min (⌊q' * (sorted.length - 1 : ℕ)⌋₊ + 1) (sorted.length - 1)) (by omega) (by omega))
    rw [quantile, quantile, heq]
    linarith [mul_le_mul_of_nonneg_right (sub_le_sub_right hrank (⌊q' * (sorted.length - 1 : ℕ)⌋₊ : K)) hstep]
  · calc quantile sorted q
        ≤ sorted.getD (min (⌊q * (sorted.length - 1 : ℕ)⌋₊ + 1) (sorted.length - 1)) 0 :=
          (quantile_between hsorted hne hq (hqq.trans hq')).2
      _ ≤ sorted.getD ⌊q' * (sorted.length - 1 : ℕ)⌋₊ 0 := getD_le_getD hsorted (by omega) hlo
      _ ≤ quantile sorted q' := (quantile_between hsorted hne (hq.trans hqq) hq').1

/-- A quantile is between any bounds of the sample. -/
theorem quantile_mem_Icc (hsorted : sorted.Pairwise (· ≤ ·)) (hne : sorted ≠ []) (hq : 0 ≤ q) (hq' : q ≤ 1) {low high : K}
    (hlow : ∀ x ∈ sorted, low ≤ x) (hhigh : ∀ x ∈ sorted, x ≤ high) : low ≤ quantile sorted q ∧ quantile sorted q ≤ high := by
  have hlo := floor_rank_lt hne hq'
  have hmem {i : ℕ} (hi : i < sorted.length) : sorted.getD i 0 ∈ sorted := by
    rw [List.getD_eq_getElem _ _ hi]
    exact List.getElem_mem hi
  obtain ⟨hleft, hright⟩ := quantile_between hsorted hne hq hq'
  exact ⟨(hlow _ (hmem hlo)).trans hleft, hright.trans (hhigh _ (hmem (by omega)))⟩

omit [IsStrictOrderedRing K] in
theorem quantile_scale (c : K) (sorted : List K) (q : K) : quantile (sorted.map (c * ·)) q = c * quantile sorted q := by
  have hget (i : ℕ) : (sorted.map (c * ·)).getD i 0 = c * sorted.getD i 0 := by
    have hmap := List.getD_map (f := (c * ·)) (d := (0 : K)) (l := sorted) (n := i)
    rwa [mul_zero] at hmap
  rw [quantile, quantile, List.length_map]
  simp only [hget]
  ring

end Quantile

section Histogram
variable {α : Type*} {n : ℕ} {place : α → ℕ}

/-- The counts of `n` bins, value by value -/
def binCounts (n : ℕ) (place : α → ℕ) (values : List α) : List ℕ :=
  values.foldl (fun counts v => counts.modify (place v) (· + 1)) (List.replicate n 0)

theorem sum_modify_succ {counts : List ℕ} {i : ℕ} (hi : i < counts.length) : (counts.modify i (· + 1)).sum = counts.sum + 1 := by
  induction counts generalizing i with
  | nil => exact absurd hi (Nat.not_lt_zero i)
  | cons c counts ih =>
    cases i with
    | zero =>
      rw [List.modify_zero_cons, List.sum_cons, List.sum_cons]
      omega
    | succ i =>
      rw [List.modify_succ_cons, List.sum_cons, List.sum_cons, ih (Nat.lt_of_succ_lt_succ hi)]
      omega

theorem length_foldl_modify (values : List α) (counts : List ℕ) :
    (values.foldl (fun counts v => counts.modify (place v) (· + 1)) counts).length = counts.length := by
  induction values generalizing counts with
  | nil => rfl
  | cons v values ih => rw [List.foldl_cons, ih, List.length_modify]

theorem sum_foldl_modify {values : List α} {counts : List ℕ} (h : ∀ v ∈ values, place v < counts.length) :
    (values.foldl (fun counts v => counts.modify (place v) (· + 1)) counts).sum = counts.sum + values.length := by
  induction values generalizing counts with
  | nil => rfl
  | cons v values ih =>
    obtain ⟨hv, hrest⟩ := List.forall_mem_cons.mp h
    rw [List.foldl_cons, ih (by simpa only [List.length_modify] using hrest), sum_modify_succ hv, List.length_cons]
    omega

theorem getD_foldl_modify (values : List α) {counts : List ℕ} {i : ℕ} (hi : i < counts.length) :
    (values.foldl (fun counts v => counts.modify (place v) (· + 1)) counts).getD i 0 =
      counts.getD i 0 + values.countP fun v => place v = i := by
  induction values generalizing counts with
  | nil => rfl
  | cons v values ih =>
    have hi' : i < (counts.modify (place v) (· + 1)).length := by rwa [List.length_modify]
    rw [List.foldl_cons, ih hi', List.countP_cons, List.getD_eq_getElem _ _ hi', List.getD_eq_getElem _ _ hi,
      List.getElem_modify]
    by_cases hv : place v = i
    · rw [if_pos hv, if_pos (decide_eq_true hv)]
      omega
    · rw [if_neg hv, if_neg (by simpa using hv)]
      omega

theorem length_binCounts (n : ℕ) (place : α → ℕ) (values : List α) : (binCounts n place values).length = n :=
  (length_foldl_modify values _).trans List.length_replicate

/-- A bin counts the values of its place. -/
theorem getD_binCounts (values : List α) {i : ℕ} (hi : i < n) :
    (binCounts n place values).getD i 0 = values.countP fun v => place v = i := by
  rw [binCounts, getD_foldl_modify values (by rwa [List.length_replicate]), List.getD_replicate _ hi, zero_add]

theorem sum_binCounts {values : List α} (h : ∀ v ∈ values, place v < n) : (binCounts n place values).sum = values.length := by
  rw [binCounts, sum_foldl_modify (by simpa only [List.length_replicate] using h), List.sum_replicate, nsmul_zero, zero_add]

/-- Where each value has its place among the bins, the counts are the size of the sample. -/
theorem sum_counts {values : List α} (h : ∀ v ∈ values, place v < n) :
    ((List.range n).map fun i => (binCounts n place values).getD i 0).sum = values.length := by
  rw [← sum_binCounts h]
  congr 1
  refine List.ext_getElem (by simp [length_binCounts]) fun i _ hi => ?_
  rw [List.getElem_map, List.getElem_range, List.getD_eq_getElem _ _ hi]

end Histogram

end FxVol.SampleMoments
