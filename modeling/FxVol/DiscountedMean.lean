import Mathlib.Algebra.Order.Field.Basic
import Mathlib.Data.List.Forall2
import Mathlib.Data.List.Induction
import Mathlib.Tactic.Ring

/-!
# Discounted means

The mean of a sequence read with weights that fall by one factor from entry to entry, as the loop that adds up its
numerator and denominator computes it.
-/
namespace FxVol.DiscountedMean

section Totals
variable {K : Type*} [Field K]

/-- The sums so far and the weight of the next entry -/
structure Totals (K : Type*) where
  num : K
  den : K
  weight : K

def step (decay : K) (t : Totals K) (x : K) : Totals K := ⟨t.num + t.weight * x, t.den + t.weight, t.weight * decay⟩

def totals (decay : K) (xs : List K) : Totals K := xs.foldl (step decay) ⟨0, 0, 1⟩

def mean (decay : K) (xs : List K) : K := (totals decay xs).num / (totals decay xs).den

theorem totals_concat (decay : K) (xs : List K) (x : K) : totals decay (xs ++ [x]) = step decay (totals decay xs) x := by
  rw [totals, List.foldl_append, List.foldl_cons, List.foldl_nil, totals]

theorem num_const (decay : K) (xs : List K) (c : K) :
    (totals decay (xs.map fun _ => c)).num = c * (totals decay (xs.map fun _ => c)).den := by
  induction xs using List.reverseRecOn with
  | nil => simp [totals]
  | append_singleton xs x ih =>
    rw [List.map_append, List.map_singleton, totals_concat]
    simp only [step, ih]
    ring

end Totals

section Ordered
variable {K : Type*} [Field K] [LinearOrder K] [IsStrictOrderedRing K] {decay : K} (hdecay : 0 < decay)
include hdecay

theorem weight_pos (xs : List K) : 0 < (totals decay xs).weight := by
  induction xs using List.reverseRecOn with
  | nil => exact one_pos
  | append_singleton xs x ih =>
    rw [totals_concat]
    exact mul_pos ih hdecay

theorem den_nonneg (xs : List K) : 0 ≤ (totals decay xs).den := by
  induction xs using List.reverseRecOn with
  | nil => exact le_rfl
  | append_singleton xs x ih =>
    rw [totals_concat]
    exact add_nonneg ih (weight_pos hdecay xs).le

theorem den_pos {xs : List K} (hne : xs ≠ []) : 0 < (totals decay xs).den := by
  induction xs using List.reverseRecOn with
  | nil => exact absurd rfl hne
  | append_singleton xs x _ =>
    rw [totals_concat]
    exact add_pos_of_nonneg_of_pos (den_nonneg hdecay xs) (weight_pos hdecay xs)

/-- Two sequences of one length have the same weights, and the larger has the larger numerator. -/
theorem totals_mono {xs ys : List K} (h : List.Forall₂ (· ≤ ·) xs ys) {s t : Totals K} (hweight : s.weight = t.weight)
    (hpos : 0 < s.weight) (hden : s.den = t.den) (hnum : s.num ≤ t.num) :
    (xs.foldl (step decay) s).den = (ys.foldl (step decay) t).den ∧
      (xs.foldl (step decay) s).num ≤ (ys.foldl (step decay) t).num := by
  induction h generalizing s t with
  | nil => exact ⟨hden, hnum⟩
  | cons hxy _ ih =>
    refine ih ?_ (mul_pos hpos hdecay) ?_ ?_
    · simp only [step, hweight]
    · simp only [step, hweight, hden]
    · simp only [step, ← hweight]
      exact add_le_add hnum (mul_le_mul_of_nonneg_left hxy hpos.le)

theorem mean_mono {xs ys : List K} (h : List.Forall₂ (· ≤ ·) xs ys) : mean decay xs ≤ mean decay ys := by
  obtain ⟨hden, hnum⟩ := totals_mono hdecay h (s := ⟨0, 0, 1⟩) rfl one_pos rfl le_rfl
  rw [mean, mean, totals, totals, hden]
  exact div_le_div_of_nonneg_right hnum (den_nonneg hdecay ys)

theorem mean_const {xs : List K} (hne : xs ≠ []) (c : K) : mean decay (xs.map fun _ => c) = c := by
  rw [mean, num_const, div_eq_iff (den_pos hdecay (by simpa using hne)).ne']

theorem mean_le {xs : List K} (hne : xs ≠ []) {high : K} (h : ∀ x ∈ xs, x ≤ high) : mean decay xs ≤ high := by
  rw [← mean_const hdecay hne high]
  exact mean_mono hdecay (List.forall₂_map_right_iff.mpr (List.forall₂_same.mpr h))

theorem le_mean {xs : List K} (hne : xs ≠ []) {low : K} (h : ∀ x ∈ xs, low ≤ x) : low ≤ mean decay xs := by
  rw [← mean_const hdecay hne low]
  exact mean_mono hdecay (List.forall₂_map_left_iff.mpr (List.forall₂_same.mpr h))

end Ordered
end FxVol.DiscountedMean
