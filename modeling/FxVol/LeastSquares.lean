import FxVol.Numerals
import Mathlib.Algebra.Order.BigOperators.Group.List
import Mathlib.Algebra.Order.Field.Basic
import Mathlib.Algebra.BigOperators.Ring.List
import Mathlib.Tactic.Ring
import Mathlib.Tactic.Linarith
import Mathlib.Tactic.Positivity

/-!
# The line of least squares

The slope that the centred products of a sample give, and that no other line has a smaller sum of squared residuals.
-/
namespace FxVol.LeastSquares

open scoped Numerals

section Field
variable {K : Type*} [Field K]

def mean (xs : List K) : K := xs.sum / xs.length

def centredProducts (points : List (K × K)) : K :=
  (points.map fun p => (p.1 - mean (points.map Prod.fst)) * (p.2 - mean (points.map Prod.snd))).sum

def centredSquares (points : List (K × K)) : K :=
  (points.map fun p => (p.1 - mean (points.map Prod.fst)) * (p.1 - mean (points.map Prod.fst))).sum

def slope (points : List (K × K)) : K := centredProducts points / centredSquares points

/-- The sum of the squared residuals of the line `a + b * x` -/
def residuals (a b : K) (points : List (K × K)) : K := (points.map fun p => (p.2 - (a + b * p.1)) ^ 2).sum

/-- The line of a slope through the means -/
def intercept (b : K) (points : List (K × K)) : K := mean (points.map Prod.snd) - b * mean (points.map Prod.fst)

theorem sum_map_sub (c : K) (xs : List K) : (xs.map fun x => x - c).sum = xs.sum - xs.length * c := by
  induction xs with
  | nil => simp
  | cons x xs ih =>
    rw [List.map_cons, List.sum_cons, ih, List.sum_cons, List.length_cons, Nat.cast_succ]
    ring

/-- The sample with its places moved by `c` -/
def moved (c : K) (points : List (K × K)) : List (K × K) := points.map fun p => (p.1 - c, p.2)

variable [CharZero K]

theorem sum_sub_mean {xs : List K} (hne : xs ≠ []) : (xs.map fun x => x - mean xs).sum = 0 := by
  have hlength : (xs.length : K) ≠ 0 := by simpa using hne
  rw [sum_map_sub, mean, mul_div_cancel₀ _ hlength, sub_self]

theorem mean_map_sub {xs : List K} (hne : xs ≠ []) (c : K) : mean (xs.map fun x => x - c) = mean xs - c := by
  have hlength : (xs.length : K) ≠ 0 := by simpa using hne
  rw [mean, mean, sum_map_sub, List.length_map, sub_div, mul_div_cancel_left₀ c hlength]

theorem mean_moved {points : List (K × K)} (hne : points ≠ []) (c : K) :
    mean ((moved c points).map Prod.fst) = mean (points.map Prod.fst) - c := by
  rw [← mean_map_sub (by simpa using hne), moved, List.map_map, List.map_map]
  rfl

omit [CharZero K] in
theorem map_snd_moved (c : K) (points : List (K × K)) : (moved c points).map Prod.snd = points.map Prod.snd := by
  rw [moved, List.map_map]
  rfl

/-- Neither the spread nor the slope depends on where the places are counted from. -/
theorem centredSquares_moved {points : List (K × K)} (hne : points ≠ []) (c : K) :
    centredSquares (moved c points) = centredSquares points := by
  rw [centredSquares, mean_moved hne, moved, List.map_map, centredSquares]
  refine congrArg List.sum (List.map_congr_left fun p _ => ?_)
  simp only [Function.comp_apply, sub_sub_sub_cancel_right]

theorem slope_moved {points : List (K × K)} (hne : points ≠ []) (c : K) : slope (moved c points) = slope points := by
  rw [slope, slope, centredSquares_moved hne, centredProducts, mean_moved hne, map_snd_moved, moved, List.map_map,
    centredProducts]
  refine congrArg (· / centredSquares points) (congrArg List.sum (List.map_congr_left fun p _ => ?_))
  simp only [Function.comp_apply, sub_sub_sub_cancel_right]

omit [CharZero K] in
/-- The residuals of a line, from those of the slope `s` through `(mx, my)` -/
theorem residuals_expand (a b s mx my : K) (points : List (K × K)) :
    residuals a b points = residuals (my - s * mx) s points +
      points.length * (my - b * mx - a) ^ 2 +
      (b - s) ^ 2 * (points.map fun p => (p.1 - mx) * (p.1 - mx)).sum +
      2 * (my - b * mx - a) * (points.map fun p => p.2 - my).sum -
      2 * (my - b * mx - a) * b * (points.map fun p => p.1 - mx).sum -
      2 * (b - s) * ((points.map fun p => (p.1 - mx) * (p.2 - my)).sum -
        s * (points.map fun p => (p.1 - mx) * (p.1 - mx)).sum) := by
  induction points with
  | nil => simp [residuals]
  | cons p points ih =>
    simp only [residuals, List.map_cons, List.sum_cons, List.length_cons, Nat.cast_succ] at ih ⊢
    rw [ih]
    ring

/-- The sum of squares of any line, from that of the line of least squares -/
theorem residuals_eq {points : List (K × K)} (hne : points ≠ []) (hsquares : centredSquares points ≠ 0) (a b : K) :
    residuals a b points = residuals (intercept (slope points) points) (slope points) points +
      points.length * (intercept b points - a) ^ 2 + (b - slope points) ^ 2 * centredSquares points := by
  have hxs : points.map Prod.fst ≠ [] := by simpa using hne
  have hys : points.map Prod.snd ≠ [] := by simpa using hne
  have hx := sum_sub_mean hxs
  have hy := sum_sub_mean hys
  rw [List.map_map] at hx hy
  have hslope : centredProducts points - slope points * centredSquares points = 0 := by
    rw [slope, div_mul_cancel₀ _ hsquares, sub_self]
  have hexpand := residuals_expand a b (slope points) (mean (points.map Prod.fst)) (mean (points.map Prod.snd)) points
  simp only [Function.comp_def] at hx hy
  rw [hx, hy] at hexpand
  rw [hexpand]
  simp only [centredProducts, centredSquares] at hslope ⊢
  rw [hslope, intercept, intercept]
  ring

end Field

section Ordered
variable {K : Type*} [Field K] [LinearOrder K] [IsStrictOrderedRing K]

theorem centredSquares_nonneg (points : List (K × K)) : 0 ≤ centredSquares points := by
  refine List.sum_nonneg ?_
  intro x hx
  obtain ⟨p, -, rfl⟩ := List.mem_map.mp hx
  exact mul_self_nonneg _

/-- No line has a smaller sum of squares. -/
theorem residuals_slope_le {points : List (K × K)} (hne : points ≠ []) (hsquares : centredSquares points ≠ 0) (a b : K) :
    residuals (intercept (slope points) points) (slope points) points ≤ residuals a b points := by
  rw [residuals_eq hne hsquares a b]
  have hheight : 0 ≤ (points.length : K) * (intercept b points - a) ^ 2 := by positivity
  have htilt : 0 ≤ (b - slope points) ^ 2 * centredSquares points :=
    mul_nonneg (sq_nonneg _) (centredSquares_nonneg points)
  linarith

/-- And no line of another slope has as small a one. -/
theorem residuals_slope_lt {points : List (K × K)} (hne : points ≠ []) (hsquares : centredSquares points ≠ 0) {a b : K}
    (hb : b ≠ slope points) : residuals (intercept (slope points) points) (slope points) points < residuals a b points := by
  rw [residuals_eq hne hsquares a b]
  have hheight : 0 ≤ (points.length : K) * (intercept b points - a) ^ 2 := by positivity
  have htilt : 0 < (b - slope points) ^ 2 * centredSquares points :=
    mul_pos (sq_pos_of_ne_zero (sub_ne_zero.mpr hb)) ((centredSquares_nonneg points).lt_of_ne' hsquares)
  linarith

end Ordered
end FxVol.LeastSquares
