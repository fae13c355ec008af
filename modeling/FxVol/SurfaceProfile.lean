import FxVol.Numerals
import Mathlib.Analysis.SpecialFunctions.Sqrt
import Mathlib.Tactic.Linarith
import Mathlib.Tactic.LinearCombination
import Mathlib.Tactic.FieldSimp

/-!
# Surfaces of one profile

A surface of total variance that is one convex profile read at `φ θ * k` and scaled by the at-the-money variance `θ`.
Slices do not cross when `φ` falls and `θ * φ θ` rises with `θ`, whatever the correlation.
-/
namespace FxVol.SurfaceProfile

open scoped Numerals

/-- The slice of unit scale at `x` -/
noncomputable def profile (rho x : ℝ) : ℝ := 1 + rho * x + √((x + rho) * (x + rho) + (1 - rho * rho))

section Profile
variable {rho : ℝ}

theorem radicand_eq (x : ℝ) : (x + rho) * (x + rho) + (1 - rho * rho) = (1 + rho * x) ^ 2 + x ^ 2 * (1 - rho ^ 2) := by ring

variable (hrho : |rho| < 1)
include hrho

theorem sq_lt : 0 < 1 - rho ^ 2 := sub_pos.mpr ((sq_lt_one_iff_abs_lt_one rho).mpr hrho)

theorem radicand_nonneg (x : ℝ) : 0 ≤ (x + rho) * (x + rho) + (1 - rho * rho) := by
  have h := sq_lt hrho
  rw [radicand_eq]
  positivity

theorem profile_pos (x : ℝ) : 0 < profile rho x := by
  have hsq := sq_lt hrho
  have hroot : -(1 + rho * x) < √((x + rho) * (x + rho) + (1 - rho * rho)) := by
    rcases eq_or_ne x 0 with rfl | hx
    · have := Real.sqrt_nonneg ((0 + rho) * (0 + rho) + (1 - rho * rho))
      rw [mul_zero]
      linarith
    · refine Real.lt_sqrt_of_sq_lt ?_
      have hpos : 0 < x ^ 2 * (1 - rho ^ 2) := by positivity
      rw [radicand_eq, neg_sq]
      linarith
  rw [profile]
  linarith

/-- Contracting the argument loses less than the factor: the squares of the roots differ by
`2 * (1 - t) * profile rho (t * x)`. -/
theorem mul_profile_le {t : ℝ} (ht : t ≤ 1) (x : ℝ) : t * profile rho x ≤ profile rho (t * x) := by
  have hpos := profile_pos hrho (t * x)
  have hroot : t * √((x + rho) * (x + rho) + (1 - rho * rho)) ≤
      (1 - t) + √((t * x + rho) * (t * x + rho) + (1 - rho * rho)) := by
    set r := √((x + rho) * (x + rho) + (1 - rho * rho)) with hr
    set s := √((t * x + rho) * (t * x + rho) + (1 - rho * rho)) with hs
    have hr2 : r ^ 2 = (x + rho) * (x + rho) + (1 - rho * rho) := Real.sq_sqrt (radicand_nonneg hrho x)
    have hs2 : s ^ 2 = (t * x + rho) * (t * x + rho) + (1 - rho * rho) := Real.sq_sqrt (radicand_nonneg hrho (t * x))
    have hprofile : profile rho (t * x) = 1 + rho * (t * x) + s := rfl
    refine abs_le_of_sq_le_sq' ?_ (add_nonneg (sub_nonneg.mpr ht) (Real.sqrt_nonneg _)) |>.2
    have hdiff : ((1 - t) + s) ^ 2 - (t * r) ^ 2 = 2 * (1 - t) * profile rho (t * x) := by
      rw [hprofile]
      linear_combination hs2 - t ^ 2 * hr2
    have hnonneg : 0 ≤ 2 * (1 - t) * profile rho (t * x) :=
      mul_nonneg (mul_nonneg two_pos.le (sub_nonneg.mpr ht)) hpos.le
    linarith
  rw [profile, profile]
  linarith

end Profile

/-- A scaling under which slices do not cross -/
structure Scaling (φ : ℝ → ℝ) : Prop where
  pos : ∀ θ, 0 ≤ θ → 0 < φ θ
  antitone : AntitoneOn φ (Set.Ici 0)
  monotone_mul : MonotoneOn (fun θ => θ * φ θ) (Set.Ici 0)

/-- The total variance of a surface at log-moneyness `k` -/
noncomputable def variance (φ : ℝ → ℝ) (rho k θ : ℝ) : ℝ := θ / 2 * profile rho (φ θ * k)

section Surface
variable {φ : ℝ → ℝ} {rho : ℝ}

theorem variance_pos (hrho : |rho| < 1) (k : ℝ) {θ : ℝ} (hθ : 0 < θ) : 0 < variance φ rho k θ :=
  mul_pos (half_pos hθ) (profile_pos hrho _)

/-- No calendar arbitrage: at every log-moneyness the total variance rises with the at-the-money variance. -/
theorem variance_monotoneOn (hφ : Scaling φ) (hrho : |rho| < 1) (k : ℝ) : MonotoneOn (variance φ rho k) (Set.Ici 0) := by
  intro a ha b hb hab
  have hpa := hφ.pos a ha
  have hpb := hφ.pos b hb
  have ht : φ b / φ a ≤ 1 := (div_le_one hpa).mpr (hφ.antitone ha hb hab)
  have hscale : a ≤ b * (φ b / φ a) := by
    rw [← mul_div_assoc, le_div_iff₀ hpa]
    exact hφ.monotone_mul ha hb hab
  have harg : φ b / φ a * (φ a * k) = φ b * k := by
    rw [← mul_assoc, div_mul_cancel₀ _ hpa.ne']
  have hcontract := mul_profile_le hrho ht (φ a * k)
  rw [harg] at hcontract
  calc a / 2 * profile rho (φ a * k) ≤ b * (φ b / φ a) / 2 * profile rho (φ a * k) :=
        mul_le_mul_of_nonneg_right (div_le_div_of_nonneg_right hscale two_pos.le) (profile_pos hrho _).le
    _ = b / 2 * (φ b / φ a * profile rho (φ a * k)) := by ring
    _ ≤ b / 2 * profile rho (φ b * k) := mul_le_mul_of_nonneg_left hcontract (div_nonneg hb two_pos.le)

end Surface

end FxVol.SurfaceProfile
