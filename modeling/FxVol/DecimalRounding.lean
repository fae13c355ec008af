import FxVol.Numerals
import Mathlib.Algebra.Order.Field.Basic
import Mathlib.Algebra.Order.Floor.Ring
import Mathlib.Data.Int.Log
import Mathlib.Data.Rat.Floor
import Mathlib.Tactic.Linarith

/-!
# Rounding to decimals and to doubles

Python's `round` in exact arithmetic over an ordered field: to the nearest value with so many decimals, a tie to the
even one.  It does not cross a value that has no more decimals.  `toDouble` is the rounding of an arithmetic operation.
-/
namespace FxVol.DecimalRounding

open scoped Numerals

variable {K : Type*} [Field K] [LinearOrder K] [FloorRing K]

def nearestEven (x : K) : ℤ :=
  if x - ⌊x⌋ < 1 / 2 then ⌊x⌋
  else if 1 / 2 < x - ⌊x⌋ then ⌊x⌋ + 1
  else if Even ⌊x⌋ then ⌊x⌋ else ⌊x⌋ + 1

/-- `round(x, digits)` -/
def roundTo (x : K) (digits : ℕ) : K := nearestEven (x * 10 ^ digits) / 10 ^ digits

/-- The nearest value with 53 significant bits, ties to even, far from the ends of the exponent range -/
def toDouble (x : ℚ) : ℚ :=
  let ulp : ℚ := 2 ^ (Int.log 2 |x| - 52)
  nearestEven (x / ulp) * ulp

theorem floor_le_nearestEven (x : K) : ⌊x⌋ ≤ nearestEven x := by
  rw [nearestEven]
  split_ifs <;> omega

variable [IsStrictOrderedRing K] {x : K} {n : ℤ} {digits : ℕ}

omit [IsStrictOrderedRing K] in
theorem le_nearestEven (h : (n : K) ≤ x) : n ≤ nearestEven x := (Int.le_floor.mpr h).trans (floor_le_nearestEven x)

theorem nearestEven_le (h : x ≤ n) : nearestEven x ≤ n := by
  rcases h.lt_or_eq with hlt | heq
  · have hfloor : ⌊x⌋ + 1 ≤ n := Int.floor_lt.mpr hlt
    rw [nearestEven]
    split_ifs <;> omega
  · have hzero : x - ⌊x⌋ < 1 / 2 := by
      rw [heq, Int.floor_intCast, sub_self]
      norm_num
    rw [nearestEven, if_pos hzero, heq, Int.floor_intCast]

/-- Rounding does not go below a value with so many decimals. -/
theorem le_roundTo (h : (n : K) / 10 ^ digits ≤ x) : (n : K) / 10 ^ digits ≤ roundTo x digits := by
  have hpow : (0 : K) < 10 ^ digits := by positivity
  rw [roundTo, div_le_div_iff_of_pos_right hpow, Int.cast_le]
  exact le_nearestEven ((div_le_iff₀ hpow).mp h)

/-- Nor above one. -/
theorem roundTo_le (h : x ≤ (n : K) / 10 ^ digits) : roundTo x digits ≤ (n : K) / 10 ^ digits := by
  have hpow : (0 : K) < 10 ^ digits := by positivity
  rw [roundTo, div_le_div_iff_of_pos_right hpow, Int.cast_le]
  exact nearestEven_le ((le_div_iff₀ hpow).mp h)

/-- The half below an even integer is rounded up to it. -/
theorem nearestEven_lt_iff (hn : Even n) : nearestEven x < n ↔ x < n - 1 / 2 := by
  have hfloor := Int.floor_le x
  constructor
  · intro h
    have hfloorlt : ⌊x⌋ < n := (floor_le_nearestEven x).trans_lt h
    rcases Int.lt_or_eq_of_le (Int.le_sub_one_of_lt hfloorlt) with hlt | heq
    · have hnext : x < ⌊x⌋ + 1 := Int.lt_floor_add_one x
      have hcast : (⌊x⌋ : K) + 1 ≤ n - 1 := by exact_mod_cast (show ⌊x⌋ + 1 ≤ n - 1 by omega)
      linarith
    · have hodd : ¬ Even ⌊x⌋ := by
        rw [heq, Int.even_sub_one]
        exact not_not.mpr hn
      by_contra hge
      have hcast : (⌊x⌋ : K) = n - 1 := by exact_mod_cast heq
      rw [nearestEven, if_neg (by linarith), if_neg hodd] at h
      split_ifs at h <;> omega
  · intro h
    have hfloorlt : ⌊x⌋ < n := Int.floor_lt.mpr (by linarith)
    rcases Int.lt_or_eq_of_le (Int.le_sub_one_of_lt hfloorlt) with hlt | heq
    · rw [nearestEven]
      split_ifs <;> omega
    · have hcast : (⌊x⌋ : K) = n - 1 := by exact_mod_cast heq
      rw [nearestEven, if_pos (by linarith)]
      omega

theorem nearestEven_mono {y : K} (h : x ≤ y) : nearestEven x ≤ nearestEven y := by
  have hfloor : ⌊x⌋ ≤ ⌊y⌋ := Int.floor_mono h
  rcases hfloor.lt_or_eq with hlt | heq
  · have hup : nearestEven x ≤ ⌊x⌋ + 1 := by
      rw [nearestEven]
      split_ifs <;> omega
    exact hup.trans ((Int.add_one_le_of_lt hlt).trans (floor_le_nearestEven y))
  · rw [nearestEven, nearestEven, heq]
    split_ifs <;> first | omega | linarith

theorem roundTo_mono {y : K} (h : x ≤ y) (digits : ℕ) : roundTo x digits ≤ roundTo y digits := by
  have hpow : (0 : K) < 10 ^ digits := by positivity
  rw [roundTo, roundTo, div_le_div_iff_of_pos_right hpow, Int.cast_le]
  exact nearestEven_mono (mul_le_mul_of_nonneg_right h hpow.le)

/-- Rounding half to even is the same from either end of an even range. -/
theorem nearestEven_sub (hn : Even n) (x : K) : nearestEven (n - x) = n - nearestEven x := by
  have hfloor := Int.floor_le x
  have hlt := Int.lt_floor_add_one x
  have hsum : (1 : K) / 2 + 1 / 2 = 1 := add_halves 1
  rcases hfloor.eq_or_lt with heq | hpos
  · have hinteger (m : ℤ) : nearestEven (m : K) = m := le_antisymm (nearestEven_le le_rfl) (le_nearestEven le_rfl)
    rw [← heq, ← Int.cast_sub, hinteger, hinteger]
  · have hfloor' : ⌊(n : K) - x⌋ = n - ⌊x⌋ - 1 := by
      rw [Int.floor_eq_iff]
      push_cast
      constructor <;> linarith
    have hpart : (n : K) - x - (⌊(n : K) - x⌋ : K) = 1 - (x - ⌊x⌋) := by
      rw [hfloor']
      push_cast
      linarith
    have heven : Even (n - ⌊x⌋ - 1) ↔ ¬ Even ⌊x⌋ := by
      rw [Int.even_sub_one, Int.even_sub]
      simp [hn]
    rw [nearestEven, nearestEven, hpart, hfloor']
    rcases lt_trichotomy (x - ⌊x⌋) (1 / 2) with hlow | hmid | hhigh
    · rw [if_neg (by linarith), if_pos (by linarith), if_pos hlow]
      omega
    · have hother : 1 - (x - ⌊x⌋) = 1 / 2 := by linarith
      rw [hother, hmid]
      simp only [lt_irrefl, if_false, heven]
      by_cases h : Even ⌊x⌋
      · rw [if_neg (not_not.mpr h), if_pos h]
        omega
      · rw [if_pos h, if_neg h]
        omega
    · rw [if_pos (by linarith), if_neg (by linarith), if_pos hhigh]
      omega

end FxVol.DecimalRounding
