import FxVol.TradePreviews
import Mathlib.Data.List.Sort

/-!
# Volatility at a strike

`iv_at_strike` of `core.vol.iv_lookup`, the one lookup of the risk engine and of the monitor: linear in
the strike between two pillars of a tenor, flat beyond the wings.  A pillar without a strike is placed
from its delta.
-/
namespace FxVol.VolSurface

open Greeks TradePreviews

/-- `NormalDist` beside `math` -/
structure Numerics extends Greeks.Numerics where
  invCdf : ℚ → ℚ

def callDelta : DeltaPillar → ℚ
  | .dp10 => 90 / 100
  | .dp25 => 75 / 100
  | .atm => 50 / 100
  | .dc25 => 25 / 100
  | .dc10 => 10 / 100

inductive IvSource | pillar | interpStrike | wingClamp | singlePillar
  deriving DecidableEq

structure IvResult where
  iv : ℚ
  source : IvSource
  nPoints : ℕ
  deriving DecidableEq

variable (N : Numerics)

def strikeFromDelta (F T sigma : ℚ) (label : DeltaPillar) : ℚ :=
  if label = .atm ∨ T ≤ 0 ∨ sigma ≤ 0 then F
  else
    let volT := sigma * N.sqrt T
    F * N.exp (1 / 2 * volT * volT - N.invCdf (callDelta label) * volT)

def placed (s : Surface) (tenor : Tenor) (F T : ℚ) : List (ℚ × ℚ) :=
  DeltaPillar.all.filterMap fun label =>
    match s.iv tenor label with
    | none => none
    | some iv =>
      if iv ≤ 0 then none
      else match s.strike tenor label with
        | some strike =>
          if 0 < strike then some (strike, iv)
          else if F ≤ 0 then none
          else some (strikeFromDelta N F T iv label, iv)
        | none => if F ≤ 0 then none else some (strikeFromDelta N F T iv label, iv)

def points (s : Surface) (tenor : Tenor) (F T : ℚ) : List (ℚ × ℚ) :=
  (placed N s tenor F T).insertionSort fun p q => p.1 ≤ q.1

/-- The loop over adjacent pillars, and the last pillar after it -/
def bracket (strike : ℚ) : List (ℚ × ℚ) → Option (ℚ × IvSource)
  | (k₀, v₀) :: (k₁, v₁) :: rest =>
    if strike = k₀ then some (v₀, .pillar)
    else if k₀ < strike ∧ strike < k₁ then
      some (v₀ + (strike - k₀) / (k₁ - k₀) * (v₁ - v₀), .interpStrike)
    else bracket strike ((k₁, v₁) :: rest)
  | [(_, v)] => some (v, .pillar)
  | [] => none

/-- `iv_at_strike` on a list of points -/
def ivOnPoints (strike : ℚ) (pts : List (ℚ × ℚ)) : Option IvResult :=
  match pts.head?, pts.getLast? with
  | some (kFirst, vFirst), some (kLast, vLast) =>
    if pts.length = 1 then some ⟨vFirst, .singlePillar, pts.length⟩
    else if strike ≤ kFirst then
      some ⟨vFirst, if strike = kFirst then .pillar else .wingClamp, pts.length⟩
    else if kLast ≤ strike then
      some ⟨vLast, if strike = kLast then .pillar else .wingClamp, pts.length⟩
    else (bracket strike pts).map fun p => ⟨p.1, p.2, pts.length⟩
  | _, _ => none

/-- `iv_at_strike`; without a surface there is none. -/
def ivAtStrike (surface : Option Surface) (tenor : Tenor) (strike F T : ℚ) : Option IvResult :=
  surface.bind fun s => ivOnPoints strike (points N s tenor F T)

section Bounds
variable {strike : ℚ} {pts : List (ℚ × ℚ)} {I : Set ℚ}

theorem bracket_mem (hI : I.OrdConnected) (hpts : ∀ q ∈ pts, q.2 ∈ I) {p : ℚ × IvSource}
    (h : bracket strike pts = some p) : p.1 ∈ I := by
  induction pts with
  | nil => cases h
  | cons q rest ih =>
    obtain ⟨k₀, v₀⟩ := q
    have hfirst : v₀ ∈ I := hpts (k₀, v₀) List.mem_cons_self
    cases rest with
    | nil =>
      simp only [bracket, Option.some.injEq] at h
      rw [← h]
      exact hfirst
    | cons q' rest =>
      obtain ⟨k₁, v₁⟩ := q'
      have hsecond : v₁ ∈ I := hpts (k₁, v₁) (List.mem_cons_of_mem _ List.mem_cons_self)
      simp only [bracket] at h
      split_ifs at h with heq hin
      · rw [← Option.some.inj h]
        exact hfirst
      · rw [← Option.some.inj h]
        -- the weight of the upper pillar is in the unit interval
        have hgap : 0 < k₁ - k₀ := by linarith [hin.1, hin.2]
        have hw : 0 ≤ (strike - k₀) / (k₁ - k₀) := div_nonneg (by linarith [hin.1]) hgap.le
        have hw' : (strike - k₀) / (k₁ - k₀) ≤ 1 := (div_le_one hgap).mpr (by linarith [hin.2])
        apply hI.uIcc_subset hfirst hsecond
        rw [Set.mem_uIcc]
        rcases le_total v₀ v₁ with hle | hle
        · left
          constructor <;> nlinarith
        · right
          constructor <;> nlinarith
      · exact ih (fun q hq => hpts q (List.mem_cons_of_mem _ hq)) h

theorem ivOnPoints_mem (hI : I.OrdConnected) (hpts : ∀ q ∈ pts, q.2 ∈ I) {res : IvResult}
    (h : ivOnPoints strike pts = some res) : res.iv ∈ I := by
  unfold ivOnPoints at h
  split at h
  · next kFirst vFirst kLast vLast hhead hlast =>
    have hfirst : vFirst ∈ I := hpts _ (List.mem_of_mem_head? hhead)
    have hlast' : vLast ∈ I := hpts _ (List.mem_of_getLast? hlast)
    by_cases hone : pts.length = 1
    · rw [if_pos hone] at h
      rw [← Option.some.inj h]
      exact hfirst
    · rw [if_neg hone] at h
      by_cases hlow : strike ≤ kFirst
      · rw [if_pos hlow] at h
        rw [← Option.some.inj h]
        exact hfirst
      · rw [if_neg hlow] at h
        by_cases hhigh : kLast ≤ strike
        · rw [if_pos hhigh] at h
          rw [← Option.some.inj h]
          exact hlast'
        · rw [if_neg hhigh] at h
          obtain ⟨p, hp, rfl⟩ := Option.map_eq_some_iff.mp h
          exact bracket_mem hI hpts hp
  · cases h

variable {N} {s : Surface} {surface : Option Surface} {tenor : Tenor} {F T : ℚ}

theorem placed_pos {q : ℚ × ℚ} (h : q ∈ placed N s tenor F T) : 0 < q.2 := by
  obtain ⟨label, -, hq⟩ := List.mem_filterMap.mp h
  cases hiv : s.iv tenor label with
  | none =>
    rw [hiv] at hq
    cases hq
  | some iv =>
    simp only [hiv] at hq
    by_cases hpos : iv ≤ 0
    · rw [if_pos hpos] at hq
      cases hq
    · rw [if_neg hpos] at hq
      have hsecond : q.2 = iv := by
        cases hstrike : s.strike tenor label with
        | none =>
          simp only [hstrike] at hq
          split_ifs at hq
          rw [← Option.some.inj hq]
        | some strike =>
          simp only [hstrike] at hq
          split_ifs at hq <;> rw [← Option.some.inj hq]
      rw [hsecond]
      exact not_le.mp hpos

theorem ivAtStrike_pos {res : IvResult} (h : ivAtStrike N surface tenor strike F T = some res) :
    0 < res.iv := by
  obtain ⟨s, -, hs⟩ := Option.bind_eq_some_iff.mp h
  have hpts : ∀ q ∈ points N s tenor F T, q.2 ∈ Set.Ioi (0 : ℚ) := by
    intro q hq
    exact placed_pos ((List.mem_insertionSort _).mp hq)
  exact ivOnPoints_mem Set.ordConnected_Ioi hpts hs

end Bounds

end FxVol.VolSurface
