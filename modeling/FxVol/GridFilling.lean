import Mathlib.Algebra.Order.Group.Defs
import Mathlib.Data.Set.Lattice
import Mathlib.Order.CompletePartialOrder
import Mathlib.Order.Defs.LinearOrder

/-!
# Filling a grid

Each point of a line has the columns that are known there, none where nothing is.  A pass reads targets off
the points: a target has its own columns, or those that the points next to it share, or, past the last
point, the columns of that point up to a margin.  What a pass over its own result adds is held flat, never
read between two points.
-/
namespace FxVol.GridFilling

variable {α δ : Type*} [LinearOrder α]

section Neighbours

/-- The columns known at each point -/
abbrev Grid (α δ : Type*) := α → Set δ

variable {G : Grid α δ} {t u lo hi : α}

def Known (G : Grid α δ) (t : α) : Prop := (G t).Nonempty

/-- The last known point before `t` -/
structure Lower (G : Grid α δ) (t lo : α) : Prop where
  known : Known G lo
  lt : lo < t
  le : ∀ b, Known G b → b < t → b ≤ lo

/-- The first known point after `t` -/
structure Upper (G : Grid α δ) (t hi : α) : Prop where
  known : Known G hi
  lt : t < hi
  le : ∀ b, Known G b → t < b → hi ≤ b

/-- No point after `t` is known. -/
def PastLast (G : Grid α δ) (t : α) : Prop := ∀ b, Known G b → b ≤ t

/-- No known point tells `t` from `u`. -/
def SameGap (G : Grid α δ) (t u : α) : Prop := ∀ b, Known G b → (b < t ↔ b < u) ∧ (t < b ↔ u < b)

theorem SameGap.symm (h : SameGap G t u) : SameGap G u t := by
  intro b hb
  exact ⟨(h b hb).1.symm, (h b hb).2.symm⟩

theorem SameGap.lower (h : SameGap G t u) (hlo : Lower G t lo) : Lower G u lo where
  known := hlo.known
  lt := (h lo hlo.known).1.mp hlo.lt
  le b hb hbu := hlo.le b hb ((h b hb).1.mpr hbu)

theorem SameGap.upper (h : SameGap G t u) (hhi : Upper G t hi) : Upper G u hi where
  known := hhi.known
  lt := (h hi hhi.known).2.mp hhi.lt
  le b hb hub := hhi.le b hb ((h b hb).2.mpr hub)

theorem SameGap.pastLast (h : SameGap G t u) (hlast : PastLast G t) : PastLast G u := by
  intro b hb
  by_contra hlt
  exact absurd ((h b hb).2.mpr (not_le.mp hlt)) (not_lt.mpr (hlast b hb))

/-- Two points that are not known share a gap where none between them is known. -/
theorem sameGap_of_gap (ht : ¬ Known G t) (hu : ¬ Known G u) (hle : t ≤ u) (hgap : ∀ b, Known G b → t < b → u ≤ b) :
    SameGap G t u := by
  intro b hb
  have hbt : b ≠ t := by
    rintro rfl
    exact ht hb
  have hbu : b ≠ u := by
    rintro rfl
    exact hu hb
  constructor
  · constructor
    · exact fun hlt => hlt.trans_le hle
    · intro hlt
      by_contra hge
      exact absurd (hgap b hb (lt_of_le_of_ne (not_lt.mp hge) hbt.symm)) (not_le.mpr hlt)
  · constructor
    · exact fun hlt => lt_of_le_of_ne (hgap b hb hlt) hbu.symm
    · exact fun hlt => hle.trans_lt hlt

end Neighbours

section Pass
variable [AddCommGroup α]

/-- A column is read off at `t`. -/
inductive Reads (margin : α) (G : Grid α δ) (t : α) (d : δ) : Prop
  | own (known : d ∈ G t)
  | between (absent : ¬ Known G t) {lo hi : α} (lower : Lower G t lo) (upper : Upper G t hi)
      (left : d ∈ G lo) (right : d ∈ G hi)
  | flat (absent : ¬ Known G t) {lo : α} (lower : Lower G t lo) (past : PastLast G t) (within : t - lo ≤ margin)
      (left : d ∈ G lo)

def pass (margin : α) (targets : Set α) (G : Grid α δ) : Grid α δ := fun t =>
  {d | t ∈ targets ∧ Reads margin G t d}

variable {margin : α} {targets : Set α} {G : Grid α δ} {t u lo : α} {d : δ}

theorem known_pass : Known (pass margin targets G) t ↔ t ∈ targets ∧ ∃ d, Reads margin G t d := by
  constructor
  · rintro ⟨d, ht, hd⟩
    exact ⟨ht, d, hd⟩
  · rintro ⟨ht, d, hd⟩
    exact ⟨d, ht, hd⟩

theorem known_pass_of_known (ht : t ∈ targets) (h : Known G t) : Known (pass margin targets G) t := by
  obtain ⟨d, hd⟩ := h
  exact ⟨d, ht, .own hd⟩

theorem reads_of_known (h : Known G t) : Reads margin G t d ↔ d ∈ G t := by
  constructor
  · intro hd
    cases hd with
    | own hd => exact hd
    | between absent => exact absurd h absent
    | flat absent => exact absurd h absent
  · exact .own

/-- A target that is known keeps its columns. -/
theorem pass_of_known (ht : t ∈ targets) (h : Known G t) : pass margin targets G t = G t := by
  ext d
  exact ⟨fun hd => (reads_of_known h).mp hd.2, fun hd => ⟨ht, .own hd⟩⟩

section Ordered
variable [IsOrderedAddMonoid α]

/-- In one gap the columns read at a later point are read at an earlier one. -/
theorem Reads.earlier (hgap : SameGap G u t) (ht : ¬ Known G t) (hu : ¬ Known G u) (hle : t ≤ u)
    (h : Reads margin G u d) : Reads margin G t d := by
  cases h with
  | own hd => exact absurd ⟨d, hd⟩ hu
  | between _ lower upper left right => exact .between ht (hgap.lower lower) (hgap.upper upper) left right
  | flat _ lower past within left =>
    exact .flat ht (hgap.lower lower) (hgap.pastLast past) ((sub_le_sub_right hle _).trans within) left

/-- The points before a target are targets. -/
def Downward (targets : Set α) (G : Grid α δ) : Prop := ∀ t ∈ targets, ∀ b, Known G b → b ≤ t → b ∈ targets

omit [IsOrderedAddMonoid α] in
/-- What was known before a target is at its neighbour or before. -/
theorem le_lower (hdown : Downward targets G) (ht : t ∈ targets) (hlo : Lower (pass margin targets G) t lo)
    {b : α} (hb : Known G b) (hbt : b < t) : b ≤ lo :=
  hlo.le b (known_pass_of_known (hdown t ht b hb hbt.le) hb) hbt

omit [IsOrderedAddMonoid α] in
/-- A neighbour that was given its columns is in the gap of the target. -/
theorem sameGap_lower (hdown : Downward targets G) (ht : t ∈ targets) (hraw : ¬ Known G t)
    (hlo : Lower (pass margin targets G) t lo) (hknown : ¬ Known G lo) : SameGap G lo t := by
  apply sameGap_of_gap hknown hraw hlo.lt.le
  intro b hb hlt
  by_contra hge
  exact absurd (le_lower hdown ht hlo hb (not_le.mp hge)) (not_le.mpr hlt)

/-- A second pass reads nothing new between two points. -/
theorem not_between (hdown : Downward targets G) (ht : t ∈ targets) (habsent : ¬ Known (pass margin targets G) t)
    {lo hi : α} (hlo : Lower (pass margin targets G) t lo) (hhi : Upper (pass margin targets G) t hi)
    (hleft : d ∈ pass margin targets G lo) (hright : d ∈ pass margin targets G hi) : False := by
  have hraw : ¬ Known G t := fun h => habsent (known_pass_of_known ht h)
  have hnone : ¬ Reads margin G t d := fun hd => habsent (known_pass.mpr ⟨ht, d, hd⟩)
  -- what was known after `t` is no nearer than the upper point
  have habove : ∀ b, Known G b → t < b → hi ≤ b := by
    intro b hb htb
    by_contra hlt
    have hbhi : b < hi := not_le.mp hlt
    exact hlt (hhi.le b (known_pass_of_known (hdown hi hright.1 b hb hbhi.le) hb) htb)
  by_cases hknownHi : Known G hi
  · have hupper : Upper G t hi := ⟨hknownHi, hhi.lt, habove⟩
    rw [pass_of_known hright.1 hknownHi] at hright
    by_cases hknownLo : Known G lo
    · rw [pass_of_known hleft.1 hknownLo] at hleft
      exact hnone (.between hraw ⟨hknownLo, hlo.lt, fun b => le_lower hdown ht hlo⟩ hupper hleft hright)
    · have hgap : SameGap G lo t := sameGap_lower hdown ht hraw hlo hknownLo
      cases hleft.2 with
      | own hd => exact hknownLo ⟨d, hd⟩
      | between _ lower upper left right =>
        exact hnone (.between hraw (hgap.lower lower) (hgap.upper upper) left right)
      | flat _ _ past => exact absurd (past hi hknownHi) (not_le.mpr (hlo.lt.trans hhi.lt))
  · -- what the upper point was given `t` was given as well
    have hgap : SameGap G t hi := sameGap_of_gap hraw hknownHi hhi.lt.le habove
    exact hnone (hright.2.earlier hgap.symm hraw hknownHi hhi.lt.le)

/-- What a second pass adds is held flat from the last point of the first. -/
theorem flat_of_added (hdown : Downward targets G) (habsent : ¬ Known (pass margin targets G) t)
    (h : Known (pass margin targets (pass margin targets G)) t) :
    ∃ lo, Lower (pass margin targets G) t lo ∧ PastLast (pass margin targets G) t ∧ t - lo ≤ margin := by
  obtain ⟨ht, d, hd⟩ := known_pass.mp h
  cases hd with
  | own hd => exact absurd ⟨d, hd⟩ habsent
  | between _ lower upper left right => exact absurd (not_between hdown ht habsent lower upper left right) id
  | flat _ lower past within _ => exact ⟨_, lower, past, within⟩

omit [IsOrderedAddMonoid α] in
/-- The point that a second pass holds flat was known, and later ones that share no column with it, or it was
held flat itself. -/
theorem flat_source (hdown : Downward targets G) (ht : t ∈ targets) (habsent : ¬ Known (pass margin targets G) t)
    (hlo : Lower (pass margin targets G) t lo) (hwithin : t - lo ≤ margin) :
    (Lower G t lo ∧ ¬ PastLast G t ∧ ∀ hi, Upper G t hi → Disjoint (G lo) (G hi)) ∨
      (¬ Known G lo ∧ PastLast G lo ∧ ∃ lo₁, Lower G lo lo₁ ∧ lo - lo₁ ≤ margin) := by
  have hraw : ¬ Known G t := fun h => habsent (known_pass_of_known ht h)
  have hnone : ∀ d, ¬ Reads margin G t d := fun d hd => habsent (known_pass.mpr ⟨ht, d, hd⟩)
  obtain ⟨-, d, hd⟩ := known_pass.mp hlo.known
  by_cases hknown : Known G lo
  · left
    have hlower : Lower G t lo := ⟨hknown, hlo.lt, fun b => le_lower hdown ht hlo⟩
    refine ⟨hlower, ?_, ?_⟩
    · intro hpast
      obtain ⟨e, he⟩ := hknown
      exact hnone e (.flat hraw hlower hpast hwithin he)
    · intro hi hupper
      rw [Set.disjoint_left]
      intro e hleft hright
      exact hnone e (.between hraw hlower hupper hleft hright)
  · right
    have hgap : SameGap G lo t := sameGap_lower hdown ht hraw hlo hknown
    cases hd with
    | own hd => exact absurd ⟨d, hd⟩ hknown
    | between _ lower upper left right =>
      exact absurd (.between hraw (hgap.lower lower) (hgap.upper upper) left right) (hnone d)
    | flat _ lower past within _ => exact ⟨hknown, past, _, lower, within⟩

end Ordered
end Pass
end FxVol.GridFilling
