import Mathlib.Algebra.Order.Ring.Int
import Mathlib.Data.List.GetD
import Mathlib.Tactic.Ring

/-!
# Changes of series aligned by count

The changes from each value of a series to the next, read from the newest backwards, and when the same place in several
series is the same day in all of them: they have to be on the same days without a gap.
-/
namespace FxVol.AlignedChanges

section Changes
variable {K : Type*} [AddCommGroup K]

/-- The change from each value to the next -/
def changes (vals : List K) : List K := List.zipWith (fun later earlier => later - earlier) vals.tail vals

theorem length_changes (vals : List K) : (changes vals).length = vals.length - 1 := by
  rw [changes, List.length_zipWith, List.length_tail]
  omega

/-- Counted from the newest, a change is between two values next to each other. -/
theorem newest_change {vals : List K} {k : ℕ} {later earlier : K} (hlater : vals.reverse[k]? = some later)
    (hearlier : vals.reverse[k + 1]? = some earlier) : (changes vals).reverse[k]? = some (later - earlier) := by
  have hlen : k + 1 < vals.length := by
    have h := (List.getElem?_eq_some_iff.mp hearlier).1
    rwa [List.length_reverse] at h
  have hchanges := length_changes vals
  rw [List.getElem?_reverse (by omega)] at hlater hearlier
  rw [List.getElem?_reverse (by omega), hchanges, changes, List.getElem?_zipWith, List.getElem?_tail]
  have h1 : vals.length - 1 - 1 - k + 1 = vals.length - 1 - k := by omega
  have h2 : vals.length - 1 - 1 - k = vals.length - 1 - (k + 1) := by omega
  rw [h1, hlater, h2, hearlier]

theorem changes_cons (x y : K) (vals : List K) : changes (x :: y :: vals) = (y - x) :: changes (y :: vals) := rfl

/-- The changes up to a value, the change to the next, and the changes from there on -/
theorem changes_append (before : List K) (x y : K) (after : List K) :
    changes (before ++ x :: y :: after) = changes (before ++ [x]) ++ (y - x) :: changes (y :: after) := by
  induction before with
  | nil => rfl
  | cons z before ih =>
    cases before with
    | nil => rfl
    | cons z' before => exact congrArg ((z' - z) :: ·) ih

/-- A shift of all the values changes nothing. -/
theorem changes_shift (c : K) (vals : List K) : changes (vals.map (· + c)) = changes vals := by
  induction vals with
  | nil => rfl
  | cons x vals ih =>
    cases vals with
    | nil => rfl
    | cons y vals =>
      rw [List.map_cons, List.map_cons, changes_cons, changes_cons, add_sub_add_right_eq_sub]
      exact congrArg ((y - x) :: ·) ih

end Changes

section Days
variable {days : List ℤ} {m : ℕ}

/-- From the newest day backwards no day is missing among the last `m`. -/
def Unbroken (m : ℕ) (last : ℤ) (days : List ℤ) : Prop := ∀ k < m, days[k]? = some (last - k)

/-- In a list of days from the newest backwards -/
theorem unbroken_of_previous (hdays : days.Pairwise (· > ·)) (hlen : m ≤ days.length) (hm : 0 < m)
    (h : ∀ k day, k + 1 < m → days[k]? = some day → day - 1 ∈ days) :
    Unbroken m (days.get ⟨0, hm.trans_le hlen⟩) days := by
  intro k hk
  induction k with
  | zero => simp [List.getElem?_eq_getElem (hm.trans_le hlen)]
  | succ k ih =>
    have hthis := ih (by omega)
    have hmem := h k _ hk hthis
    obtain ⟨j, hj, hprevious⟩ := List.getElem_of_mem hmem
    obtain ⟨hk', hday⟩ := List.getElem?_eq_some_iff.mp hthis
    have hlt {i j : ℕ} (hi : i < days.length) (hj : j < days.length) (hij : i < j) : days[j] < days[i] :=
      List.pairwise_iff_getElem.mp hdays i j hi hj hij
    have hbefore : days[j] = days[k] - 1 := by rw [hprevious, hday]
    -- the day before is later in the list, and there is no room between it and the next one
    have hjk : j = k + 1 := by
      rcases lt_trichotomy j (k + 1) with hlow | heq | hhigh
      · rcases (Nat.lt_succ_iff.mp hlow).lt_or_eq with hlow | rfl
        · have := hlt hj hk' hlow
          omega
        · omega
      · exact heq
      · have h1 := hlt hk' (by omega) (Nat.lt_add_one k)
        have h2 := hlt (by omega) hj hhigh
        rw [hbefore] at h2
        omega
    subst hjk
    rw [List.getElem?_eq_getElem hj, hprevious]
    congr 1
    push_cast
    ring

/-- Series of days that have each other's days and the days before them end on the same day without a gap. -/
theorem unbroken_of_shared {ι : Type*} {S : Set ι} {daysOf : ι → List ℤ} (hm : 1 < m)
    (hdays : ∀ p ∈ S, (daysOf p).Pairwise (· > ·)) (hlen : ∀ p ∈ S, m ≤ (daysOf p).length)
    (h : ∀ p ∈ S, ∀ q ∈ S, ∀ k day, k + 1 < m → (daysOf p)[k]? = some day → day ∈ daysOf q ∧ day - 1 ∈ daysOf q) :
    ∃ last, ∀ p ∈ S, Unbroken m last (daysOf p) := by
  have hown (p : ι) (hp : p ∈ S) : Unbroken m ((daysOf p).get ⟨0, (by omega : 0 < m).trans_le (hlen p hp)⟩) (daysOf p) :=
    unbroken_of_previous (hdays p hp) (hlen p hp) (by omega) fun k day hk hday => (h p hp p hp k day hk hday).2
  have hle (p : ι) (hp : p ∈ S) (q : ι) (hq : q ∈ S) (day day' : ℤ) (hday : (daysOf p)[0]? = some day)
      (hday' : (daysOf q)[0]? = some day') : day ≤ day' := by
    obtain ⟨j, hj, heq⟩ := List.getElem_of_mem (h p hp q hq 0 day hm hday).1
    obtain ⟨h0, heq'⟩ := List.getElem?_eq_some_iff.mp hday'
    rcases Nat.eq_zero_or_pos j with rfl | hpos
    · exact (heq.symm.trans heq').le
    · have := List.pairwise_iff_getElem.mp (hdays q hq) 0 j h0 hj hpos
      omega
  have hfirst (p : ι) (hp : p ∈ S) : (daysOf p)[0]? = some ((daysOf p).get ⟨0, (by omega : 0 < m).trans_le (hlen p hp)⟩) :=
    List.getElem?_eq_getElem _
  by_cases hS : S.Nonempty
  · obtain ⟨p, hp⟩ := hS
    refine ⟨(daysOf p).get ⟨0, (by omega : 0 < m).trans_le (hlen p hp)⟩, fun q hq => ?_⟩
    have hsame := le_antisymm (hle q hq p hp _ _ (hfirst q hq) (hfirst p hp)) (hle p hp q hq _ _ (hfirst p hp) (hfirst q hq))
    rw [← hsame]
    exact hown q hq
  · exact ⟨0, fun p hp => absurd ⟨p, hp⟩ hS⟩

end Days

end FxVol.AlignedChanges
