import Mathlib.Algebra.Order.Field.Basic
import Mathlib.Data.List.Sort
import Mathlib.Data.Set.Finite.Lattice
import Mathlib.Topology.Algebra.Order.Field
import Mathlib.Topology.Order.DenselyOrdered
import Mathlib.Topology.Order.LeftRight

/-!
# Polylines

A function that follows points in the order of their abscissas: constant before the first and after the last
one, linear between neighbours.  Several points may have one abscissa; there the function has the value of
the first or of the last of them, and it is continuous just where these two agree.
-/
namespace FxVol.Polyline

variable {K : Type*} [LinearOrder K]

/-- The points at an abscissa -/
def group (pts : List (K × K)) (x : K) : List (K × K) := pts.filter fun p => p.1 = x

def Ordered (pts : List (K × K)) : Prop := pts.Pairwise fun p q => p.1 ≤ q.1

section Points
variable {pts pre post below above rest : List (K × K)} {p q : K × K} {x : K}

theorem mem_group : p ∈ group pts x ↔ p ∈ pts ∧ p.1 = x := by
  rw [group, List.mem_filter, decide_eq_true_eq]

/-- An abscissa is that of a point, before the first, after the last, or between two neighbours. -/
theorem located (hne : pts ≠ []) (x : K) :
    group pts x ≠ [] ∨ (∃ p rest, pts = p :: rest ∧ x < p.1) ∨ (∃ pre p, pts = pre ++ [p] ∧ p.1 < x) ∨
      ∃ pre p q post, pts = pre ++ p :: q :: post ∧ p.1 < x ∧ x < q.1 := by
  induction pts with
  | nil => exact absurd rfl hne
  | cons p rest ih =>
    rcases lt_trichotomy x p.1 with hlt | heq | hgt
    · exact .inr (.inl ⟨p, rest, rfl, hlt⟩)
    · exact .inl (List.ne_nil_of_mem (mem_group.mpr ⟨List.mem_cons_self, heq.symm⟩))
    · cases rest with
      | nil => exact .inr (.inr (.inl ⟨[], p, rfl, hgt⟩))
      | cons q rest =>
        rcases ih (List.cons_ne_nil q rest) with hhit | ⟨q', rest', heq, hlt⟩ | ⟨pre, p', heq, hlt⟩ | hin
        · left
          obtain ⟨r, hr⟩ := List.exists_mem_of_ne_nil _ hhit
          obtain ⟨hmem, hx⟩ := mem_group.mp hr
          exact List.ne_nil_of_mem (mem_group.mpr ⟨List.mem_cons_of_mem p hmem, hx⟩)
        · cases heq
          exact .inr (.inr (.inr ⟨[], p, q, rest, rfl, hgt, hlt⟩))
        · exact .inr (.inr (.inl ⟨p :: pre, p', by rw [heq, List.cons_append], hlt⟩))
        · obtain ⟨pre, p', q', post, heq, hlt, hlt'⟩ := hin
          exact .inr (.inr (.inr ⟨p :: pre, p', q', post, by rw [heq, List.cons_append], hlt, hlt'⟩))

theorem Ordered.head_le (hs : Ordered pts) (hq : pts.head? = some q) (hp : p ∈ pts) : q.1 ≤ p.1 := by
  cases pts with
  | nil => cases hq
  | cons r rest =>
    cases hq
    rcases List.mem_cons.mp hp with rfl | hmem
    · exact le_rfl
    · exact (List.pairwise_cons.mp hs).1 p hmem

theorem Ordered.le_last (hs : Ordered pts) (hq : pts.getLast? = some q) (hp : p ∈ pts) : p.1 ≤ q.1 := by
  obtain ⟨pre, rfl⟩ := List.getLast?_eq_some_iff.mp hq
  rcases List.mem_append.mp hp with hmem | hmem
  · exact (List.pairwise_append.mp hs).2.2 p hmem q (List.mem_singleton_self q)
  · rw [List.mem_singleton.mp hmem]

/-- The points before the first one at an abscissa are before it. -/
theorem Ordered.head_group (hs : Ordered pts) (h : (group pts x).head? = some q) :
    ∃ below rest, pts = below ++ q :: rest ∧ q.1 = x ∧ ∀ p ∈ below, p.1 < x := by
  rw [group, List.head?_filter, List.find?_eq_some_iff_append] at h
  obtain ⟨hq, below, rest, rfl, hbelow⟩ := h
  rw [decide_eq_true_eq] at hq
  refine ⟨below, rest, rfl, hq, fun p hp => ?_⟩
  have hne : p.1 ≠ x := by simpa using hbelow p hp
  exact lt_of_le_of_ne (hq ▸ (List.pairwise_append.mp hs).2.2 p hp q List.mem_cons_self) hne

/-- The points after the last one at an abscissa are after it. -/
theorem Ordered.last_group (hs : Ordered pts) (h : (group pts x).getLast? = some p) :
    ∃ pre above, pts = pre ++ p :: above ∧ p.1 = x ∧ ∀ q ∈ above, x < q.1 := by
  rw [group, List.getLast?_eq_head?_reverse, ← List.filter_reverse, List.head?_filter,
    List.find?_eq_some_iff_append] at h
  obtain ⟨hp, above, pre, hrev, habove⟩ := h
  rw [decide_eq_true_eq] at hp
  have heq : pts = pre.reverse ++ p :: above.reverse := by
    rw [← List.reverse_reverse pts, hrev]
    simp
  subst heq
  refine ⟨pre.reverse, above.reverse, rfl, hp, fun q hq => ?_⟩
  have hne : q.1 ≠ x := by simpa using habove q (List.mem_reverse.mp hq)
  have hle := (List.pairwise_cons.mp (List.pairwise_append.mp hs).2.1).1 q hq
  exact lt_of_le_of_ne (hp ▸ hle) hne.symm

/-- The least and the greatest of the values of some points -/
theorem exists_bounds (hne : pts ≠ []) :
    ∃ low high, IsLeast {v | ∃ k, (k, v) ∈ pts} low ∧ IsGreatest {v | ∃ k, (k, v) ∈ pts} high := by
  have hfinite : {v | ∃ k, (k, v) ∈ pts}.Finite := by
    refine (List.finite_toSet (pts.map (·.2))).subset ?_
    rintro v ⟨k, hv⟩
    exact List.mem_map.mpr ⟨(k, v), hv, rfl⟩
  have hnonempty : {v | ∃ k, (k, v) ∈ pts}.Nonempty := by
    obtain ⟨p, hp⟩ := List.exists_mem_of_ne_nil pts hne
    exact ⟨p.2, p.1, hp⟩
  obtain ⟨low, hlow, hleast⟩ := Set.exists_min_image _ id hfinite hnonempty
  obtain ⟨high, hhigh, hgreatest⟩ := Set.exists_max_image _ id hfinite hnonempty
  exact ⟨low, high, ⟨hlow, hleast⟩, hhigh, hgreatest⟩

end Points

variable [Field K]

/-- The line through two points -/
def chord (p q : K × K) (x : K) : K := p.2 + (x - p.1) / (q.1 - p.1) * (q.2 - p.2)

structure Follows (pts : List (K × K)) (f : K → K) : Prop where
  left : ∀ p rest, pts = p :: rest → ∀ x, x < p.1 → f x = p.2
  right : ∀ pre p, pts = pre ++ [p] → ∀ x, p.1 < x → f x = p.2
  inside : ∀ pre p q post, pts = pre ++ p :: q :: post → ∀ x, p.1 < x → x < q.1 → f x = chord p q x
  hit : ∀ x, group pts x ≠ [] →
    (group pts x).head?.map (·.2) = some (f x) ∨ (group pts x).getLast?.map (·.2) = some (f x)

section Values
variable {pts : List (K × K)} {p q : K × K} {x : K} {f : K → K} {I : Set K}

/-- At an abscissa with one point the function has its value. -/
theorem Follows.at_point (hf : Follows pts f) (h : group pts x = [p]) : f x = p.2 := by
  rcases hf.hit x (by rw [h]; exact List.cons_ne_nil _ _) with hx | hx
  · rw [h] at hx
    exact (Option.some.inj hx).symm
  · rw [h] at hx
    exact (Option.some.inj hx).symm

/-- Between two neighbouring abscissas the function is the line from the last point of the lower one to the first
point of the upper one. -/
theorem Follows.between_neighbours (hf : Follows pts f) (hs : Ordered pts) {k k' : K}
    (hp : (group pts k).getLast? = some p) (hq : (group pts k').head? = some q) (hgap : ∀ r ∈ pts, r.1 ≤ k ∨ k' ≤ r.1)
    (hlow : k < x) (hhigh : x < k') : f x = chord p q x := by
  obtain ⟨pre, above, rfl, rfl, habove⟩ := hs.last_group hp
  have hqmem := mem_group.mp (List.mem_of_mem_head? hq)
  have hqabove : q ∈ above := by
    rcases List.mem_append.mp hqmem.1 with hmem | hmem
    · have hle := (List.pairwise_append.mp hs).2.2 q hmem p List.mem_cons_self
      rw [hqmem.2] at hle
      exact absurd (hlow.trans hhigh) (not_lt.mpr hle)
    · rcases List.mem_cons.mp hmem with rfl | hmem
      · exact absurd (hlow.trans hhigh) (by rw [hqmem.2]; exact lt_irrefl k')
      · exact hmem
  cases above with
  | nil => cases hqabove
  | cons r post =>
    have hr : k' ≤ r.1 := (hgap r (by simp)).resolve_left (not_le.mpr (habove r List.mem_cons_self))
    have hrk : r.1 = k' := by
      apply le_antisymm _ hr
      rcases List.mem_cons.mp hqabove with rfl | hmem
      · exact hqmem.2.le
      · rw [← hqmem.2]
        exact (List.pairwise_cons.mp (List.pairwise_cons.mp (List.pairwise_append.mp hs).2.1).2).1 q hmem
    -- the next point is the first at the upper abscissa
    have hfirst : r = q := by
      have hhead : (group (pre ++ p :: r :: post) k').head? = some r := by
        have hnone : ∀ s ∈ pre ++ [p], ¬ s.1 = k' := by
          intro s hmem heq
          have hle : s.1 ≤ p.1 := by
            rcases List.mem_append.mp hmem with hmem | hmem
            · exact (List.pairwise_append.mp hs).2.2 s hmem p List.mem_cons_self
            · rw [List.mem_singleton.mp hmem]
          rw [heq] at hle
          exact absurd (hlow.trans hhigh) (not_lt.mpr hle)
        have hsplit : pre ++ p :: r :: post = (pre ++ [p]) ++ r :: post := by simp
        rw [group, hsplit, List.filter_append, List.filter_eq_nil_iff.mpr (by simpa using hnone), List.nil_append,
          List.filter_cons_of_pos (by simpa using hrk)]
        rfl
      rw [hhead] at hq
      exact Option.some.inj hq
    subst hfirst
    exact hf.inside pre p r post rfl x hlow (hrk ▸ hhigh)

omit [LinearOrder K] in
theorem chord_left (p q : K × K) : chord p q p.1 = p.2 := by
  rw [chord, sub_self, zero_div, zero_mul, add_zero]

theorem chord_right (h : p.1 < q.1) : chord p q q.1 = q.2 := by
  rw [chord, div_self (sub_ne_zero.mpr h.ne'), one_mul, add_sub_cancel]

variable [IsStrictOrderedRing K]

/-- A line between two points is between their values. -/
theorem chord_mem (hI : I.OrdConnected) (hp : p.2 ∈ I) (hq : q.2 ∈ I) (hlow : p.1 < x) (hhigh : x < q.1) :
    chord p q x ∈ I := by
  have hgap : 0 < q.1 - p.1 := sub_pos.mpr (hlow.trans hhigh)
  have hw : 0 ≤ (x - p.1) / (q.1 - p.1) := div_nonneg (sub_nonneg.mpr hlow.le) hgap.le
  have hw' : (x - p.1) / (q.1 - p.1) ≤ 1 := (div_le_one hgap).mpr (sub_le_sub_right hhigh.le _)
  apply hI.uIcc_subset hp hq
  rw [chord, Set.mem_uIcc]
  rcases le_total p.2 q.2 with hle | hle
  · left
    constructor <;> nlinarith
  · right
    constructor <;> nlinarith

theorem Follows.mem (hf : Follows pts f) (hne : pts ≠ []) (hI : I.OrdConnected) (hpts : ∀ p ∈ pts, p.2 ∈ I) (x : K) :
    f x ∈ I := by
  rcases located hne x with hhit | ⟨p, rest, rfl, hlt⟩ | ⟨pre, p, rfl, hlt⟩ | ⟨pre, p, q, post, rfl, hlow, hhigh⟩
  · rcases hf.hit x hhit with hx | hx
    · obtain ⟨p, hp, hv⟩ := Option.map_eq_some_iff.mp hx
      rw [← hv]
      exact hpts p (mem_group.mp (List.mem_of_mem_head? hp)).1
    · obtain ⟨p, hp, hv⟩ := Option.map_eq_some_iff.mp hx
      rw [← hv]
      exact hpts p (mem_group.mp (List.mem_of_getLast? hp)).1
  · rw [hf.left p rest rfl x hlt]
    exact hpts p List.mem_cons_self
  · rw [hf.right pre p rfl x hlt]
    exact hpts p (by simp)
  · rw [hf.inside pre p q post rfl x hlow hhigh]
    exact chord_mem hI (hpts p (by simp)) (hpts q (by simp)) hlow hhigh

end Values

section Continuity
open Filter Topology
variable [IsStrictOrderedRing K] [TopologicalSpace K] [OrderTopology K]
variable {pts pre post below above rest : List (K × K)} {p q : K × K} {x : K} {f : K → K}

theorem continuous_chord (p q : K × K) : Continuous (chord p q) := by
  unfold chord
  fun_prop

/-- Just before an abscissa the function nears the value of the first point there. -/
theorem Follows.tendsto_left (hf : Follows pts f) (heq : pts = below ++ q :: rest) (hbelow : ∀ p ∈ below, p.1 < q.1) :
    Tendsto f (𝓝[<] q.1) (𝓝 q.2) := by
  rcases List.eq_nil_or_concat below with rfl | ⟨pre, p, rfl⟩
  · have hconst : ∀ᶠ x in 𝓝[<] q.1, q.2 = f x := by
      filter_upwards [self_mem_nhdsWithin] with x hx
      exact (hf.left q rest heq x hx).symm
    exact tendsto_const_nhds.congr' hconst
  · have hlt : p.1 < q.1 := hbelow p (by simp)
    have hline : Tendsto (chord p q) (𝓝[<] q.1) (𝓝 q.2) := by
      have h := (continuous_chord p q).tendsto q.1
      rw [chord_right hlt] at h
      exact h.mono_left nhdsWithin_le_nhds
    have hseg : ∀ᶠ x in 𝓝[<] q.1, chord p q x = f x := by
      filter_upwards [Ioo_mem_nhdsLT hlt] with x hx
      exact (hf.inside pre p q rest (by rw [heq]; simp) x hx.1 hx.2).symm
    exact hline.congr' hseg

/-- Just after an abscissa it nears the value of the last point there. -/
theorem Follows.tendsto_right (hf : Follows pts f) (heq : pts = pre ++ p :: above) (habove : ∀ q ∈ above, p.1 < q.1) :
    Tendsto f (𝓝[>] p.1) (𝓝 p.2) := by
  cases above with
  | nil =>
    have hconst : ∀ᶠ x in 𝓝[>] p.1, p.2 = f x := by
      filter_upwards [self_mem_nhdsWithin] with x hx
      exact (hf.right pre p heq x hx).symm
    exact tendsto_const_nhds.congr' hconst
  | cons q post =>
    have hlt : p.1 < q.1 := habove q List.mem_cons_self
    have hline : Tendsto (chord p q) (𝓝[>] p.1) (𝓝 p.2) := by
      have h := (continuous_chord p q).tendsto p.1
      rw [chord_left] at h
      exact h.mono_left nhdsWithin_le_nhds
    have hseg : ∀ᶠ x in 𝓝[>] p.1, chord p q x = f x := by
      filter_upwards [Ioo_mem_nhdsGT hlt] with x hx
      exact (hf.inside pre p q post heq x hx.1 hx.2).symm
    exact hline.congr' hseg

/-- Where no point is, the function is continuous. -/
theorem Follows.continuousAt_of_group_nil (hf : Follows pts f) (hne : pts ≠ []) (h : group pts x = []) :
    ContinuousAt f x := by
  rcases located hne x with hhit | ⟨p, rest, heq, hlt⟩ | ⟨pre, p, heq, hlt⟩ | ⟨pre, p, q, post, heq, hlow, hhigh⟩
  · exact absurd h hhit
  · have hconst : f =ᶠ[𝓝 x] fun _ => p.2 := by
      filter_upwards [Iio_mem_nhds hlt] with y hy
      exact hf.left p rest heq y hy
    exact continuousAt_const.congr hconst.symm
  · have hconst : f =ᶠ[𝓝 x] fun _ => p.2 := by
      filter_upwards [Ioi_mem_nhds hlt] with y hy
      exact hf.right pre p heq y hy
    exact continuousAt_const.congr hconst.symm
  · have hseg : f =ᶠ[𝓝 x] chord p q := by
      filter_upwards [Ioo_mem_nhds hlow hhigh] with y hy
      exact hf.inside pre p q post heq y hy.1 hy.2
    exact (continuous_chord p q).continuousAt.congr hseg.symm

/-- The function is continuous just where the first and the last point of one abscissa have one value. -/
theorem Follows.continuousAt_iff (hf : Follows pts f) (hs : Ordered pts) (hne : pts ≠ []) :
    ContinuousAt f x ↔ (group pts x).head?.map (·.2) = (group pts x).getLast?.map (·.2) := by
  cases hhead : (group pts x).head? with
  | none =>
    have hnil := List.head?_eq_none_iff.mp hhead
    rw [hnil]
    exact iff_of_true (hf.continuousAt_of_group_nil hne hnil) rfl
  | some q =>
    have hgroup : group pts x ≠ [] := by
      intro hnil
      rw [hnil] at hhead
      cases hhead
    obtain ⟨p, hlast⟩ := Option.ne_none_iff_exists'.mp (mt List.getLast?_eq_none_iff.mp hgroup)
    obtain ⟨below, rest, heq, hqx, hbelow⟩ := hs.head_group hhead
    obtain ⟨pre, above, heq', hpx, habove⟩ := hs.last_group hlast
    have hleft : Tendsto f (𝓝[<] x) (𝓝 q.2) := hqx ▸ hf.tendsto_left heq (by rw [hqx]; exact hbelow)
    have hright : Tendsto f (𝓝[>] x) (𝓝 p.2) := hpx ▸ hf.tendsto_right heq' (by rw [hpx]; exact habove)
    have hvalue := hf.hit x hgroup
    rw [hhead, hlast] at hvalue
    rw [hlast, continuousAt_iff_continuous_left'_right', ContinuousWithinAt, ContinuousWithinAt]
    simp only [Option.map_some, Option.some.injEq] at hvalue ⊢
    constructor
    · rintro ⟨hleft', hright'⟩
      rw [tendsto_nhds_unique hleft hleft', tendsto_nhds_unique hright hright']
    · intro hsame
      have hfx : f x = q.2 := by
        rcases hvalue with h | h
        · exact h.symm
        · rw [hsame, h]
      rw [hfx]
      exact ⟨hleft, hsame ▸ hright⟩

end Continuity

end FxVol.Polyline
