import FxVol.GridFilling
import FxVol.ListedTenors
import Mathlib.Algebra.Order.Group.Int
import Mathlib.Data.Int.LeastGreatest

/-!
# The grid of the anchors

`interpolate_pillar` fills the grid that has, at the days of each anchor, the deltas with an IV.  Over the
days of the labels, a second pass fills a display pillar just where the last one with an IV shares no delta
with the next label past it, or where the last label of all is two months or more before 6M.
-/
namespace FxVol.AnchorGrid

open TradePreviews (Tenor DeltaPillar)
open GridFilling
open ListedTenors (Source Numerics Anchor interpolatePillar listedToleranceDays extrapMarginDays)

section Sorted
variable {β : Type*} {f : β → ℤ} {xs : List β} {a : β} {t : ℤ}

theorem getLast?_before_iff (hs : xs.Pairwise fun x y => f x < f y) :
    (xs.filter fun x => f x < t).getLast? = some a ↔ a ∈ xs ∧ f a < t ∧ ∀ b ∈ xs, f b < t → f b ≤ f a := by
  rw [ListedTenors.Scan.getLast?_filter_iff]
  simp only [decide_eq_true_eq, decide_eq_false_iff_not]
  constructor
  · rintro ⟨pre, post, rfl, ha, hpost⟩
    refine ⟨by simp, ha, fun b hb hbt => ?_⟩
    rcases List.mem_append.mp hb with hpre | hrest
    · exact ((List.pairwise_append.mp hs).2.2 b hpre a List.mem_cons_self).le
    · rcases List.mem_cons.mp hrest with rfl | hpost'
      · exact le_rfl
      · exact absurd hbt (hpost b hpost')
  · rintro ⟨ha, hat, hmax⟩
    obtain ⟨pre, post, rfl⟩ := List.append_of_mem ha
    refine ⟨pre, post, rfl, hat, fun y hy hyt => ?_⟩
    have hlt : f a < f y := (List.pairwise_cons.mp (List.pairwise_append.mp hs).2.1).1 y hy
    exact absurd (hmax y (by simp [hy]) hyt) (not_le.mpr hlt)

theorem head?_after_iff (hs : xs.Pairwise fun x y => f x < f y) :
    (xs.filter fun x => t < f x).head? = some a ↔ a ∈ xs ∧ t < f a ∧ ∀ b ∈ xs, t < f b → f a ≤ f b := by
  rw [List.head?_filter, List.find?_eq_some_iff_append]
  simp only [decide_eq_true_eq, Bool.not_eq_true', decide_eq_false_iff_not]
  constructor
  · rintro ⟨ha, pre, post, rfl, hpre⟩
    refine ⟨by simp, ha, fun b hb hbt => ?_⟩
    rcases List.mem_append.mp hb with hpre' | hrest
    · exact absurd hbt (hpre b hpre')
    · rcases List.mem_cons.mp hrest with rfl | hpost
      · exact le_rfl
      · exact ((List.pairwise_cons.mp (List.pairwise_append.mp hs).2.1).1 b hpost).le
  · rintro ⟨ha, hat, hmin⟩
    obtain ⟨pre, post, rfl⟩ := List.append_of_mem ha
    refine ⟨hat, pre, post, rfl, fun y hy hyt => ?_⟩
    have hlt : f y < f a := (List.pairwise_append.mp hs).2.2 y hy a List.mem_cons_self
    exact absurd (hmin y (by simp [hy]) hyt) (not_le.mpr hlt)

end Sorted

def anchorGrid (as : List Anchor) : Grid ℤ DeltaPillar := fun x =>
  {d | ∃ a ∈ as, a.dte = x ∧ (a.row.iv d).isSome}

section Anchors
variable {N : Numerics} {as : List Anchor} {target : ℤ} {a lo hi : Anchor} {d : DeltaPillar}

/-- Anchors in the order of their days, each with an IV -/
structure Ordered (as : List Anchor) : Prop where
  sorted : as.Pairwise fun a b => a.dte < b.dte
  hasIv : ∀ a ∈ as, a.row.hasIv = true

theorem mem_all (d : DeltaPillar) : d ∈ DeltaPillar.all := by cases d <;> decide

theorem hasIv_iff (row : ListedTenors.Row) : row.hasIv = true ↔ ∃ d, (row.iv d).isSome := by
  rw [ListedTenors.Row.hasIv, List.any_eq_true]
  exact ⟨fun ⟨d, _, hd⟩ => ⟨d, hd⟩, fun ⟨d, hd⟩ => ⟨d, mem_all d, hd⟩⟩

theorem Ordered.known_iff (h : Ordered as) {x : ℤ} : Known (anchorGrid as) x ↔ ∃ a ∈ as, a.dte = x := by
  constructor
  · rintro ⟨d, a, ha, hx, -⟩
    exact ⟨a, ha, hx⟩
  · rintro ⟨a, ha, hx⟩
    obtain ⟨d, hd⟩ := (hasIv_iff a.row).mp (h.hasIv a ha)
    exact ⟨d, a, ha, hx, hd⟩

/-- At the days of an anchor the grid has the deltas of that anchor. -/
theorem Ordered.grid_iff (h : Ordered as) (ha : a ∈ as) : d ∈ anchorGrid as a.dte ↔ (a.row.iv d).isSome := by
  constructor
  · rintro ⟨b, hb, hdte, hiv⟩
    have hdtes : (as.map (·.dte)).Nodup := List.pairwise_map.mpr (h.sorted.imp fun hlt => hlt.ne)
    rw [← List.inj_on_of_nodup_map hdtes hb ha hdte]
    exact hiv
  · exact fun hiv => ⟨a, ha, rfl, hiv⟩

theorem Ordered.lower_iff (h : Ordered as) :
    (as.filter fun a => a.dte < target).getLast? = some lo ↔ lo ∈ as ∧ Lower (anchorGrid as) target lo.dte := by
  rw [getLast?_before_iff h.sorted]
  constructor
  · rintro ⟨hlo, hlt, hle⟩
    refine ⟨hlo, h.known_iff.mpr ⟨lo, hlo, rfl⟩, hlt, fun b hb hbt => ?_⟩
    obtain ⟨c, hc, rfl⟩ := h.known_iff.mp hb
    exact hle c hc hbt
  · rintro ⟨hlo, -, hlt, hle⟩
    exact ⟨hlo, hlt, fun b hb => hle b.dte (h.known_iff.mpr ⟨b, hb, rfl⟩)⟩

theorem Ordered.upper_iff (h : Ordered as) :
    (as.filter fun a => target < a.dte).head? = some hi ↔ hi ∈ as ∧ Upper (anchorGrid as) target hi.dte := by
  rw [head?_after_iff h.sorted]
  constructor
  · rintro ⟨hhi, hlt, hle⟩
    refine ⟨hhi, h.known_iff.mpr ⟨hi, hhi, rfl⟩, hlt, fun b hb hbt => ?_⟩
    obtain ⟨c, hc, rfl⟩ := h.known_iff.mp hb
    exact hle c hc hbt
  · rintro ⟨hhi, -, hlt, hle⟩
    exact ⟨hhi, hlt, fun b hb => hle b.dte (h.known_iff.mpr ⟨b, hb, rfl⟩)⟩

/-- Away from the anchors a pillar is read off the two around it, or off the last one. -/
theorem Ordered.interpolatePillar_far (h : Ordered as) (hfar : ∀ a ∈ as, ¬ |a.dte - target| ≤ listedToleranceDays) :
    interpolatePillar N as target =
      match (as.filter fun a => a.dte < target).getLast?, (as.filter fun a => target < a.dte).head? with
      | some lo, some hi =>
        let ivs := fun d =>
          (lo.row.iv d).bind fun l => (hi.row.iv d).map fun h => N.interpIv l lo.dte h hi.dte target
        if DeltaPillar.all.any fun d => (ivs d).isSome then some (ivs, .interp) else none
      | some lo, none => if target - lo.dte ≤ extrapMarginDays then some (lo.row.iv, .interp) else none
      | none, _ => none := by
  have hsorted : as.insertionSort (·.dte ≤ ·.dte) = as :=
    List.Pairwise.insertionSort_eq (h.sorted.imp fun hlt => hlt.le)
  rw [interpolatePillar]
  simp only [hsorted]
  cases hnearest : ListedTenors.nearestAnchor as target with
  | none =>
    have hnil : as = [] := List.argmin_eq_none.mp hnearest
    subst hnil
    rfl
  | some nearest =>
    have hmem : nearest ∈ as := List.argmin_mem hnearest
    exact if_neg (hfar nearest hmem)

/-- No anchor is at the days of the target. -/
theorem absent_of_far (h : Ordered as) (hfar : ∀ a ∈ as, ¬ |a.dte - target| ≤ listedToleranceDays) :
    ¬ Known (anchorGrid as) target := by
  intro hknown
  obtain ⟨a, ha, rfl⟩ := h.known_iff.mp hknown
  exact hfar a ha (by simp [listedToleranceDays])

/-- Past the last anchor there is none after the target. -/
theorem Ordered.pastLast_iff (h : Ordered as) :
    (as.filter fun a => target < a.dte).head? = none ↔ PastLast (anchorGrid as) target := by
  rw [List.head?_eq_none_iff, List.filter_eq_nil_iff]
  simp only [decide_eq_true_eq, not_lt]
  constructor
  · intro hall b hb
    obtain ⟨c, hc, rfl⟩ := h.known_iff.mp hb
    exact hall c hc
  · exact fun hpast c hc => hpast c.dte (h.known_iff.mpr ⟨c, hc, rfl⟩)

/-- `interpolate_pillar` reads the deltas of a pass over the grid of the anchors. -/
theorem Ordered.interpolatePillar_reads (h : Ordered as)
    (hfar : ∀ a ∈ as, ¬ |a.dte - target| ≤ listedToleranceDays) :
    Reads extrapMarginDays (anchorGrid as) target d ↔
      ∃ p, interpolatePillar N as target = some p ∧ (p.1 d).isSome := by
  rw [h.interpolatePillar_far hfar]
  have habsent := absent_of_far h hfar
  constructor
  · intro hd
    cases hd with
    | own hd => exact absurd ⟨d, hd⟩ habsent
    | between _ lower upper left right =>
      obtain ⟨lo, hlo, rfl⟩ := h.known_iff.mp lower.known
      obtain ⟨hi, hhi, rfl⟩ := h.known_iff.mp upper.known
      rw [h.lower_iff.mpr ⟨hlo, lower⟩, h.upper_iff.mpr ⟨hhi, upper⟩]
      obtain ⟨l, hl⟩ := Option.isSome_iff_exists.mp ((h.grid_iff hlo).mp left)
      obtain ⟨r, hr⟩ := Option.isSome_iff_exists.mp ((h.grid_iff hhi).mp right)
      dsimp only
      rw [if_pos (List.any_eq_true.mpr ⟨d, mem_all d, by rw [hl, hr]; rfl⟩)]
      exact ⟨_, rfl, by dsimp only; rw [hl, hr]; rfl⟩
    | flat _ lower past within left =>
      obtain ⟨lo, hlo, rfl⟩ := h.known_iff.mp lower.known
      rw [h.lower_iff.mpr ⟨hlo, lower⟩, h.pastLast_iff.mpr past]
      dsimp only
      rw [if_pos within]
      exact ⟨_, rfl, (h.grid_iff hlo).mp left⟩
  · rintro ⟨p, hp, hd⟩
    cases hlo : (as.filter fun a => a.dte < target).getLast? with
    | none =>
      rw [hlo] at hp
      cases hp
    | some lo =>
      obtain ⟨hmem, lower⟩ := h.lower_iff.mp hlo
      cases hhi : (as.filter fun a => target < a.dte).head? with
      | none =>
        simp only [hlo, hhi] at hp
        split_ifs at hp with hwithin
        cases hp
        exact .flat habsent lower (h.pastLast_iff.mp hhi) hwithin ((h.grid_iff hmem).mpr hd)
      | some hi =>
        obtain ⟨hmem', upper⟩ := h.upper_iff.mp hhi
        simp only [hlo, hhi] at hp
        split_ifs at hp
        cases hp
        obtain ⟨v, hv⟩ := Option.isSome_iff_exists.mp hd
        obtain ⟨l, hl, hr⟩ := Option.bind_eq_some_iff.mp hv
        obtain ⟨r, hr, -⟩ := Option.map_eq_some_iff.mp hr
        exact .between habsent lower upper ((h.grid_iff hmem).mpr (by rw [hl]; rfl))
          ((h.grid_iff hmem').mpr (by rw [hr]; rfl))

/-- A pillar that is read off has an IV. -/
theorem Ordered.interpolatePillar_hasIv (h : Ordered as)
    (hfar : ∀ a ∈ as, ¬ |a.dte - target| ≤ listedToleranceDays) {p : (DeltaPillar → Option ℚ) × Source}
    (hp : interpolatePillar N as target = some p) : ∃ d, (p.1 d).isSome := by
  rw [h.interpolatePillar_far hfar] at hp
  cases hlo : (as.filter fun a => a.dte < target).getLast? with
  | none =>
    rw [hlo] at hp
    cases hp
  | some lo =>
    obtain ⟨hmem, -⟩ := h.lower_iff.mp hlo
    cases hhi : (as.filter fun a => target < a.dte).head? with
    | none =>
      simp only [hlo, hhi] at hp
      split_ifs at hp
      cases hp
      exact (hasIv_iff lo.row).mp (h.hasIv lo hmem)
    | some hi =>
      simp only [hlo, hhi] at hp
      split_ifs at hp with hany
      cases hp
      obtain ⟨d, -, hd⟩ := List.any_eq_true.mp hany
      exact ⟨d, hd⟩

end Anchors

section Months

/-- The days of the display pillars -/
def targets : Set ℤ := Set.range fun t : Tenor => (t.dte : ℤ)
variable {G : Grid ℤ DeltaPillar} {t L h x : ℤ}

theorem mem_targets : x ∈ targets ↔ 30 ∣ x ∧ 30 ≤ x ∧ x ≤ 180 := by
  constructor
  · rintro ⟨t, rfl⟩
    cases t <;> decide
  · rintro ⟨⟨k, rfl⟩, hlow, hhigh⟩
    obtain rfl | rfl | rfl | rfl | rfl | rfl : k = 1 ∨ k = 2 ∨ k = 3 ∨ k = 4 ∨ k = 5 ∨ k = 6 := by omega
    · exact ⟨.m1, rfl⟩
    · exact ⟨.m2, rfl⟩
    · exact ⟨.m3, rfl⟩
    · exact ⟨.m4, rfl⟩
    · exact ⟨.m5, rfl⟩
    · exact ⟨.m6, rfl⟩

/-- The days with an IV are those of display pillars, of 9M and of 1Y. -/
def Monthly (G : Grid ℤ DeltaPillar) : Prop := ∀ b, Known G b → b ∈ targets ∨ b = 270 ∨ b = 365

theorem Monthly.downward (hG : Monthly G) : Downward targets G := by
  intro t ht b hb hle
  rw [mem_targets] at ht
  rcases hG b hb with h | h | h
  · exact h
  · omega
  · omega

/-- The last display pillar with an IV shares no delta with the next label past it. -/
def Severed (G : Grid ℤ DeltaPillar) (L : ℤ) : Prop :=
  L ∈ targets ∧ L ≤ 150 ∧ Known G L ∧ (∀ b ∈ targets, Known G b → b ≤ L) ∧
    ∃ h, Upper G L h ∧ Disjoint (G L) (G h)

/-- The last label with an IV is two months or more before the last display pillar. -/
def Short (G : Grid ℤ DeltaPillar) (L : ℤ) : Prop := L ≤ 120 ∧ Known G L ∧ PastLast G L

/-- Past a severed pillar none is shown. -/
theorem Severed.not_known (hG : Monthly G) (hL : Severed G L) (ht : L < t) :
    ¬ Known (pass extrapMarginDays targets G) t := by
  obtain ⟨hmem, -, hknown, hlast, h, hupper, hdisjoint⟩ := hL
  intro hshown
  obtain ⟨htarget, d, hd⟩ := known_pass.mp hshown
  have hbeyond : t < h := by
    rcases hG h hupper.known with htar | rfl | rfl
    · exact absurd (hlast h htar hupper.known) (not_le.mpr hupper.lt)
    · rw [mem_targets] at htarget
      omega
    · rw [mem_targets] at htarget
      omega
  cases hd with
  | own hd => exact absurd (hlast t htarget ⟨d, hd⟩) (not_le.mpr ht)
  | between _ lower upper left right =>
    have hlo := hlast _ (hG.downward t htarget _ lower.known lower.lt.le) lower.known
    rw [le_antisymm hlo (lower.le L hknown ht)] at left
    rw [le_antisymm (upper.le h hupper.known hbeyond) (hupper.le _ upper.known (ht.trans upper.lt))] at right
    exact Set.disjoint_left.mp hdisjoint left right
  | flat _ _ past => exact absurd (past h hupper.known) (not_le.mpr hbeyond)

/-- Two months past the last label none is shown. -/
theorem Short.not_known (hL : Short G L) (ht : L + 60 ≤ t) : ¬ Known (pass extrapMarginDays targets G) t := by
  obtain ⟨-, hknown, hlast⟩ := hL
  intro hshown
  obtain ⟨-, d, hd⟩ := known_pass.mp hshown
  cases hd with
  | own hd =>
    have := hlast t ⟨d, hd⟩
    omega
  | between _ _ upper =>
    have := hlast _ upper.known
    have := upper.lt
    omega
  | flat _ lower _ within =>
    have := hlast _ lower.known
    rw [extrapMarginDays] at within
    omega

/-- Past the last display pillar with an IV there are 9M and 1Y only. -/
theorem next_beyond (hG : Monthly G) (hL : L < 270) (hlast : ∀ b ∈ targets, Known G b → b ≤ L)
    (hmore : ¬ PastLast G L) : ∃ h, Upper G L h ∧ (h = 270 ∨ h = 365) := by
  have hfar : ∀ b, Known G b → L < b → b = 270 ∨ b = 365 := by
    intro b hb hlt
    rcases hG b hb with htar | hfar
    · exact absurd (hlast b htar hb) (not_le.mpr hlt)
    · exact hfar
  by_cases h9 : Known G 270
  · refine ⟨270, ⟨h9, hL, fun b hb hlt => ?_⟩, .inl rfl⟩
    rcases hfar b hb hlt with rfl | rfl <;> decide
  · simp only [PastLast, not_forall, not_le] at hmore
    obtain ⟨b, hb, hlt⟩ := hmore
    have hyear : ∀ c, Known G c → L < c → c = 365 := by
      intro c hc hLc
      rcases hfar c hc hLc with rfl | rfl
      · exact absurd hc h9
      · rfl
    obtain rfl := hyear b hb hlt
    exact ⟨365, ⟨hb, hlt, fun c hc hLc => (hyear c hc hLc).ge⟩, .inr rfl⟩

/-- What a second pass fills is past a severed pillar, or two months past the last label. -/
theorem fills_cases (hG : Monthly G) (habsent : ¬ Known (pass extrapMarginDays targets G) t)
    (hfilled : Known (pass extrapMarginDays targets (pass extrapMarginDays targets G)) t) :
    (∃ L, Severed G L) ∨ ∃ L, Short G L := by
  have htarget : t ∈ targets := (known_pass.mp hfilled).1
  obtain ⟨lo, hlo, hpast, hwithin⟩ := flat_of_added hG.downward habsent hfilled
  have hloTarget : lo ∈ targets := (known_pass.mp hlo.known).1
  have hltlo := hlo.lt
  rw [mem_targets] at htarget
  have hlo' := mem_targets.mp hloTarget
  rcases flat_source hG.downward (mem_targets.mpr htarget) habsent hlo hwithin with hown | hflat
  · left
    obtain ⟨lower, hmore, hdisjoint⟩ := hown
    have hlast : ∀ b ∈ targets, Known G b → b ≤ lo := by
      intro b hb hknown
      have hshown : Known (pass extrapMarginDays targets G) b := known_pass_of_known hb hknown
      have hne : b ≠ t := by
        rintro rfl
        exact habsent hshown
      exact lower.le b hknown (lt_of_le_of_ne (hpast b hshown) hne)
    obtain ⟨h, hupper, hfar⟩ := next_beyond hG (by omega) hlast fun hpast' =>
      hmore fun b hb => (hpast' b hb).trans hltlo.le
    have hupper' : Upper G t h := by
      refine ⟨hupper.known, ?_, fun b hb hlt => hupper.le b hb (hltlo.trans hlt)⟩
      omega
    exact ⟨lo, hloTarget, by omega, lower.known, hlast, h, hupper, hdisjoint h hupper'⟩
  · right
    obtain ⟨habsentLo, hpastLo, lo₁, hlower, hwithin'⟩ := hflat
    have hlt := hlower.lt
    have hlo₁ := mem_targets.mp (hG.downward lo hloTarget lo₁ hlower.known hlt.le)
    refine ⟨lo₁, by omega, hlower.known, fun b hb => ?_⟩
    apply hlower.le b hb
    refine lt_of_le_of_ne (hpastLo b hb) ?_
    rintro rfl
    exact habsentLo hb

theorem Severed.fills (hG : Monthly G) (hL : Severed G L) : ¬ Known (pass extrapMarginDays targets G) (L + 30) ∧
    Known (pass extrapMarginDays targets (pass extrapMarginDays targets G)) (L + 30) := by
  have hmem := mem_targets.mp hL.1
  have hlate := hL.2.1
  have hshown : Known (pass extrapMarginDays targets G) L := known_pass_of_known hL.1 hL.2.2.1
  have habsent : ¬ Known (pass extrapMarginDays targets G) (L + 30) := hL.not_known hG (by omega)
  obtain ⟨d, hd⟩ := hshown
  refine ⟨habsent, d, mem_targets.mpr (by omega), .flat habsent (?_ : Lower _ _ L) ?_ ?_ hd⟩
  · refine ⟨⟨d, hd⟩, by omega, fun b hb hlt => ?_⟩
    by_contra hgt
    exact hL.not_known hG (not_le.mp hgt) hb
  · intro b hb
    by_contra hgt
    exact hL.not_known hG (by omega) hb
  · rw [extrapMarginDays]
    omega

theorem Short.fills (hG : Monthly G) (hL : Short G L) : ¬ Known (pass extrapMarginDays targets G) (L + 60) ∧
    Known (pass extrapMarginDays targets (pass extrapMarginDays targets G)) (L + 60) := by
  have hearly := hL.1
  have hlast := hL.2.2
  have hmem := mem_targets.mp ((hG L hL.2.1).resolve_right (by omega))
  have hnext : ¬ Known G (L + 30) := by
    intro hb
    have := hlast _ hb
    omega
  obtain ⟨d, hd⟩ := hL.2.1
  have hlower : Lower G (L + 30) L := ⟨⟨d, hd⟩, by omega, fun b hb _ => hlast b hb⟩
  have hshown : d ∈ pass extrapMarginDays targets G (L + 30) := by
    refine ⟨mem_targets.mpr (by omega), .flat hnext hlower ?_ ?_ hd⟩
    · intro b hb
      have := hlast b hb
      omega
    · rw [extrapMarginDays]
      omega
  have habsent : ¬ Known (pass extrapMarginDays targets G) (L + 60) := hL.not_known le_rfl
  refine ⟨habsent, d, mem_targets.mpr (by omega), .flat habsent (?_ : Lower _ _ (L + 30)) ?_ ?_ hshown⟩
  · refine ⟨⟨d, hshown⟩, by omega, fun b hb hlt => ?_⟩
    have hb' := mem_targets.mp (known_pass.mp hb).1
    omega
  · intro b hb
    have hb' := mem_targets.mp (known_pass.mp hb).1
    by_contra hgt
    exact hL.not_known (by omega) hb
  · rw [extrapMarginDays]
    omega

theorem fills_iff (hG : Monthly G) :
    (∃ t, ¬ Known (pass extrapMarginDays targets G) t ∧
      Known (pass extrapMarginDays targets (pass extrapMarginDays targets G)) t) ↔
        (∃ L, Severed G L) ∨ ∃ L, Short G L := by
  constructor
  · rintro ⟨t, habsent, hfilled⟩
    exact fills_cases hG habsent hfilled
  · rintro (⟨L, hL⟩ | ⟨L, hL⟩)
    · exact ⟨_, hL.fills hG⟩
    · exact ⟨_, hL.fills hG⟩

/-- With an IV at a display pillar, and nothing for a second pass to fill, 6M is shown. -/
theorem last_shown (hG : Monthly G) (hsome : ∃ t ∈ targets, Known G t) (hsevered : ∀ L, ¬ Severed G L)
    (hshort : ∀ L, ¬ Short G L) : Known (pass extrapMarginDays targets G) 180 := by
  have hend : (180 : ℤ) ∈ targets := mem_targets.mpr (by omega)
  -- the furthest display pillar with an IV
  obtain ⟨L, hL, hknown, hlast⟩ : ∃ L ∈ targets, Known G L ∧ ∀ b ∈ targets, Known G b → b ≤ L := by
    obtain ⟨t, ht, hknown⟩ := hsome
    obtain ⟨L, ⟨hL, hknown⟩, hmax⟩ := Int.exists_greatest_of_bdd (P := fun b => b ∈ targets ∧ Known G b)
      ⟨180, fun b hb => (mem_targets.mp hb.1).2.2⟩ ⟨t, ht, hknown⟩
    exact ⟨L, hL, hknown, fun b hb hbknown => hmax b ⟨hb, hbknown⟩⟩
  have hmem := mem_targets.mp hL
  by_cases hown : L = 180
  · subst hown
    exact known_pass_of_known hend hknown
  · have habsent : ¬ Known G 180 := by
      intro hknown'
      have := hlast 180 hend hknown'
      omega
    have hlower : Lower G 180 L := by
      refine ⟨hknown, by omega, fun b hb hlt => ?_⟩
      exact hlast b (hG.downward 180 hend b hb hlt.le) hb
    by_cases hpast : PastLast G L
    · have hlate : ¬ L ≤ 120 := fun hearly => hshort L ⟨hearly, hknown, hpast⟩
      obtain ⟨d, hd⟩ := hknown
      refine ⟨d, hend, .flat habsent hlower (fun b hb => (hpast b hb).trans (by omega)) ?_ hd⟩
      rw [extrapMarginDays]
      omega
    · obtain ⟨h, hupper, hfar⟩ := next_beyond hG (by omega) hlast hpast
      have hshare : ¬ Disjoint (G L) (G h) := fun hdisjoint =>
        hsevered L ⟨hL, by omega, hknown, hlast, h, hupper, hdisjoint⟩
      obtain ⟨d, hleft, hright⟩ := Set.not_disjoint_iff.mp hshare
      have hupper' : Upper G 180 h := ⟨hupper.known, by omega, fun b hb hlt => hupper.le b hb (by omega)⟩
      exact ⟨d, hend, .between habsent hlower hupper' hleft hright⟩

end Months

end FxVol.AnchorGrid
