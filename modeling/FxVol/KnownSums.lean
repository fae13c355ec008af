import FxVol.TableTotals
import Mathlib.Data.List.ReduceOption

/-!
# Sums of what is known

The sum over a column in which values may be missing: of those that are there, and missing where none is.  It does not
look at the order, and it may be taken key by key.
-/
namespace FxVol.KnownSums

variable {α κ M : Type*} [AddCommMonoid M]

/-- The sum of the known values; none where no value is known -/
def knownSum (xs : List (Option M)) : Option M :=
  match xs.reduceOption with
  | [] => none
  | vals => some vals.sum

section Known
variable {xs ys : List (Option M)}

theorem knownSum_eq_none : knownSum xs = none ↔ ∀ x ∈ xs, x = none := by
  have hvals : knownSum xs = none ↔ xs.reduceOption = [] := by
    rw [knownSum]
    cases xs.reduceOption with
    | nil => exact iff_of_true rfl rfl
    | cons v vals => exact iff_of_false nofun nofun
  rw [hvals, List.eq_nil_iff_forall_not_mem]
  simp only [List.reduceOption_mem_iff]
  constructor
  · exact fun h x hx => Option.eq_none_iff_forall_ne_some.mpr fun v hv => h v (hv ▸ hx)
  · intro h v hv
    cases h _ hv

/-- A missing value counts as nothing. -/
theorem knownSum_getD (xs : List (Option M)) : (knownSum xs).getD 0 = (xs.map (·.getD 0)).sum := by
  have hvals : (knownSum xs).getD 0 = xs.reduceOption.sum := by
    rw [knownSum]
    cases xs.reduceOption with
    | nil => rfl
    | cons v vals => rfl
  have hsum : ∀ xs : List (Option M), xs.reduceOption.sum = (xs.map (·.getD 0)).sum := by
    intro xs
    induction xs with
    | nil => rfl
    | cons x xs ih =>
      cases x with
      | none => rw [List.reduceOption_cons_of_none, ih, List.map_cons, List.sum_cons, Option.getD_none, zero_add]
      | some v => rw [List.reduceOption_cons_of_some, List.sum_cons, ih, List.map_cons, List.sum_cons, Option.getD_some]
  exact hvals.trans (hsum xs)

/-- A sum of known values is known by what is missing and what the rest comes to. -/
theorem eq_knownSum {s : Option M} (hnone : s = none ↔ ∀ x ∈ xs, x = none) (hsum : s.getD 0 = (xs.map (·.getD 0)).sum) :
    s = knownSum xs := by
  rw [← knownSum_getD] at hsum
  rw [← knownSum_eq_none] at hnone
  cases s with
  | none => exact (hnone.mp rfl).symm
  | some v =>
    cases hxs : knownSum xs with
    | none => exact hnone.mpr hxs
    | some w =>
      rw [hxs] at hsum
      exact congrArg some hsum

theorem knownSum_perm (h : xs.Perm ys) : knownSum xs = knownSum ys := by
  refine eq_knownSum ?_ ?_
  · rw [knownSum_eq_none]
    exact forall_congr' fun x => imp_congr_left h.mem_iff
  · rw [knownSum_getD, (h.map _).sum_eq]

/-- A value added at the end -/
theorem knownSum_snoc (xs : List (Option M)) (x : Option M) :
    knownSum (xs ++ [x]) = x.elim (knownSum xs) fun v => some ((knownSum xs).getD 0 + v) := by
  symm
  cases x with
  | none =>
    refine eq_knownSum ?_ ?_
    · simp [knownSum_eq_none, or_imp]
    · simp [knownSum_getD]
  | some v =>
    refine eq_knownSum ?_ ?_
    · simp [or_imp, forall_and]
    · simp [knownSum_getD]

end Known

/-- A column summed under each of its keys is summed up. -/
theorem knownSum_by_key [DecidableEq κ] (rows : List α) (key : α → κ) (col : α → Option M) {keys : List κ}
    (hnodup : keys.Nodup) (hall : ∀ a ∈ rows, key a ∈ keys) :
    knownSum (keys.map fun k => knownSum ((rows.filter fun a => key a = k).map col)) = knownSum (rows.map col) := by
  refine eq_knownSum ?_ ?_
  · rw [knownSum_eq_none, List.forall_mem_map, List.forall_mem_map]
    simp only [knownSum_eq_none, List.forall_mem_map, List.mem_filter, decide_eq_true_eq]
    exact ⟨fun h a ha => h (key a) (hall a ha) a ⟨ha, rfl⟩, fun h k _ a ha => h a ha.1⟩
  · rw [knownSum_getD, List.map_map, List.map_map, ← TableTotals.sum_by_key rows key _ hnodup hall]
    congr 1
    apply List.map_congr_left
    intro k _
    rw [Function.comp_apply, knownSum_getD, List.map_map]

end FxVol.KnownSums
