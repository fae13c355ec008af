import Mathlib.Data.List.Sort

/-!
# Rows by time, the newest first

The order in which a query with `ORDER BY timestamp DESC` gives the rows of a table.
-/
namespace FxVol.NewestFirst

variable {α : Type*} (ts : α → ℤ)

def newestFirst (rows : List α) : List α := rows.insertionSort fun a b => ts b ≤ ts a

theorem newestFirst_perm (rows : List α) : (newestFirst ts rows).Perm rows := List.perm_insertionSort _ _

theorem newestFirst_sorted (rows : List α) : (newestFirst ts rows).Pairwise fun a b => ts b ≤ ts a :=
  haveI : Std.Total fun a b : α => ts b ≤ ts a := ⟨fun _ _ => le_total _ _⟩
  haveI : IsTrans α fun a b => ts b ≤ ts a := ⟨fun _ _ _ hab hbc => hbc.trans hab⟩
  List.pairwise_insertionSort _ _

variable {ts} {rows : List α}

theorem newestFirst_pairwise (hnodup : (rows.map ts).Nodup) : (newestFirst ts rows).Pairwise fun a b => ts b < ts a := by
  have hdistinct : (newestFirst ts rows).Pairwise fun a b => ts a ≠ ts b :=
    List.pairwise_map.mp (((newestFirst_perm ts rows).map ts).nodup_iff.mpr hnodup)
  exact ((newestFirst_sorted ts rows).and hdistinct).imp fun h => lt_of_le_of_ne h.1 h.2.symm

theorem mem_of_head? {latest : α} (h : (newestFirst ts rows).head? = some latest) : latest ∈ rows :=
  (newestFirst_perm ts rows).mem_iff.mp (List.mem_of_mem_head? h)

theorem le_of_head? {latest : α} (h : (newestFirst ts rows).head? = some latest) : ∀ r ∈ rows, ts r ≤ ts latest := by
  intro r hr
  obtain ⟨rest, hrest⟩ := List.head?_eq_some_iff.mp h
  have hmem : r ∈ latest :: rest := hrest ▸ (newestFirst_perm ts rows).mem_iff.mpr hr
  rcases List.mem_cons.mp hmem with rfl | hmem
  · exact le_rfl
  · have hsorted := newestFirst_sorted ts rows
    rw [hrest] at hsorted
    exact List.rel_of_pairwise_cons hsorted hmem

theorem head?_eq_none : (newestFirst ts rows).head? = none ↔ rows = [] := by
  rw [List.head?_eq_none_iff]
  constructor
  · intro h
    have hperm := newestFirst_perm ts rows
    rw [h] at hperm
    exact hperm.symm.eq_nil
  · rintro rfl
    rfl

end FxVol.NewestFirst
