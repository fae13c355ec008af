import Mathlib.Algebra.BigOperators.Fin
import Mathlib.Algebra.Order.BigOperators.Group.Finset
import Mathlib.Algebra.Order.Monoid.OrderDual

/-!
# Totals over a table

`total f rows` adds what every row contributes, a row being seen with its key, the position
in the list.  Two tables compare row by row: what each old row contributes, and nothing from
the new ones.
-/
namespace FxVol.TableTotals

variable {α M : Type*} [AddCommMonoid M]

def total (f : ℕ → α → M) (rows : List α) : M := (rows.mapIdx f).sum

section Sums
variable (f g : ℕ → α → M) (rows : List α)

@[simp] theorem total_nil : total f [] = 0 := rfl

theorem total_append (new : List α) : total f (rows ++ new) =
    total f rows + (new.mapIdx fun i => f (i + rows.length)).sum := by
  rw [total, List.mapIdx_append, List.sum_append, total]

/-- Contributions that do not look at the key are summed over the plain list. -/
theorem total_const (g : α → M) : total (fun _ a => g a) rows = (rows.map g).sum := by
  rw [total]
  congr 1
  apply List.ext_getElem <;> simp

/-- Summing over the selected rows is summing what they contribute, the others nothing. -/
theorem sum_selected (p : α → Bool) (g : α → M) :
    (rows.map fun a => if p a then g a else 0).sum = ((rows.filter p).map g).sum := by
  induction rows with
  | nil => rfl
  | cons a rows ih =>
    cases hp : p a <;> simp [hp, ih]

/-- A sum over a selection is the sum over a part of it just when the rest of the selection contributes nothing. -/
theorem sum_part_eq_iff {rows : List α} {p q : α → Bool} {f : α → ℕ} :
    ((rows.filter p).map f).sum = ((rows.filter fun a => p a && q a).map f).sum ↔
      ∀ a ∈ rows, p a = true → 0 < f a → q a = true := by
  have hle : ∀ rows : List α, ((rows.filter fun a => p a && q a).map f).sum ≤ ((rows.filter p).map f).sum := by
    intro rows
    rw [← List.filter_filter]
    exact ((List.filter_sublist.filter p).map f).sum_le_sum fun _ _ => Nat.zero_le _
  induction rows with
  | nil => simp
  | cons a rows ih =>
    have hrest := hle rows
    rw [List.forall_mem_cons]
    refine Iff.trans ?_ (and_congr_right' ih)
    cases hp : p a with
    | false => simp [hp]
    | true =>
      cases hq : q a with
      | true => simp [hp, hq]
      | false =>
        simp only [List.filter_cons, hp, hq, Bool.and_false, if_true, Bool.false_eq_true, if_false, List.map_cons,
          List.sum_cons, true_implies, imp_false]
        omega

/-- A loop that adds to a column of its state what each row contributes adds up their sum. -/
theorem foldl_sum {σ : Type*} (column : σ → M) {f : σ → α → σ} {g : α → M}
    (h : ∀ s, ∀ a ∈ rows, column (f s a) = column s + g a) (s : σ) :
    column (rows.foldl f s) = column s + (rows.map g).sum := by
  induction rows generalizing s with
  | nil => exact (add_zero _).symm
  | cons a rows ih =>
    rw [List.foldl_cons, ih fun s b hb => h s b (List.mem_cons_of_mem _ hb), h s a List.mem_cons_self,
      List.map_cons, List.sum_cons, add_assoc]

/-- Rows summed under each of their keys are summed up. -/
theorem sum_by_key {κ : Type*} [DecidableEq κ] (key : α → κ) (g : α → M) {keys : List κ}
    (hn : keys.Nodup) (hall : ∀ a ∈ rows, key a ∈ keys) :
    (keys.map fun k => ((rows.filter fun a => key a = k).map g).sum).sum = (rows.map g).sum := by
  induction rows with
  | nil => simp
  | cons a rows ih =>
    have hone : (keys.map fun k => if key a = k then g a else 0).sum = g a := by
      rw [← List.sum_toFinset _ hn, Finset.sum_ite_eq, if_pos]
      exact List.mem_toFinset.mpr (hall a List.mem_cons_self)
    have hrest := ih fun b hb => hall b (List.mem_cons_of_mem _ hb)
    calc (keys.map fun k => (((a :: rows).filter fun b => key b = k).map g).sum).sum
      _ = (keys.map fun k => (if key a = k then g a else 0) +
            ((rows.filter fun b => key b = k).map g).sum).sum := by
        congr 1
        apply List.map_congr_left
        intro k _
        by_cases hk : key a = k <;> simp [hk]
      _ = g a + (rows.map g).sum := by rw [List.sum_map_add, hone, hrest]
      _ = ((a :: rows).map g).sum := by rw [List.map_cons, List.sum_cons]

/-- Tables whose selected rows show the same, and that have no new selected row, show the same
selection. -/
theorem selected_congr {β : Type*} {p : α → Bool} {g : α → β} {rows rows' : List α}
    (old : ∀ (i : ℕ) (a : α), rows[i]? = some a → ∃ a', rows'[i]? = some a' ∧ p a' = p a ∧
      (p a → g a' = g a))
    (new : ∀ (i : ℕ) (a' : α), rows.length ≤ i → rows'[i]? = some a' → p a' = false) :
    (rows'.filter p).map g = (rows.filter p).map g := by
  induction rows generalizing rows' with
  | nil =>
    have hnone : rows'.filter p = [] := by
      apply List.filter_eq_nil_iff.mpr
      intro a' ha'
      obtain ⟨i, hi⟩ := List.mem_iff_getElem?.mp ha'
      simp [new i a' (Nat.zero_le i) hi]
    rw [hnone, List.filter_nil]
  | cons a rows ih =>
    obtain ⟨a', ha', hp, hg⟩ := old 0 a rfl
    obtain ⟨rows'', rfl⟩ : ∃ rows'', rows' = a' :: rows'' := by
      cases rows' with
      | nil => cases ha'
      | cons b rows'' => exact ⟨rows'', by rw [Option.some.inj ha']⟩
    have hrest : (rows''.filter p).map g = (rows.filter p).map g :=
      ih (fun i => old (i + 1)) fun i b hi => new (i + 1) b (Nat.succ_le_succ hi)
    rw [List.filter_cons, List.filter_cons, hp]
    by_cases hpa : p a
    · rw [if_pos hpa, if_pos hpa, List.map_cons, List.map_cons, hg hpa, hrest]
    · rw [if_neg hpa, if_neg hpa, hrest]

theorem total_eq_range : total f rows =
    ∑ i ∈ Finset.range rows.length, (rows[i]?).elim 0 (f i) := by
  rw [total, ← Fin.sum_univ_getElem, Finset.sum_range]
  apply Fintype.sum_equiv (finCongr (List.length_mapIdx ..))
  intro i
  have hi : i.val < rows.length := by simpa using i.isLt
  simp [hi]

theorem total_add : total (fun i a => f i a + g i a) rows = total f rows + total g rows := by
  simp only [total_eq_range, ← Finset.sum_add_distrib]
  apply Finset.sum_congr rfl
  intro i _
  cases rows[i]? <;> simp

theorem total_neg {G : Type*} [AddCommGroup G] (f : ℕ → α → G) (rows : List α) :
    total (fun i a => -f i a) rows = -total f rows := by
  rw [total_eq_range, total_eq_range, ← Finset.sum_neg_distrib]
  apply Finset.sum_congr rfl
  intro i _
  cases rows[i]? <;> simp

theorem total_cast (f : ℕ → α → ℕ) (rows : List α) :
    ((total f rows : ℕ) : ℤ) = total (fun i a => (f i a : ℤ)) rows := by
  rw [total_eq_range, total_eq_range, Nat.cast_sum]
  apply Finset.sum_congr rfl
  intro i _
  cases rows[i]? <;> simp

theorem total_eq_zero {f : ℕ → α → M} {rows : List α}
    (h : ∀ i a, rows[i]? = some a → f i a = 0) : total f rows = 0 := by
  rw [total_eq_range]
  apply Finset.sum_eq_zero
  intro i _
  cases ha : rows[i]? with
  | none => rfl
  | some a => exact h i a ha

/-- Where one row only contributes, the total is what it contributes. -/
theorem total_single {f : ℕ → α → M} {rows : List α} {i : ℕ} {a : α} (ha : rows[i]? = some a)
    (h : ∀ j b, rows[j]? = some b → j ≠ i → f j b = 0) : total f rows = f i a := by
  have hi := (List.getElem?_eq_some_iff.mp ha).1
  rw [total_eq_range, Finset.sum_eq_single i]
  · rw [ha, Option.elim_some]
  · intro j _ hne
    cases hb : rows[j]? with
    | none => rfl
    | some b => exact h j b hb hne
  · intro hno
    exact absurd (Finset.mem_range.mpr hi) hno

end Sums

section Compare
variable {f f' : ℕ → α → M} {rows rows' : List α}

/-- Tables whose rows contribute the same have the same total. -/
theorem total_congr (hlen : rows'.length = rows.length)
    (h : ∀ i a, rows[i]? = some a → ∃ a', rows'[i]? = some a' ∧ f' i a' = f i a) :
    total f' rows' = total f rows := by
  rw [total_eq_range, total_eq_range, hlen]
  apply Finset.sum_congr rfl
  intro i hi
  have hrow := List.getElem?_eq_getElem (Finset.mem_range.mp hi)
  obtain ⟨a', ha', heq⟩ := h i _ hrow
  rw [ha', hrow, Option.elim_some, Option.elim_some, heq]

variable [PartialOrder M] [IsOrderedAddMonoid M]

/-- A table whose old rows contribute no more than before, and its new rows nothing positive,
has no greater total. -/
theorem total_le (hlen : rows.length ≤ rows'.length)
    (old : ∀ i a, rows[i]? = some a → ∃ a', rows'[i]? = some a' ∧ f' i a' ≤ f i a)
    (new : ∀ i a', rows.length ≤ i → rows'[i]? = some a' → f' i a' ≤ 0) :
    total f' rows' ≤ total f rows := by
  rw [total_eq_range, total_eq_range]
  have hrest : ∑ i ∈ Finset.range rows.length, (rows[i]?).elim 0 (f i) =
      ∑ i ∈ Finset.range rows'.length, (rows[i]?).elim 0 (f i) := by
    apply Finset.sum_subset (Finset.range_mono hlen)
    intro i _ hi
    rw [List.getElem?_eq_none (by simpa using hi), Option.elim_none]
  rw [hrest]
  apply Finset.sum_le_sum
  intro i hi
  have hrow' := List.getElem?_eq_getElem (Finset.mem_range.mp hi)
  by_cases hlt : i < rows.length
  · have hrow := List.getElem?_eq_getElem hlt
    obtain ⟨a', ha', hle⟩ := old i _ hrow
    rwa [ha', hrow]
  · have hnone : rows[i]? = none := List.getElem?_eq_none (by omega)
    rw [hnone, hrow']
    exact new i _ (by omega) hrow'

/-- The same the other way: old rows contribute no less, and new ones nothing negative. -/
theorem total_grows (hlen : rows.length ≤ rows'.length)
    (old : ∀ i a, rows[i]? = some a → ∃ a', rows'[i]? = some a' ∧ f i a ≤ f' i a')
    (new : ∀ i a', rows.length ≤ i → rows'[i]? = some a' → 0 ≤ f' i a') :
    total f rows ≤ total f' rows' := total_le (M := Mᵒᵈ) hlen old new

end Compare

end FxVol.TableTotals
