import Mathlib.Data.List.Basic

/-!
# One row of a table rewritten

`l.modify k f` writes the row with key `k`.  What a write keeps of every row it keeps of the
table: a projected column, a count, the rows a query selects.
-/
namespace FxVol.RowUpdates

variable {α β : Type*}

theorem mem_modify_at {l : List α} {k : ℕ} {f : α → α} {x : α} (h : x ∈ l.modify k f) :
    x ∈ l ∨ ∃ y, l[k]? = some y ∧ x = f y := by
  obtain ⟨n, hn⟩ := List.mem_iff_getElem?.mp h
  rw [List.getElem?_modify] at hn
  obtain ⟨y, hy, hxy⟩ := Option.map_eq_some_iff.mp hn
  split_ifs at hxy with hkn
  · exact .inr ⟨y, hkn ▸ hy, hxy.symm⟩
  · exact .inl (hxy ▸ List.mem_of_getElem? hy)

theorem mem_modify {l : List α} {k : ℕ} {f : α → α} {x : α} (h : x ∈ l.modify k f) :
    x ∈ l ∨ ∃ y ∈ l, x = f y := by
  rcases mem_modify_at h with hsame | ⟨y, hy, hxy⟩
  · exact .inl hsame
  · exact .inr ⟨y, List.mem_of_getElem? hy, hxy⟩

theorem map_modify_same {f : α → β} {g : α → α} (h : ∀ a, f (g a) = f a) (l : List α) (k : ℕ) :
    (l.modify k g).map f = l.map f := by
  apply List.ext_getElem?
  intro j
  by_cases hj : k = j
  · subst hj
    cases hrow : l[k]? <;> simp [hrow, h]
  · simp [hj]

/-- A write after which fewer rows meet a test lowers their number. -/
theorem countP_modify_le {q : α → Bool} {g : α → α} (h : ∀ a, q (g a) → q a) (l : List α)
    (k : ℕ) : (l.modify k g).countP q ≤ l.countP q := by
  induction l generalizing k with
  | nil => simp
  | cons a l ih =>
    cases k with
    | zero =>
      rw [List.modify_zero_cons, List.countP_cons, List.countP_cons]
      have hone : (if q (g a) then 1 else 0) ≤ (if q a then 1 else 0) := by
        by_cases hg : q (g a)
        · simp [hg, h a hg]
        · simp [hg]
      omega
    | succ k =>
      rw [List.modify_succ_cons, List.countP_cons, List.countP_cons]
      have hrest := ih k
      omega

theorem countP_modify_same {q : α → Bool} {g : α → α} (h : ∀ a, q (g a) = q a) (l : List α)
    (k : ℕ) : (l.modify k g).countP q = l.countP q := by
  have hcount := congrArg (List.countP id) (map_modify_same h l k)
  rwa [List.countP_map, List.countP_map, Function.id_comp] at hcount

end FxVol.RowUpdates
