import Mathlib.Data.List.DropRight
import Mathlib.Data.List.Forall2
import Mathlib.Algebra.Order.Ring.Defs

/-!
# Recursions over a window

A sequence carried on from its own last entries: each forecast is a function of the `m` entries before it, forecasts
included.
-/
namespace FxVol.WindowRecursion

variable {α : Type*} (next : List α → α)

/-- The next `n` entries after `xs` -/
def forecasts : ℕ → List α → List α
  | 0, _ => []
  | n + 1, xs => next xs :: forecasts n (xs ++ [next xs])

/-- The entry `k` places after `xs` -/
def forecast (xs : List α) (k : ℕ) : α := next (xs ++ forecasts next k xs)

variable {next}

theorem length_forecasts (n : ℕ) (xs : List α) : (forecasts next n xs).length = n := by
  induction n generalizing xs with
  | zero => rfl
  | succ n ih => rw [forecasts, List.length_cons, ih]

theorem forecasts_add (m n : ℕ) (xs : List α) :
    forecasts next (m + n) xs = forecasts next m xs ++ forecasts next n (xs ++ forecasts next m xs) := by
  induction m generalizing xs with
  | zero => rw [Nat.zero_add, forecasts, List.nil_append, List.append_nil]
  | succ m ih => rw [Nat.add_right_comm, forecasts, ih, forecasts, List.cons_append, List.append_assoc, List.singleton_append]

theorem forecasts_succ (n : ℕ) (xs : List α) : forecasts next (n + 1) xs = forecasts next n xs ++ [forecast next xs n] :=
  forecasts_add n 1 xs

theorem mem_rtake {m : ℕ} {xs ys : List α} {x : α} (h : x ∈ (xs ++ ys).rtake m) : x ∈ xs.rtake m ∨ x ∈ ys := by
  rw [List.rtake_eq_reverse_take_reverse, List.mem_reverse, List.reverse_append, List.take_append,
    List.mem_append] at h
  rcases h with h | h
  · exact .inr (List.mem_reverse.mp (List.mem_of_mem_take h))
  · refine .inl ?_
    rw [List.rtake_eq_reverse_take_reverse, List.mem_reverse]
    exact List.take_subset_take_left _ (Nat.sub_le _ _) h

theorem mem_of_mem_rtake {m : ℕ} {xs : List α} {x : α} (h : x ∈ xs.rtake m) : x ∈ xs := List.mem_of_mem_drop h

theorem rtake_rtake {m n : ℕ} (h : m ≤ n) (xs : List α) : (xs.rtake n).rtake m = xs.rtake m := by
  simp only [List.rtake_eq_reverse_take_reverse, List.reverse_reverse, List.take_take, min_eq_left h]

/-- A window that the entries after `xs` fill -/
theorem mem_rtake_right {m : ℕ} {xs ys : List α} {x : α} (hm : m ≤ ys.length) (h : x ∈ (xs ++ ys).rtake m) : x ∈ ys := by
  rw [List.rtake, List.length_append, Nat.add_sub_assoc hm, List.drop_append, List.drop_eq_nil_of_le (by omega)] at h
  exact List.mem_of_mem_drop h

theorem rtake_concat_congr {m : ℕ} {xs ys : List α} (h : xs.rtake m = ys.rtake m) (x : α) :
    (xs ++ [x]).rtake m = (ys ++ [x]).rtake m := by
  cases m with
  | zero => rw [List.rtake_zero, List.rtake_zero]
  | succ m =>
    have hshort : xs.rtake m = ys.rtake m := by rw [← rtake_rtake (Nat.le_succ m), h, rtake_rtake (Nat.le_succ m)]
    rw [List.rtake_concat_succ, List.rtake_concat_succ, hshort]

/-- What lies before the window has no part in the forecasts. -/
theorem forecasts_congr {m : ℕ} (hnext : ∀ xs ys : List α, xs.rtake m = ys.rtake m → next xs = next ys) (n : ℕ)
    {xs ys : List α} (h : xs.rtake m = ys.rtake m) : forecasts next n xs = forecasts next n ys := by
  induction n generalizing xs ys with
  | zero => rfl
  | succ n ih =>
    rw [forecasts, forecasts, hnext xs ys h]
    exact congrArg _ (ih (rtake_concat_congr h _))

/-- A relation that the next entries inherit from the sequences -/
theorem forall₂_forecasts {β : Type*} {next' : List β → β} {r : α → β → Prop}
    (hnext : ∀ (xs : List α) (ys : List β), List.Forall₂ r xs ys → r (next xs) (next' ys)) (n : ℕ) {xs : List α}
    {ys : List β} (h : List.Forall₂ r xs ys) : List.Forall₂ r (forecasts next n xs) (forecasts next' n ys) := by
  induction n generalizing xs ys with
  | zero => exact .nil
  | succ n ih => exact .cons (hnext xs ys h) (ih (List.rel_append h (.cons (hnext xs ys h) .nil)))

/-- What holds in a window holds ever after, if the next entry has it from the window. -/
theorem forall_mem_forecasts {p : α → Prop} {m : ℕ}
    (hnext : ∀ xs : List α, xs ≠ [] → (∀ x ∈ xs.rtake m, p x) → p (next xs)) (n : ℕ) {xs : List α} (hne : xs ≠ [])
    (h : ∀ x ∈ xs.rtake m, p x) : ∀ x ∈ forecasts next n xs, p x := by
  induction n generalizing xs with
  | zero => exact fun x hx => absurd hx List.not_mem_nil
  | succ n ih =>
    have hone := hnext xs hne h
    refine List.forall_mem_cons.mpr ⟨hone, ih (by simp) ?_⟩
    intro x hx
    rcases mem_rtake hx with hx | hx
    · exact h x hx
    · rwa [List.mem_singleton.mp hx]

section Contraction
variable {K : Type*} [Semiring K] [LinearOrder K] [IsStrictOrderedRing K] {near : K → α → Prop} {θ c : K} {m : ℕ}

/-- A window that is near makes every forecast nearer by the factor. -/
theorem near_forecasts (hθ' : θ ≤ 1) (hmono : ∀ (b b' : K) (x : α), b ≤ b' → near b x → near b' x)
    (hnext : ∀ (b : K) (xs : List α), 0 ≤ b → xs ≠ [] → (∀ x ∈ xs.rtake m, near b x) → near (θ * b) (next xs))
    (hc : 0 ≤ c) (n : ℕ) {xs : List α} (hne : xs ≠ []) (h : ∀ x ∈ xs.rtake m, near c x) :
    ∀ x ∈ forecasts next n xs, near (θ * c) x := by
  induction n generalizing xs with
  | zero => exact fun x hx => absurd hx List.not_mem_nil
  | succ n ih =>
    have hone := hnext c xs hc hne h
    refine List.forall_mem_cons.mpr ⟨hone, ih (by simp) ?_⟩
    intro x hx
    rcases mem_rtake hx with hx | hx
    · exact h x hx
    · rw [List.mem_singleton.mp hx]
      exact hmono _ _ _ (mul_le_of_le_one_left hc hθ') hone

/-- With every window that the forecasts fill they come nearer by the factor. -/
theorem near_forecasts_drop (hθ : 0 ≤ θ) (hθ' : θ ≤ 1)
    (hmono : ∀ (b b' : K) (x : α), b ≤ b' → near b x → near b' x)
    (hnext : ∀ (b : K) (xs : List α), 0 ≤ b → xs ≠ [] → (∀ x ∈ xs.rtake m, near b x) → near (θ * b) (next xs))
    (hc : 0 ≤ c) (j n : ℕ) {xs : List α} (hne : xs ≠ []) (h : ∀ x ∈ xs.rtake m, near c x) :
    ∀ x ∈ (forecasts next n xs).drop (j * m), near (θ ^ (j + 1) * c) x := by
  induction j generalizing xs c n with
  | zero =>
    rw [Nat.zero_mul, Nat.zero_add, pow_one]
    exact near_forecasts hθ' hmono hnext hc n hne h
  | succ j ih =>
    intro x hx
    rcases Nat.lt_or_ge n m with hn | hn
    · have hshort : (forecasts next n xs).length ≤ (j + 1) * m := by
        rw [length_forecasts]
        exact hn.le.trans (Nat.le_mul_of_pos_left m (Nat.succ_pos j))
      rw [List.drop_eq_nil_of_le hshort] at hx
      exact absurd hx List.not_mem_nil
    · obtain ⟨d, rfl⟩ := Nat.exists_eq_add_of_le hn
      have hwindow : ∀ y ∈ (xs ++ forecasts next m xs).rtake m, near (θ * c) y := fun y hy =>
        near_forecasts hθ' hmono hnext hc m hne h y (mem_rtake_right (length_forecasts m xs).ge hy)
      rw [forecasts_add, Nat.succ_mul, Nat.add_comm, ← List.drop_drop, List.drop_left' (length_forecasts m xs)] at hx
      rw [pow_succ, mul_assoc]
      exact ih (mul_nonneg hθ hc) d (by simp [hne]) hwindow x hx

theorem near_forecast (hθ : 0 ≤ θ) (hθ' : θ ≤ 1) (hmono : ∀ (b b' : K) (x : α), b ≤ b' → near b x → near b' x)
    (hnext : ∀ (b : K) (xs : List α), 0 ≤ b → xs ≠ [] → (∀ x ∈ xs.rtake m, near b x) → near (θ * b) (next xs))
    (hc : 0 ≤ c) {xs : List α} (hne : xs ≠ []) (h : ∀ x ∈ xs.rtake m, near c x) (k : ℕ) :
    near (θ ^ (k / m + 1) * c) (forecast next xs k) := by
  refine near_forecasts_drop hθ hθ' hmono hnext hc (k / m) (k + 1) hne h _ ?_
  have hlength : k / m * m ≤ (forecasts next k xs).length := (Nat.div_mul_le_self k m).trans (length_forecasts k xs).ge
  rw [forecasts_succ, List.drop_append_of_le_length hlength]
  exact List.mem_append_right _ (List.mem_singleton_self _)

end Contraction
end FxVol.WindowRecursion
