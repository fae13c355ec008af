import Mathlib.Data.List.Nodup

/-!
# Passes over a list of keys

`Passes r keys s t`: from `s`, one pass for each key of the list, in order, leads to `t`.
A pass that looks at a key may change the whole state, but as a rule it is local: the view
of every other key stays the same.  Then what the whole list does to one key is what the
pass of that key does.
-/
namespace FxVol.KeyedPasses

variable {σ κ β : Type*}

inductive Passes (r : σ → κ → σ → Prop) : List κ → σ → σ → Prop
  | nil (s : σ) : Passes r [] s s
  | cons {k : κ} {keys : List κ} {s t u : σ} :
      r s k t → Passes r keys t u → Passes r (k :: keys) s u

theorem passes_foldl (f : σ → κ → σ) (keys : List κ) (s : σ) :
    Passes (fun s k t => t = f s k) keys s (keys.foldl f s) := by
  induction keys generalizing s with
  | nil => exact .nil s
  | cons k keys ih => exact .cons rfl (ih _)

theorem passes_foldlM {ε : Type*} (f : σ → κ → Except ε σ) {keys : List κ} {s t : σ}
    (h : keys.foldlM f s = .ok t) : Passes (fun s k t => f s k = .ok t) keys s t := by
  induction keys generalizing s with
  | nil =>
    obtain rfl : s = t := Except.ok.inj h
    exact .nil s
  | cons k keys ih =>
    rw [List.foldlM_cons] at h
    cases hk : f s k with
    | error e =>
      rw [hk] at h
      cases h
    | ok u =>
      rw [hk] at h
      exact .cons hk (ih h)

/-- What no pass changes, all passes together do not change. -/
theorem foldl_frame (view : σ → β) (f : σ → κ → σ) (h : ∀ s k, view (f s k) = view s)
    (keys : List κ) (s : σ) : view (keys.foldl f s) = view s := by
  induction keys generalizing s with
  | nil => rfl
  | cons k keys ih => exact (ih (f s k)).trans (h s k)

variable {r : σ → κ → σ → Prop} {keys : List κ} {s t : σ}

/-- An invariant that every pass of a listed key keeps holds after all passes. -/
theorem Passes.invariant (h : Passes r keys s t) {I : σ → Prop}
    (keep : ∀ k ∈ keys, ∀ s t, I s → r s k t → I t) (hs : I s) : I t := by
  induction h with
  | nil => exact hs
  | cons hk _ ih =>
    apply ih (fun k hmem => keep k (List.mem_cons_of_mem _ hmem))
    exact keep _ List.mem_cons_self _ _ hs hk

/-- The pass of a listed key is taken in a state where the invariant holds. -/
theorem Passes.taken (h : Passes r keys s t) {I : σ → Prop}
    (keep : ∀ k ∈ keys, ∀ s t, I s → r s k t → I t) (hs : I s) {k : κ} (hk : k ∈ keys) :
    ∃ s' t', I s' ∧ r s' k t' := by
  induction h with
  | nil => cases hk
  | cons hfirst _ ih =>
    rcases List.mem_cons.mp hk with rfl | hmem
    · exact ⟨_, _, hs, hfirst⟩
    · apply ih (fun k hmem => keep k (List.mem_cons_of_mem _ hmem)) _ hmem
      exact keep _ List.mem_cons_self _ _ hs hfirst

/-- What the pass of a listed key establishes holds at the end, if every pass keeps it. -/
theorem Passes.established (h : Passes r keys s t) {Q : σ → Prop} {k : κ} (hk : k ∈ keys)
    (establish : ∀ s t, r s k t → Q t) (keep : ∀ k s t, Q s → r s k t → Q t) : Q t := by
  induction h with
  | nil => cases hk
  | cons hfirst hrest ih =>
    rcases List.mem_cons.mp hk with rfl | hmem
    · exact hrest.invariant (fun k _ s t hs hr => keep k s t hs hr) (establish _ _ hfirst)
    · exact ih hmem

/-- A pass changes the view of its own key only. -/
def Local (view : σ → κ → β) (r : σ → κ → σ → Prop) : Prop :=
  ∀ s k t, r s k t → ∀ j, j ≠ k → view t j = view s j

variable {view : σ → κ → β}

theorem Passes.view_notMem (h : Passes r keys s t) (hl : Local view r) {j : κ} (hj : j ∉ keys) :
    view t j = view s j := by
  induction h with
  | nil => rfl
  | cons hk _ ih =>
    rw [List.mem_cons, not_or] at hj
    rw [ih hj.2, hl _ _ _ hk j hj.1]

/-- Over distinct keys, the passes leave a listed key as its own pass does, taken in a state
where the key still had its first view. -/
theorem Passes.view_mem (h : Passes r keys s t) (hl : Local view r) (hd : keys.Nodup)
    {I : σ → Prop} (keep : ∀ s k t, I s → r s k t → I t) (hs : I s) {j : κ} (hj : j ∈ keys) :
    ∃ s' t', I s' ∧ r s' j t' ∧ view s' j = view s j ∧ view t j = view t' j := by
  induction h with
  | nil => cases hj
  | @cons k keys s u t hk hrest ih =>
    have hd' := List.nodup_cons.mp hd
    rcases List.mem_cons.mp hj with rfl | hmem
    · exact ⟨s, u, hs, hk, rfl, hrest.view_notMem hl hd'.1⟩
    · have hne : j ≠ k := by
        rintro rfl
        exact hd'.1 hmem
      obtain ⟨s', t', hI, hr, hv, ht⟩ := ih hd'.2 (keep _ _ _ hs hk) hmem
      exact ⟨s', t', hI, hr, hv.trans (hl _ _ _ hk j hne), ht⟩

/-- Over distinct keys, what the pass of a key makes of its view is what all passes make of it. -/
theorem foldl_view {f : σ → κ → σ} (hl : Local view fun s k t => t = f s k) {g : κ → β → β}
    (own : ∀ s k, view (f s k) k = g k (view s k)) (hd : keys.Nodup) {j : κ} (hj : j ∈ keys)
    (s : σ) : view (keys.foldl f s) j = g j (view s j) := by
  obtain ⟨s', t', _, rfl, hv, ht⟩ := (passes_foldl f keys s).view_mem hl hd (I := fun _ => True)
    (fun _ _ _ _ _ => trivial) trivial hj
  rw [ht, own, hv]

/-- Over distinct keys, the view of a key changes at most once, and by its own pass. -/
theorem Passes.view_once (h : Passes r keys s t) (hl : Local view r) (hd : keys.Nodup)
    {I : σ → Prop} {R : κ → β → β → Prop} (keep : ∀ s k t, I s → r s k t → I t)
    (one : ∀ s k t, I s → r s k t → R k (view s k) (view t k)) (hs : I s) (j : κ) :
    view t j = view s j ∨ j ∈ keys ∧ R j (view s j) (view t j) := by
  by_cases hj : j ∈ keys
  · obtain ⟨s', t', hI, hr, hv, ht⟩ := h.view_mem hl hd keep hs hj
    have hone := one s' j t' hI hr
    rw [hv, ← ht] at hone
    exact .inr ⟨hj, hone⟩
  · exact .inl (h.view_notMem hl hj)

/-- Over any keys, the passes relate the views of a key as its own passes do. -/
theorem Passes.view_rel (h : Passes r keys s t) (hl : Local view r) {I : σ → Prop}
    {R : κ → β → β → Prop} (refl : ∀ j v, R j v v)
    (trans : ∀ j v w x, R j v w → R j w x → R j v x)
    (keep : ∀ s k t, I s → r s k t → I t)
    (one : ∀ s k t, I s → r s k t → R k (view s k) (view t k)) (hs : I s) (j : κ) :
    R j (view s j) (view t j) := by
  induction h with
  | nil => exact refl j _
  | @cons k keys s u t hk _ ih =>
    have hrest := ih (keep _ _ _ hs hk)
    by_cases hj : j = k
    · subst hj
      exact trans _ _ _ _ (one _ _ _ hs hk) hrest
    · rwa [hl _ _ _ hk j hj] at hrest

end FxVol.KeyedPasses
