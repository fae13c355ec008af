import Mathlib.Order.Basic
import Mathlib.Tactic.Push

/-!
# Fair infinite runs

A schedule gives an event for each time; what helps a run on recurs in it.  The rank rule is the one a
liveness proof needs.
-/
namespace FxVol.FairRuns

variable {σ ε : Type*}

def states (step : σ → ε → σ) (start : σ) (schedule : ℕ → ε) : ℕ → σ
  | 0 => start
  | n + 1 => step (states step start schedule n) (schedule n)

def Recurs (schedule : ℕ → ε) (e : ε) : Prop := ∀ n, ∃ m, n ≤ m ∧ schedule m = e

variable {step : σ → ε → σ} {start : σ} {schedule : ℕ → ε} {I : σ → Prop} {n m : ℕ}

/-- What every step keeps holds from then on. -/
theorem states_keep (keep : ∀ s e, I s → I (step s e)) (h : I (states step start schedule n)) (hm : n ≤ m) :
    I (states step start schedule m) := by
  induction hm with
  | refl => exact h
  | step _ ih => exact keep _ _ ih

/-- A state with a property has a first one: at the start, or right after a state without it. -/
theorem states_first (h : I (states step start schedule n)) :
    I start ∨ ∃ k < n, ¬ I (states step start schedule k) ∧ I (step (states step start schedule k) (schedule k)) := by
  induction n with
  | zero => exact .inl h
  | succ n ih =>
    by_cases hn : I (states step start schedule n)
    · rcases ih hn with hstart | ⟨k, hk, hrest⟩
      · exact .inl hstart
      · exact .inr ⟨k, Nat.lt_succ_of_lt hk, hrest⟩
    · exact .inr ⟨n, Nat.lt_succ_self n, hn, h⟩

section Rank
variable (goal : σ → Prop) (rank : σ → ℕ) (helpful : σ → ε)

/-- The rank has dropped by the time the helpful event comes. -/
theorem rank_drops (keep : ∀ s e, I s → I (step s e))
    (stays : ∀ s e, I s → ¬ goal s → rank (step s e) < rank s ∨
      rank (step s e) = rank s ∧ helpful (step s e) = helpful s)
    (drops : ∀ s, I s → ¬ goal s → rank (step s (helpful s)) < rank s) (d : ℕ)
    (hI : I (states step start schedule n))
    (hd : schedule (n + d) = helpful (states step start schedule n)) :
    ∃ m, n ≤ m ∧ (goal (states step start schedule m) ∨
      rank (states step start schedule m) < rank (states step start schedule n)) := by
  induction d generalizing n with
  | zero =>
    by_cases hgoal : goal (states step start schedule n)
    · exact ⟨n, Nat.le_refl n, .inl hgoal⟩
    · refine ⟨n + 1, Nat.le_succ n, .inr ?_⟩
      have hdrop := drops _ hI hgoal
      rwa [← hd] at hdrop
  | succ d ih =>
    by_cases hgoal : goal (states step start schedule n)
    · exact ⟨n, Nat.le_refl n, .inl hgoal⟩
    · rcases stays _ (schedule n) hI hgoal with hless | ⟨hrank, hhelp⟩
      · exact ⟨n + 1, Nat.le_succ n, .inr hless⟩
      · have hlater : schedule (n + 1 + d) = helpful (states step start schedule (n + 1)) := by
          rw [show n + 1 + d = n + (d + 1) by omega, hd]
          exact hhelp.symm
        have hnext : I (states step start schedule (n + 1)) := keep _ _ hI
        obtain ⟨m, hm, hcase⟩ := ih hnext hlater
        exact ⟨m, Nat.le_of_succ_le hm, hcase.imp_right fun h => h.trans_eq hrank⟩

/-- Where no event raises the rank, one event lowers it and stays the one that does, and that event recurs,
the run comes to its goal. -/
theorem eventually (keep : ∀ s e, I s → I (step s e))
    (stays : ∀ s e, I s → ¬ goal s → rank (step s e) < rank s ∨
      rank (step s e) = rank s ∧ helpful (step s e) = helpful s)
    (drops : ∀ s, I s → ¬ goal s → rank (step s (helpful s)) < rank s)
    (fair : ∀ s, Recurs schedule (helpful s)) (hI : I (states step start schedule n)) :
    ∃ m, n ≤ m ∧ goal (states step start schedule m) := by
  induction hr : rank (states step start schedule n) using Nat.strongRecOn generalizing n with
  | ind r ih =>
    obtain ⟨k, hk, hevent⟩ := fair (states step start schedule n) n
    obtain ⟨d, rfl⟩ := Nat.exists_eq_add_of_le hk
    obtain ⟨m, hm, hgoal | hless⟩ := rank_drops goal rank helpful keep stays drops d hI hevent
    · exact ⟨m, hm, hgoal⟩
    · obtain ⟨m', hm', hgoal⟩ := ih _ (hr ▸ hless) (states_keep keep hI hm) rfl
      exact ⟨m', Nat.le_trans hm hm', hgoal⟩

end Rank

end FxVol.FairRuns
