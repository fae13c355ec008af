import Mathlib.Data.Finset.Card
import Mathlib.Data.List.Nodup
import Mathlib.Data.Nat.Find

/-!
# Programs that are run again after a failure

A program is a list of transactions.  An attempt runs them in order and may meet a fault at any of them;
a transaction may end the attempt, to be tried again from the start or for good.
-/
namespace FxVol.RetriedPrograms

/-- How a transaction ends an attempt. -/
inductive Stop | again | forGood
  deriving DecidableEq

variable {τ φ σ : Type*}

/-- What a transaction does under a fault, and whether it ends the attempt. -/
structure Semantics (τ φ σ : Type*) where
  effect : τ → Option φ → σ → σ
  stop : τ → Option φ → Option Stop

namespace Semantics

variable (M : Semantics τ φ σ) (faults : ℕ → ℕ → Option φ)

/-- The rest of an attempt from a place of the program on -/
def attempt (k : ℕ) : ℕ → List τ → σ → σ × Option Stop
  | _, [], s => (s, none)
  | i, tx :: txs, s =>
    let s' := M.effect tx (faults k i) s
    match M.stop tx (faults k i) with
    | some stop => (s', some stop)
    | none => attempt k (i + 1) txs s'

/-- At most so many attempts, from the number of the first on -/
def attempts (program : List τ) : ℕ → ℕ → σ → σ
  | 0, _, s => s
  | n + 1, k, s =>
    match M.attempt faults k 0 program s with
    | (s', some .again) => attempts program n (k + 1) s'
    | (s', _) => s'

/-- A transaction with its attempt and its place in the program -/
abbrev Executed (τ : Type*) := ℕ × ℕ × τ

def executed (k : ℕ) : ℕ → List τ → List (Executed τ)
  | _, [] => []
  | i, tx :: txs => (k, i, tx) :: if (M.stop tx (faults k i)).isSome then [] else executed k (i + 1) txs

def stopOf (k : ℕ) : ℕ → List τ → Option Stop
  | _, [] => none
  | i, tx :: txs => (M.stop tx (faults k i)).or (stopOf k (i + 1) txs)

def trace (program : List τ) : ℕ → ℕ → List (Executed τ)
  | 0, _ => []
  | n + 1, k => M.executed faults k 0 program ++
      if M.stopOf faults k 0 program = some .again then trace program n (k + 1) else []

/-- No transaction before the place ends the attempt. -/
def Reached (program : List τ) (k i : ℕ) : Prop :=
  ∀ j < i, ∀ tx ∈ program[j]?, M.stop tx (faults k j) = none

/-- A transaction of the attempt ends it, to be tried again. -/
def Interrupted (program : List τ) (k : ℕ) : Prop :=
  ∃ i, M.Reached faults program k i ∧ ∃ tx ∈ program[i]?, M.stop tx (faults k i) = some .again

/-- Every attempt before it was interrupted. -/
def Made (program : List τ) (k : ℕ) : Prop := ∀ j < k, M.Interrupted faults program j

variable {M faults} {program : List τ} {k i n : ℕ} {s : σ} {tx : τ}

theorem attempt_eq (k i : ℕ) (txs : List τ) (s : σ) : M.attempt faults k i txs s =
    ((M.executed faults k i txs).foldl (fun s x => M.effect x.2.2 (faults x.1 x.2.1) s) s,
      M.stopOf faults k i txs) := by
  induction txs generalizing i s with
  | nil => rfl
  | cons tx txs ih =>
    cases hstop : M.stop tx (faults k i) with
    | none => simp [attempt, executed, stopOf, hstop, ih]
    | some stop => simp [attempt, executed, stopOf, hstop]

/-- The attempts do what was executed does. -/
theorem attempts_eq (n k : ℕ) (s : σ) : M.attempts faults program n k s =
    (M.trace faults program n k).foldl (fun s x => M.effect x.2.2 (faults x.1 x.2.1) s) s := by
  induction n generalizing k s with
  | zero => rfl
  | succ n ih =>
    rw [attempts, attempt_eq, trace, List.foldl_append]
    cases hstop : M.stopOf faults k 0 program with
    | none => rfl
    | some stop =>
      cases stop with
      | again => exact ih (k + 1) _
      | forGood => rfl

theorem mem_executed {x : Executed τ} {txs : List τ} : x ∈ M.executed faults k i txs ↔
    ∃ d, x.1 = k ∧ x.2.1 = i + d ∧ txs[d]? = some x.2.2 ∧
      ∀ e < d, ∀ tx ∈ txs[e]?, M.stop tx (faults k (i + e)) = none := by
  induction txs generalizing i with
  | nil => simp [executed]
  | cons tx txs ih =>
    rw [executed, List.mem_cons]
    constructor
    · rintro (rfl | hmem)
      · exact ⟨0, rfl, rfl, rfl, fun e he => absurd he (Nat.not_lt_zero e)⟩
      · cases hstop : M.stop tx (faults k i) with
        | some stop => simp [hstop] at hmem
        | none =>
          simp only [hstop, Option.isSome_none, Bool.false_eq_true, if_false] at hmem
          obtain ⟨d, hk, hi, htx, hclear⟩ := ih.mp hmem
          refine ⟨d + 1, hk, by omega, by simpa using htx, fun e he tx' htx' => ?_⟩
          cases e with
          | zero =>
            have hhead : tx = tx' := by simpa using htx'
            rw [← hhead]
            exact hstop
          | succ e =>
            have h := hclear e (by omega) tx' (by simpa using htx')
            rwa [show i + (e + 1) = i + 1 + e by omega]
    · rintro ⟨d, hk, hi, htx, hclear⟩
      cases d with
      | zero =>
        have hhead : tx = x.2.2 := by simpa using htx
        refine .inl ?_
        rw [← hk, hhead, ← Nat.add_zero i, ← hi]
      | succ d =>
        have hstop : M.stop tx (faults k i) = none := hclear 0 (by omega) tx (by simp)
        refine .inr ?_
        simp only [hstop, Option.isSome_none, Bool.false_eq_true, if_false]
        refine ih.mpr ⟨d, hk, by omega, by simpa using htx, fun e he tx' htx' => ?_⟩
        have h := hclear (e + 1) (by omega) tx' (by simpa using htx')
        rwa [show i + 1 + e = i + (e + 1) by omega]

theorem mem_executed_start {x : Executed τ} : x ∈ M.executed faults k 0 program ↔
    x.1 = k ∧ program[x.2.1]? = some x.2.2 ∧ M.Reached faults program k x.2.1 := by
  rw [mem_executed]
  constructor
  · rintro ⟨d, hk, hi, htx, hclear⟩
    rw [Nat.zero_add] at hi
    rw [hi]
    exact ⟨hk, htx, fun j hj tx' htx' => by simpa using hclear j hj tx' htx'⟩
  · rintro ⟨hk, htx, hclear⟩
    exact ⟨x.2.1, hk, (Nat.zero_add _).symm, htx, fun e he tx' htx' => by simpa using hclear e he tx' htx'⟩

theorem stopOf_again {txs : List τ} : M.stopOf faults k i txs = some .again ↔
    ∃ d, (∀ e < d, ∀ tx ∈ txs[e]?, M.stop tx (faults k (i + e)) = none) ∧
      ∃ tx ∈ txs[d]?, M.stop tx (faults k (i + d)) = some .again := by
  induction txs generalizing i with
  | nil => simp [stopOf]
  | cons tx txs ih =>
    rw [stopOf]
    cases hstop : M.stop tx (faults k i) with
    | some stop =>
      rw [Option.some_or]
      constructor
      · intro h
        exact ⟨0, fun e he => absurd he (Nat.not_lt_zero e), tx, by simp, by simpa [hstop] using h⟩
      · rintro ⟨d, hclear, tx', htx', hagain⟩
        cases d with
        | zero =>
          have hhead : tx = tx' := by simpa using htx'
          rw [← hhead, Nat.add_zero, hstop] at hagain
          exact hagain
        | succ d =>
          have h : M.stop tx (faults k i) = none := hclear 0 (by omega) tx (by simp)
          rw [hstop] at h
          cases h
    | none =>
      rw [Option.none_or, ih]
      constructor
      · rintro ⟨d, hclear, tx', htx', hagain⟩
        refine ⟨d + 1, fun e he tx'' htx'' => ?_, tx', by simpa using htx', ?_⟩
        · cases e with
          | zero =>
            have hhead : tx = tx'' := by simpa using htx''
            rw [← hhead]
            exact hstop
          | succ e =>
            have h := hclear e (by omega) tx'' (by simpa using htx'')
            rwa [show i + (e + 1) = i + 1 + e by omega]
        · rwa [show i + (d + 1) = i + 1 + d by omega]
      · rintro ⟨d, hclear, tx', htx', hagain⟩
        cases d with
        | zero =>
          have hhead : tx = tx' := by simpa using htx'
          rw [← hhead, Nat.add_zero, hstop] at hagain
          cases hagain
        | succ d =>
          refine ⟨d, fun e he tx'' htx'' => ?_, tx', by simpa using htx', ?_⟩
          · have h := hclear (e + 1) (by omega) tx'' (by simpa using htx'')
            rwa [show i + 1 + e = i + (e + 1) by omega]
          · rwa [show i + 1 + d = i + (d + 1) by omega]

theorem interrupted_iff : M.stopOf faults k 0 program = some .again ↔ M.Interrupted faults program k := by
  rw [stopOf_again]
  constructor
  · rintro ⟨d, hclear, tx, htx, hagain⟩
    exact ⟨d, fun j hj tx' htx' => by simpa using hclear j hj tx' htx', tx, htx, by simpa using hagain⟩
  · rintro ⟨d, hclear, tx, htx, hagain⟩
    exact ⟨d, fun j hj tx' htx' => by simpa using hclear j hj tx' htx', tx, htx, by simpa using hagain⟩

/-- What is executed: the places reached by the attempts that are made. -/
theorem mem_trace {x : Executed τ} : x ∈ M.trace faults program n k ↔ k ≤ x.1 ∧ x.1 < k + n ∧
    (∀ j, k ≤ j → j < x.1 → M.Interrupted faults program j) ∧ program[x.2.1]? = some x.2.2 ∧
      M.Reached faults program x.1 x.2.1 := by
  induction n generalizing k with
  | zero =>
    simp only [trace, List.not_mem_nil, false_iff]
    rintro ⟨hle, hlt, -⟩
    omega
  | succ n ih =>
    rw [trace, List.mem_append, mem_executed_start]
    constructor
    · rintro (⟨hk, htx, hreached⟩ | hlater)
      · exact ⟨by omega, by omega, fun j hle hlt => by omega, htx, hk ▸ hreached⟩
      · split_ifs at hlater with hagain
        · obtain ⟨hle, hlt, hmade, htx, hreached⟩ := ih.mp hlater
          refine ⟨by omega, by omega, fun j hj hj' => ?_, htx, hreached⟩
          rcases Nat.eq_or_lt_of_le hj with rfl | hlater
          · exact interrupted_iff.mp hagain
          · exact hmade j hlater hj'
        · cases hlater
    · rintro ⟨hle, hlt, hmade, htx, hreached⟩
      rcases Nat.eq_or_lt_of_le hle with heq | hlater
      · exact .inl ⟨heq.symm, htx, heq ▸ hreached⟩
      · refine .inr ?_
        rw [if_pos (interrupted_iff.mpr (hmade k le_rfl hlater))]
        exact ih.mpr ⟨hlater, by omega, fun j hj hj' => hmade j (by omega) hj', htx, hreached⟩

theorem executed_nodup (k i : ℕ) (txs : List τ) : (M.executed faults k i txs).Nodup := by
  induction txs generalizing i with
  | nil => exact List.nodup_nil
  | cons tx txs ih =>
    rw [executed, List.nodup_cons]
    split_ifs
    · exact ⟨List.not_mem_nil, List.nodup_nil⟩
    · refine ⟨fun hmem => ?_, ih (i + 1)⟩
      obtain ⟨d, -, hi, -⟩ := mem_executed.mp hmem
      dsimp only at hi
      omega

theorem trace_nodup (n k : ℕ) : (M.trace faults program n k).Nodup := by
  induction n generalizing k with
  | zero => exact List.nodup_nil
  | succ n ih =>
    rw [trace, List.nodup_append']
    refine ⟨executed_nodup k 0 program, ?_, fun x hx hx' => ?_⟩
    · split_ifs
      · exact ih (k + 1)
      · exact List.nodup_nil
    · have hk := (mem_executed_start.mp hx).1
      split_ifs at hx'
      · have hle := (mem_trace.mp hx').1
        omega
      · cases hx'

/-- With fewer faults than attempts, where only a fault interrupts, some attempt is not interrupted. -/
theorem exists_last {pattern : List ((ℕ × ℕ) × φ)} (hfew : pattern.length < n)
    (hfault : ∀ k, M.Interrupted faults program k → ∃ x ∈ pattern, x.1.1 = k) :
    ∃ m < n, M.Made faults program m ∧ ¬ M.Interrupted faults program m := by
  classical
  have hsome : ∃ m < n, ¬ M.Interrupted faults program m := by
    by_contra hall
    push Not at hall
    have hsub : Finset.range n ⊆ (pattern.map fun x => x.1.1).toFinset := by
      intro k hk
      obtain ⟨x, hx, hxk⟩ := hfault k (hall k (Finset.mem_range.mp hk))
      exact List.mem_toFinset.mpr (List.mem_map.mpr ⟨x, hx, hxk⟩)
    have hcard := (Finset.card_le_card hsub).trans (List.toFinset_card_le _)
    rw [Finset.card_range, List.length_map] at hcard
    omega
  obtain ⟨hlt, hnot⟩ := Nat.find_spec hsome
  refine ⟨Nat.find hsome, hlt, fun j hj => ?_, hnot⟩
  have hbefore := Nat.find_min hsome hj
  by_contra hj'
  exact hbefore ⟨hj.trans hlt, hj'⟩

end Semantics

end FxVol.RetriedPrograms
