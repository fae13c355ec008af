import FxVol.GuardedRuns
import Mathlib.Data.List.Basic

/-!
# Read, modify, write

Tasks share a row and hold no lock: each reads the row, and later writes back the columns that
its own change of what it has read alters, over what the row has become by then.  A run is as good
as one task after another where a task that writes has read the columns as they are.
-/
namespace FxVol.ReadModifyWrite

open GuardedRuns

variable {σ τ ν : Type*}

/-- Tasks `τ` on a row `σ`, of which the columns `ν` are looked at: what a task makes of a row,
and what it writes over the current row once it has read another. -/
structure Writer (σ τ ν : Type*) where
  apply : σ → τ → σ
  write (read current : σ) (t : τ) : σ
  view : σ → ν
  fresh (read current : σ) (t : τ) : view read = view current →
    view (write read current t) = view (apply current t)
  idle (read current : σ) (t : τ) : view (apply read t) = view read →
    view (write read current t) = view current

/-- The row, the tasks under way with the row they have read, and the tasks that have run. -/
structure Table (σ τ : Type*) where
  row : σ
  reading : List (τ × σ)
  ran : List τ

inductive Move (τ : Type*)
  | read (t : τ)
  | commit (k : ℕ)

namespace Writer

def step (W : Writer σ τ ν) (w : Table σ τ) : Move τ → Table σ τ
  | .read t => { w with reading := w.reading ++ [(t, w.row)] }
  | .commit k =>
    match w.reading[k]? with
    | none => w
    | some (t, read) => ⟨W.write read w.row t, w.reading.eraseIdx k, w.ran ++ [t]⟩

/-- A task that changes the columns commits over the columns it has read; `ok` says what tasks may
come. -/
def Serial (W : Writer σ τ ν) (ok : ν → τ → Prop) (w : Table σ τ) : Move τ → Prop
  | .read _ => True
  | .commit k => ∀ task ∈ w.reading[k]?, ok (W.view task.2) task.1 ∧
      (W.view task.2 = W.view w.row ∨ W.view (W.apply task.2 task.1) = W.view task.2)

/-- What one task after another keeps: `I` of the columns and the tasks that have run, and a
relation `R` in which every task lets the columns grow. -/
structure Keeps (W : Writer σ τ ν) (ok : ν → τ → Prop) (I : ν → List τ → Prop) (R : ν → ν → Prop) :
    Prop where
  refl : ∀ v, R v v
  trans : ∀ u v w, R u v → R v w → R u w
  grows : ∀ row t, R (W.view row) (W.view (W.apply row t))
  apply : ∀ row ran t, I (W.view row) ran → ok (W.view row) t →
    I (W.view (W.apply row t)) (ran ++ [t])
  idle : ∀ read row ran t, I (W.view row) ran → ok (W.view read) t →
    R (W.view read) (W.view row) → W.view (W.apply read t) = W.view read →
      I (W.view row) (ran ++ [t])

variable {W : Writer σ τ ν} {ok : ν → τ → Prop} {I : ν → List τ → Prop} {R : ν → ν → Prop}
  {w w' : Table σ τ}

/-- The columns have grown since a task under way has read them. -/
def Grown (W : Writer σ τ ν) (R : ν → ν → Prop) (w : Table σ τ) : Prop :=
  ∀ task ∈ w.reading, R (W.view task.2) (W.view w.row)

theorem Keeps.step (h : W.Keeps ok I R) (hI : I (W.view w.row) w.ran) (hg : W.Grown R w)
    {m : Move τ} (hm : W.Serial ok w m) : I (W.view (W.step w m).row) (W.step w m).ran ∧
      R (W.view w.row) (W.view (W.step w m).row) ∧ W.Grown R (W.step w m) := by
  cases m with
  | read t =>
    refine ⟨hI, h.refl _, ?_⟩
    intro task htask
    rcases List.mem_append.mp htask with hold | hnew
    · exact hg task hold
    · rw [List.mem_singleton.mp hnew]
      exact h.refl _
  | commit k =>
    cases hk : w.reading[k]? with
    | none =>
      have hsame : W.step w (.commit k) = w := by rw [Writer.step, hk]
      rw [hsame]
      exact ⟨hI, h.refl _, hg⟩
    | some task =>
      obtain ⟨t, read⟩ := task
      have hstep : W.step w (.commit k) =
          ⟨W.write read w.row t, w.reading.eraseIdx k, w.ran ++ [t]⟩ := by rw [Writer.step, hk]
      obtain ⟨hok, hserial⟩ := hm (t, read) hk
      have hread := hg (t, read) (List.mem_of_getElem? hk)
      have hrow : I (W.view (W.write read w.row t)) (w.ran ++ [t]) ∧
          R (W.view w.row) (W.view (W.write read w.row t)) := by
        rcases hserial with hfresh | hidle
        · rw [W.fresh read w.row t hfresh]
          exact ⟨h.apply _ _ _ hI (hfresh ▸ hok), h.grows _ _⟩
        · rw [W.idle read w.row t hidle]
          exact ⟨h.idle _ _ _ _ hI hok hread hidle, h.refl _⟩
      rw [hstep]
      refine ⟨hrow.1, hrow.2, ?_⟩
      intro task htask
      exact h.trans _ _ _ (hg task (List.mem_of_mem_eraseIdx htask)) hrow.2

/-- What one task after another keeps, a run keeps whose writing tasks have read the columns as
they are. -/
theorem Keeps.run (h : W.Keeps ok I R) (hrun : Run W.step (W.Serial ok) w w')
    (hI : I (W.view w.row) w.ran) (hg : W.Grown R w) :
    I (W.view w'.row) w'.ran ∧ W.Grown R w' ∧ R (W.view w.row) (W.view w'.row) := by
  have hkeep (u : Table σ τ) (m : Move τ) (hu : I (W.view u.row) u.ran ∧ W.Grown R u)
      (hm : W.Serial ok u m) :
      I (W.view (W.step u m).row) (W.step u m).ran ∧ W.Grown R (W.step u m) := by
    obtain ⟨hI', _, hg'⟩ := h.step hu.1 hu.2 hm
    exact ⟨hI', hg'⟩
  obtain ⟨hI', hg'⟩ := hrun.invariant (I := fun u => I (W.view u.row) u.ran ∧ W.Grown R u)
    hkeep ⟨hI, hg⟩
  refine ⟨hI', hg', ?_⟩
  exact hrun.rel (I := fun u => I (W.view u.row) u.ran ∧ W.Grown R u)
    (R := fun u v => R (W.view u.row) (W.view v.row)) (fun _ => h.refl _)
    (fun _ _ _ => h.trans _ _ _) hkeep (fun u m hu hm => (h.step hu.1 hu.2 hm).2.1) ⟨hI, hg⟩

end Writer

end FxVol.ReadModifyWrite
