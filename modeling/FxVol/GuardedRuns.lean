import Mathlib.Data.List.Forall2
import Mathlib.Logic.Relation

/-!
# Runs of a transition function whose steps meet a guard

`Run step guard s t` says that `t` is reached from `s` by finitely many steps, each of
which meets `guard` in the state where it is taken.  The guard `fun _ _ => True` gives
all runs.  The rules below are the ones a safety proof needs: an invariant kept by every
guarded step, a relation kept along a run, and a run replayed under a weaker guard.
-/
namespace FxVol.GuardedRuns

variable {σ τ ε : Type*} {step : σ → ε → σ} {guard guard' : σ → ε → Prop} {s t u : σ}

def Run (step : σ → ε → σ) (guard : σ → ε → Prop) : σ → σ → Prop :=
  Relation.ReflTransGen fun s t => ∃ e, guard s e ∧ t = step s e

theorem Run.refl (s : σ) : Run step guard s s := Relation.ReflTransGen.refl

theorem Run.snoc (h : Run step guard s t) (e : ε) (he : guard t e) :
    Run step guard s (step t e) := Relation.ReflTransGen.tail h ⟨e, he, rfl⟩

theorem Run.trans (h : Run step guard s t) (h' : Run step guard t u) : Run step guard s u :=
  Relation.ReflTransGen.trans h h'

/-- An invariant that every guarded step keeps holds at the end of a guarded run. -/
theorem Run.invariant {I : σ → Prop} (keep : ∀ s e, I s → guard s e → I (step s e))
    (h : Run step guard s t) (hs : I s) : I t := by
  induction h with
  | refl => exact hs
  | tail _ hst ih =>
    obtain ⟨e, he, rfl⟩ := hst
    exact keep _ e ih he

/-- A transitive relation that every guarded step refines relates the ends of a run; the
step may use an invariant of the run. -/
theorem Run.rel {I : σ → Prop} {R : σ → σ → Prop} (refl : ∀ s, R s s)
    (trans : ∀ s t u, R s t → R t u → R s u)
    (keep : ∀ s e, I s → guard s e → I (step s e))
    (one : ∀ s e, I s → guard s e → R s (step s e))
    (h : Run step guard s t) (hs : I s) : R s t := by
  have both : I t ∧ R s t := by
    induction h with
    | refl => exact ⟨hs, refl s⟩
    | tail _ hst ih =>
      obtain ⟨e, he, rfl⟩ := hst
      exact ⟨keep _ e ih.1 he, trans _ _ _ ih.2 (one _ e ih.1 he)⟩
  exact both.2

theorem Run.mono (weaker : ∀ s e, guard s e → guard' s e) (h : Run step guard s t) :
    Run step guard' s t := by
  induction h with
  | refl => exact Run.refl s
  | tail _ hst ih =>
    obtain ⟨e, he, rfl⟩ := hst
    exact ih.snoc e (weaker _ e he)

/-- Each step of the list meets the guard in the state it is taken from. -/
def Guarded (step : σ → ε → σ) (guard : σ → ε → Prop) : σ → List ε → Prop
  | _, [] => True
  | s, e :: es => guard s e ∧ Guarded step guard (step s e) es

instance Guarded.decidable (step : σ → ε → σ) (guard : σ → ε → Prop)
    [∀ s e, Decidable (guard s e)] : ∀ s es, Decidable (Guarded step guard s es)
  | _, [] => .isTrue trivial
  | s, e :: es =>
    have := Guarded.decidable step guard (step s e) es
    inferInstanceAs (Decidable (guard s e ∧ Guarded step guard (step s e) es))

theorem Run.of_foldl (es : List ε) (h : Guarded step guard s es) :
    Run step guard s (es.foldl step s) := by
  induction es generalizing s with
  | nil => exact Run.refl s
  | cons e es ih => exact ((Run.refl s).snoc e h.1).trans (ih h.2)

theorem guarded_append {es es' : List ε} : Guarded step guard s (es ++ es') ↔
    Guarded step guard s es ∧ Guarded step guard (es.foldl step s) es' := by
  induction es generalizing s with
  | nil => exact ⟨fun h => ⟨trivial, h⟩, And.right⟩
  | cons e es ih =>
    rw [List.cons_append, Guarded, ih, Guarded, and_assoc]
    rfl

/-- Two guards that agree wherever an invariant holds guard the same runs. -/
theorem Guarded.congr {I : σ → Prop} (keep : ∀ s e, I s → I (step s e))
    (same : ∀ s e, I s → (guard s e ↔ guard' s e)) (hI : I s) (es : List ε) :
    Guarded step guard s es ↔ Guarded step guard' s es := by
  induction es generalizing s with
  | nil => exact Iff.rfl
  | cons e es ih => exact and_congr (same s e hI) (ih (keep s e hI))

/-- Where every step that meets a guard meets another one and keeps an invariant, so does a run of such events. -/
theorem Guarded.imp {I : σ → Prop} {C : ε → Prop}
    (one : ∀ s e, C e → I s → guard s e → guard' s e ∧ I (step s e)) (hI : I s) {es : List ε} (hC : ∀ e ∈ es, C e)
    (h : Guarded step guard s es) : Guarded step guard' s es := by
  induction es generalizing s with
  | nil => trivial
  | cons e es ih =>
    obtain ⟨he, hrest⟩ := List.forall_mem_cons.mp hC
    obtain ⟨hone, hkept⟩ := one s e he hI h.1
    exact ⟨hone, ih hkept hrest h.2⟩

theorem Guarded.mono (weaker : ∀ s e, guard s e → guard' s e) {es : List ε} (h : Guarded step guard s es) :
    Guarded step guard' s es :=
  h.imp (I := fun _ => True) (C := fun _ => True) (fun s e _ _ hone => ⟨weaker s e hone, trivial⟩) trivial fun _ _ => trivial

/-- Where a guard tells exactly the steps that keep a property, it holds all along a run just
when every step meets the guard. -/
theorem guarded_iff {I P : σ → Prop} (keep : ∀ s e, I s → I (step s e))
    (exact : ∀ s e, I s → P s → (P (step s e) ↔ guard s e)) (hI : I s) (hP : P s) (es : List ε) :
    (∀ past, past <+: es → P (past.foldl step s)) ↔ Guarded step guard s es := by
  induction es generalizing s with
  | nil =>
    refine iff_of_true ?_ trivial
    intro past hpast
    rw [List.prefix_nil.mp hpast]
    exact hP
  | cons e es ih =>
    constructor
    · intro hall
      have hone : P (step s e) := hall [e] (List.cons_prefix_cons.mpr ⟨rfl, List.nil_prefix⟩)
      refine ⟨(exact s e hI hP).mp hone, (ih (keep s e hI) hone).mp ?_⟩
      intro past hpast
      exact hall (e :: past) (List.cons_prefix_cons.mpr ⟨rfl, hpast⟩)
    · rintro ⟨hguard, hrest⟩ past hpast
      have hone := (exact s e hI hP).mpr hguard
      rcases List.prefix_cons_iff.mp hpast with rfl | ⟨rest, rfl, hmore⟩
      · exact hP
      · exact (ih (keep s e hI) hone).mpr hrest rest hmore

/-- The same of a property of the steps: every step of a run has it just when every step meets the
guard. -/
theorem guarded_iff_steps {I : σ → Prop} {Q : σ → ε → Prop}
    (keep : ∀ s e, I s → Q s e → I (step s e)) (exact : ∀ s e, I s → (Q s e ↔ guard s e)) (hI : I s)
    (es : List ε) :
    (∀ past e, past ++ [e] <+: es → Q (past.foldl step s) e) ↔ Guarded step guard s es := by
  induction es generalizing s with
  | nil =>
    refine iff_of_true ?_ trivial
    intro past e hpast
    simp at hpast
  | cons e es ih =>
    constructor
    · intro hall
      have hone : Q s e := hall [] e (List.cons_prefix_cons.mpr ⟨rfl, List.nil_prefix⟩)
      refine ⟨(exact s e hI).mp hone, (ih (keep s e hI hone)).mp ?_⟩
      intro past e' hpast
      exact hall (e :: past) e' (List.cons_prefix_cons.mpr ⟨rfl, hpast⟩)
    · rintro ⟨hguard, hrest⟩ past e' hpast
      have hone := (exact s e hI).mpr hguard
      cases past with
      | nil =>
        obtain ⟨rfl, -⟩ := List.cons_prefix_cons.mp hpast
        exact hone
      | cons f past =>
        obtain ⟨rfl, hmore⟩ := List.cons_prefix_cons.mp hpast
        exact (ih (keep s f hI hone)).mpr hrest past e' hmore

/-- Every step of a guarded run meets the guard. -/
theorem Guarded.at_step {es past : List ε} {e : ε} (h : Guarded step guard s es) (hpast : past ++ [e] <+: es) :
    guard (past.foldl step s) e :=
  (guarded_iff_steps (I := fun _ => True) (fun _ _ _ _ => trivial) (fun _ _ _ => Iff.rfl) trivial es).mpr h past e hpast

/-- Two runs in lockstep end in related states when matching steps keep the relation. -/
theorem Guarded.lockstep {same : ε → ε → Prop} {R : σ → σ → Prop}
    (keep : ∀ s t e e', R s t → same e e' → guard s e → R (step s e) (step t e')) {es es' : List ε}
    (hsame : List.Forall₂ same es es') (hR : R s t) (h : Guarded step guard s es) :
    R (es.foldl step s) (es'.foldl step t) := by
  induction hsame generalizing s t with
  | nil => exact hR
  | cons he _ ih => exact ih (keep s t _ _ hR he h.1) h.2

/-- Every list of events is a run under the guard that always holds. -/
theorem Run.of_events (es : List ε) : Run step (fun _ _ => True) s (es.foldl step s) := by
  apply Run.of_foldl
  induction es generalizing s with
  | nil => trivial
  | cons e es ih => exact ⟨trivial, ih⟩

end FxVol.GuardedRuns
