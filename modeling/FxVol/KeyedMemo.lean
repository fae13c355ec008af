import Mathlib.Data.List.Chain
import Mathlib.Data.List.ReduceOption

/-!
# A memo of one entry

A memo that keeps the last computed value under a key of its input, and computes again when the key changes or
nothing was kept.  It answers as if it always computed just where neighbours with one key have one value.
-/
namespace FxVol.KeyedMemo

variable {ι κ β : Type*} [DecidableEq κ] (key : ι → κ) (compute : ι → Option β)

structure Slot (κ β : Type*) where
  key : Option κ
  value : Option β

def Slot.empty : Slot κ β := ⟨none, none⟩

/-- The slot after an input has been computed -/
def Slot.held (x : ι) : Slot κ β := ⟨some (key x), compute x⟩

/-- Serving an input; where there is none, there is no answer. -/
def serve (s : Slot κ β) : Option ι → Slot κ β × Option β
  | none => (s, none)
  | some x => if s.key = some (key x) ∧ s.value.isSome then (s, s.value) else (.held key compute x, compute x)

def answers (s : Slot κ β) : List (Option ι) → List (Option β)
  | [] => []
  | x :: xs => (serve key compute s x).2 :: answers (serve key compute s x).1 xs

/-- An input with the key of the one before has its value, if that had one. -/
def Agree (x y : ι) : Prop := key x = key y → compute x ≠ none → compute y = compute x

variable {key compute} {x y : ι} {xs : List (Option ι)}

theorem serve_empty : serve key compute .empty (some x) = (.held key compute x, compute x) := by
  rw [serve]
  exact if_neg fun hit => nomatch hit.1

theorem serve_held (h : Agree key compute x y) :
    serve key compute (.held key compute x) (some y) = (.held key compute y, compute y) := by
  rw [serve]
  by_cases hit : (Slot.held key compute x).key = some (key y) ∧ (Slot.held key compute x).value.isSome
  · rw [if_pos hit]
    have hkey : key x = key y := Option.some.inj hit.1
    have hvalue := h hkey (Option.isSome_iff_ne_none.mp hit.2)
    rw [Slot.held, Slot.held, hkey, hvalue]
  · rw [if_neg hit]

/-- An input with the key of the kept one gets the kept value. -/
theorem serve_hit (hkey : key x = key y) (hvalue : compute x ≠ none) :
    serve key compute (.held key compute x) (some y) = (.held key compute x, compute x) := by
  rw [serve]
  exact if_pos ⟨congrArg some hkey, Option.isSome_iff_ne_none.mpr hvalue⟩

theorem agree_of_serve (h : (serve key compute (.held key compute x) (some y)).2 = compute y) : Agree key compute x y := by
  intro hkey hvalue
  rw [serve_hit hkey hvalue] at h
  exact h.symm

/-- From an input that was computed, the answers are right just where neighbours agree. -/
theorem answers_held_iff : answers key compute (.held key compute x) xs = xs.map (·.bind compute) ↔
    (x :: xs.reduceOption).IsChain (Agree key compute) := by
  induction xs generalizing x with
  | nil => exact iff_of_true rfl (.singleton x)
  | cons y xs ih =>
    cases y with
    | none =>
      rw [List.reduceOption_cons_of_none, ← ih]
      exact List.cons_inj_right none
    | some y =>
      rw [List.reduceOption_cons_of_some, List.isChain_cons_cons, ← ih, answers, List.map_cons, List.cons_eq_cons]
      constructor
      · rintro ⟨hfirst, hrest⟩
        have hagree := agree_of_serve hfirst
        rw [serve_held hagree] at hrest
        exact ⟨hagree, hrest⟩
      · rintro ⟨hagree, hrest⟩
        rw [serve_held hagree]
        exact ⟨rfl, hrest⟩

/-- A memo that starts empty answers right just where neighbours agree. -/
theorem answers_iff : answers key compute .empty xs = xs.map (·.bind compute) ↔
    xs.reduceOption.IsChain (Agree key compute) := by
  induction xs with
  | nil => exact iff_of_true rfl .nil
  | cons x xs ih =>
    cases x with
    | none =>
      rw [List.reduceOption_cons_of_none, ← ih]
      exact List.cons_inj_right none
    | some x =>
      rw [List.reduceOption_cons_of_some, ← answers_held_iff, answers, List.map_cons, serve_empty]
      exact List.cons_inj_right _

end FxVol.KeyedMemo
