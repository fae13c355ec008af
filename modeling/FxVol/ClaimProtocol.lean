import Mathlib.Logic.Function.Basic
import Mathlib.Logic.Relation
import Mathlib.Data.List.Basic

/-!
# Claims under which work is done at most once

Workers take claims, plan the items to make under the claim they hold and make them one by one.
A claim is taken when it is free, and given back only by a worker that has made nothing yet; a
worker may leave at any moment, finished or crashed, and then its claim stays taken.  Two items
that exclude each other must never both be made.  They never are, and nothing was ever made
under a claim that is free.
-/
namespace FxVol.ClaimProtocol

/-- A worker and the claim it holds: what it has yet to make, and whether it has made nothing. -/
structure Worker (Key Item : Type*) where
  key : Key
  rest : List Item
  fresh : Bool

structure State (Key Item : Type*) where
  claimed : Key → Bool
  workers : ℕ → Option (Worker Key Item)
  made : List Item

/-- Each item is made under one claim, and items that exclude each other under the same. -/
structure Rules (Key Item : Type*) where
  guard : Item → Key
  Excludes : Item → Item → Prop
  same_guard : ∀ x y, Excludes x y → guard x = guard y

variable {Key Item : Type*} (R : Rules Key Item)

/-- The items a worker may plan under a claim. -/
def Rules.Plan (k : Key) (items : List Item) : Prop :=
  (∀ x ∈ items, R.guard x = k) ∧ items.Pairwise fun x y => ¬ R.Excludes x y

inductive Step [DecidableEq Key] (s : State Key Item) : State Key Item → Prop
  | acquire (c : ℕ) (k : Key) (hfree : s.claimed k = false) (hidle : s.workers c = none) :
      Step s { s with
        claimed := Function.update s.claimed k true
        workers := Function.update s.workers c (some ⟨k, [], true⟩) }
  | plan (c : ℕ) (w : Worker Key Item) (items : List Item) (hw : s.workers c = some w)
      (hfresh : w.fresh = true) (hplan : R.Plan w.key items) :
      Step s { s with workers := Function.update s.workers c (some { w with rest := items }) }
  | make (c : ℕ) (w : Worker Key Item) (x : Item) (rest : List Item) (hw : s.workers c = some w)
      (hrest : w.rest = x :: rest) :
      Step s { s with
        workers := Function.update s.workers c (some ⟨w.key, rest, false⟩)
        made := s.made ++ [x] }
  | release (c : ℕ) (w : Worker Key Item) (hw : s.workers c = some w) (hfresh : w.fresh = true) :
      Step s { s with
        claimed := Function.update s.claimed w.key false
        workers := Function.update s.workers c none }
  | leave (c : ℕ) : Step s { s with workers := Function.update s.workers c none }

def Steps [DecidableEq Key] : State Key Item → State Key Item → Prop := Relation.ReflTransGen (Step R)

/-- What holds of a worker: it alone holds its claim, and its plan goes with what was made. -/
structure WorkerOk (s : State Key Item) (c : ℕ) (w : Worker Key Item) : Prop where
  held : s.claimed w.key = true
  sole : ∀ c' w', s.workers c' = some w' → w'.key = w.key → c' = c
  plan : R.Plan w.key w.rest
  fresh : w.fresh = true → ∀ x ∈ s.made, R.guard x ≠ w.key
  apart : ∀ x ∈ s.made, ∀ y ∈ w.rest, ¬ R.Excludes x y

structure Invariant (s : State Key Item) : Prop where
  workers : ∀ c w, s.workers c = some w → WorkerOk R s c w
  claimed : ∀ x ∈ s.made, s.claimed (R.guard x) = true
  once : s.made.Pairwise fun x y => ¬ R.Excludes x y

variable {R} {s t : State Key Item} {c : ℕ} {k : Key} {w : Worker Key Item} {x : Item}
  {items rest : List Item}

theorem Rules.Plan.tail (h : R.Plan k (x :: rest)) : R.Plan k rest :=
  ⟨fun y hy => h.1 y (List.mem_cons_of_mem _ hy), h.2.of_cons⟩

theorem Invariant.initial (hw : ∀ c, s.workers c = none) (hm : s.made = []) : Invariant R s where
  workers := by
    intro c w h
    rw [hw] at h
    cases h
  claimed := by simp [hm]
  once := by simp [hm]

theorem Invariant.acquire [DecidableEq Key] (h : Invariant R s) (hfree : s.claimed k = false) :
    Invariant R { s with
      claimed := Function.update s.claimed k true
      workers := Function.update s.workers c (some ⟨k, [], true⟩) } where
  workers := by
    have hother : ∀ c' w', s.workers c' = some w' → w'.key ≠ k := by
      rintro c' w' hw' rfl
      exact Bool.false_ne_true (hfree.symm.trans (h.workers c' w' hw').held)
    intro c' w' hw'
    by_cases hc : c' = c
    · subst hc
      simp only [Function.update_self, Option.some.injEq] at hw'
      subst hw'
      refine ⟨Function.update_self .., ?_, ⟨by simp, List.Pairwise.nil⟩, ?_, by simp⟩
      · intro c₁ w₁ hw₁ hkey
        by_contra hne
        simp only [Function.update_of_ne hne] at hw₁
        exact hother c₁ w₁ hw₁ hkey
      · rintro - x hx hguard
        have hclaimed := h.claimed x hx
        rw [hguard] at hclaimed
        exact Bool.false_ne_true (hfree.symm.trans hclaimed)
    · simp only [Function.update_of_ne hc] at hw'
      have hok := h.workers c' w' hw'
      have hkey := hother c' w' hw'
      refine ⟨(Function.update_of_ne hkey ..).trans hok.held, ?_, hok.plan, hok.fresh, hok.apart⟩
      intro c₁ w₁ hw₁ hsame
      by_cases hc₁ : c₁ = c
      · subst hc₁
        simp only [Function.update_self, Option.some.injEq] at hw₁
        subst hw₁
        exact absurd hsame.symm hkey
      · simp only [Function.update_of_ne hc₁] at hw₁
        exact hok.sole c₁ w₁ hw₁ hsame
  claimed := by
    intro x hx
    by_cases hk : R.guard x = k
    · simp [hk]
    · exact (Function.update_of_ne hk ..).trans (h.claimed x hx)
  once := h.once

/-- A worker is replaced by one that holds the same claim, and nothing else changes of the
claims. -/
theorem Invariant.replace (h : Invariant R s) (v : Worker Key Item) {made : List Item}
    (hw : s.workers c = some w) (hkey : v.key = w.key)
    (hplan : R.Plan v.key v.rest)
    (hfresh : v.fresh = true → ∀ x ∈ made, R.guard x ≠ v.key)
    (hapart : ∀ x ∈ made, ∀ y ∈ v.rest, ¬ R.Excludes x y)
    (hmade : ∀ x ∈ made, x ∈ s.made ∨ R.guard x = w.key)
    (honce : made.Pairwise fun x y => ¬ R.Excludes x y) :
    Invariant R { s with workers := Function.update s.workers c (some v), made := made } where
  workers := by
    have hold := h.workers c w hw
    have hback : ∀ c₁ w₁, Function.update s.workers c (some v) c₁ = some w₁ →
        ∃ w₀, s.workers c₁ = some w₀ ∧ w₁.key = w₀.key := by
      intro c₁ w₁ hw₁
      by_cases hc : c₁ = c
      · subst hc
        simp only [Function.update_self, Option.some.injEq] at hw₁
        subst hw₁
        exact ⟨w, hw, hkey⟩
      · rw [Function.update_of_ne hc] at hw₁
        exact ⟨w₁, hw₁, rfl⟩
    intro c' w₁ hw₁
    by_cases hc : c' = c
    · subst hc
      simp only [Function.update_self, Option.some.injEq] at hw₁
      subst hw₁
      refine ⟨by rw [hkey]; exact hold.held, ?_, hplan, hfresh, hapart⟩
      intro c₂ w₂ hw₂ hsame
      obtain ⟨w₀, hw₀, hkey₀⟩ := hback c₂ w₂ hw₂
      exact hold.sole c₂ w₀ hw₀ (by rw [← hkey₀, hsame, hkey])
    · simp only [Function.update_of_ne hc] at hw₁
      have hok := h.workers c' w₁ hw₁
      have hne : w.key ≠ w₁.key := fun heq => hc (hold.sole c' w₁ hw₁ heq.symm)
      refine ⟨hok.held, ?_, hok.plan, ?_, ?_⟩
      · intro c₂ w₂ hw₂ hsame
        obtain ⟨w₀, hw₀, hkey₀⟩ := hback c₂ w₂ hw₂
        exact hok.sole c₂ w₀ hw₀ (hkey₀.symm.trans hsame)
      · intro hf x hx
        rcases hmade x hx with hx | hx
        · exact hok.fresh hf x hx
        · rw [hx]
          exact hne
      · intro x hx y hy hex
        rcases hmade x hx with hx | hx
        · exact hok.apart x hx y hy hex
        · have hguard := R.same_guard x y hex
          rw [hx, hok.plan.1 y hy] at hguard
          exact hne hguard
  claimed := by
    intro x hx
    rcases hmade x hx with hx | hx
    · exact h.claimed x hx
    · rw [hx]
      exact (h.workers c w hw).held
  once := honce

theorem Invariant.plan (h : Invariant R s) (hw : s.workers c = some w) (hfresh : w.fresh = true)
    (hplan : R.Plan w.key items) :
    Invariant R { s with
      workers := Function.update s.workers c (some { w with rest := items }) } := by
  have hold := h.workers c w hw
  have hkeep : ∀ x ∈ s.made, x ∈ s.made ∨ R.guard x = w.key := fun x hx => .inl hx
  refine h.replace ⟨w.key, items, w.fresh⟩ hw rfl hplan hold.fresh ?_ hkeep h.once
  intro x hx y hy hex
  have hguard := R.same_guard x y hex
  rw [hplan.1 y hy] at hguard
  exact hold.fresh hfresh x hx hguard

theorem Invariant.make (h : Invariant R s) (hw : s.workers c = some w)
    (hrest : w.rest = x :: rest) :
    Invariant R { s with
      workers := Function.update s.workers c (some ⟨w.key, rest, false⟩)
      made := s.made ++ [x] } := by
  have hold := h.workers c w hw
  have hplan := hold.plan
  have hapart := hold.apart
  rw [hrest] at hplan hapart
  apply h.replace ⟨w.key, rest, false⟩ hw rfl hplan.tail (by simp)
  · intro y hy z hz
    rcases List.mem_append.mp hy with hy | hy
    · exact hapart y hy z (List.mem_cons_of_mem _ hz)
    · rw [List.mem_singleton.mp hy]
      exact (List.pairwise_cons.mp hplan.2).1 z hz
  · intro y hy
    rcases List.mem_append.mp hy with hy | hy
    · exact .inl hy
    · rw [List.mem_singleton.mp hy]
      exact .inr (hplan.1 x List.mem_cons_self)
  · rw [List.pairwise_append]
    refine ⟨h.once, List.pairwise_singleton .., ?_⟩
    intro y hy z hz
    rw [List.mem_singleton.mp hz]
    exact hapart y hy x List.mem_cons_self

/-- A worker that leaves takes nothing with it. -/
theorem Invariant.leave (h : Invariant R s) :
    Invariant R { s with workers := Function.update s.workers c none } where
  workers := by
    have hback : ∀ c₁ w₁, Function.update s.workers c none c₁ = some w₁ →
        s.workers c₁ = some w₁ := by
      intro c₁ w₁ hw₁
      by_cases hc : c₁ = c
      · subst hc
        rw [Function.update_self] at hw₁
        cases hw₁
      · rwa [Function.update_of_ne hc] at hw₁
    intro c' w' hw'
    have hok := h.workers c' w' (hback c' w' hw')
    exact ⟨hok.held, fun c₁ w₁ hw₁ => hok.sole c₁ w₁ (hback c₁ w₁ hw₁), hok.plan, hok.fresh,
      hok.apart⟩
  claimed := h.claimed
  once := h.once

theorem Invariant.release [DecidableEq Key] (h : Invariant R s) (hw : s.workers c = some w)
    (hfresh : w.fresh = true) :
    Invariant R { s with
      claimed := Function.update s.claimed w.key false
      workers := Function.update s.workers c none } where
  workers := by
    have hold := h.workers c w hw
    intro c' w' hw'
    have hc : c' ≠ c := by
      rintro rfl
      simp at hw'
    have hok := h.leave.workers c' w' hw'
    simp only [Function.update_of_ne hc] at hw'
    have hne : w'.key ≠ w.key := fun heq => hc (hold.sole c' w' hw' heq)
    exact ⟨(Function.update_of_ne hne ..).trans hok.held, hok.sole, hok.plan, hok.fresh, hok.apart⟩
  claimed := by
    intro x hx
    have hne := (h.workers c w hw).fresh hfresh x hx
    exact (Function.update_of_ne hne ..).trans (h.claimed x hx)
  once := h.once

theorem Invariant.step [DecidableEq Key] (h : Invariant R s) (hst : Step R s t) : Invariant R t := by
  cases hst with
  | acquire c k hfree => exact h.acquire hfree
  | plan c w items hw hfresh hplan => exact h.plan hw hfresh hplan
  | make c w x rest hw hrest => exact h.make hw hrest
  | release c w hw hfresh => exact h.release hw hfresh
  | leave c => exact h.leave

theorem Invariant.steps [DecidableEq Key] (h : Invariant R s) (hst : Steps R s t) : Invariant R t := by
  induction hst with
  | refl => exact h
  | tail _ hlast ih => exact ih.step hlast

/-- Nothing has been made under a claim that is free. -/
theorem Invariant.free (h : Invariant R s) (hfree : s.claimed k = false) :
    ∀ x ∈ s.made, R.guard x ≠ k := by
  rintro x hx rfl
  exact Bool.false_ne_true (hfree.symm.trans (h.claimed x hx))

end FxVol.ClaimProtocol
