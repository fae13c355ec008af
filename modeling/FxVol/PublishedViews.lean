import Mathlib.Data.Int.Order.Basic
import Mathlib.Data.List.Basic
import Mathlib.Data.List.Induction

/-!
# Views published under a time to live

A publisher looks at a source that changes, computes a view of it, and writes it some time later under a key that expires.
Whatever else happens in between, a reader finds nothing, or a view of the source as it was at an earlier moment, which was
written no longer ago than the time to live.
-/
namespace FxVol.PublishedViews

/-- What a computation under way has found, and what the key holds with the instant of its expiry -/
structure Channel (β : Type*) where
  found : Option β
  held : Option (β × ℤ)

namespace Channel
variable {β : Type*} (c : Channel β)

def empty : Channel β := ⟨none, none⟩

def look (v : β) : Channel β := { c with found := some v }

/-- What was found is written, if anything was. -/
def write (now ttl : ℤ) : Channel β :=
  match c.found with
  | some v => ⟨none, some (v, now + ttl)⟩
  | none => c

def drop : Channel β := { c with found := none }

def read (now : ℤ) : Option β := (c.held.filter fun h => now < h.2).map Prod.fst

variable {c}

theorem read_eq_some {now : ℤ} {v : β} (h : c.read now = some v) : ∃ t, c.held = some (v, t) ∧ now < t := by
  obtain ⟨⟨_, t⟩, hheld, rfl⟩ := Option.map_eq_some_iff.mp h
  obtain ⟨hheld, hlive⟩ := Option.filter_eq_some_iff.mp hheld
  exact ⟨t, hheld, of_decide_eq_true hlive⟩

end Channel

variable {σ ε β : Type*} {step : σ → ε → σ} {channel : σ → Channel β} {view : σ → Option β} {clock : σ → ℤ} {ttl : ℤ}

/-- What a step may make of the channel -/
inductive Touched (channel : σ → Channel β) (view : σ → Option β) (clock : σ → ℤ) (ttl : ℤ) (s : σ) : Channel β → Prop
  | kept : Touched channel view clock ttl s (channel s)
  | looked (v : β) (h : view s = some v) : Touched channel view clock ttl s ((channel s).look v)
  | written : Touched channel view clock ttl s ((channel s).write (clock s) ttl)
  | dropped : Touched channel view clock ttl s (channel s).drop

/-- Where the contents of a channel come from: prefixes of the run, at whose ends they were seen and written -/
structure Traced (step : σ → ε → σ) (channel : σ → Channel β) (view : σ → Option β) (clock : σ → ℤ) (ttl : ℤ) (start : σ)
    (es : List ε) : Prop where
  found : ∀ v, (channel (es.foldl step start)).found = some v → ∃ past, past <+: es ∧ view (past.foldl step start) = some v
  held : ∀ v t, (channel (es.foldl step start)).held = some (v, t) → ∃ past mid, past <+: mid ∧ mid <+: es ∧
    view (past.foldl step start) = some v ∧ t = clock (mid.foldl step start) + ttl

theorem Traced.start {start : σ} (h : channel start = .empty) : Traced step channel view clock ttl start [] := by
  constructor
  · intro v hv
    simp [h, Channel.empty] at hv
  · intro v t hv
    simp [h, Channel.empty] at hv

theorem Traced.snoc {start : σ} {es : List ε} (h : Traced step channel view clock ttl start es) (e : ε)
    (htouch : Touched channel view clock ttl (es.foldl step start) (channel (step (es.foldl step start) e))) :
    Traced step channel view clock ttl start (es ++ [e]) := by
  have hlast : (es ++ [e]).foldl step start = step (es.foldl step start) e := List.foldl_concat ..
  have hgrow : es <+: es ++ [e] := List.prefix_append es [e]
  have hfound : ∀ v, (channel (es.foldl step start)).found = some v →
      ∃ past, past <+: es ++ [e] ∧ view (past.foldl step start) = some v := by
    intro v hv
    obtain ⟨past, hpast, hview⟩ := h.found v hv
    exact ⟨past, hpast.trans hgrow, hview⟩
  have hheld : ∀ v t, (channel (es.foldl step start)).held = some (v, t) → ∃ past mid, past <+: mid ∧ mid <+: es ++ [e] ∧
      view (past.foldl step start) = some v ∧ t = clock (mid.foldl step start) + ttl := by
    intro v t hv
    obtain ⟨past, mid, hpast, hmid, hrest⟩ := h.held v t hv
    exact ⟨past, mid, hpast, hmid.trans hgrow, hrest⟩
  generalize hafter : channel (step (es.foldl step start) e) = after at htouch
  rw [← hlast] at hafter
  constructor
  · rw [hafter]
    cases htouch with
    | kept => exact hfound
    | looked v hview =>
      intro v' hv'
      obtain rfl := Option.some.inj hv'
      exact ⟨es, hgrow, hview⟩
    | written =>
      rw [Channel.write]
      cases hseen : (channel (es.foldl step start)).found with
      | none => exact hfound
      | some v => simp
    | dropped => simp [Channel.drop]
  · rw [hafter]
    cases htouch with
    | kept => exact hheld
    | looked v hview => exact hheld
    | written =>
      rw [Channel.write]
      cases hseen : (channel (es.foldl step start)).found with
      | none => exact hheld
      | some v =>
        intro v' t hv'
        obtain ⟨rfl, rfl⟩ := Prod.mk.inj (Option.some.inj hv')
        obtain ⟨past, hpast, hview⟩ := h.found v hseen
        exact ⟨past, es, hpast, hgrow, hview, rfl⟩
    | dropped => exact hheld

theorem Traced.run {start : σ} (h : channel start = .empty)
    (htouch : ∀ s e, Touched channel view clock ttl s (channel (step s e))) (es : List ε) :
    Traced step channel view clock ttl start es := by
  induction es using List.reverseRecOn with
  | nil => exact .start h
  | append_singleton es e ih => exact ih.snoc e (htouch _ e)

/-- A reader sees what was a view of the source at an earlier moment, and was written within the time to live. -/
theorem Traced.read {start : σ} {es : List ε} (h : Traced step channel view clock ttl start es) {v : β}
    (hread : (channel (es.foldl step start)).read (clock (es.foldl step start)) = some v) :
    ∃ past mid, past <+: mid ∧ mid <+: es ∧ view (past.foldl step start) = some v ∧
      clock (es.foldl step start) < clock (mid.foldl step start) + ttl := by
  obtain ⟨t, hheld, hlive⟩ := Channel.read_eq_some hread
  obtain ⟨past, mid, hpast, hmid, hview, rfl⟩ := h.held v t hheld
  exact ⟨past, mid, hpast, hmid, hview, hlive⟩

end FxVol.PublishedViews
