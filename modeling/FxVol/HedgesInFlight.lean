import FxVol.DeltaHedge
import FxVol.GuardedRuns
import FxVol.RowUpdates
import FxVol.TableTotals

/-!
# Hedges in flight

The monitor nets the hedges of a position whose rows are pending or submitted. A row follows what becomes of its
future at IB through the request that places it and through one callback, for one status.
-/
namespace FxVol.HedgesInFlight

open GuardedRuns

/-- A request before its claim: it loads the row, qualifies the contract, asks for a quote, and claims. -/
inductive Early | start | loaded | qualified | priced
  deriving DecidableEq

/-- The request under the claim: before `placeOrder`, after one that raised, or with a trade to stamp -/
inductive Holder | claimed | releasing | placed
  deriving DecidableEq

/-- A future at IB. It is `watched` from the callback of `submit_hedge_order` on, and has `news` when that was given
a status `Filled`. -/
structure Future where
  filled : ℕ
  live : Bool
  watched : Bool
  news : Bool
  deriving DecidableEq

/-- The callback is given the status of a future. -/
def Future.reported (qty : ℕ) (f : Future) : Future := { f with news := f.news || (f.watched && f.filled == qty) }

def Future.executed (qty n : ℕ) (f : Future) : Future :=
  if f.live then
    Future.reported qty { f with filled := min (f.filled + n) qty, live := decide (f.filled + n < qty) }
  else f

/-- A `hedge_order` row with its id in `_pending_hedge_ids`, the requests for it, and its futures at IB -/
structure Hedge where
  row : PositionHedge
  queued : Bool
  early : List Early
  holder : Option Holder
  futures : List Future
  deriving DecidableEq

namespace Hedge

/-- What `claim_submit` asks of the row -/
def Claimable (h : Hedge) : Prop := h.row.submitClaimedAt = none ∧ h.row.ibOrderId = none

instance (h : Hedge) : Decidable h.Claimable := inferInstanceAs (Decidable (_ ∧ _))

def setEarly (h : Hedge) (k : ℕ) (e : Early) : Hedge := { h with early := h.early.set k e }

def leave (h : Hedge) (k : ℕ) : Hedge := { h with early := h.early.eraseIdx k }

def letGo (h : Hedge) : Hedge := { h with holder := none }

def fail (h : Hedge) : Hedge := { h with row := { h.row with state := .failed } }

def claim (h : Hedge) (now : Instant) : Hedge :=
  { h with row := { h.row with submitClaimedAt := some now }, holder := some .claimed }

/-- A step of a request before its claim; `ok` says that IB is up, the contract qualifies, or there is a price. -/
def earlyStep (h : Hedge) (k : ℕ) (ok : Bool) (now : Instant) : Early → Hedge
  | .start => if ok ∧ h.row.state = .pending then h.setEarly k .loaded else h.leave k
  | .loaded => if ok then h.setEarly k .qualified else (h.leave k).fail
  | .qualified => if ok then h.setEarly k .priced else (h.leave k).fail
  | .priced => if h.Claimable then (h.leave k).claim now else h.leave k

/-- A step under the claim; `ok` says that `placeOrder` did not raise, or that the stamp was committed. -/
def holderStep (h : Hedge) (ok : Bool) (ids : IbIds) (now : Instant) : Holder → Hedge
  | .claimed =>
    if ok then { h with futures := h.futures ++ [⟨0, true, false, false⟩], holder := some .placed }
    else { h with holder := some .releasing }
  | .releasing => { h.letGo with row := { h.row with submitClaimedAt := none } }
  | .placed =>
    if ok then
      { h.letGo with
        row := { h.row with ibOrderId := ids.orderId, submittedAt := some now, state := .submitted }
        futures := h.futures.map fun f => { f with watched := true } }
    else h.letGo

/-- Without its requests and callbacks, as a restart of the engine leaves it -/
def restarted (h : Hedge) : Hedge :=
  { h with early := [], holder := none, futures := h.futures.map fun f => { f with watched := false, news := false } }

end Hedge

/-- What happens to a hedge. The monitor posts it or loses its id, anyone may post it again; a request goes on or
dies; the engine restarts; IB executes, reports or ends a future; and `_finalise_hedge` runs on a status. -/
inductive Move
  | post
  | dispatch
  | lose
  | early (k : ℕ) (ok : Bool) (now : Instant)
  | hold (ok : Bool) (ids : IbIds) (now : Instant)
  | dropEarly (k : ℕ)
  | dropHolder
  | restart
  | execute (k n : ℕ)
  | report (k : ℕ)
  | finish (k : ℕ)
  | deliver (k : ℕ) (ok : Bool)

namespace Hedge

def move (h : Hedge) : Move → Hedge
  | .post => { h with early := h.early ++ [.start] }
  | .dispatch => if h.queued then { h with queued := false, early := h.early ++ [.start] } else h
  | .lose => { h with queued := false }
  | .early k ok now =>
    match h.early[k]? with
    | some e => h.earlyStep k ok now e
    | none => h
  | .hold ok ids now =>
    match h.holder with
    | some p => h.holderStep ok ids now p
    | none => h
  | .dropEarly k => h.leave k
  | .dropHolder => h.letGo
  | .restart => h.restarted
  | .execute k n => { h with futures := h.futures.modify k (Future.executed h.row.hedgeQty n) }
  | .report k => { h with futures := h.futures.modify k (Future.reported h.row.hedgeQty) }
  | .finish k => { h with futures := h.futures.modify k fun f => { f with live := false } }
  | .deliver k ok =>
    match h.futures[k]? with
    | some f =>
      { h with
        row := if ok ∧ f.news then { h.row with state := .filled } else h.row
        futures := h.futures.set k { f with news := false } }
    | none => h

/-- All that was delivered has been processed. -/
structure Quiescent (h : Hedge) : Prop where
  queued : h.queued = false
  early : h.early = []
  holder : h.holder = none
  news : ∀ f ∈ h.futures, f.news = false

/-- The signed quantity that can still execute, or has executed without being recorded as filled -/
def outstanding (h : Hedge) : ℚ :=
  sideSign h.row.side * (h.futures.map fun f =>
    (if f.live then h.row.hedgeQty - f.filled else 0) + (if h.row.state = .filled then 0 else f.filled)).sum

end Hedge

inductive DeskEvent
  | create (row : PositionHedge) (executeHedge : Bool)
  | move (i : ℕ) (m : Move)
  | restart

def Hedge.new (row : PositionHedge) (executeHedge : Bool) : Hedge :=
  ⟨{ row with state := .pending, submittedAt := none, submitClaimedAt := none, ibOrderId := none }, executeHedge, [], none,
    []⟩

def step (hedges : List Hedge) : DeskEvent → List Hedge
  | .create row executeHedge => hedges ++ [.new row executeHedge]
  | .move i m => hedges.modify i fun h => h.move m
  | .restart => hedges.map fun h => h.move .restart

/-- What the monitor nets for a position is what its hedges still have outstanding. -/
def Netted (hedges : List Hedge) (positionId : ℕ) : Prop :=
  ∀ delta : ℚ, netPendingHedgeDelta (some delta) (inFlightOf (hedges.map (·.row)) positionId) =
    some (delta + ((hedges.filter fun h => h.row.positionId = positionId).map Hedge.outstanding).sum)

namespace Hedge

/-- The row is past pending, or its future is placed, or an attempt to place it is left. -/
def Attempted (h : Hedge) : Prop :=
  h.row.state ≠ .pending ∨ h.futures ≠ [] ∨ h.queued = true ∨ h.early ≠ [] ∨ h.holder.isSome = true

instance (h : Hedge) : Decidable h.Attempted := inferInstanceAs (Decidable (_ ∨ _))

/-- Nothing is placed, or the placement is still to be stamped on the row. -/
def Failable (h : Hedge) : Prop := h.futures = [] ∨ h.holder = some .placed

instance (h : Hedge) : Decidable h.Failable := inferInstanceAs (Decidable (_ ∨ _))

/-- A placement to stamp, on a row that another request has failed -/
def Overtaken (h : Hedge) : Prop := h.holder = some .placed ∧ h.row.state = .failed

instance (h : Hedge) : Decidable h.Overtaken := inferInstanceAs (Decidable (_ ∧ _))

def EarlyMeets (h : Hedge) (k : ℕ) (ok : Bool) : Early → Prop
  | .start => ok = true ∨ (h.leave k).Attempted
  | .loaded => ok = true ∨ h.Failable
  | .qualified => ok = true ∨ h.Failable
  | .priced => h.Claimable ∨ (h.leave k).Attempted

instance (h : Hedge) (k : ℕ) (ok : Bool) : ∀ e, Decidable (h.EarlyMeets k ok e)
  | .start => inferInstanceAs (Decidable (_ ∨ _))
  | .loaded => inferInstanceAs (Decidable (_ ∨ _))
  | .qualified => inferInstanceAs (Decidable (_ ∨ _))
  | .priced => inferInstanceAs (Decidable (_ ∨ _))

/-- The last attempt is not given up while the row waits for it, a row is not failed with its future placed, and IB
ends no future short of its quantity. -/
def Meets (h : Hedge) : Move → Prop
  | .lose => ({ h with queued := false } : Hedge).Attempted
  | .early k ok _ => ∀ e ∈ h.early[k]?, h.EarlyMeets k ok e
  | .hold ok _ _ => (h.holder = some .releasing → h.letGo.Attempted) ∧ (ok = true ∨ ¬ h.Overtaken)
  | .dropEarly k => (h.leave k).Attempted
  | .dropHolder => h.letGo.Attempted ∧ ¬ h.Overtaken
  | .restart => h.restarted.Attempted ∧ ¬ h.Overtaken
  | .finish k => ∀ f ∈ h.futures[k]?, f.live = false ∨ f.filled = h.row.hedgeQty
  | .post | .dispatch | .execute _ _ | .report _ | .deliver _ _ => True

instance (h : Hedge) : ∀ m, Decidable (h.Meets m)
  | .lose => inferInstanceAs (Decidable (Attempted _))
  | .early k ok _ => inferInstanceAs (Decidable (∀ e ∈ h.early[k]?, h.EarlyMeets k ok e))
  | .hold _ _ _ => inferInstanceAs (Decidable (_ ∧ _))
  | .dropEarly _ => inferInstanceAs (Decidable (Attempted _))
  | .dropHolder => inferInstanceAs (Decidable (_ ∧ _))
  | .restart => inferInstanceAs (Decidable (_ ∧ _))
  | .finish k => inferInstanceAs (Decidable (∀ f ∈ h.futures[k]?, f.live = false ∨ f.filled = h.row.hedgeQty))
  | .post | .dispatch | .execute _ _ | .report _ | .deliver _ _ => .isTrue trivial

end Hedge

def Meets (hedges : List Hedge) : DeskEvent → Prop
  | .create _ executeHedge => executeHedge = true
  | .move i m => ∀ h ∈ hedges[i]?, h.Meets m
  | .restart => ∀ h ∈ hedges, h.Meets .restart

instance (hedges : List Hedge) : ∀ e, Decidable (Meets hedges e)
  | .create _ _ => inferInstanceAs (Decidable (_ = _))
  | .move i m => inferInstanceAs (Decidable (∀ h ∈ hedges[i]?, h.Meets m))
  | .restart => inferInstanceAs (Decidable (∀ h ∈ hedges, h.Meets .restart))

/-- A future ends with its quantity filled, and has news only then. -/
structure FutureOk (qty : ℕ) (f : Future) : Prop where
  filled : f.filled ≤ qty
  full : f.live = true ∨ f.filled = qty
  news : f.news = true → f.watched = true ∧ f.filled = qty

/-- What a future that changes keeps for its row -/
structure Kept (qty : ℕ) (f g : Future) : Prop where
  ok : FutureOk qty f → FutureOk qty g
  watched : g.watched = true → f.watched = true
  filled : f.filled = qty → g.filled = qty

theorem Kept.rfl {qty : ℕ} {f : Future} : Kept qty f f := ⟨id, id, id⟩

theorem Future.reported_kept (qty : ℕ) (f : Future) : Kept qty f (f.reported qty) := by
  refine ⟨fun hf => ⟨hf.filled, hf.full, ?_⟩, id, id⟩
  intro hnews
  rcases Bool.or_eq_true_iff.mp hnews with hold | hnow
  · exact hf.news hold
  · rw [Bool.and_eq_true, beq_iff_eq] at hnow
    exact hnow

theorem Future.executed_kept (qty n : ℕ) (f : Future) : Kept qty f (f.executed qty n) := by
  rw [Future.executed]
  by_cases hlive : f.live = true
  · rw [if_pos hlive]
    have hmore : Kept qty f { f with filled := min (f.filled + n) qty, live := decide (f.filled + n < qty) } := by
      constructor
      · intro hf
        refine ⟨by simp, ?_, ?_⟩
        · by_cases hlt : f.filled + n < qty
          · simp [hlt]
          · right
            simp only
            omega
        · intro hnews
          obtain ⟨hwatched, hfull⟩ := hf.news hnews
          exact ⟨hwatched, by simp only; omega⟩
      · exact id
      · intro hfull
        simp only
        omega
    have hreport := Future.reported_kept qty
      { f with filled := min (f.filled + n) qty, live := decide (f.filled + n < qty) }
    exact ⟨hreport.ok ∘ hmore.ok, hreport.watched, hreport.filled ∘ hmore.filled⟩
  · rw [if_neg hlive]
    exact Kept.rfl

namespace Hedge

structure Sound (h : Hedge) : Prop where
  attempted : h.Attempted
  claim : h.holder.isSome = true ∨ h.futures ≠ [] → h.row.submitClaimedAt ≠ none
  one : h.futures.length ≤ 1
  holding : h.holder = some .claimed ∨ h.holder = some .releasing → h.futures = []
  stamping : h.holder = some .placed → h.futures ≠ [] ∧ ∀ f ∈ h.futures, f.watched = false
  future : ∀ f ∈ h.futures, FutureOk h.row.hedgeQty f
  failed : h.row.state = .failed → h.Failable
  filled : h.row.state = .filled → ∀ f ∈ h.futures, f.filled = h.row.hedgeQty
  recorded : h.row.state = .submitted ∨ h.row.state = .filled → h.futures ≠ []

theorem Sound.single {h : Hedge} (hs : h.Sound) (hne : h.futures ≠ []) : ∃ f, h.futures = [f] :=
  List.length_eq_one_iff.mp (le_antisymm hs.one (List.length_pos_iff.mpr hne))

theorem sound_new (row : PositionHedge) : (Hedge.new row true).Sound where
  attempted := Or.inr (Or.inr (Or.inl rfl))
  claim := by simp [Hedge.new]
  one := Nat.zero_le 1
  holding _ := rfl
  stamping := by simp [Hedge.new]
  future := by simp [Hedge.new]
  failed _ := Or.inl rfl
  filled := by simp [Hedge.new]
  recorded := by simp [Hedge.new]

variable {h : Hedge}

/-- Requests come and go as long as an attempt is left. -/
theorem Sound.attempts (hs : h.Sound) {queued : Bool} {early : List Early}
    (hleft : ({ h with queued, early } : Hedge).Attempted) : Sound { h with queued, early } :=
  ⟨hleft, hs.claim, hs.one, hs.holding, hs.stamping, hs.future, hs.failed, hs.filled, hs.recorded⟩

theorem Sound.leave (hs : h.Sound) {k : ℕ} (hleft : (h.leave k).Attempted) : (h.leave k).Sound :=
  hs.attempts hleft

theorem attempted_early {h : Hedge} (hearly : h.early ≠ []) : h.Attempted :=
  Or.inr (Or.inr (Or.inr (Or.inl hearly)))

theorem Sound.setEarly (hs : h.Sound) {k : ℕ} {e e' : Early} (hk : h.early[k]? = some e) : (h.setEarly k e').Sound := by
  apply hs.attempts
  apply attempted_early
  have hmem := List.mem_of_getElem? hk
  intro hnil
  rw [List.set_eq_nil_iff] at hnil
  rw [hnil] at hmem
  cases hmem

theorem Sound.fail (hs : h.Sound) {k : ℕ} (hfail : h.Failable) : (h.leave k).fail.Sound where
  attempted := Or.inl (by simp [Hedge.fail])
  claim := hs.claim
  one := hs.one
  holding := hs.holding
  stamping := hs.stamping
  future := hs.future
  failed _ := hfail
  filled := by simp [Hedge.fail]
  recorded := by simp [Hedge.fail]

/-- A claim that succeeds finds nobody under the claim and nothing placed. -/
theorem Sound.free (hs : h.Sound) (hclaim : h.Claimable) : h.holder = none ∧ h.futures = [] := by
  constructor
  · by_contra hholder
    exact hs.claim (Or.inl (Option.isSome_iff_ne_none.mpr hholder)) hclaim.1
  · by_contra hfutures
    exact hs.claim (Or.inr hfutures) hclaim.1

theorem Sound.claimed (hs : h.Sound) {k : ℕ} {now : Instant} (hclaim : h.Claimable) :
    ((h.leave k).claim now).Sound := by
  have hnone := (hs.free hclaim).2
  constructor
  · simp [Attempted, Hedge.claim]
  · simp [Hedge.claim]
  · exact hs.one
  · intro _
    exact hnone
  · simp [Hedge.claim]
  · exact hs.future
  · intro _
    exact Or.inl hnone
  · exact hs.filled
  · exact hs.recorded

theorem Sound.earlyStep (hs : h.Sound) {k : ℕ} {e : Early} (hk : h.early[k]? = some e) {ok : Bool} {now : Instant}
    (hmeets : h.Meets (.early k ok now)) : (h.earlyStep k ok now e).Sound := by
  have hmeets := hmeets e hk
  cases e with
  | start =>
    rw [Hedge.earlyStep]
    split_ifs with hgo
    · exact hs.setEarly hk
    · apply hs.leave
      rcases hmeets with hok | hleft
      · exact Or.inl fun hpending => hgo ⟨hok, hpending⟩
      · exact hleft
  | loaded =>
    rw [Hedge.earlyStep]
    split_ifs with hgo
    · exact hs.setEarly hk
    · exact hs.fail (hmeets.resolve_left hgo)
  | qualified =>
    rw [Hedge.earlyStep]
    split_ifs with hgo
    · exact hs.setEarly hk
    · exact hs.fail (hmeets.resolve_left hgo)
  | priced =>
    rw [Hedge.earlyStep]
    split_ifs with hclaim
    · exact hs.claimed hclaim
    · exact hs.leave (hmeets.resolve_left hclaim)

/-- The request is gone without a stamp to make, as others may be. -/
theorem Sound.letGo (hs : h.Sound) {early : List Early}
    (hleft : ({ h with early, holder := none } : Hedge).Attempted) (hover : ¬ h.Overtaken) :
    Sound { h with early, holder := none } where
  attempted := hleft
  claim hplaced := hs.claim (Or.inr (hplaced.resolve_left (by simp)))
  one := hs.one
  holding := by simp
  stamping := by simp
  future := hs.future
  failed hstate := Or.inl ((hs.failed hstate).resolve_right fun hplaced => hover ⟨hplaced, hstate⟩)
  filled := hs.filled
  recorded := hs.recorded

theorem Sound.place (hs : h.Sound) (hholder : h.holder = some .claimed) :
    Sound { h with futures := h.futures ++ [⟨0, true, false, false⟩], holder := some .placed } := by
  have hnone := hs.holding (Or.inl hholder)
  rw [hnone, List.nil_append]
  constructor
  · exact Or.inr (Or.inl (List.cons_ne_nil _ _))
  · intro _
    exact hs.claim (Or.inl (by rw [hholder]; rfl))
  · exact le_refl 1
  · simp
  · intro _
    exact ⟨List.cons_ne_nil _ _, by simp⟩
  · intro f hf
    obtain rfl := List.mem_singleton.mp hf
    exact ⟨Nat.zero_le _, Or.inl rfl, by simp⟩
  · intro _
    exact Or.inr rfl
  · intro hstate
    exact absurd hnone (hs.recorded (Or.inr hstate))
  · intro _
    exact List.cons_ne_nil _ _

theorem Sound.releasing (hs : h.Sound) (hholder : h.holder = some .claimed) :
    Sound { h with holder := some .releasing } where
  attempted := Or.inr (Or.inr (Or.inr (Or.inr rfl)))
  claim _ := hs.claim (Or.inl (by rw [hholder]; rfl))
  one := hs.one
  holding _ := hs.holding (Or.inl hholder)
  stamping := by simp
  future := hs.future
  failed _ := Or.inl (hs.holding (Or.inl hholder))
  filled := hs.filled
  recorded := hs.recorded

/-- The claim is handed back only where nothing is placed. -/
theorem Sound.released (hs : h.Sound) (hholder : h.holder = some .releasing) (hleft : h.letGo.Attempted) :
    Sound { h.letGo with row := { h.row with submitClaimedAt := none } } := by
  have hnone := hs.holding (Or.inr hholder)
  constructor
  · exact hleft
  · intro hplaced
    rcases hplaced with hheld | hfutures
    · cases hheld
    · exact absurd hnone hfutures
  · exact hs.one
  · simp [Hedge.letGo]
  · simp [Hedge.letGo]
  · exact hs.future
  · intro _
    exact Or.inl hnone
  · exact hs.filled
  · exact hs.recorded

theorem Sound.stamp (hs : h.Sound) (hholder : h.holder = some .placed) {ids : IbIds} {now : Instant} :
    Sound { h.letGo with
      row := { h.row with ibOrderId := ids.orderId, submittedAt := some now, state := .submitted }
      futures := h.futures.map fun f => { f with watched := true } } := by
  obtain ⟨hne, hunwatched⟩ := hs.stamping hholder
  have hmap : (h.futures.map fun f => { f with watched := true }) ≠ [] := by simpa using hne
  constructor
  · exact Or.inl (by simp)
  · intro _
    exact hs.claim (Or.inr hne)
  · rw [List.length_map]
    exact hs.one
  · simp [Hedge.letGo]
  · simp [Hedge.letGo]
  · intro g hg
    obtain ⟨f, hf, rfl⟩ := List.mem_map.mp hg
    obtain ⟨hle, hfull, hnews⟩ := hs.future f hf
    refine ⟨hle, hfull, fun hn => ?_⟩
    exact ⟨rfl, (hnews hn).2⟩
  · simp
  · simp
  · intro _
    exact hmap

theorem Sound.holderStep (hs : h.Sound) {p : Holder} (hholder : h.holder = some p) {ok : Bool} {ids : IbIds}
    {now : Instant} (hmeets : h.Meets (.hold ok ids now)) : (h.holderStep ok ids now p).Sound := by
  obtain ⟨hleft, hover⟩ := hmeets
  cases p with
  | claimed =>
    rw [Hedge.holderStep]
    split_ifs with hok
    · exact hs.place hholder
    · exact hs.releasing hholder
  | releasing => exact hs.released hholder (hleft hholder)
  | placed =>
    rw [Hedge.holderStep]
    split_ifs with hok
    · exact hs.stamp hholder
    · apply hs.letGo
      · exact Or.inr (Or.inl (hs.stamping hholder).1)
      · exact hover.resolve_left hok

/-- A change of the futures alone -/
theorem Sound.watch (hs : h.Sound) {futures : List Future} (hlen : futures.length = h.futures.length)
    (hkept : ∀ g ∈ futures, ∃ f ∈ h.futures, Kept h.row.hedgeQty f g) : Sound { h with futures } := by
  have hnil : futures = [] ↔ h.futures = [] := by
    rw [← List.length_eq_zero_iff, ← List.length_eq_zero_iff, hlen]
  obtain ⟨hattempted, hclaim, hone, hholding, hstamping, hfuture, hfailed, hfilled, hrecorded⟩ := hs
  constructor
  · simpa only [Attempted, ne_eq, hnil] using hattempted
  · simpa only [ne_eq, hnil] using hclaim
  · exact hlen ▸ hone
  · simpa only [hnil] using hholding
  · intro hholder
    obtain ⟨hne, hunwatched⟩ := hstamping hholder
    refine ⟨fun h => hne (hnil.mp h), fun g hg => ?_⟩
    obtain ⟨f, hf, hfg⟩ := hkept g hg
    have hnot := hunwatched f hf
    rw [← Bool.not_eq_true] at hnot ⊢
    exact fun hwatched => hnot (hfg.watched hwatched)
  · intro g hg
    obtain ⟨f, hf, hfg⟩ := hkept g hg
    exact hfg.ok (hfuture f hf)
  · simpa only [Failable, hnil] using hfailed
  · intro hstate g hg
    obtain ⟨f, hf, hfg⟩ := hkept g hg
    exact hfg.filled (hfilled hstate f hf)
  · simpa only [ne_eq, hnil] using hrecorded

theorem Sound.modify (hs : h.Sound) {k : ℕ} {change : Future → Future}
    (hkept : ∀ f, h.futures[k]? = some f → Kept h.row.hedgeQty f (change f)) :
    Sound { h with futures := h.futures.modify k change } := by
  refine hs.watch (List.length_modify _ _ _) fun g hg => ?_
  rcases RowUpdates.mem_modify_at hg with hsame | ⟨f, hk, rfl⟩
  · exact ⟨g, hsame, Kept.rfl⟩
  · exact ⟨f, List.mem_of_getElem? hk, hkept f hk⟩

theorem Sound.finish (hs : h.Sound) {k : ℕ} (hmeets : h.Meets (.finish k)) : (h.move (.finish k)).Sound := by
  apply hs.modify
  intro f hf
  refine ⟨fun hok => ⟨hok.filled, Or.inr ?_, hok.news⟩, id, id⟩
  rcases hmeets f hf with hended | hfull
  · exact hok.full.resolve_left (by rw [hended]; decide)
  · exact hfull

/-- `_finalise_hedge` records what its future has filled. -/
theorem Sound.finalised (hs : h.Sound) {f : Future} (hf : f ∈ h.futures) (hnews : f.news = true) :
    Sound { h with row := { h.row with state := .filled } } := by
  obtain ⟨x, hx⟩ := hs.single (List.ne_nil_of_mem hf)
  obtain ⟨hwatched, hfull⟩ := (hs.future f hf).news hnews
  have honly : ∀ g ∈ h.futures, g = f := by
    intro g hg
    rw [hx, List.mem_singleton] at hf hg
    rw [hf, hg]
  constructor
  · exact Or.inl (by simp)
  · exact hs.claim
  · exact hs.one
  · exact hs.holding
  · exact hs.stamping
  · exact hs.future
  · simp
  · intro _ g hg
    rw [honly g hg]
    exact hfull
  · intro _
    exact List.ne_nil_of_mem hf

theorem Sound.deliver (hs : h.Sound) (k : ℕ) (ok : Bool) : (h.move (.deliver k ok)).Sound := by
  rw [Hedge.move]
  split
  · rename_i f hk
    have hf := List.mem_of_getElem? hk
    have hquiet : Kept h.row.hedgeQty f { f with news := false } := ⟨fun hok => ⟨hok.filled, hok.full, by simp⟩, id, id⟩
    have hset : ∀ g ∈ h.futures.set k { f with news := false }, ∃ f ∈ h.futures, Kept h.row.hedgeQty f g := by
      intro g hg
      rcases List.mem_or_eq_of_mem_set hg with hsame | rfl
      · exact ⟨g, hsame, Kept.rfl⟩
      · exact ⟨f, hf, hquiet⟩
    split_ifs with hdone
    · exact (hs.finalised hf hdone.2).watch List.length_set hset
    · exact hs.watch List.length_set hset
  · exact hs

/-- A restart forgets the requests and the callbacks. -/
theorem Sound.restart (hs : h.Sound) (hmeets : h.Meets .restart) : h.restarted.Sound := by
  obtain ⟨hleft, hover⟩ := hmeets
  have hforgotten : Sound { h with futures := h.futures.map fun f => { f with watched := false, news := false } } := by
    apply hs.watch (List.length_map _)
    intro g hg
    obtain ⟨f, hf, rfl⟩ := List.mem_map.mp hg
    exact ⟨f, hf, fun hok => ⟨hok.filled, hok.full, by simp⟩, by simp, id⟩
  exact hforgotten.letGo hleft hover

/-- Every move that meets the condition keeps a hedge sound. -/
theorem Sound.move (hs : h.Sound) {m : Move} (hmeets : h.Meets m) : (h.move m).Sound := by
  cases m with
  | post => exact hs.attempts (attempted_early (by simp))
  | dispatch =>
    rw [Hedge.move]
    split_ifs with hqueued
    · exact hs.attempts (attempted_early (by simp))
    · exact hs
  | lose => exact hs.attempts hmeets
  | early k ok now =>
    rw [Hedge.move]
    split
    · rename_i e hk
      exact hs.earlyStep hk hmeets
    · exact hs
  | hold ok ids now =>
    rw [Hedge.move]
    split
    · rename_i p hholder
      exact hs.holderStep hholder hmeets
    · exact hs
  | dropEarly k => exact hs.leave hmeets
  | dropHolder => exact hs.letGo hmeets.1 hmeets.2
  | restart => exact hs.restart hmeets
  | execute k n => exact hs.modify fun f _ => Future.executed_kept _ n f
  | report k => exact hs.modify fun f _ => Future.reported_kept _ f
  | finish k => exact hs.finish hmeets
  | deliver k ok => exact hs.deliver k ok

/-- At rest a sound hedge is netted by as much as is outstanding. -/
theorem Sound.netted (hs : h.Sound) (hq : h.Quiescent) :
    (if h.row.InFlight then h.row.signedQty else 0) = h.outstanding := by
  by_cases hflight : h.row.InFlight
  · have hplaced : h.futures ≠ [] := by
      rcases hflight with hpending | hsubmitted
      · rcases hs.attempted with hstate | hfutures | hqueued | hearly | hholder
        · exact absurd hpending hstate
        · exact hfutures
        · rw [hq.queued] at hqueued
          cases hqueued
        · exact absurd hq.early hearly
        · rw [hq.holder] at hholder
          cases hholder
      · exact hs.recorded (Or.inl hsubmitted)
    obtain ⟨f, hf⟩ := hs.single hplaced
    obtain ⟨hle, hfull, -⟩ := hs.future f (by rw [hf]; exact List.mem_singleton_self f)
    have hstate : h.row.state ≠ .filled := by
      rcases hflight with hstate | hstate <;> rw [hstate] <;> decide
    have hqty : ((if f.live then h.row.hedgeQty - f.filled else 0) + f.filled : ℕ) = h.row.hedgeQty := by
      split_ifs with hlive
      · omega
      · have := hfull.resolve_left hlive
        omega
    rw [if_pos hflight, outstanding, hf, List.map_singleton, List.sum_singleton, if_neg hstate, hqty]
    rfl
  · have hnothing : ∀ f ∈ h.futures,
        (if f.live then h.row.hedgeQty - f.filled else 0) + (if h.row.state = .filled then 0 else f.filled) = 0 := by
      intro f hf
      have hstate : h.row.state = .filled ∨ h.row.state = .failed := by
        rw [PositionHedge.InFlight, not_or] at hflight
        cases hcase : h.row.state <;> simp_all
      rcases hstate with hfilled | hfailed
      · rw [if_pos hfilled, hs.filled hfilled f hf, Nat.sub_self, ite_self]
      · have hnone := (hs.failed hfailed).resolve_right (by rw [hq.holder]; decide)
        rw [hnone] at hf
        cases hf
    rw [if_neg hflight, outstanding, List.map_congr_left hnothing]
    simp

end Hedge

/-- Every step that meets the condition keeps the hedges sound. -/
theorem step_sound {hedges : List Hedge} {e : DeskEvent} (hs : ∀ h ∈ hedges, h.Sound) (hmeets : Meets hedges e) :
    ∀ h ∈ step hedges e, h.Sound := by
  cases e with
  | create row executeHedge =>
    intro h hh
    rcases List.mem_append.mp hh with hold | hnew
    · exact hs h hold
    · obtain rfl : executeHedge = true := hmeets
      rw [List.mem_singleton.mp hnew]
      exact Hedge.sound_new row
  | move i m =>
    intro h hh
    rcases RowUpdates.mem_modify_at hh with hsame | ⟨h₀, hi, rfl⟩
    · exact hs h hsame
    · exact (hs h₀ (List.mem_of_getElem? hi)).move (hmeets h₀ hi)
  | restart =>
    intro h hh
    obtain ⟨h₀, hh₀, rfl⟩ := List.mem_map.mp hh
    exact (hs h₀ hh₀).move (hmeets h₀ hh₀)

/-- What the monitor nets for a position, hedge by hedge -/
theorem netted_iff {hedges : List Hedge} {positionId : ℕ} : Netted hedges positionId ↔
    ((hedges.filter fun h => h.row.positionId = positionId).map fun h =>
      if h.row.InFlight then h.row.signedQty else 0).sum =
    ((hedges.filter fun h => h.row.positionId = positionId).map Hedge.outstanding).sum := by
  have hrows : ((inFlightOf (hedges.map (·.row)) positionId).map PositionHedge.signedQty).sum =
      ((hedges.filter fun h => h.row.positionId = positionId).map fun h =>
        if h.row.InFlight then h.row.signedQty else 0).sum := by
    rw [inFlightOf, hedgesOf, ← TableTotals.sum_selected, List.filter_map, List.map_map]
    simp only [decide_eq_true_eq]
    rfl
  rw [← hrows, Netted]
  constructor
  · intro h
    have hzero := h 0
    simpa [netPendingHedgeDelta] using hzero
  · intro h delta
    rw [netPendingHedgeDelta, Option.map_some, h]

/-- In every run whose steps meet the condition, what is netted for a position at rest is what its hedges have
outstanding. -/
theorem netted_run {hedges : List Hedge} (h : Run step Meets [] hedges) (positionId : ℕ)
    (hq : ∀ h ∈ hedges, h.row.positionId = positionId → h.Quiescent) : Netted hedges positionId := by
  have hsound : ∀ h ∈ hedges, h.Sound :=
    h.invariant (I := fun hedges => ∀ h ∈ hedges, h.Sound) (fun _ _ => step_sound) (by simp)
  rw [netted_iff]
  congr 1
  apply List.map_congr_left
  intro x hx
  obtain ⟨hmem, hposition⟩ := List.mem_filter.mp hx
  exact (hsound x hmem).netted (hq x hmem (of_decide_eq_true hposition))

def soldRow : PositionHedge :=
  { HedgeOrder.new .sell 3 with
    positionId := 7, triggeredAt := 0, deltaImbalanceAtTrigger := 3, rebalanceThresholdUsed := 5 / 100 }

def placing : List DeskEvent :=
  [.create soldRow true, .move 0 .dispatch, .move 0 (.early 0 true 1), .move 0 (.early 0 true 1),
    .move 0 (.early 0 true 1), .move 0 (.early 0 true 1), .move 0 (.hold true ⟨some 5, none⟩ 2)]

def stamped : List DeskEvent := placing ++ [.move 0 (.hold true ⟨some 5, none⟩ 3)]

/-- A future filled by one, with the engine restarted before the placement is stamped, is netted whole. -/
theorem netted_run_restart :
    Netted (List.foldl step [] (placing ++ [.move 0 (.execute 0 1), .restart])) 7 :=
  netted_run (Run.of_foldl _ (by decide)) 7 (by
    intro h hh _
    obtain rfl := List.mem_singleton.mp hh
    exact ⟨rfl, rfl, rfl, by decide⟩)

/-- IB cancels the future of a submitted hedge: its row is netted for ever, and nothing is outstanding. -/
theorem not_netted : ¬ ∀ events : List DeskEvent, ∀ positionId : ℕ,
    (∀ h ∈ events.foldl step [], h.row.positionId = positionId → h.Quiescent) →
      Netted (events.foldl step []) positionId := by
  intro h
  have hnetted := h (stamped ++ [.move 0 (.finish 0)]) 7 (by
    intro h hh _
    obtain rfl := List.mem_singleton.mp hh
    exact ⟨rfl, rfl, rfl, by decide⟩) 0
  revert hnetted
  decide +kernel

/-- A cycle of the monitor leaves the table, or adds a row as `create` does. -/
theorem monitorOne_create (cfg : HedgeConfig) (hedges : List Hedge) (db : Db) (positionId : ℕ)
    (market : PositionPricing.Market) (now : Instant) (executeHedge : Bool) :
    monitorOne cfg (hedges.map (·.row)) db positionId market now = hedges.map (·.row) ∨
      ∃ row, monitorOne cfg (hedges.map (·.row)) db positionId market now =
        (step hedges (.create row executeHedge)).map (·.row) := by
  rw [monitorOne]
  split_ifs with hopen
  · split
    · rename_i qty side imbalance threshold residual hdecision
      right
      refine ⟨{ HedgeOrder.new side qty with
        positionId := positionId
        triggeredAt := now
        deltaImbalanceAtTrigger := imbalance
        rebalanceThresholdUsed := threshold }, ?_⟩
      rw [step, List.map_append]
      rfl
    · exact Or.inl rfl
  · exact Or.inl rfl

end FxVol.HedgesInFlight
