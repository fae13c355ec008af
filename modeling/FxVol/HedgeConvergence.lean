import FxVol.DeltaHedge
import FxVol.StructurePnl
import FxVol.GuardedRuns
import FxVol.RowUpdates
import Mathlib.Tactic.Ring
import Mathlib.Tactic.Linarith

/-!
# Does the hedger converge

The decision of a cycle nets the hedges in flight, and the re-priced delta has the option legs
only: a hedge that has filled is in neither.  As long as no hedge of a position has filled the
delta of the decision is the delta the position has, and the first hedge leaves at most half a
contract; the first cycle after the fill sees the whole option delta again.
-/
namespace FxVol

open GuardedRuns RowUpdates PositionPricing

theorem roundHalfEven_half {x : ℚ} (h : |x| ≤ 1 / 2) : roundHalfEven x = 0 := by
  obtain ⟨hlow, hhigh⟩ := abs_le.mp h
  have hle := Int.floor_le x
  have hlt := Int.lt_floor_add_one x
  have hfloor : ⌊x⌋ = 0 ∨ ⌊x⌋ = -1 := by
    have hup : ⌊x⌋ < 1 := by exact_mod_cast (show ((⌊x⌋ : ℤ) : ℚ) < 1 by linarith)
    have hdown : -2 < ⌊x⌋ := by exact_mod_cast (show (-2 : ℚ) < ⌊x⌋ by linarith)
    omega
  rcases hfloor with hzero | hneg
  · rw [roundHalfEven, hzero]
    have hnot : ¬ (1 / 2 < x - ((0 : ℤ) : ℚ)) := by push_cast; linarith
    split_ifs with hdown heven
    · rfl
    · rfl
    · exact absurd (by decide : Even (0 : ℤ)) heven
  · rw [roundHalfEven, hneg]
    have hge : ¬ (x - ((-1 : ℤ) : ℚ) < 1 / 2) := by push_cast; linarith
    rw [if_neg hge]
    split_ifs with hup heven
    · rfl
    · exact absurd heven (by decide)
    · rfl

theorem roundHalfEven_pos {x : ℚ} (hx : 0 < x) : 0 ≤ roundHalfEven x := by
  have hfloor : 0 ≤ ⌊x⌋ := Int.floor_nonneg.mpr hx.le
  unfold roundHalfEven
  split_ifs <;> omega

theorem roundHalfEven_nonpos {x : ℚ} (hx : x ≤ 0) : roundHalfEven x ≤ 0 := by
  have hnear := abs_le.mp (roundHalfEven_near x)
  have hlt : ((roundHalfEven x : ℤ) : ℚ) < 1 := by linarith [hnear.2]
  have hlt' : roundHalfEven x < 1 := by exact_mod_cast hlt
  omega

section Cycle
variable {cfg : HedgeConfig} {hedges : List PositionHedge} {p : ℕ} {d : ℚ}

/-- The option delta and the futures delta the position has bought or sold, filled or not. -/
def hedgedDelta (hedges : List PositionHedge) (p : ℕ) (d : ℚ) : ℚ :=
  d + (((hedgesOf hedges p).filter fun h => h.state ≠ .failed).map PositionHedge.signedQty).sum

def HasFilled (hedges : List PositionHedge) (p : ℕ) : Prop :=
  ∃ h ∈ hedgesOf hedges p, h.state = .filled

instance (hedges : List PositionHedge) (p : ℕ) : Decidable (HasFilled hedges p) :=
  inferInstanceAs (Decidable (∃ h ∈ hedgesOf hedges p, h.state = .filled))

/-- A cycle that visits the position finds it open, with a live mark of delta `d`. -/
def SteadyDelta (p : ℕ) (d : ℚ) (e : HedgerEvent) : Prop :=
  ∀ db market now, e = .monitor db p market now →
    (db.bookedPositions[p]?).map (·.state) = some .open ∧ optionDelta db p market = some d

variable (hedges) in
/-- What a monitor cycle may add: one pending hedge against the rounded delta it decides on. -/
theorem monitorOne_cases (hmin : 1 ≤ cfg.minHedgeQty) (db : Db) (p' : ℕ) (market : Market)
    (now : Instant) :
    monitorOne cfg hedges db p' market now = hedges ∨
    ∃ delta h, deltaForDecision hedges p' (optionDelta db p' market) = some delta ∧
      monitorOne cfg hedges db p' market now = hedges ++ [h] ∧ h.positionId = p' ∧
      h.state = .pending ∧ h.signedQty = -(roundHalfEven delta : ℚ) ∧ roundHalfEven delta ≠ 0 := by
  unfold monitorOne
  split_ifs with hopen
  · cases hdelta : deltaForDecision hedges p' (optionDelta db p' market) with
    | none => exact .inl rfl
    | some delta =>
      simp only [checkDeltaHedgeNeeded]
      split_ifs with hsmall hcool hmore hsign
      · exact .inl rfl
      · exact .inl rfl
      · exact .inl rfl
      · refine .inr ⟨delta, _, rfl, rfl, rfl, rfl, ?_, by omega⟩
        have hround := roundHalfEven_pos hsign
        have habs : ((roundHalfEven delta).natAbs : ℤ) = roundHalfEven delta :=
          Int.natAbs_of_nonneg hround
        have hcast : (((roundHalfEven delta).natAbs : ℕ) : ℚ) = roundHalfEven delta := by
          rw [← Int.cast_natCast, habs]
        simp [PositionHedge.signedQty, HedgeOrder.new, sideSign, hcast]
      · refine .inr ⟨delta, _, rfl, rfl, rfl, rfl, ?_, by omega⟩
        have hround := roundHalfEven_nonpos (not_lt.mp hsign)
        have habs : ((roundHalfEven delta).natAbs : ℤ) = -roundHalfEven delta := by omega
        have hcast : (((roundHalfEven delta).natAbs : ℕ) : ℚ) = -roundHalfEven delta := by
          rw [← Int.cast_natCast, habs, Int.cast_neg]
        simp [PositionHedge.signedQty, HedgeOrder.new, sideSign, hcast]
  · exact .inl rfl

/-- A write of the execution engine: it moves the state of a row forwards and keeps what the
row trades. -/
structure MovesState (g : PositionHedge → PositionHedge) : Prop where
  position : ∀ h, (g h).positionId = h.positionId
  signed : ∀ h, (g h).signedQty = h.signedQty
  inFlight : ∀ h, (g h).InFlight → h.InFlight
  failed : ∀ h, (g h).state ≠ .failed → h.state ≠ .failed

theorem movesState_submit (ids : IbIds) (now : Instant) :
    MovesState fun h => h.submit ids now := by
  constructor <;> intro h
  · simp only [PositionHedge.submit]; split_ifs <;> rfl
  · simp only [PositionHedge.submit]; split_ifs <;> rfl
  · simp only [PositionHedge.submit]; split_ifs with hs <;> simp [PositionHedge.InFlight, hs]
  · simp only [PositionHedge.submit]; split_ifs with hs <;> simp [hs]

theorem movesState_fail : MovesState PositionHedge.fail := by
  constructor <;> intro h
  · simp only [PositionHedge.fail]; split_ifs <;> rfl
  · simp only [PositionHedge.fail]; split_ifs <;> rfl
  · simp only [PositionHedge.fail]; split_ifs with hs <;> simp [PositionHedge.InFlight]
  · simp only [PositionHedge.fail]; split_ifs with hs <;> simp

theorem movesState_finalise : MovesState PositionHedge.finalise := by
  constructor <;> intro h
  · simp only [PositionHedge.finalise]; split_ifs <;> rfl
  · simp only [PositionHedge.finalise]; split_ifs <;> rfl
  · simp only [PositionHedge.finalise]; split_ifs with hs <;> simp [PositionHedge.InFlight]
  · simp only [PositionHedge.finalise]; split_ifs with hs <;> simp [hs]

inductive HedgerMove (hedges : List PositionHedge) (e : HedgerEvent) : List PositionHedge → Prop
  | same : HedgerMove hedges e hedges
  | hedge {db : Db} {p' : ℕ} {market : Market} {now : Instant} {delta : ℚ} {h : PositionHedge}
      (event : e = .monitor db p' market now)
      (decided : deltaForDecision hedges p' (optionDelta db p' market) = some delta)
      (position : h.positionId = p') (pending : h.state = .pending)
      (signed : h.signedQty = -(roundHalfEven delta : ℚ)) (nonzero : roundHalfEven delta ≠ 0) :
      HedgerMove hedges e (hedges ++ [h])
  | write {k : ℕ} {g : PositionHedge → PositionHedge} (moves : MovesState g)
      (event : ∀ db p' market now, e ≠ .monitor db p' market now) :
      HedgerMove hedges e (hedges.modify k g)

variable (hedges) in
theorem hedgerStep_move (hmin : 1 ≤ cfg.minHedgeQty) (e : HedgerEvent) :
    HedgerMove hedges e (hedgerStep cfg hedges e) := by
  cases e with
  | monitor db p' market now =>
    rcases monitorOne_cases hedges hmin db p' market now with
      hsame | ⟨delta, h, hdec, heq, hpos, hpend, hsigned, hnz⟩
    · rw [hedgerStep, hsame]; exact .same
    · rw [hedgerStep, heq]; exact .hedge rfl hdec hpos hpend hsigned hnz
  | submitted k ids now => exact .write (movesState_submit ids now) nofun
  | failed k => exact .write movesState_fail nofun
  | filled k => exact .write movesState_finalise nofun

theorem mem_hedgesOf {h : PositionHedge} :
    h ∈ hedgesOf hedges p ↔ h ∈ hedges ∧ h.positionId = p := by
  simp [hedgesOf]

/-- How many hedges of the position meet a test. -/
def hedgeCount (q : PositionHedge → Prop) [DecidablePred q] (hedges : List PositionHedge) (p : ℕ) :
    ℕ := (hedgesOf hedges p).countP fun h => q h

section Counts
variable (q : PositionHedge → Prop) [DecidablePred q]

variable (p hedges) in
theorem hedgeCount_append (h : PositionHedge) :
    hedgeCount q (hedges ++ [h]) p =
      hedgeCount q hedges p + if h.positionId = p ∧ q h then 1 else 0 := by
  by_cases hpos : h.positionId = p <;> by_cases hq : q h <;>
    simp [hedgeCount, hedgesOf, hpos, hq]

theorem hedgeCount_modify_le {g : PositionHedge → PositionHedge} {k : ℕ}
    (hpos : ∀ h, (g h).positionId = h.positionId) (hq : ∀ h, q (g h) → q h) :
    hedgeCount q (hedges.modify k g) p ≤ hedgeCount q hedges p := by
  simp only [hedgeCount, hedgesOf, List.countP_filter]
  apply countP_modify_le
  intro h hgh
  simp only [hpos, Bool.and_eq_true, decide_eq_true_eq] at hgh ⊢
  exact ⟨hq h hgh.1, hgh.2⟩

theorem hedgesOf_modify_length {g : PositionHedge → PositionHedge} {k : ℕ}
    (hpos : ∀ h, (g h).positionId = h.positionId) :
    (hedgesOf (hedges.modify k g) p).length = (hedgesOf hedges p).length := by
  simp only [hedgesOf, ← List.countP_eq_length_filter]
  apply countP_modify_same
  intro h
  simp only [hpos]

end Counts

/-- A hedge that has not failed is in flight or filled. -/
theorem live_count (l : List PositionHedge) :
    l.countP (fun h => h.state ≠ .failed) =
      l.countP (fun h => h.InFlight) + l.countP fun h => h.state = .filled := by
  induction l with
  | nil => rfl
  | cons h l ih =>
    simp only [List.countP_cons, ih]
    cases hs : h.state <;> simp [PositionHedge.InFlight, hs] <;> omega

theorem hasFilled_iff : HasFilled hedges p ↔ 0 < hedgeCount (·.state = .filled) hedges p := by
  simp [HasFilled, hedgeCount, List.countP_pos_iff]

/-- Hedges of one signed quantity add up to as many times that quantity. -/
theorem signed_sum {l : List PositionHedge} {x : ℚ} (h : ∀ r ∈ l, r.signedQty = x) :
    (l.map PositionHedge.signedQty).sum = l.length * x := by
  induction l with
  | nil => simp
  | cons r l ih =>
    obtain ⟨hr, hl⟩ := List.forall_mem_cons.mp h
    rw [List.map_cons, List.sum_cons, hr, ih hl, List.length_cons]
    push_cast
    ring

abbrev inFlightCount (hedges : List PositionHedge) (p : ℕ) : ℕ := hedgeCount (·.InFlight) hedges p

abbrev liveCount (hedges : List PositionHedge) (p : ℕ) : ℕ :=
  hedgeCount (·.state ≠ .failed) hedges p

/-- Every hedge of the position is against the rounded option delta, and at most one is in
flight: the netting stops a second one. -/
structure HedgeInvariant (p : ℕ) (d : ℚ) (hedges : List PositionHedge) : Prop where
  sized : ∀ h ∈ hedgesOf hedges p, h.signedQty = -(roundHalfEven d : ℚ)
  nonzero : ∀ h ∈ hedgesOf hedges p, roundHalfEven d ≠ 0
  one : inFlightCount hedges p ≤ 1

theorem live_split : liveCount hedges p =
    inFlightCount hedges p + hedgeCount (·.state = .filled) hedges p := live_count _

namespace HedgeInvariant

theorem initial (h : hedgesOf hedges p = []) : HedgeInvariant p d hedges where
  sized := by simp [h]
  nonzero := by simp [h]
  one := by simp [hedgeCount, h]

theorem inFlight_sum (hI : HedgeInvariant p d hedges) :
    ((inFlightOf hedges p).map PositionHedge.signedQty).sum =
      inFlightCount hedges p * -(roundHalfEven d : ℚ) := by
  rw [inFlightCount, hedgeCount, List.countP_eq_length_filter]
  exact signed_sum fun r hr => hI.sized r (List.mem_of_mem_filter hr)

theorem hedged (hI : HedgeInvariant p d hedges) :
    hedgedDelta hedges p d = d - liveCount hedges p * roundHalfEven d := by
  have hsum := signed_sum (x := -(roundHalfEven d : ℚ))
    (l := (hedgesOf hedges p).filter fun h => h.state ≠ .failed)
    fun r hr => hI.sized r (List.mem_of_mem_filter hr)
  rw [hedgedDelta, hsum, liveCount, hedgeCount, List.countP_eq_length_filter]
  ring

/-- The delta a cycle decides on counts the hedges in flight, not those filled. -/
theorem decision (hI : HedgeInvariant p d hedges) {db : Db} {market : Market}
    (hd : optionDelta db p market = some d) :
    deltaForDecision hedges p (optionDelta db p market) =
      some (d - inFlightCount hedges p * roundHalfEven d) := by
  rw [hd, deltaForDecision, netPendingHedgeDelta, Option.map_some, hI.inFlight_sum]
  congr 1
  ring

/-- A cycle of the position hedges only when nothing is in flight, and then the whole option
delta. -/
theorem hedge_first (hI : HedgeInvariant p d hedges) {db : Db} {market : Market} {delta : ℚ}
    (hd : optionDelta db p market = some d)
    (hdec : deltaForDecision hedges p (optionDelta db p market) = some delta)
    (hnz : roundHalfEven delta ≠ 0) : inFlightCount hedges p = 0 ∧ delta = d := by
  rw [hI.decision hd] at hdec
  obtain rfl := Option.some.inj hdec
  have hzero : inFlightCount hedges p = 0 := by
    rcases Nat.le_one_iff_eq_zero_or_eq_one.mp hI.one with hzero | hone
    · exact hzero
    · apply absurd _ hnz
      rw [hone]
      apply roundHalfEven_half
      have hnear := roundHalfEven_near d
      rw [abs_sub_comm] at hnear
      simpa using hnear
  refine ⟨hzero, ?_⟩
  rw [hzero]
  simp

theorem step (hmin : 1 ≤ cfg.minHedgeQty) (hI : HedgeInvariant p d hedges) {e : HedgerEvent}
    (he : SteadyDelta p d e) : HedgeInvariant p d (hedgerStep cfg hedges e) := by
  have hmove := hedgerStep_move hedges hmin e
  generalize hedgerStep cfg hedges e = hedges' at hmove
  cases hmove with
  | same => exact hI
  | @hedge db p' market now delta h event decided position pending signed nonzero =>
    by_cases hp : p' = p
    · subst hp
      obtain ⟨hzero, rfl⟩ := hI.hedge_first (he _ _ _ event).2 decided nonzero
      constructor
      · intro r hr
        obtain ⟨hmem, hpos⟩ := mem_hedgesOf.mp hr
        rcases List.mem_append.mp hmem with hold | hnew
        · exact hI.sized r (mem_hedgesOf.mpr ⟨hold, hpos⟩)
        · rw [List.mem_singleton.mp hnew]
          exact signed
      · exact fun _ _ => nonzero
      · have happend := hedgeCount_append hedges p' (·.InFlight) h
        have hcount : hedgeCount (·.InFlight) hedges p' = 0 := hzero
        rw [inFlightCount, happend, hcount]
        split_ifs <;> omega
    · have hsame : hedgesOf (hedges ++ [h]) p = hedgesOf hedges p := by
        simp [hedgesOf, position, hp]
      constructor
      · rw [hsame]; exact hI.sized
      · rw [hsame]; exact hI.nonzero
      · rw [inFlightCount, hedgeCount, hsame]; exact hI.one
  | @write k g moves event =>
    have hrow : ∀ r ∈ hedgesOf (hedges.modify k g) p,
        ∃ r' ∈ hedgesOf hedges p, r.signedQty = r'.signedQty := by
      intro r hr
      obtain ⟨hmem, hpos⟩ := mem_hedgesOf.mp hr
      rcases mem_modify hmem with hold | ⟨r', hold, rfl⟩
      · exact ⟨r, mem_hedgesOf.mpr ⟨hold, hpos⟩, rfl⟩
      · rw [moves.position] at hpos
        exact ⟨r', mem_hedgesOf.mpr ⟨hold, hpos⟩, moves.signed r'⟩
    constructor
    · intro r hr
      obtain ⟨r', hr', heq⟩ := hrow r hr
      rw [heq]
      exact hI.sized r' hr'
    · intro r hr
      obtain ⟨r', hr', _⟩ := hrow r hr
      exact hI.nonzero r' hr'
    · exact (hedgeCount_modify_le _ moves.position moves.inFlight).trans hI.one

end HedgeInvariant

/-- What convergence asks of one event: the decision is on the delta the position really has,
and once a hedge has filled at most half a contract is left and no hedge is added. -/
structure Converges (cfg : HedgeConfig) (p : ℕ) (d : ℚ) (hedges : List PositionHedge)
    (e : HedgerEvent) : Prop where
  decision : ∀ db market now, e = .monitor db p market now →
    deltaForDecision hedges p (optionDelta db p market) = some (hedgedDelta hedges p d)
  remaining : HasFilled (hedgerStep cfg hedges e) p →
    |hedgedDelta (hedgerStep cfg hedges e) p d| ≤ 1 / 2
  quiet : HasFilled hedges p →
    (hedgesOf (hedgerStep cfg hedges e) p).length = (hedgesOf hedges p).length

/-- The monitor does not visit the position once one of its hedges has filled. -/
def NoCycleAfterFill (p : ℕ) (hedges : List PositionHedge) (e : HedgerEvent) : Prop :=
  (∃ db market now, e = .monitor db p market now) → ¬ HasFilled hedges p

/-- The first cycle after a fill decides on a delta that misses the filled hedges. -/
theorem Converges.noCycle (hI : HedgeInvariant p d hedges) {e : HedgerEvent}
    (he : SteadyDelta p d e) (h : Converges cfg p d hedges e) : NoCycleAfterFill p hedges e := by
  rintro ⟨db, market, now, heq⟩ hfilled
  have hdec := h.decision db market now heq
  rw [hI.decision (he db market now heq).2, hI.hedged] at hdec
  have hcounts : (inFlightCount hedges p : ℚ) * roundHalfEven d =
      liveCount hedges p * roundHalfEven d := by linarith [Option.some.inj hdec]
  obtain ⟨r, hr, _⟩ := id hfilled
  have hnz : (roundHalfEven d : ℚ) ≠ 0 := Int.cast_ne_zero.mpr (hI.nonzero r hr)
  have heq' : inFlightCount hedges p = liveCount hedges p := by
    exact_mod_cast mul_right_cancel₀ hnz hcounts
  have hpos := hasFilled_iff.mp hfilled
  rw [live_split] at heq'
  omega

/-- While no cycle follows a fill there is one hedge that has not failed. -/
structure OneHedge (p : ℕ) (d : ℚ) (hedges : List PositionHedge) : Prop
    extends HedgeInvariant p d hedges where
  live : liveCount hedges p ≤ 1

namespace OneHedge

theorem initial (h : hedgesOf hedges p = []) : OneHedge p d hedges where
  toHedgeInvariant := HedgeInvariant.initial h
  live := by simp [hedgeCount, h]

theorem step (hmin : 1 ≤ cfg.minHedgeQty) (hO : OneHedge p d hedges) {e : HedgerEvent}
    (he : SteadyDelta p d e) (hguard : NoCycleAfterFill p hedges e) :
    OneHedge p d (hedgerStep cfg hedges e) where
  toHedgeInvariant := hO.toHedgeInvariant.step hmin he
  live := by
    have hmove := hedgerStep_move hedges hmin e
    generalize hedgerStep cfg hedges e = hedges' at hmove
    cases hmove with
    | same => exact hO.live
    | @hedge db p' market now delta h event decided position pending signed nonzero =>
      have happend := hedgeCount_append hedges p (·.state ≠ .failed) h
      rw [liveCount, happend]
      by_cases hp : p' = p
      · subst hp
        have hnone := hguard ⟨db, market, now, event⟩
        rw [hasFilled_iff] at hnone
        have hzero := (hO.hedge_first (he _ _ _ event).2 decided nonzero).1
        have hlive : hedgeCount (·.state ≠ .failed) hedges p' =
          inFlightCount hedges p' + hedgeCount (·.state = .filled) hedges p' := live_split
        split_ifs <;> omega
      · have hle : hedgeCount (·.state ≠ .failed) hedges p ≤ 1 := hO.live
        rw [if_neg (fun hboth => hp (position.symm.trans hboth.1))]
        omega
    | write moves _ =>
      exact (hedgeCount_modify_le _ moves.position moves.failed).trans hO.live

/-- With one hedge filled, the position is within half a contract. -/
theorem remaining (hO : OneHedge p d hedges) (hfilled : HasFilled hedges p) :
    |hedgedDelta hedges p d| ≤ 1 / 2 := by
  have hpos := hasFilled_iff.mp hfilled
  have hone : liveCount hedges p = 1 := by
    have hle := hO.live
    rw [live_split] at hle ⊢
    omega
  rw [hO.hedged, hone, abs_sub_comm]
  simpa using roundHalfEven_near d

theorem converges (hmin : 1 ≤ cfg.minHedgeQty) (hO : OneHedge p d hedges) {e : HedgerEvent}
    (he : SteadyDelta p d e) (hguard : NoCycleAfterFill p hedges e) :
    Converges cfg p d hedges e where
  decision db market now heq := by
    have hnone := hguard ⟨db, market, now, heq⟩
    rw [hasFilled_iff] at hnone
    have hlive : liveCount hedges p = inFlightCount hedges p := by
      rw [live_split]
      omega
    rw [hO.decision (he db market now heq).2, hO.hedged, hlive]
  remaining hfilled := (hO.step hmin he hguard).remaining hfilled
  quiet hfilled := by
    have hmove := hedgerStep_move hedges hmin e
    generalize hedgerStep cfg hedges e = hedges' at hmove
    cases hmove with
    | same => rfl
    | @hedge db p' market now delta h event decided position pending signed nonzero =>
      by_cases hp : p' = p
      · subst hp
        exact absurd hfilled (hguard ⟨db, market, now, event⟩)
      · simp [hedgesOf, position, hp]
    | write moves _ => exact hedgesOf_modify_length moves.position

end OneHedge

end Cycle

/-- **The hedger converges exactly as long as no cycle follows a fill.**  For an open position
without hedges and a steady option delta, every event of a history leaves the position hedged
within half a contract, just when the monitor never visits it after one of its hedges filled. -/
theorem hedger_converges_iff (cfg : HedgeConfig) (hmin : 1 ≤ cfg.minHedgeQty) (p : ℕ) (d : ℚ)
    (hedges : List PositionHedge) (hnone : hedgesOf hedges p = []) (events : List HedgerEvent)
    (hsteady : ∀ e ∈ events, SteadyDelta p d e) :
    Guarded (hedgerStep cfg) (Converges cfg p d) hedges events ↔
      Guarded (hedgerStep cfg) (NoCycleAfterFill p) hedges events := by
  constructor
  · have one (hedges : List PositionHedge) (e : HedgerEvent) (he : SteadyDelta p d e) (hI : HedgeInvariant p d hedges)
        (hone : Converges cfg p d hedges e) : NoCycleAfterFill p hedges e ∧ HedgeInvariant p d (hedgerStep cfg hedges e) :=
      ⟨hone.noCycle hI he, hI.step hmin he⟩
    exact fun h => h.imp one (HedgeInvariant.initial hnone) hsteady
  · have one (hedges : List PositionHedge) (e : HedgerEvent) (he : SteadyDelta p d e) (hO : OneHedge p d hedges)
        (hone : NoCycleAfterFill p hedges e) : Converges cfg p d hedges e ∧ OneHedge p d (hedgerStep cfg hedges e) :=
      ⟨hO.converges hmin he hone, hO.step hmin he hone⟩
    exact fun h => h.imp one (OneHedge.initial hnone) hsteady

def fourCalls : Db where
  structures := [TradeStructure.new 0]
  orders :=
    [{ StructureOrder.new 0 0 .entry .buy 4 0 with
       contractType := .call
       contractExpiry := some ⟨2026, 9, 4⟩
       contractStrike := some (118 / 100)
       state := .filled
       qtyFilled := 4 }]
  fills := []
  legPositions := fun _ => none
  bookedPositions :=
    [{ structureId := 0, openedAt := 0, entryPremiumUsd := 0, entryTotalCostUsd := 0,
       state := .open }]
  exitAlerts := []
  openPositions := []

def halfDelta : Market where
  ivAtStrike _ := some (8 / 100)
  bsDelta _ _ := 1 / 2

theorem steady_fourCalls (now : Instant) :
    SteadyDelta 0 2 (.monitor fourCalls 0 halfDelta now) := by
  intro db market now' heq
  obtain ⟨rfl, -, rfl, -⟩ := HedgerEvent.monitor.inj heq
  exact ⟨by decide +kernel, by decide +kernel⟩

def hedgedFourCalls : List HedgerEvent :=
  [.monitor fourCalls 0 halfDelta 0, .submitted 0 ⟨some 7, none⟩ 1, .filled 0]

theorem steady_hedgedFourCalls : ∀ e ∈ hedgedFourCalls, SteadyDelta 0 2 e := by
  intro e he
  simp only [hedgedFourCalls, List.mem_cons, List.not_mem_nil, or_false] at he
  rcases he with rfl | rfl | rfl
  · exact steady_fourCalls 0
  · exact nofun
  · exact nofun

theorem noCycle_hedgedFourCalls :
    Guarded (hedgerStep .defaults) (NoCycleAfterFill 0) [] hedgedFourCalls := by
  refine ⟨?_, nofun, nofun, trivial⟩
  intro _
  decide +kernel

theorem hedger_converges_fourCalls :
    Guarded (hedgerStep .defaults) (Converges .defaults 0 2) [] hedgedFourCalls :=
  (hedger_converges_iff .defaults (by decide) 0 2 [] rfl hedgedFourCalls
    steady_hedgedFourCalls).mpr noCycle_hedgedFourCalls

/-- The next cycle after the cooldown sells the two futures a second time, and fills. -/
def hedgedTwice : List HedgerEvent :=
  hedgedFourCalls ++
    [.monitor fourCalls 0 halfDelta 300000000, .submitted 1 ⟨some 8, none⟩ 300000001, .filled 1]

/-- Every hedge of the run fills and the option delta stays 2, yet four futures are sold. -/
theorem hedger_sells_twice :
    (∀ e ∈ hedgedTwice, SteadyDelta 0 2 e) ∧
    (∀ h ∈ hedgedTwice.foldl (hedgerStep .defaults) [], h.state = .filled) ∧
    hedgedDelta (hedgedTwice.foldl (hedgerStep .defaults) []) 0 2 = -2 ∧
    ¬ Guarded (hedgerStep .defaults) (Converges .defaults 0 2) [] hedgedTwice := by
  refine ⟨?_, by decide +kernel, by decide +kernel, ?_⟩
  · intro e he
    rcases List.mem_append.mp he with hfirst | hsecond
    · exact steady_hedgedFourCalls e hfirst
    · simp only [List.mem_cons, List.not_mem_nil, or_false] at hsecond
      rcases hsecond with rfl | rfl | rfl
      · exact steady_fourCalls 300000000
      · exact nofun
      · exact nofun
  · rintro ⟨-, -, -, hcycle, -⟩
    have hdec := hcycle.decision fourCalls halfDelta 300000000 rfl
    revert hdec
    decide +kernel

end FxVol
