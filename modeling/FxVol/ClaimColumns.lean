import FxVol.TableGrowth
import FxVol.PlacementSystem

/-!
# The claims no other writer touches

`submit_claimed_at` of an order and of a structure is written by the placement calls only.
-/
namespace FxVol

open KeyedPasses

section Columns
variable {α β : Type*} (column : α → Option β) (table : List α)

/-- A write that keeps a column keeps it in the table. -/
theorem column_modify (i : ℕ) (g : α → α) (h : ∀ a, column (g a) = column a) (j : ℕ) :
    ((table.modify i g)[j]?).bind column = (table[j]?).bind column := by
  by_cases hj : j = i
  · subst hj
    rw [List.getElem?_modify_eq]
    cases table[j]? with
    | none => rfl
    | some a => exact h a
  · rw [List.getElem?_modify_ne _ _ (Ne.symm hj)]

/-- A row appended with an empty column shows no value there. -/
theorem column_append {a : α} (h : column a = none) (j : ℕ) :
    ((table ++ [a])[j]?).bind column = (table[j]?).bind column := by
  rcases Nat.lt_trichotomy j table.length with hlt | rfl | hgt
  · rw [List.getElem?_append_left hlt]
  · simp [h]
  · have hnone : table[j]? = none := List.getElem?_eq_none (by omega)
    have hnone' : (table ++ [a])[j]? = none := List.getElem?_eq_none (by simp; omega)
    rw [hnone, hnone']

end Columns

def Db.structureClaim (db : Db) (s : ℕ) : Option Instant :=
  (db.structures[s]?).bind (·.submitClaimedAt)

def Db.orderClaim (db : Db) (i : ℕ) : Option Instant := (db.orders[i]?).bind (·.submitClaimedAt)

section Structures
variable {db db' : Db} {s : ℕ}

theorem structureClaim_congr (h : db'.structures = db.structures) :
    db'.structureClaim = db.structureClaim := by
  funext s
  rw [Db.structureClaim, h, Db.structureClaim]

theorem structureClaim_set (db : Db) {r : TradeStructure} (r' : TradeStructure)
    (hr : db.structures[s]? = some r) (h : r'.submitClaimedAt = r.submitClaimedAt) :
    (db.setStructure s r').structureClaim = db.structureClaim := by
  funext s'
  by_cases hs : s' = s
  · subst hs
    have hlt := (List.getElem?_eq_some_iff.mp hr).1
    rw [Db.structureClaim, Db.structureClaim, hr, Db.setStructure, List.getElem?_set_self hlt]
    exact h
  · simp [Db.structureClaim, Db.setStructure, Ne.symm hs]

theorem structureClaim_add (db : Db) {r : TradeStructure} (h : r.submitClaimedAt = none) :
    (db.addStructure r).structureClaim = db.structureClaim := by
  funext s
  exact column_append (·.submitClaimedAt) db.structures h s

theorem terminaliseStructure_claim (now : Instant) (db : Db) (sid : ℕ) :
    (terminaliseStructure now db sid).structureClaim = db.structureClaim := by
  unfold terminaliseStructure
  split
  · next r new hr _ =>
    split_ifs
    · rfl
    · exact structureClaim_set db _ hr rfl
  · rfl

theorem maybeCompleteStructure_claim (db : Db) (sid : ℕ) (now : Instant) :
    (maybeCompleteStructure db sid now).1.structureClaim = db.structureClaim := by
  unfold maybeCompleteStructure
  split
  · rfl
  · next r hr =>
    dsimp only
    have hset := structureClaim_set db
      (r.completed (primaryOrders ((db.ordersOf sid).map (·.1))) now) hr rfl
    split_ifs
    · rfl
    · exact hset
    · have hbook (s : TradeStructure) (db : Db) :
          (bookPosition db sid s now).structures = db.structures := by
        unfold bookPosition
        split <;> rfl
      exact (structureClaim_congr (hbook _ _)).trans hset

theorem closeAnswer_claim (db : Db) (i : ℕ) (outcome : DispatchOutcome) (now : Instant) :
    (closeAnswer db i outcome now).structureClaim = db.structureClaim := by
  unfold closeAnswer
  split
  · rfl
  · dsimp only
    split
    · next hr => exact structureClaim_set (db.setOrder i _) _ hr rfl
    · next hr => exact structureClaim_set (db.setOrder i _) _ hr rfl
    · rfl

theorem bookCombo_structures {perm : String} {now : Instant} {ids : List ℕ}
    (h : ids.foldlM (bookComboLeg perm now) db = .ok db') : db'.structures = db.structures := by
  apply (passes_foldlM _ h).invariant (I := fun s => s.structures = db.structures)
  · intro k _ s t hs hk
    rcases bookComboLeg_cases hk with rfl | ⟨o, s₁, _, _, ⟨_, rfl⟩ | ⟨_, rfl⟩, rfl⟩
    · exact hs
    · simpa [bookComboRow] using hs
    · simpa [bookComboRow] using hs
  · rfl

theorem comboStatus_structures (perm : String) (ids : List ℕ) (status : IbStatus)
    (reason : Option String) (now : Instant) :
    (onComboStatus db perm ids status reason now).1.structures = db.structures := by
  rcases onComboStatus_cases db perm ids status reason now with h | ⟨_, h⟩ | h
  · rw [h]
  · exact bookCombo_structures h
  · rw [h]
    exact foldl_frame Db.structures (comboCancelLeg status reason now) (fun s i => rfl) ids db

theorem reconcile_structures (db : Db) (now : Instant) :
    (reconcileStuckOrders db now).1.structures = db.structures := by
  have hmirror (acc : Db × List ℕ) (i : ℕ) :
      (mirrorPass now acc i).1.structures = acc.1.structures := by
    unfold mirrorPass
    split
    · rfl
    · split <;> rfl
  have hbook (db : Db) (i : ℕ) : (bookPass now db i).structures = db.structures := by
    rcases bookPass_cases now db i with h | ⟨o, new, _, _, h⟩ <;> rw [h]
    rfl
  have hfirst := foldl_frame Db.structures (bookPass now) hbook (stuckIds db) db
  exact (foldl_frame (fun acc : Db × List ℕ => acc.1.structures) (mirrorPass now) hmirror _ _).trans
    hfirst

/-- The reaper leaves the structures alone until it drives them to their final states. -/
theorem reapOrders_structures (db : Db) (trades : List IbTrade) (tau : ℤ) (now : Instant) :
    ((staleIds ((List.range db.orders.length).foldl (adoptOrphan trades now) db)
      (now - tau)).foldl (reapOrder (liveIbOrderKeys trades) tau now)
        ((List.range db.orders.length).foldl (adoptOrphan trades now) db, [])).1.structures =
      db.structures := by
  have hadopt (db : Db) (i : ℕ) : (adoptOrphan trades now db i).structures = db.structures := by
    rcases adoptOrphan_cases trades now db i with h | ⟨o, t, _, _, h⟩ <;> rw [h]
    rfl
  have hreap (acc : Db × List ℕ) (i : ℕ) :
      (reapOrder (liveIbOrderKeys trades) tau now acc i).1.structures = acc.1.structures := by
    rcases reapOrder_cases (liveIbOrderKeys trades) tau now acc i with h | ⟨o, _, _, h⟩ <;> rw [h]
    rw [releaseReservation_structures]
    rfl
  have hfirst := foldl_frame Db.structures (adoptOrphan trades now) hadopt
    (List.range db.orders.length) db
  exact (foldl_frame (fun acc : Db × List ℕ => acc.1.structures)
    (reapOrder (liveIbOrderKeys trades) tau now) hreap _ _).trans hfirst

theorem reap_claim (db : Db) (trades : List IbTrade) (tau : ℤ) (now : Instant) :
    (reapStaleOrders db trades tau now).structureClaim = db.structureClaim :=
  (foldl_frame Db.structureClaim (terminaliseStructure now)
    (terminaliseStructure_claim now) _ _).trans
      (structureClaim_congr (reapOrders_structures db trades tau now))

theorem reconnect_structures (db : Db) (trades : List IbTrade) (now : Instant) :
    (attachOptionHandlers db trades now).structures = db.structures := by
  apply foldl_frame Db.structures (attachOptionHandler trades now)
  intro db i
  rcases attachOptionHandler_cases trades now db i with h | ⟨o, t, _, _, h⟩ <;> rw [h]
  rfl

theorem cancelTrade_claim (db : Db) (tradeId : ℕ) (ids : List ℕ) (now : Instant) :
    (cancelTrade db tradeId ids now).structureClaim = db.structureClaim := by
  rw [cancelTrade, terminaliseStructure_claim]
  exact structureClaim_congr (foldl_frame Db.structures (cancelOrder now) (fun s i => rfl) ids db)

theorem persistPositionClose_structures (db : Db) (positionId : ℕ) (pos : BookedPosition)
    (legs : List ClosingLegSpec) (alert : Option ℕ) (now : Instant) :
    (persistPositionClose db positionId pos legs alert now).structures =
      db.structures ++ [TradeStructure.new now] := by
  have hbook := foldl_frame Db.structures recomputeReservation recomputeReservation_structures
  simp only [persistPositionClose, hbook]
  rfl

theorem persistPositionClose_claim (db : Db) (positionId : ℕ) (pos : BookedPosition)
    (legs : List ClosingLegSpec) (alert : Option ℕ) (now : Instant) :
    (persistPositionClose db positionId pos legs alert now).structureClaim =
      db.structureClaim :=
  (structureClaim_congr (persistPositionClose_structures ..)).trans (structureClaim_add db rfl)

/-- No transaction of the book writes the claim of a structure. -/
theorem step_structureClaim (db : Db) (e : Event) :
    (step db e).structureClaim = db.structureClaim := by
  cases e with
  | submitPreview legs now => exact structureClaim_add db rfl
  | createUnwind sid idx leg now =>
    apply structureClaim_congr
    simp only [step, Db.insertOrder]
    split_ifs <;> rfl
  | stampLive | stampPlacement | orderStatus | syncPositions => rfl
  | comboStatus perm ids status reason now =>
    exact structureClaim_congr (comboStatus_structures perm ids status reason now)
  | execution i fill now =>
    apply structureClaim_congr
    rcases deliverFill_cases db i fill now with h | ⟨o, _, _, h⟩
    · rw [step, h]
    · rw [step, h, bookFill]
      simp
  | commissionReport i x c cur =>
    apply structureClaim_congr
    rcases onCommissionReport_cases db i x cur c with h | ⟨cur', h⟩ <;> rw [step, h]
    simp
  | completeStructure sid now => exact maybeCompleteStructure_claim db sid now
  | reconcile now => exact structureClaim_congr (reconcile_structures db now)
  | reap trades tau now => exact reap_claim db trades tau now
  | reconnect trades now => exact structureClaim_congr (reconnect_structures db trades now)
  | closeRequest pos qty lp target rth now =>
    rcases closeRequest_cases db pos qty lp target rth now with h | ⟨price, _, _, h⟩
    · rw [h]
    · rw [h]
      exact (structureClaim_congr (releaseReservation_structures _ _)).trans
        (structureClaim_add db rfl)
  | closeAnswer i outcome now => exact closeAnswer_claim db i outcome now
  | cancelTrade tradeId ids now => exact cancelTrade_claim db tradeId ids now
  | positionClose positionId alert now =>
    rcases positionClose_cases db positionId alert now with h | ⟨pos, legs, _, _, _, h⟩
    · rw [h]
    · rw [h]
      exact persistPositionClose_claim db positionId pos legs alert now

end Structures

section Orders
variable {db : Db} {i : ℕ} {o o' : StructureOrder} {e : Event} {fills : List StructureFill}

theorem RowChange.submitClaimedAt (h : RowChange db i o e o' fills) :
    o'.submitClaimedAt = o.submitClaimedAt := by
  cases h with
  | same | stampedLive | stamped | reported | repaired | mirrored | adopted | rewired => rfl
  | comboBooked | cancelled => rfl
  | onStatus status reason now =>
    unfold StructureOrder.onStatus
    dsimp only
    split <;> try rfl
    split_ifs <;> rfl
  | comboCancelled perm status reason now =>
    unfold StructureOrder.onComboCancel
    split <;> rfl
  | booked =>
    unfold StructureOrder.booked StructureOrder.afterFill
    split_ifs <;> rfl
  | expired trades tau now o₁ h₁ => rcases h₁ with rfl | ⟨t, _, rfl⟩ <;> rfl
  | answered outcome now => cases outcome <;> rfl

/-- No transaction of the book writes the claim of an order. -/
theorem step_orderClaim (db : Db) (e : Event) : (step db e).orderClaim = db.orderClaim := by
  funext i
  by_cases hi : i < db.orders.length
  · have ho := List.getElem?_eq_getElem hi
    obtain ⟨o', ho', hchange⟩ := step_row e ho
    rw [Db.orderClaim, ho', Db.orderClaim, ho]
    exact hchange.submitClaimedAt
  · have hnone : db.orders[i]? = none := List.getElem?_eq_none (by omega)
    rw [Db.orderClaim, Db.orderClaim, hnone]
    cases ho : (step db e).orders[i]? with
    | none => rfl
    | some o => exact (step_new (by omega) ho).unclaimed

end Orders

end FxVol
