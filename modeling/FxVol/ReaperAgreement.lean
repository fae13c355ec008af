import FxVol.OrderEvents
import FxVol.RowChanges

/-!
# The reaper against the order state machine

`next_state` and the reaper classify the statuses of IB each in its own table.  An order that
IB still works is expired by the reaper unless something else spares it: it is not stale, IB
lists it under one of the reaper's own live statuses, or the mirror still has a row for it.
-/
namespace FxVol

open KeyedPasses

/-- `next_state` leaves an order under this status working. -/
def treatsAsWorking (current : OrderState) (status : IbStatus) (hasErrorReason : Bool) : Prop :=
  (nextState current status hasErrorReason).kind = .noop ∨
    (nextState current status hasErrorReason).kind = .held

/-- The trade is this order: one of its ids is the row's, or its reference names the row. -/
def IbTrade.Lists (t : IbTrade) (o : StructureOrder) (orderId : ℕ) : Prop :=
  (o.ibOrderId ≠ none ∧ t.orderId = o.ibOrderId) ∨ (o.ibPermId ≠ none ∧ t.permId = o.ibPermId) ∨
    (parseOrderRef t.orderRef).map (·.2) = some (orderId : ℤ)

/-- A dispatched order that IB lists as working, with something left to execute;
`hasErrorReason` tells which trades have an IB error in their log. -/
structure WorkingAtIb (db : Db) (trades : List IbTrade) (hasErrorReason : IbTrade → Bool)
    (orderId : ℕ) (o : StructureOrder) : Prop where
  row : db.orders[orderId]? = some o
  dispatched : o.state.isStuck
  listed : ∃ t ∈ trades, t.Lists o orderId ∧ 0 < t.remaining ∧
    treatsAsWorking o.state t.status (hasErrorReason t)

/-- The tables after the adoption sweep. -/
def adoptOrphans (db : Db) (trades : List IbTrade) (now : Instant) : Db :=
  (List.range db.orders.length).foldl (adoptOrphan trades now) db

/-- The mirror rows that orders in this list claim, each its first match not claimed before. -/
def mirrorClaims (db : Db) (live : List ℕ) (ids used : List ℕ) : List ℕ :=
  ids.foldl (fun used i => match db.orders[i]? with
    | none => used
    | some o =>
      if o.isLiveAtIb live then used else ((mirrorMatch db used o).map (·.id)).toList ++ used) used

/-- What spares an order: it is not stale, IB lists it under a live status by an id of its row,
or the mirror has a row for it that no stale order before it claims. -/
def SparedByReaper (db : Db) (trades : List IbTrade) (tau : ℤ) (now : Instant) (orderId : ℕ) :
    Prop :=
  let db₁ := adoptOrphans db trades now
  let live := liveIbOrderKeys trades
  let before := (staleIds db₁ (now - tau)).takeWhile (· ≠ orderId)
  ∀ o ∈ db₁.orders[orderId]?, ¬ o.submittedAt.any (· < now - tau) ∨ o.isLiveAtIb live ∨
    (mirrorMatch db₁ (mirrorClaims db₁ live before []) o).isSome

instance (db : Db) (trades : List IbTrade) (tau : ℤ) (now : Instant) (orderId : ℕ) :
    Decidable (SparedByReaper db trades tau now orderId) :=
  inferInstanceAs (Decidable (∀ o ∈ _, _ ∨ _ ∨ _))

/-- The statuses `next_state` treats as working, on a dispatched order. -/
theorem treatsAsWorking_iff {current : OrderState} (h : current.isStuck) (status : IbStatus)
    (hasErrorReason : Bool) : treatsAsWorking current status hasErrorReason ↔
      status ∈ [.pendingSubmit, .apiPending, .preSubmitted, .submitted, .pendingCancel] ∨
      status = .inactive ∧ hasErrorReason = false := by
  cases current <;> simp [OrderState.isStuck] at h <;> cases status <;> cases hasErrorReason <;>
    simp [treatsAsWorking, nextState, ibStatusToState, OrderState.isTerminal]

section Pass
variable {db : Db} {acc : Db × List ℕ} {live used : List ℕ} {tau : ℤ} {now : Instant} {i : ℕ}
  {o : StructureOrder}

/-- What the reaper does to a stale order. -/
theorem reapOrder_stale (ho : acc.1.orders[i]? = some o) (hstuck : o.state.isStuck)
    (hstale : o.submittedAt.any (· < now - tau)) :
    reapOrder live tau now acc i =
      if o.isLiveAtIb live then acc
      else match mirrorMatch acc.1 acc.2 o with
        | some pos => (acc.1, pos.id :: acc.2)
        | none =>
          (releaseReservation (acc.1.setOrder i (o.expiredAt now)) (o.expiredAt now), acc.2) := by
  obtain ⟨submitted, hsub, hlt⟩ := (Option.any_eq_true _ _).mp hstale
  have hage : ¬ now - submitted ≤ tau := by
    have hbefore : submitted < now - tau := of_decide_eq_true hlt
    exact not_le.mpr (lt_sub_comm.mp hbefore)
  simp only [reapOrder, ho, hsub, Option.getD_some, decideReap, hstuck, Bool.not_true,
    Bool.false_eq_true, if_false, hage]
  cases mirrorMatch acc.1 acc.2 o <;> rfl

theorem reapOrder_openPositions :
    (reapOrder live tau now acc i).1.openPositions = acc.1.openPositions := by
  rcases reapOrder_cases live tau now acc i with h | ⟨o, _, _, h⟩
  · rw [h]
  · rw [h, releaseReservation_openPositions, Db.setOrder_openPositions]

/-- The rows a pass over stale orders claims are those the mirror shares out. -/
theorem reapOrders_claims {ids : List ℕ} (hd : ids.Nodup)
    (hrows : ∀ j ∈ ids, acc.1.orders[j]? = db.orders[j]?)
    (hstale : ∀ j ∈ ids, ∃ o, db.orders[j]? = some o ∧ o.state.isStuck ∧
      o.submittedAt.any (· < now - tau))
    (hpos : acc.1.openPositions = db.openPositions) :
    (ids.foldl (reapOrder live tau now) acc).2 = mirrorClaims db live ids acc.2 := by
  induction ids generalizing acc with
  | nil => rfl
  | cons k ids ih =>
    obtain ⟨hk, hd'⟩ := List.nodup_cons.mp hd
    obtain ⟨o, ho, hstuck, hold⟩ := hstale k List.mem_cons_self
    have hrow := (hrows k List.mem_cons_self).trans ho
    have hstep : reapOrder live tau now acc k = _ := reapOrder_stale hrow hstuck hold
    have hused : (reapOrder live tau now acc k).2 =
        mirrorClaims db live [k] acc.2 := by
      rw [hstep]
      simp only [mirrorClaims, List.foldl_cons, List.foldl_nil, ho,
        ← mirrorMatch_congr hpos acc.2 o]
      split_ifs
      · rfl
      · cases mirrorMatch acc.1 acc.2 o <;> rfl
    have hrest : mirrorClaims db live (k :: ids) acc.2 =
        mirrorClaims db live ids (reapOrder live tau now acc k).2 := by
      rw [hused]
      rfl
    rw [List.foldl_cons, hrest]
    apply ih hd'
    · intro j hj
      have hne : j ≠ k := by
        rintro rfl
        exact hk hj
      exact (local_reapOrder live tau now acc k _ rfl j hne).trans
        (hrows j (List.mem_cons_of_mem _ hj))
    · intro j hj
      exact hstale j (List.mem_cons_of_mem _ hj)
    · exact reapOrder_openPositions.trans hpos

/-- A stale order is expired by its pass unless IB lists it or the mirror has a row left. -/
theorem reapOrders_expired_iff {ids : List ℕ} (hd : ids.Nodup) (hi : i ∈ ids)
    (hstale : ∀ j ∈ ids, ∃ o, db.orders[j]? = some o ∧ o.state.isStuck ∧
      o.submittedAt.any (· < now - tau))
    (ho : db.orders[i]? = some o) :
    (∀ o' ∈ (ids.foldl (reapOrder live tau now) (db, [])).1.orders[i]?, o'.state ≠ .expired) ↔
      o.isLiveAtIb live ∨
        (mirrorMatch db (mirrorClaims db live (ids.takeWhile (· ≠ i)) []) o).isSome := by
  obtain ⟨before, after, rfl⟩ := List.append_of_mem hi
  obtain ⟨hdb, hda, hdisj⟩ := List.nodup_append.mp hd
  have hnb : i ∉ before := fun h => hdisj i h i List.mem_cons_self rfl
  have hna : i ∉ after := (List.nodup_cons.mp hda).1
  have hbefore : (before ++ i :: after).takeWhile (· ≠ i) = before := by
    rw [List.takeWhile_append_of_pos, List.takeWhile_cons_of_neg, List.append_nil]
    · simp
    · intro j hj
      have hne : j ≠ i := by
        rintro rfl
        exact hnb hj
      simpa using hne
  obtain ⟨o₁, ho₁, hstuck, hold⟩ := hstale i hi
  obtain rfl : o = o₁ := Option.some.inj (ho.symm.trans ho₁)
  rw [hbefore, List.foldl_append, List.foldl_cons]
  have hfirst := passes_foldl (reapOrder live tau now) before (db, [])
  have hrow : (before.foldl (reapOrder live tau now) (db, [])).1.orders[i]? = some o :=
    (hfirst.view_notMem (local_reapOrder live tau now) hnb).trans ho
  have hclaims : (before.foldl (reapOrder live tau now) (db, [])).2 =
      mirrorClaims db live before [] :=
    reapOrders_claims hdb (fun _ _ => rfl) (fun j hj => hstale j (List.mem_append_left _ hj)) rfl
  have hpos : (before.foldl (reapOrder live tau now) (db, [])).1.openPositions =
      db.openPositions :=
    foldl_frame (fun acc : Db × List ℕ => acc.1.openPositions) (reapOrder live tau now)
      (fun _ _ => reapOrder_openPositions) before (db, [])
  generalize before.foldl (reapOrder live tau now) (db, []) = acc at hrow hclaims hpos ⊢
  have hlast := (passes_foldl (reapOrder live tau now) after
    (reapOrder live tau now acc i)).view_notMem (local_reapOrder live tau now) hna
  have hown : (∀ o' ∈ (reapOrder live tau now acc i).1.orders[i]?, o'.state ≠ .expired) ↔
      o.isLiveAtIb live ∨ (mirrorMatch db (mirrorClaims db live before []) o).isSome := by
    rw [reapOrder_stale hrow hstuck hold, mirrorMatch_congr hpos, hclaims]
    have hkept : ∀ o' ∈ acc.1.orders[i]?, o'.state ≠ .expired := by
      intro o' ho' hexpired
      obtain rfl : o = o' := Option.some.inj (hrow.symm.trans ho')
      rw [hexpired] at hstuck
      cases hstuck
    split_ifs with hlive
    · exact iff_of_true hkept (.inl hlive)
    · cases hmatch : mirrorMatch db (mirrorClaims db live before []) o with
      | some pos => exact iff_of_true hkept (.inr rfl)
      | none =>
        refine iff_of_false ?_ (by simp [hlive])
        intro hno
        refine hno (o.expiredAt now) ?_ rfl
        rw [releaseReservation_orders]
        exact Db.setOrder_getElem?_self acc.1 i _ (by simp [hrow])
  rw [hlast]
  exact hown

end Pass

section Agreement
variable {db : Db} {trades : List IbTrade} {hasErrorReason : IbTrade → Bool} {tau : ℤ}
  {now : Instant} {i : ℕ} {o : StructureOrder}

/-- A resting order of ten that IB lists as submitted, or with its cancel pending. -/
def restingOrder : Db :=
  [Event.submitPreview [callLeg .buy 10] 0, .stampLive 0 (some 7) (some 70) none 1].foldl step
    Db.empty

def listedAs (status : IbStatus) : List IbTrade := [⟨some 7, some 70, status, 10, none⟩]

def restingRow : StructureOrder := restingOrder.orders.get ⟨0, by decide +kernel⟩

theorem workingAtIb_resting {status : IbStatus} (h : treatsAsWorking .submitted status false) :
    WorkingAtIb restingOrder (listedAs status) (fun _ => false) 0 restingRow := by
  have hid : restingRow.ibOrderId = some 7 := by decide +kernel
  have hstate : restingRow.state = .submitted := by decide +kernel
  refine ⟨by decide +kernel, by decide +kernel, _, List.mem_cons_self, .inl ⟨?_, hid.symm⟩, ?_, ?_⟩
  · rw [hid]
    exact Option.some_ne_none 7
  · exact Nat.ofNat_pos
  · rw [hstate]
    exact h

end Agreement

end FxVol
