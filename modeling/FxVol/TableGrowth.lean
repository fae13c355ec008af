import FxVol.RowChanges

/-!
# How the order table grows

Every transaction rewrites the rows it finds by a `RowChange` and may append fresh rows; no
row goes away and no leg is redefined.  Fills are only added, so what is recorded on an
order never shrinks.
-/
namespace FxVol

open KeyedPasses GuardedRuns

/-- A row as it is inserted: nothing placed, nothing filled. -/
structure StructureOrder.Fresh (o : StructureOrder) : Prop where
  pending : o.state = .pending
  unfilled : o.qtyFilled = 0
  noCommission : o.totalCommissionUsd = 0
  noSlippage : o.totalSlippageUsd = none
  unclaimed : o.submitClaimedAt = none

/-- Table `db'` has the rows of `db`, rewritten or not, and then fresh ones. -/
def Appends (db db' : Db) : Prop :=
  ∃ new, db'.orders = db.orders ++ new ∧ ∀ o ∈ new, o.Fresh

section NewRows
variable {db db' : Db} {i : ℕ} {o : StructureOrder}

theorem Appends.old (h : Appends db db') (ho : db.orders[i]? = some o) :
    db'.orders[i]? = some o := by
  obtain ⟨new, horders, _⟩ := h
  have hi : i < db.orders.length := (List.getElem?_eq_some_iff.mp ho).1
  rw [horders, List.getElem?_append_left hi, ho]

theorem Appends.new (h : Appends db db') (hi : db.orders.length ≤ i)
    (ho : db'.orders[i]? = some o) : o.Fresh := by
  obtain ⟨new, horders, hfresh⟩ := h
  rw [horders, List.getElem?_append_right hi] at ho
  exact hfresh o (List.mem_of_getElem? ho)

theorem Appends.rfl (db : Db) : Appends db db := ⟨[], by simp, by simp⟩

theorem fresh_order (leg : LegSpec) (sid idx : ℕ) (role : OrderRole) (now : Instant) :
    (leg.order sid idx role now).Fresh := ⟨.refl _, .refl _, .refl _, .refl _, .refl _⟩

theorem appends_submitPreview (db : Db) (legs : List LegSpec) (now : Instant) :
    Appends db (submitPreview db legs now) := by
  refine ⟨_, .refl _, ?_⟩
  intro o ho
  obtain ⟨k, hk, rfl⟩ := List.mem_mapIdx.mp ho
  exact fresh_order _ _ _ _ _

theorem appends_createUnwind (db : Db) (sid idx : ℕ) (leg : LegSpec) (now : Instant) :
    Appends db (step db (.createUnwind sid idx leg now)) := by
  simp only [step, Db.insertOrder]
  split_ifs
  · exact .rfl db
  · refine ⟨[leg.order sid idx .unwind now], .refl _, ?_⟩
    simpa using fresh_order _ _ _ _ _

theorem closeOneOpenPosition_ok {pos : OpenPosition} {qty k : ℕ} {lp : Option ℚ}
    {target : Option ℕ} {rth : Bool} {now : Instant}
    (h : closeOneOpenPosition db pos qty lp target rth now = .ok (db', k)) :
    qty ≤ pos.quantity ∧ alreadyClosing db pos now + qty ≤ pos.quantity ∧
      k = db.orders.length ∧ ∃ price, closePrice pos lp rth = .ok price ∧
        db' = releaseReservation
          ((db.addStructure (TradeStructure.new now)).addOrder
            (closingOrder pos qty db.structures.length price (closeTarget db pos target) now))
          (closingOrder pos qty db.structures.length price (closeTarget db pos target) now) := by
  unfold closeOneOpenPosition at h
  dsimp only at h
  split_ifs at h with h₀ h₁ h₂
  cases hp : closePrice pos lp rth with
  | error e => simp [hp] at h
  | ok price =>
    simp only [hp, Except.ok.injEq, Prod.mk.injEq] at h
    exact ⟨by omega, by omega, h.2.symm, price, .refl _, h.1.symm⟩

theorem fresh_closingOrder (pos : OpenPosition) (qty sid : ℕ) (lp : Option ℚ) (target : Option ℕ)
    (now : Instant) : (closingOrder pos qty sid lp target now).Fresh :=
  ⟨.refl _, .refl _, .refl _, .refl _, .refl _⟩

/-- The tables once a closing order is inserted, in a structure of its own. -/
def insertClosing (db : Db) (o : StructureOrder) (now : Instant) : Db :=
  releaseReservation ((db.addStructure (TradeStructure.new now)).addOrder o) o

/-- A close request writes nothing, or the one closing order it was admitted with. -/
theorem closeRequest_cases (db : Db) (pos : OpenPosition) (qty : ℕ) (lp : Option ℚ)
    (target : Option ℕ) (rth : Bool) (now : Instant) :
    step db (.closeRequest pos qty lp target rth now) = db ∨
    ∃ price, qty ≤ pos.quantity ∧ alreadyClosing db pos now + qty ≤ pos.quantity ∧
      step db (.closeRequest pos qty lp target rth now) = insertClosing db
        (closingOrder pos qty db.structures.length price (closeTarget db pos target) now) now := by
  simp only [step]
  cases h : closeOneOpenPosition db pos qty lp target rth now with
  | error e => exact .inl (.refl _)
  | ok r =>
    obtain ⟨hqty, hadmit, _, price, _, hdb'⟩ := closeOneOpenPosition_ok h
    exact .inr ⟨price, hqty, hadmit, hdb'⟩

theorem appends_closeRequest (db : Db) (pos : OpenPosition) (qty : ℕ) (lp : Option ℚ)
    (target : Option ℕ) (rth : Bool) (now : Instant) :
    Appends db (step db (.closeRequest pos qty lp target rth now)) := by
  rcases closeRequest_cases db pos qty lp target rth now with h | ⟨price, _, _, h⟩
  · rw [h]
    exact .rfl db
  · rw [h]
    refine ⟨[closingOrder pos qty db.structures.length price (closeTarget db pos target) now],
      ?_, ?_⟩
    · rw [insertClosing, releaseReservation_orders]
      rfl
    · simpa using fresh_closingOrder _ _ _ _ _ _

theorem recomputeReservations_orders (ids : List ℕ) (db : Db) :
    (ids.foldl recomputeReservation db).orders = db.orders := by
  apply (passes_foldl recomputeReservation ids db).invariant (I := fun s => s.orders = _)
  · rintro k _ s t hs rfl
    rw [recomputeReservation_orders, hs]
  · rfl

/-- The close of a position writes nothing, or the legs it built for an open one. -/
theorem positionClose_cases (db : Db) (positionId : ℕ) (alert : Option ℕ) (now : Instant) :
    step db (.positionClose positionId alert now) = db ∨
    ∃ pos legs, db.bookedPositions[positionId]? = some pos ∧ pos.state = .open ∧
      buildClosingLegs ((entryOrders db pos.structureId).map (·.1)) = .ok legs ∧
      step db (.positionClose positionId alert now) =
        persistPositionClose db positionId pos legs alert now := by
  simp only [step, initiatePositionClose]
  cases hpos : db.bookedPositions[positionId]? with
  | none => exact .inl (.refl _)
  | some pos =>
    by_cases hopen : pos.state = .open
    · cases hlegs : buildClosingLegs ((entryOrders db pos.structureId).map (·.1)) with
      | error e => simp [hopen, hlegs]
      | ok legs => exact .inr ⟨pos, legs, .refl _, hopen, hlegs, by simp [hopen, hlegs]⟩
    · simp [hopen]

theorem persistPositionClose_orders (db : Db) (positionId : ℕ) (pos : BookedPosition)
    (legs : List ClosingLegSpec) (alert : Option ℕ) (now : Instant) :
    (persistPositionClose db positionId pos legs alert now).orders = db.orders ++
      positionCloseOrders db.structures.length (entryOrders db pos.structureId) legs now := by
  simp only [persistPositionClose, recomputeReservations_orders]
  rfl

theorem appends_positionClose (db : Db) (positionId : ℕ) (alert : Option ℕ) (now : Instant) :
    Appends db (step db (.positionClose positionId alert now)) := by
  rcases positionClose_cases db positionId alert now with h | ⟨pos, legs, _, _, _, h⟩
  · rw [h]
    exact .rfl db
  · rw [h]
    refine ⟨_, persistPositionClose_orders _ _ _ _ _ _, ?_⟩
    intro o ho
    obtain ⟨leg, _, rfl⟩ := List.mem_map.mp ho
    exact ⟨.refl _, .refl _, .refl _, .refl _, .refl _⟩

end NewRows

section Fills
variable (db : Db) (now : Instant)

theorem createUnwind_fills (sid idx : ℕ) (leg : LegSpec) :
    (step db (.createUnwind sid idx leg now)).fills = db.fills := by
  simp only [step, Db.insertOrder]
  split_ifs <;> rfl

theorem closeRequest_fills (pos : OpenPosition) (qty : ℕ) (lp : Option ℚ) (target : Option ℕ)
    (rth : Bool) : (step db (.closeRequest pos qty lp target rth now)).fills = db.fills := by
  rcases closeRequest_cases db pos qty lp target rth now with h | ⟨price, _, _, h⟩
  · rw [h]
  · rw [h, insertClosing, releaseReservation_fills]
    rfl

theorem recomputeReservations_fills (ids : List ℕ) :
    (ids.foldl recomputeReservation db).fills = db.fills := by
  apply (passes_foldl recomputeReservation ids db).invariant (I := fun s => s.fills = _)
  · rintro k _ s t hs rfl
    rw [recomputeReservation_fills, hs]
  · rfl

theorem persistPositionClose_fills (positionId : ℕ) (pos : BookedPosition)
    (legs : List ClosingLegSpec) (alert : Option ℕ) :
    (persistPositionClose db positionId pos legs alert now).fills = db.fills :=
  recomputeReservations_fills _ _

theorem positionClose_fills (positionId : ℕ) (alert : Option ℕ) :
    (step db (.positionClose positionId alert now)).fills = db.fills := by
  rcases positionClose_cases db positionId alert now with h | ⟨pos, legs, _, _, _, h⟩
  · rw [h]
  · rw [h, persistPositionClose_fills]

end Fills

section Step
variable {db : Db} {e : Event} {i : ℕ} {o : StructureOrder}

theorem deliverFill_row {fill : IbFill} {now : Instant} (j : ℕ) (ho : db.orders[i]? = some o) :
    ∃ o', (deliverFill db j fill now).orders[i]? = some o' ∧
      RowChange db i o (.execution j fill now) o' ((deliverFill db j fill now).fillsOf i) := by
  rcases deliverFill_cases db j fill now with h | ⟨o₁, ho₁, hnew, h⟩
  · rw [h]
    exact ⟨o, ho, .same _⟩
  · have hfills : (bookFill db j o₁ fill now).fillsOf i = (db.addFill (fillRow j fill)).fillsOf i :=
      Db.fillsOf_congr bookFill_fills i
    rw [h, bookFill_orders, setOrder_row _ ho, hfills]
    by_cases hij : i = j
    · subst hij
      obtain rfl : o = o₁ := Option.some.inj (ho.symm.trans ho₁)
      rw [Db.addFill_fillsOf_self db (i := i) (fillRow i fill) rfl, if_pos rfl]
      exact ⟨_, rfl, .booked now hnew⟩
    · rw [Db.addFill_fillsOf_ne db (fillRow j fill) i (Ne.symm hij), if_neg hij]
      exact ⟨_, rfl, .same _⟩

theorem commissionReport_row (j : ℕ) (x : String) (c : Option ℚ) (cur : Option String)
    (ho : db.orders[i]? = some o) :
    ∃ o', (onCommissionReport db j x c cur).orders[i]? = some o' ∧
      RowChange db i o (.commissionReport j x c cur) o'
        ((onCommissionReport db j x c cur).fillsOf i) := by
  by_cases hfill : db.fills.any (·.isExecution j x)
  swap
  · rw [onCommissionReport_missing db j x cur hfill]
    exact ⟨o, ho, .same _⟩
  rcases onCommissionReport_cases db j x cur c with h | ⟨cur', h⟩
  · rw [h]
    exact ⟨o, ho, .same _⟩
  · have ho₁ : (db.reportFill j x (c.getD 0) cur').orders[i]? = some o := ho
    rw [h, updateOrder_row _ ho₁]
    have hfills : ((db.reportFill j x (c.getD 0) cur').updateOrder j fun o => o.withAggregates
        (recomputeAggregates (db.reportFill j x (c.getD 0) cur') j o)).fillsOf i =
        (db.fillsOf i).map fun f => f.reported j x (c.getD 0) cur' :=
      reportFill_fillsOf db j i x (c.getD 0) cur'
    rw [hfills]
    by_cases hij : i = j
    · subst hij
      rw [if_pos rfl]
      exact ⟨_, rfl, .reported x c cur cur' hfill⟩
    · rw [if_neg hij, reported_other hij]
      exact ⟨_, rfl, .same _⟩

theorem updateOrder_change (j : ℕ) (g : StructureOrder → StructureOrder)
    (hg : i = j → RowChange db i o e (g o) (db.fillsOf i)) (ho : db.orders[i]? = some o) :
    ∃ o', (db.updateOrder j g).orders[i]? = some o' ∧ RowChange db i o e o' (db.fillsOf i) := by
  refine ⟨_, updateOrder_row g ho, ?_⟩
  split_ifs with hij
  · exact hg hij
  · exact .same _

theorem closeAnswer_orders (db : Db) (j : ℕ) (outcome : DispatchOutcome) (now : Instant) :
    (closeAnswer db j outcome now).orders =
      (db.updateOrder j fun o => o.answered now outcome).orders := by
  cases ho : db.orders[j]? with
  | none => simp [closeAnswer, ho, Db.updateOrder, List.modify_eq_set_getElem?]
  | some o =>
    have hset : (db.updateOrder j fun o => o.answered now outcome).orders =
        db.orders.set j (o.answered now outcome) := by
      simp [Db.updateOrder, List.modify_eq_set_getElem?, ho]
    rw [hset]
    simp only [closeAnswer, ho]
    split <;> rfl

theorem closeAnswer_fills (db : Db) (j : ℕ) (outcome : DispatchOutcome) (now : Instant) :
    (closeAnswer db j outcome now).fills = db.fills := by
  unfold closeAnswer
  split
  · rfl
  · dsimp only
    split <;> rfl

/-- A transaction that only appends fresh rows changes no old leg. -/
theorem Appends.row {db' : Db} (h : Appends db db') (hfills : db'.fills = db.fills)
    (ho : db.orders[i]? = some o) :
    ∃ o', db'.orders[i]? = some o' ∧ RowChange db i o e o' (db'.fillsOf i) := by
  rw [Db.fillsOf_congr hfills]
  exact ⟨o, h.old ho, .same e⟩

/-- Each transaction rewrites an order row and its fills by one of the listed changes. -/
theorem step_row (e : Event) (ho : db.orders[i]? = some o) :
    ∃ o', (step db e).orders[i]? = some o' ∧ RowChange db i o e o' ((step db e).fillsOf i) := by
  cases e with
  | submitPreview legs now => exact (appends_submitPreview db legs now).row rfl ho
  | createUnwind sid idx leg now =>
    exact (appends_createUnwind db sid idx leg now).row (createUnwind_fills ..) ho
  | stampLive j a b lp now =>
    apply updateOrder_change j _ _ ho
    rintro rfl
    exact .stampedLive a b lp now
  | stampPlacement j a b now =>
    apply updateOrder_change j _ _ ho
    rintro rfl
    exact .stamped a b now
  | orderStatus j status reason now =>
    apply updateOrder_change j _ _ ho
    rintro rfl
    exact .onStatus status reason now
  | comboStatus perm ids status reason now => exact comboStatus_row perm ids status reason now ho
  | execution j fill now => exact deliverFill_row j ho
  | commissionReport j x c cur => exact commissionReport_row j x c cur ho
  | completeStructure sid now =>
    obtain ⟨horders, hfills, _⟩ := maybeCompleteStructure_frame db sid now
    simp only [step]
    rw [horders, Db.fillsOf_congr hfills]
    exact ⟨o, ho, .same _⟩
  | reconcile now => exact reconcile_row now ho
  | reap trades tau now => exact reap_row trades tau now ho
  | reconnect trades now => exact reconnect_row trades now ho
  | syncPositions rows => exact ⟨o, ho, .same _⟩
  | closeRequest pos qty lp target rth now =>
    exact (appends_closeRequest db pos qty lp target rth now).row (closeRequest_fills ..) ho
  | closeAnswer j outcome now =>
    simp only [step]
    rw [closeAnswer_orders, Db.fillsOf_congr (closeAnswer_fills db j outcome now)]
    apply updateOrder_change j _ _ ho
    rintro rfl
    exact .answered outcome now
  | cancelTrade tradeId ids now => exact cancelTrade_row tradeId ids now ho
  | positionClose positionId alert now =>
    exact (appends_positionClose db positionId alert now).row (positionClose_fills ..) ho

theorem bookComboLeg_length {perm : String} {now : Instant} {db' : Db}
    (hok : bookComboLeg perm now db i = .ok db') : db'.orders.length = db.orders.length := by
  rcases bookComboLeg_cases hok with rfl | ⟨o, db₁, _, _, hs, rfl⟩
  · rfl
  · simp [hs.orders]

theorem comboStatus_length (db : Db) (perm : String) (ids : List ℕ) (status : IbStatus)
    (reason : Option String) (now : Instant) :
    (onComboStatus db perm ids status reason now).1.orders.length = db.orders.length := by
  rcases onComboStatus_cases db perm ids status reason now with h | ⟨_, hok⟩ | h
  · rw [h]
  · apply (passes_foldlM _ hok).invariant (I := fun s => s.orders.length = _)
    · intro k _ s t hs hk
      rw [bookComboLeg_length hk, hs]
    · rfl
  · rw [h]
    apply (passes_foldl _ ids db).invariant (I := fun s => s.orders.length = _)
    · rintro k _ s t hs rfl
      simp [comboCancelLeg, Db.updateOrder, hs]
    · rfl

theorem reconcile_length (db : Db) (now : Instant) :
    (reconcileStuckOrders db now).1.orders.length = db.orders.length := by
  have h₁ : ((stuckIds db).foldl (bookPass now) db).orders.length = db.orders.length := by
    apply (passes_foldl _ _ db).invariant (I := fun s => s.orders.length = _)
    · rintro k _ s t hs rfl
      rcases bookPass_cases now s k with h | ⟨o, new, _, _, h⟩ <;> simp [h, hs]
    · rfl
  apply (passes_foldl (mirrorPass now) _ _).invariant (I := fun s => s.1.orders.length = _)
  · rintro k _ s t hs rfl
    unfold mirrorPass
    split
    · exact hs
    · split
      · exact hs
      · simpa using hs
  · exact h₁

theorem reap_length (db : Db) (trades : List IbTrade) (tau : ℤ) (now : Instant) :
    (reapStaleOrders db trades tau now).orders.length = db.orders.length := by
  rw [reapStaleOrders, terminaliseStructures_orders]
  apply (passes_foldl (reapOrder (liveIbOrderKeys trades) tau now) _ _).invariant
    (I := fun s => s.1.orders.length = _)
  · rintro k _ s t hs rfl
    rcases reapOrder_cases (liveIbOrderKeys trades) tau now s k with h | ⟨o, _, _, h⟩ <;>
      simp [h, hs]
  · apply (passes_foldl _ _ db).invariant (I := fun s => s.orders.length = _)
    · rintro k _ s t hs rfl
      rcases adoptOrphan_cases trades now s k with h | ⟨o, t, _, _, h⟩ <;> simp [h, hs]
    · rfl

theorem reconnect_length (db : Db) (trades : List IbTrade) (now : Instant) :
    (attachOptionHandlers db trades now).orders.length = db.orders.length := by
  apply (passes_foldl _ _ db).invariant (I := fun s => s.orders.length = _)
  · rintro k _ s t hs rfl
    rcases attachOptionHandler_cases trades now s k with h | ⟨o, t, _, _, h⟩ <;> simp [h, hs]
  · rfl

theorem cancelTrade_length (db : Db) (tradeId : ℕ) (ids : List ℕ) (now : Instant) :
    (cancelTrade db tradeId ids now).orders.length = db.orders.length := by
  rw [cancelTrade, terminaliseStructure_orders]
  apply (passes_foldl _ ids db).invariant (I := fun s => s.orders.length = _)
  · rintro k _ s t hs rfl
    simp [cancelOrder, Db.updateOrder, hs]
  · rfl

/-- The transactions that insert order rows. -/
def Event.inserts : Event → Bool
  | .submitPreview .. | .createUnwind .. | .closeRequest .. | .positionClose .. => true
  | _ => false

theorem step_length (h : e.inserts = false) : (step db e).orders.length = db.orders.length := by
  cases e with
  | submitPreview | createUnwind | closeRequest | positionClose => cases h
  | stampLive | stampPlacement | orderStatus => exact List.length_modify ..
  | comboStatus perm ids status reason now => exact comboStatus_length db perm ids status reason now
  | execution j fill now =>
    rcases deliverFill_cases db j fill now with h | ⟨o₁, _, _, h⟩
    · simp [step, h]
    · simp [step, h, bookFill_orders]
  | commissionReport j x c cur =>
    rcases onCommissionReport_cases db j x cur c with h | ⟨cur', h⟩
    · simp [step, h]
    · simp [step, h, Db.updateOrder]
  | completeStructure sid now =>
    exact congrArg List.length (maybeCompleteStructure_frame db sid now).1
  | reconcile now => exact reconcile_length db now
  | reap trades tau now => exact reap_length db trades tau now
  | reconnect trades now => exact reconnect_length db trades now
  | syncPositions rows => rfl
  | closeAnswer j outcome now =>
    rw [step, closeAnswer_orders]
    exact List.length_modify ..
  | cancelTrade tradeId ids now => exact cancelTrade_length db tradeId ids now

/-- A row beyond the old table is fresh. -/
theorem step_new (hi : db.orders.length ≤ i) (ho : (step db e).orders[i]? = some o) :
    o.Fresh := by
  have hlt : i < (step db e).orders.length := (List.getElem?_eq_some_iff.mp ho).1
  cases hins : e.inserts with
  | false =>
    rw [step_length hins] at hlt
    omega
  | true =>
    cases e with
    | submitPreview legs now => exact (appends_submitPreview db legs now).new hi ho
    | createUnwind sid idx leg now => exact (appends_createUnwind db sid idx leg now).new hi ho
    | closeRequest pos qty lp target rth now =>
      exact (appends_closeRequest db pos qty lp target rth now).new hi ho
    | positionClose positionId alert now =>
      exact (appends_positionClose db positionId alert now).new hi ho
    | _ => cases hins

/-- What has become of a row of both tables -/
theorem step_change (ho : db.orders[i]? = some o) (ho' : (step db e).orders[i]? = some o') :
    RowChange db i o e o' ((step db e).fillsOf i) := by
  obtain ⟨o'', ho'', hchange⟩ := step_row e ho
  rwa [Option.some.inj (ho'.symm.trans ho'')]

/-- A row of the new table is one of the old table changed, or fresh. -/
theorem step_row_cases (ho' : (step db e).orders[i]? = some o') :
    (∃ o, db.orders[i]? = some o ∧ RowChange db i o e o' ((step db e).fillsOf i)) ∨
      db.orders.length ≤ i ∧ o'.Fresh := by
  rcases Nat.lt_or_ge i db.orders.length with hlt | hge
  · have ho := List.getElem?_eq_getElem hlt
    exact .inl ⟨_, ho, step_change ho ho'⟩
  · exact .inr ⟨hge, step_new hge ho'⟩

end Step

/-- What the constraints of the fill table say of it, for orders with keys below `n`:
`order_id` is a foreign key and `ib_execution_id` is unique. -/
structure FillsOk (n : ℕ) (fills : List StructureFill) : Prop where
  known : ∀ f ∈ fills, f.orderId < n
  unique : (fills.map (·.ibExecutionId)).Nodup

structure Db.WellFormed (db : Db) : Prop where
  fillsOk : FillsOk db.orders.length db.fills
  /-- A synthetic fill is on the order its id names and carries its whole quantity. -/
  whole : ∀ i o, db.orders[i]? = some o → ∀ f ∈ db.fillsOf i, ∀ p j,
    f.ibExecutionId = .combo p j → j = i ∧ f.qtyFilled = o.qty

/-- The rows of `db` persist in `db'`: same legs, and nothing recorded is lost. -/
def Evolves (db db' : Db) : Prop :=
  ∀ i o, db.orders[i]? = some o → ∃ o', db'.orders[i]? = some o' ∧ o'.leg = o.leg ∧
    db.recorded i ≤ db'.recorded i

section Runs
variable {db db' db'' : Db} {i : ℕ} {o o' : StructureOrder} {e : Event}
  {fills : List StructureFill}

theorem RowChange.recorded_le (h : RowChange db i o e o' fills) :
    db.recorded i ≤ (fills.map (·.qtyFilled)).sum := by
  cases h with
  | comboBooked perm reason now =>
    unfold comboFills
    split_ifs
    · exact le_rfl
    · simp [Db.recorded]
  | booked => simp [Db.recorded]
  | reported =>
    rw [List.map_map]
    simp [Db.recorded, Function.comp_def]
  | _ => exact le_rfl

theorem Evolves.refl (db : Db) : Evolves db db := fun _ o ho => ⟨o, ho, rfl, le_rfl⟩

theorem Evolves.trans (h : Evolves db db') (h' : Evolves db' db'') : Evolves db db'' := by
  intro i o ho
  obtain ⟨o', ho', hleg, hle⟩ := h i o ho
  obtain ⟨o'', ho'', hleg', hle'⟩ := h' i o' ho'
  exact ⟨o'', ho'', hleg'.trans hleg, hle.trans hle'⟩

theorem step_evolves (db : Db) (e : Event) : Evolves db (step db e) := by
  intro i o ho
  obtain ⟨o', ho', hchange⟩ := step_row e ho
  exact ⟨o', ho', hchange.leg, hchange.recorded_le⟩

theorem FillsOk.add {n : ℕ} {row : StructureFill} (h : FillsOk n fills) (hn : row.orderId < n)
    (hnew : row.ibExecutionId ∉ fills.map (·.ibExecutionId)) : FillsOk n (fills ++ [row]) := by
  constructor
  · intro f hf
    rcases List.mem_append.mp hf with hf | hf
    · exact h.known f hf
    · rw [List.mem_singleton.mp hf]
      exact hn
  · rw [List.map_append, List.map_singleton, List.nodup_append]
    refine ⟨h.unique, List.nodup_singleton _, ?_⟩
    rintro a ha b hb rfl
    rw [List.mem_singleton.mp hb] at ha
    exact hnew ha

theorem FillsOk.report {n j : ℕ} {x : String} {c : ℚ} {cur : Option String}
    (h : FillsOk n fills) : FillsOk n (fills.map fun f => f.reported j x c cur) := by
  constructor
  · intro f hf
    obtain ⟨f₀, hf₀, rfl⟩ := List.mem_map.mp hf
    rw [reported_orderId]
    exact h.known f₀ hf₀
  · rw [List.map_map]
    have hids : (fun f => f.ibExecutionId) ∘ (fun f => StructureFill.reported j x c cur f) =
        fun f => f.ibExecutionId := by
      funext f
      simp
    rw [hids]
    exact h.unique

theorem comboStatus_fillsOk {perm : String} {ids : List ℕ} {status : IbStatus}
    {reason : Option String} {now : Instant} (h : FillsOk db.orders.length db.fills) :
    FillsOk db.orders.length (onComboStatus db perm ids status reason now).1.fills := by
  rcases onComboStatus_cases db perm ids status reason now with hdb | ⟨_, hok⟩ | hdb
  · rw [hdb]
    exact h
  · have hall := (passes_foldlM _ hok).invariant
      (I := fun s => s.orders.length = db.orders.length ∧ FillsOk db.orders.length s.fills)
      ?_ ⟨rfl, h⟩
    · exact hall.2
    · rintro k _ s t ⟨hlen, hs⟩ hk
      refine ⟨(bookComboLeg_length hk).trans hlen, ?_⟩
      rcases bookComboLeg_cases hk with rfl | ⟨o₁, s₁, ho₁, _, ⟨_, rfl⟩ | ⟨hnew, rfl⟩, rfl⟩
      · exact hs
      · rw [bookComboRow_fills]
        exact hs
      · rw [bookComboRow_fills]
        have hk : k < s.orders.length := (List.getElem?_eq_some_iff.mp ho₁).1
        exact hs.add (hlen ▸ hk) hnew
  · rw [hdb, comboCancel_fills]
    exact h

/-- Every transaction keeps the constraints, for the orders that were there before it. -/
theorem step_fillsOk (e : Event) (h : FillsOk db.orders.length db.fills) :
    FillsOk db.orders.length (step db e).fills := by
  cases e with
  | submitPreview | stampLive | stampPlacement | orderStatus | syncPositions => exact h
  | createUnwind sid idx leg now => exact createUnwind_fills db now sid idx leg ▸ h
  | comboStatus => exact comboStatus_fillsOk h
  | execution j fill now =>
    simp only [step]
    rcases deliverFill_cases db j fill now with hdb | ⟨o₁, ho₁, hnew, hdb⟩
    · rw [hdb]
      exact h
    · rw [hdb, bookFill_fills]
      exact h.add (List.getElem?_eq_some_iff.mp ho₁).1 hnew
  | commissionReport j x c cur =>
    simp only [step]
    rcases onCommissionReport_cases db j x cur c with hdb | ⟨cur', hdb⟩
    · rw [hdb]
      exact h
    · rw [hdb]
      exact h.report
  | completeStructure sid now => exact (maybeCompleteStructure_frame db sid now).2.1 ▸ h
  | reconcile now => exact reconcile_fills db now ▸ h
  | reap trades tau now => exact reap_fills db trades tau now ▸ h
  | reconnect trades now => exact reconnect_fills db trades now ▸ h
  | closeRequest pos qty lp target rth now =>
    exact closeRequest_fills db now pos qty lp target rth ▸ h
  | closeAnswer j outcome now => exact closeAnswer_fills db j outcome now ▸ h
  | cancelTrade tradeId ids now => exact cancelTrade_fills db tradeId ids now ▸ h
  | positionClose positionId alert now => exact positionClose_fills db now positionId alert ▸ h

theorem RowChange.whole (h : RowChange db i o e o' fills)
    (hw : ∀ f ∈ db.fillsOf i, ∀ p j, f.ibExecutionId = .combo p j → j = i ∧ f.qtyFilled = o.qty) :
    ∀ f ∈ fills, ∀ p j, f.ibExecutionId = .combo p j → j = i ∧ f.qtyFilled = o.qty := by
  cases h with
  | comboBooked perm reason now =>
    intro f hf
    unfold comboFills at hf
    split_ifs at hf
    · exact hw f hf
    · rcases List.mem_append.mp hf with hf | hf
      · exact hw f hf
      · rw [List.mem_singleton.mp hf]
        exact fun _ _ hid => ⟨(ExecId.combo.inj hid).2.symm, rfl⟩
  | booked =>
    intro f hf p j hid
    rcases List.mem_append.mp hf with hf | hf
    · exact hw f hf p j hid
    · rw [List.mem_singleton.mp hf] at hid
      cases hid
  | reported =>
    intro f hf p j hid
    obtain ⟨f₀, hf₀, rfl⟩ := List.mem_map.mp hf
    rw [reported_qtyFilled]
    exact hw f₀ hf₀ p j (by simpa using hid)
  | _ => exact hw

theorem step_length_le (db : Db) (e : Event) : db.orders.length ≤ (step db e).orders.length := by
  by_contra hlt
  have hi : (step db e).orders.length < db.orders.length := by omega
  obtain ⟨o', ho', _⟩ := step_row e (List.getElem?_eq_getElem hi)
  have hlen := (List.getElem?_eq_some_iff.mp ho').1
  omega

/-- No fill is on an order that is not there. -/
theorem Db.WellFormed.fillsOf_unknown (h : db.WellFormed) (hi : db.orders.length ≤ i) :
    db.fillsOf i = [] := by
  apply List.filter_eq_nil_iff.mpr
  intro f hf
  have hlt := h.fillsOk.known f hf
  simp only [decide_eq_true_eq]
  omega

/-- The row of a synthetic id is a fill of the order the id names. -/
theorem Db.WellFormed.synthetic {perm : String} (h : db.WellFormed)
    (hb : db.Booked (.combo perm i)) : ExecId.combo perm i ∈ (db.fillsOf i).map (·.ibExecutionId) := by
  obtain ⟨f, hf, hid⟩ := List.mem_map.mp hb
  have hk := h.fillsOk.known f hf
  have hmem : f ∈ db.fillsOf f.orderId := List.mem_filter.mpr ⟨hf, by simp⟩
  have hi : i = f.orderId := (h.whole _ _ (List.getElem?_eq_getElem hk) f hmem perm i hid).1
  exact List.mem_map.mpr ⟨f, hi ▸ hmem, hid⟩

theorem step_wellFormed (e : Event) (h : db.WellFormed) : (step db e).WellFormed := by
  have hok := step_fillsOk e h.fillsOk
  refine ⟨⟨?_, hok.unique⟩, ?_⟩
  · intro f hf
    exact (hok.known f hf).trans_le (step_length_le db e)
  · intro i o' ho' f hf
    by_cases hi : i < db.orders.length
    · have hchange := step_change (List.getElem?_eq_getElem hi) ho'
      have hw := hchange.whole (h.whole i _ (List.getElem?_eq_getElem hi)) f hf
      rwa [← leg_qty hchange.leg] at hw
    · have hfi : f.orderId = i := by simpa [Db.fillsOf] using (List.mem_filter.mp hf).2
      have hlt := hok.known f (List.mem_of_mem_filter hf)
      omega

theorem wellFormed_empty : Db.empty.WellFormed where
  fillsOk := ⟨by simp [Db.empty], by simp [Db.empty]⟩
  whole := by simp [Db.empty]

theorem Db.WellFormed.append {new : List StructureOrder} (h : db.WellFormed) (horders : db'.orders = db.orders ++ new)
    (hfills : db'.fills = db.fills) : db'.WellFormed := by
  refine ⟨⟨?_, by rw [hfills]; exact h.fillsOk.unique⟩, ?_⟩
  · intro f hf
    have hlt := h.fillsOk.known f (hfills ▸ hf)
    rw [horders, List.length_append]
    omega
  · intro i o ho f hf
    rw [Db.fillsOf_congr hfills] at hf
    by_cases hi : i < db.orders.length
    · rw [horders, List.getElem?_append_left hi] at ho
      exact h.whole i o ho f hf
    · rw [h.fillsOf_unknown (by omega)] at hf
      cases hf

theorem Reachable.wellFormed (h : Reachable db) : db.WellFormed :=
  h.invariant (fun _ e hw _ => step_wellFormed e hw) wellFormed_empty

end Runs

end FxVol
