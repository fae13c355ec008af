import FxVol.TableGrowth

/-!
# The reservation ledger

`reserved_qty` of a leg is what its working closing orders have left.  Creation, fills, combo
bookings and the reaper recompute it.  The status handlers, the placement stamps, the dispatch
answer, the trade cancel, the reconciler and the commission refold write order rows without
recomputing; `KeepsLedger` says when they leave what a row reserves as it was.
-/
namespace FxVol

open GuardedRuns KeyedPasses

/-- The order closes leg `e`. -/
def StructureOrder.Targets (o : StructureOrder) (e : ℕ) : Prop :=
  o.closesOrderId = some e ∧ o.orderRole = .closing

instance (o : StructureOrder) (e : ℕ) : Decidable (o.Targets e) :=
  inferInstanceAs (Decidable (_ ∧ _))

/-- Every leg that closing orders target has a row, and it reserves what these have left. -/
def ReservationExact (db : Db) : Prop :=
  ∀ o ∈ db.orders, o.orderRole = .closing → ∀ e ∈ o.closesOrderId,
    (db.legPositions e).map (·.reservedQty) = some (inFlight db e)

instance (db : Db) : Decidable (ReservationExact db) := inferInstanceAs (Decidable
  (∀ o ∈ db.orders, o.orderRole = .closing → ∀ e ∈ o.closesOrderId, _ = some (inFlight db e)))

/-- A closing order of some leg. -/
def StructureOrder.IsClose (o : StructureOrder) : Prop :=
  o.orderRole = .closing ∧ o.closesOrderId.isSome

instance (o : StructureOrder) : Decidable o.IsClose := inferInstanceAs (Decidable (_ ∧ _))

/-- No status event with this reason ends an order in this state. -/
def StatusEnds (s : OrderState) (status : IbStatus) (reason : Option String) : Prop :=
  (nextState s status reason.isSome).newState = some .cancelled ∨
    (nextState s status reason.isSome).newState = some .rejected

instance (s : OrderState) (status : IbStatus) (reason : Option String) :
    Decidable (StatusEnds s status reason) := inferInstanceAs (Decidable (_ ∨ _))

/-- The writers that do not recompute meet no close they would start or stop counting while it
has something left, and refold none whose count is not what is recorded. -/
def KeepsLedger (db : Db) : Event → Prop
  | .stampLive i _ _ _ _ | .stampPlacement i _ _ _ =>
    ∀ o ∈ db.orders[i]?, o.IsClose → o.state.isTerminal → o.qty ≤ o.qtyFilled
  | .orderStatus i status reason _ =>
    ∀ o ∈ db.orders[i]?, o.IsClose → StatusEnds o.state status reason → o.qty ≤ o.qtyFilled
  | .comboStatus _ ids status reason _ => ∀ i ∈ ids,
    ∀ o ∈ db.orders[i]?, o.IsClose → StatusEnds o.state status reason → o.qty ≤ o.qtyFilled
  | .commissionReport i x _ _ => ∀ o ∈ db.orders[i]?, db.fills.any (·.isExecution i x) →
    o.IsClose → o.state.isTerminal = false → o.qty - o.qtyFilled = o.qty - db.recorded i
  | .reconcile _ => ∀ i ∈ stuckIds db, ∀ o ∈ db.orders[i]?, o.IsClose →
    ((bookVerdict db i).isSome → o.qty - o.qtyFilled = o.qty - db.recorded i) ∧
    ((bookVerdict db i).isNone → ∀ pos ∈ mirrorOf db o.structureId, legMatchesPosition o pos →
      o.qty ≤ o.qtyFilled)
  | .closeAnswer i outcome _ => ∀ o ∈ db.orders[i]?, o.IsClose →
    o.state.isTerminal ≠ outcome.state.isTerminal → o.qty ≤ o.qtyFilled
  | .cancelTrade _ ids _ => ∀ i ∈ ids, ∀ o ∈ db.orders[i]?, o.IsClose →
    o.state.isTerminal = false → o.qty ≤ o.qtyFilled
  | _ => True

section Rows
variable {db : Db} {i j e : ℕ} {o o' : StructureOrder} {ev : Event} {fills : List StructureFill}

def StructureOrder.rest (o : StructureOrder) : ℕ :=
  if o.state.isTerminal then 0 else o.qty - o.qtyFilled

theorem reserves_eq (o : StructureOrder) (e : ℕ) : o.reserves e =
    if o.closesOrderId = some e ∧ o.orderRole = .closing then o.rest else 0 := by
  rw [StructureOrder.reserves, StructureOrder.rest, OrderState.isNonTerminal_eq]
  cases o.state.isTerminal <;> simp

/-- A write that leaves the rest of a close as it is leaves what the row reserves. -/
theorem reserves_keep (hleg : o'.leg = o.leg) (h : o.IsClose → o'.rest = o.rest) (e : ℕ) :
    o'.reserves e = o.reserves e := by
  rw [reserves_eq, reserves_eq, leg_orderRole hleg, leg_closesOrderId hleg]
  split_ifs with htarget
  · exact h ⟨htarget.2, by simp [htarget.1]⟩
  · rfl

theorem rest_done (h : o.qty ≤ o.qtyFilled) : o.rest = 0 := by
  rw [StructureOrder.rest]
  split_ifs <;> omega

/-- The same terminality and the same count give the same rest; so does a count that leaves
nothing, whatever the states. -/
theorem rest_keep (hleg : o'.leg = o.leg) (hq : o'.qtyFilled = o.qtyFilled)
    (hs : o'.state.isTerminal ≠ o.state.isTerminal → o.qty ≤ o.qtyFilled) : o'.rest = o.rest := by
  by_cases hstate : o'.state.isTerminal = o.state.isTerminal
  · rw [StructureOrder.rest, StructureOrder.rest, hstate, hq, leg_qty hleg]
  · have hdone := hs hstate
    rw [rest_done hdone, rest_done]
    rw [leg_qty hleg, hq]
    exact hdone

theorem statusEnds_of_cancelled {status : IbStatus} {reason : Option String} {s : OrderState}
    (h : (nextState o.state status reason.isSome).newState = some s) (hs : s.isTerminal) :
    StatusEnds o.state status reason := by
  rcases (nextState_newState h).2 with ⟨rfl, _⟩ | rfl | rfl
  · cases hs
  · exact .inr h
  · exact .inl h

theorem adopted_rest (o : StructureOrder) (t : IbTrade) (now : Instant) :
    (o.adopted t now).rest = o.rest := by
  apply rest_keep (adopted_leg o now t) rfl
  intro hne
  rw [adopted_state] at hne
  split_ifs at hne with hpending
  · rw [hpending] at hne
    exact absurd rfl hne
  · exact absurd rfl hne

/-- The transactions that recompute the legs whose closing orders they change. -/
def Event.recomputes : Event → Bool
  | .comboStatus _ _ .filled _ _ | .execution .. | .reap .. => true
  | _ => false

theorem stateFromRecordedFills_cases {recorded qty : ℕ} {s new : OrderState}
    (h : stateFromRecordedFills recorded qty s = some new) :
    new = .filled ∧ qty ≤ recorded ∨ new = .partiallyFilled := by
  unfold stateFromRecordedFills at h
  split_ifs at h with h₀ h₁
  · exact .inl ⟨(Option.some.inj h).symm, h₁.1⟩
  · exact .inr (Option.some.inj h).symm

/-- A guarded change that is not followed by a recomputation keeps what the row reserves. -/
theorem RowChange.reserves (h : RowChange db i o ev o' fills) (ho : db.orders[i]? = some o)
    (hg : KeepsLedger db ev) (hr : ev.recomputes = false) (e : ℕ) :
    o'.reserves e = o.reserves e := by
  apply reserves_keep h.leg
  intro hclose
  have hleg := h.leg
  cases h with
  | same => rfl
  | stampedLive a b lp now =>
    apply rest_keep hleg rfl
    intro hne
    apply hg o ho hclose
    cases hterm : o.state.isTerminal with
    | true => rfl
    | false => exact absurd hterm.symm hne
  | stamped a b now =>
    apply rest_keep hleg rfl
    intro hne
    apply hg o ho hclose
    cases hterm : o.state.isTerminal with
    | true => rfl
    | false => exact absurd hterm.symm hne
  | onStatus status reason now =>
    apply rest_keep hleg (onStatus_leg status reason).2
    intro hne
    apply hg o ho hclose
    rcases onStatus_state o now status reason with hsame | hnew
    · exact absurd (by rw [hsame]) hne
    · have hwork := (nextState_newState hnew).1
      rw [hwork] at hne
      exact statusEnds_of_cancelled hnew (by simpa using hne)
  | comboCancelled perm status reason now hmem =>
    apply rest_keep hleg (onComboCancel_qtyFilled o now status reason)
    intro hne
    apply hg i hmem o ho hclose
    unfold StructureOrder.onComboCancel at hne
    split at hne
    · next hnew => exact .inl hnew
    · next hnew => exact .inr hnew
    · exact absurd rfl hne
  | comboBooked => cases hr
  | booked => cases hr
  | reported x c cur cur' hfill =>
    have hcount : (o.withAggregates (recomputeAggregates (db.reportFill i x (c.getD 0) cur') i
        o)).qtyFilled = db.recorded i := by
      rw [withAggregates_qtyFilled, recomputeAggregates, updateOrderAggregates_qtyFilled]
      exact reportFill_recorded db i i x (c.getD 0) cur'
    rw [StructureOrder.rest, StructureOrder.rest, withAggregates_state, hcount, leg_qty hleg]
    cases hterm : o.state.isTerminal with
    | true => rfl
    | false =>
      have hguard := hg o ho hfill hclose hterm
      simpa using hguard.symm
  | @repaired new now hstuck hnew =>
    have hguard := (hg i ((mem_stuckIds ho).mpr hstuck) o ho hclose).1
    rw [bookVerdict_of_row ho, hnew] at hguard
    have hcount := hguard rfl
    have hwork := OrderState.isTerminal_of_isStuck hstuck
    rw [StructureOrder.rest, StructureOrder.rest, repaired_qtyFilled, repaired_state, leg_qty hleg,
      hwork]
    rcases stateFromRecordedFills_cases hnew with ⟨rfl, hfull⟩ | rfl
    · simp only [OrderState.isTerminal, if_true, Bool.false_eq_true, if_false]
      omega
    · simp only [OrderState.isTerminal, Bool.false_eq_true, if_false]
      omega
  | @mirrored pos now hstuck hnone hpos hmatch =>
    have hguard := (hg i ((mem_stuckIds ho).mpr hstuck) o ho hclose).2
    rw [bookVerdict_of_row ho, hnone] at hguard
    have hdone := hguard rfl pos hpos hmatch
    rw [rest_done hdone]
    rfl
  | adopted => cases hr
  | expired => cases hr
  | rewired trades t now hworking =>
    apply rest_keep hleg rfl
    intro hne
    rw [OrderState.isNonTerminal_eq] at hworking
    rw [rewired_state] at hne
    split_ifs at hne with hpending
    · rw [hpending] at hne
      exact absurd rfl hne
    · exact absurd rfl hne
  | answered outcome now =>
    apply rest_keep hleg (answered_qtyFilled o now outcome)
    intro hne
    apply hg o ho hclose
    rw [answered_state] at hne
    exact Ne.symm hne
  | cancelled tradeId now hmem =>
    apply rest_keep hleg rfl
    intro hne
    apply hg i hmem o ho hclose
    cases hterm : o.state.isTerminal with
    | true => exact absurd hterm.symm hne
    | false => rfl

end Rows

/-- The row of leg `e` reserves what the working closes of the leg have left, and it is there
once the leg has a close. -/
structure LegReserved (db : Db) (e : ℕ) : Prop where
  reserved : reservedOf db e = inFlight db e
  booked : ∀ o ∈ db.orders, o.Targets e → (db.legPositions e).isSome

/-- The reserved quantity of a leg is kept, and its row, if it has one. -/
structure KeepsLeg (db db' : Db) (e : ℕ) : Prop where
  reserved : reservedOf db' e = reservedOf db e
  booked : (db.legPositions e).isSome → (db'.legPositions e).isSome

section Legs
variable {db db' : Db} {i k e : ℕ} {o o' : StructureOrder}

theorem KeepsLeg.of_eq (h : db'.legPositions = db.legPositions) : KeepsLeg db db' e where
  reserved := by rw [reservedOf, reservedOf, legRow, legRow, h]
  booked hsome := by rwa [h]

theorem KeepsLeg.rebuild (h : KeepsLeg db db' e) (i : ℕ) : KeepsLeg db (rebuildLeg db' i) e where
  reserved := reservedOf_rebuildLeg.trans h.reserved
  booked hsome := by
    by_cases hei : e = i
    · subst hei
      simp [rebuildLeg]
    · rw [rebuildLeg, Db.setLegPosition_ne _ _ _ hei]
      exact h.booked hsome

theorem keepsLeg_recompute (hne : e ≠ i) : KeepsLeg db (recomputeReservation db i) e where
  reserved := reservedOf_recomputeReservation_ne hne
  booked hsome := by
    rw [recomputeReservation, Db.setLegPosition_ne _ _ _ hne]
    exact hsome

theorem reserves_of_not_targets (h : ¬ o.Targets e) : o.reserves e = 0 := by
  rw [reserves_eq]
  exact if_neg h

theorem targets_of_leg (h : o'.leg = o.leg) : o'.Targets e ↔ o.Targets e := by
  rw [StructureOrder.Targets, StructureOrder.Targets, leg_closesOrderId h, leg_orderRole h]

/-- Rewriting rows without a change to what they reserve on a leg keeps the leg exact. -/
theorem LegReserved.rewritten (h : LegReserved db e) (hpos : KeepsLeg db db' e)
    (hlen : db'.orders.length = db.orders.length)
    (hrows : ∀ (i : ℕ) (o : StructureOrder), db.orders[i]? = some o →
      ∃ o', db'.orders[i]? = some o' ∧ o'.leg = o.leg ∧ o'.reserves e = o.reserves e) :
    LegReserved db' e := by
  have hcolumn : db'.orders.map (·.reserves e) = db.orders.map (·.reserves e) := by
    apply List.ext_getElem (by simp [hlen])
    intro i hi hi'
    rw [List.length_map] at hi hi'
    obtain ⟨o', ho', _, hres⟩ := hrows i _ (List.getElem?_eq_getElem hi')
    rw [List.getElem?_eq_getElem hi, Option.some.injEq] at ho'
    rw [List.getElem_map, List.getElem_map, ho', hres]
  constructor
  · rw [hpos.reserved, h.reserved, inFlight, inFlight, hcolumn]
  · intro o' hmem htarget
    obtain ⟨i, hi, rfl⟩ := List.getElem_of_mem hmem
    have hi' : i < db.orders.length := by omega
    obtain ⟨o'', ho'', hleg, _⟩ := hrows i _ (List.getElem?_eq_getElem hi')
    rw [List.getElem?_eq_getElem hi, Option.some.injEq] at ho''
    rw [ho'', targets_of_leg hleg] at htarget
    exact hpos.booked (h.booked _ (List.getElem_mem hi') htarget)

theorem LegReserved.congr (h : LegReserved db e) (hpos : KeepsLeg db db' e)
    (horders : db'.orders = db.orders) : LegReserved db' e := by
  apply h.rewritten hpos (by rw [horders])
  intro i o ho
  exact ⟨o, by rw [horders, ho], rfl, rfl⟩

/-- A row written without a change of leg reserves what it did on the legs it does not close. -/
theorem reserves_other (hleg : o'.leg = o.leg) (hother : ¬ o'.Targets e) :
    o'.reserves e = o.reserves e := by
  rw [reserves_of_not_targets hother, reserves_of_not_targets]
  rwa [← targets_of_leg hleg]

theorem LegReserved.set (h : LegReserved db e) (ho : db.orders[i]? = some o) (hleg : o'.leg = o.leg)
    (hres : o'.reserves e = o.reserves e) (horders : db'.orders = db.orders.set i o')
    (hpos : KeepsLeg db db' e) : LegReserved db' e := by
  apply h.rewritten hpos (by rw [horders, List.length_set])
  intro j p hp
  rw [horders, setOrder_row o' hp]
  refine ⟨_, rfl, ?_⟩
  split_ifs with hj
  · subst hj
    obtain rfl : o = p := Option.some.inj (ho.symm.trans hp)
    exact ⟨hleg, hres⟩
  · exact ⟨rfl, rfl⟩

/-- Appended rows matter to the legs they close only. -/
theorem LegReserved.append (h : LegReserved db e) {new : List StructureOrder}
    (hother : ∀ o ∈ new, ¬ o.Targets e) (horders : db'.orders = db.orders ++ new)
    (hpos : KeepsLeg db db' e) : LegReserved db' e := by
  have hnew : (new.map (·.reserves e)).sum = 0 := by
    apply List.sum_eq_zero
    intro n hn
    obtain ⟨o, ho, rfl⟩ := List.mem_map.mp hn
    exact reserves_of_not_targets (hother o ho)
  constructor
  · rw [hpos.reserved, h.reserved, inFlight, inFlight, horders, List.map_append, List.sum_append,
      hnew, Nat.add_zero]
  · intro o hmem htarget
    rw [horders, List.mem_append] at hmem
    rcases hmem with hold | hadded
    · exact hpos.booked (h.booked o hold htarget)
    · exact absurd htarget (hother o hadded)

/-- The recomputation makes its own leg exact, whatever happened before. -/
theorem legReserved_recompute_self (db : Db) (e : ℕ) :
    LegReserved (recomputeReservation db e) e where
  reserved := reservedOf_recomputeReservation_self
  booked _ _ _ := by simp [recomputeReservation]

theorem LegReserved.recompute (h : LegReserved db e) (k : ℕ) :
    LegReserved (recomputeReservation db k) e := by
  by_cases hek : e = k
  · subst hek
    exact legReserved_recompute_self db e
  · exact h.congr (keepsLeg_recompute hek) rfl

/-- The release makes good the leg its order closes. -/
theorem legReserved_release (h : ¬ o.Targets e → LegReserved db e) :
    LegReserved (releaseReservation db o) e := by
  by_cases htarget : o.Targets e
  · rw [releaseReservation, htarget.1, htarget.2]
    exact legReserved_recompute_self db e
  · unfold releaseReservation
    split
    · exact (h htarget).recompute _
    · exact h htarget

end Legs

section Handlers
variable {db db' : Db} {i : ℕ} {o : StructureOrder}

theorem bookFill_legReserved (h : ∀ e, LegReserved db e) (ho : db.orders[i]? = some o)
    (fill : IbFill) (now : Instant) (e : ℕ) : LegReserved (bookFill db i o fill now) e := by
  apply legReserved_release
  intro hother
  have hset : KeepsLeg db ((db.addFill (fillRow i fill)).setOrder i
      (o.booked fill (recomputeAggregates (db.addFill (fillRow i fill)) i o) now)) e := .of_eq rfl
  exact (h e).set ho booked_leg (reserves_other booked_leg hother) rfl (hset.rebuild i)

theorem bookComboLeg_legReserved {perm : String} {now : Instant} (h : ∀ e, LegReserved db e)
    (hok : bookComboLeg perm now db i = .ok db') (e : ℕ) : LegReserved db' e := by
  rcases bookComboLeg_cases hok with rfl | ⟨o, db₁, ho, _, hfill, rfl⟩
  · exact h e
  · apply legReserved_release
    intro hother
    have hpos : db₁.legPositions = db.legPositions := by
      rcases hfill with ⟨_, rfl⟩ | ⟨_, rfl⟩ <;> rfl
    apply (h e).set ho (comboBooked_leg o now) (reserves_other (comboBooked_leg o now) hother)
    · rw [rebuildLeg_orders, Db.setOrder_orders, hfill.orders]
    · have hset : KeepsLeg db (db₁.setOrder i (o.comboBooked now)) e := .of_eq hpos
      exact hset.rebuild i

theorem comboFilled_legReserved {perm : String} {ids : List ℕ} {now : Instant}
    (h : ∀ e, LegReserved db e) (hok : ids.foldlM (bookComboLeg perm now) db = .ok db') (e : ℕ) :
    LegReserved db' e := by
  have hall := (passes_foldlM _ hok).invariant (I := fun s => ∀ e, LegReserved s e) ?_ h
  · exact hall e
  · intro k _ s t hs hk
    exact bookComboLeg_legReserved hs hk

theorem reap_legReserved (h : ∀ e, LegReserved db e) (trades : List IbTrade) (tau : ℤ)
    (now : Instant) (e : ℕ) : LegReserved (reapStaleOrders db trades tau now) e := by
  have hadopt : ∀ e, LegReserved ((List.range db.orders.length).foldl (adoptOrphan trades now) db)
      e := by
    apply (passes_foldl _ _ db).invariant (I := fun s => ∀ e, LegReserved s e) ?_ h
    rintro k _ s t hs rfl e
    rcases adoptOrphan_cases trades now s k with hdb | ⟨o, t, ho, _, hdb⟩
    · rw [hdb]
      exact hs e
    · rw [hdb]
      have hleg := adopted_leg o now t
      exact (hs e).set ho hleg (reserves_keep hleg (fun _ => adopted_rest o t now) e) rfl (.of_eq rfl)
  have hreap := (passes_foldl (reapOrder (liveIbOrderKeys trades) tau now) (staleIds
    ((List.range db.orders.length).foldl (adoptOrphan trades now) db) (now - tau)) (_, [])).invariant
    (I := fun s => ∀ e, LegReserved s.1 e) ?_ hadopt
  · rw [reapStaleOrders]
    refine (hreap e).congr (KeepsLeg.of_eq ?_) (terminaliseStructures_orders ..)
    exact foldl_frame Db.legPositions _ (terminaliseStructure_legPositions now) _ _
  · rintro k _ s t hs rfl e
    rcases reapOrder_cases (liveIbOrderKeys trades) tau now s k with hdb | ⟨o, ho, _, hdb⟩
    · rw [hdb]
      exact hs e
    · rw [hdb]
      apply legReserved_release
      intro hother
      have hleg := expiredAt_leg o now
      exact (hs e).set ho hleg (reserves_other hleg hother) rfl (.of_eq rfl)

theorem closeRequest_legReserved (h : ∀ e, LegReserved db e) (pos : OpenPosition) (qty : ℕ)
    (lp : Option ℚ) (target : Option ℕ) (rth : Bool) (now : Instant) (e : ℕ) :
    LegReserved (step db (.closeRequest pos qty lp target rth now)) e := by
  rcases closeRequest_cases db pos qty lp target rth now with hdb | ⟨price, _, _, hdb⟩
  · rw [hdb]
    exact h e
  · rw [hdb]
    apply legReserved_release
    intro hother
    have hnew : ∀ o ∈ [closingOrder pos qty db.structures.length price (closeTarget db pos target)
        now], ¬ o.Targets e := by
      intro o ho
      rw [List.mem_singleton.mp ho]
      exact hother
    exact (h e).append hnew rfl (.of_eq rfl)

theorem positionClose_legReserved (h : ∀ e, LegReserved db e) (positionId : ℕ) (alert : Option ℕ)
    (now : Instant) (e : ℕ) : LegReserved (step db (.positionClose positionId alert now)) e := by
  rcases positionClose_cases db positionId alert now with hdb | ⟨pos, legs, _, _, _, hdb⟩
  · rw [hdb]
    exact h e
  · rw [hdb]
    let orders := positionCloseOrders db.structures.length (entryOrders db pos.structureId) legs now
    let targets := orders.filterMap (·.closesOrderId)
    let db₂ : Db := { db.addStructure (TradeStructure.new now) with orders := db.orders ++ orders }
    have hpasses := passes_foldl recomputeReservation targets db₂
    have hexact : LegReserved (targets.foldl recomputeReservation db₂) e := by
      by_cases hmem : e ∈ targets
      · apply hpasses.established (Q := fun s => LegReserved s e) hmem
        · rintro s t rfl
          exact legReserved_recompute_self s e
        · rintro k s t hs rfl
          exact hs.recompute k
      · apply hpasses.invariant (I := fun s => LegReserved s e)
        · rintro k _ s t hs rfl
          exact hs.recompute k
        · have hnew : ∀ o ∈ orders, ¬ o.Targets e := by
            intro o ho htarget
            exact hmem (List.mem_filterMap.mpr ⟨o, ho, htarget.1⟩)
          exact (h e).append hnew rfl (.of_eq rfl)
    exact hexact.congr (.of_eq rfl) rfl

/-- The commit of new rows that close nothing. -/
theorem appended_legReserved (h : ∀ e, LegReserved db e) {new : List StructureOrder}
    (hnew : ∀ o ∈ new, o.closesOrderId = none) (horders : db'.orders = db.orders ++ new)
    (hpos : db'.legPositions = db.legPositions) (e : ℕ) : LegReserved db' e := by
  apply (h e).append ?_ horders (.of_eq hpos)
  intro o ho htarget
  have hnone := hnew o ho
  rw [htarget.1] at hnone
  cases hnone

end Handlers

section Runs
variable {db : Db} {ev : Event}

/-- A guarded transaction that neither recomputes nor inserts keeps every leg exact. -/
theorem rewritten_legReserved (h : ∀ e, LegReserved db e) (hg : KeepsLedger db ev)
    (hr : ev.recomputes = false) (hlen : (step db ev).orders.length = db.orders.length)
    (hpos : ∀ e, KeepsLeg db (step db ev) e) (e : ℕ) : LegReserved (step db ev) e := by
  apply (h e).rewritten (hpos e) hlen
  intro i o ho
  obtain ⟨o', ho', hchange⟩ := step_row ev ho
  exact ⟨o', ho', hchange.leg, hchange.reserves ho hg hr e⟩

theorem reconnect_legPositions (db : Db) (trades : List IbTrade) (now : Instant) :
    (attachOptionHandlers db trades now).legPositions = db.legPositions := by
  apply foldl_frame Db.legPositions
  intro s k
  rcases attachOptionHandler_cases trades now s k with hdb | ⟨o, t, _, _, hdb⟩
  · rw [hdb]
  · rw [hdb]
    rfl

theorem closeAnswer_legPositions (db : Db) (j : ℕ) (outcome : DispatchOutcome) (now : Instant) :
    (closeAnswer db j outcome now).legPositions = db.legPositions := by
  unfold closeAnswer
  split
  · rfl
  · dsimp only
    split <;> rfl

theorem cancelTrade_legPositions (db : Db) (tradeId : ℕ) (ids : List ℕ) (now : Instant) :
    (cancelTrade db tradeId ids now).legPositions = db.legPositions := by
  rw [cancelTrade, terminaliseStructure_legPositions]
  exact foldl_frame Db.legPositions (cancelOrder now) (fun _ _ => rfl) ids db

theorem reconcile_keepsLeg (db : Db) (now : Instant) (e : ℕ) :
    KeepsLeg db (reconcileStuckOrders db now).1 e := by
  have hbook : KeepsLeg db ((stuckIds db).foldl (bookPass now) db) e := by
    apply (passes_foldl (bookPass now) (stuckIds db) db).invariant (I := fun s => KeepsLeg db s e)
    · rintro k _ s t hs rfl
      rcases bookPass_cases now s k with hdb | ⟨o, new, _, _, hdb⟩
      · rwa [hdb]
      · rw [hdb]
        have hset : KeepsLeg db (s.setOrder k (o.repaired (s.recorded k) new now)) e :=
          ⟨hs.reserved, hs.booked⟩
        exact hset.rebuild k
    · exact .of_eq rfl
  have hmirror : (reconcileStuckOrders db now).1.legPositions =
      ((stuckIds db).foldl (bookPass now) db).legPositions :=
    foldl_frame (fun acc : Db × List ℕ => acc.1.legPositions) (mirrorPass now)
      (fun acc k => (mirrorPass_frame now acc k).2.2) _ _
  have hsame : KeepsLeg ((stuckIds db).foldl (bookPass now) db) (reconcileStuckOrders db now).1 e :=
    .of_eq hmirror
  exact ⟨hsame.reserved.trans hbook.reserved, fun hsome => hsame.booked (hbook.booked hsome)⟩

theorem recomputes_comboStatus {perm : String} {ids : List ℕ} {status : IbStatus}
    {reason : Option String} {now : Instant} (h : status ≠ .filled) :
    (Event.comboStatus perm ids status reason now).recomputes = false := by
  cases status <;> first | rfl | exact absurd rfl h

theorem comboStatus_legReserved {perm : String} {ids : List ℕ} {status : IbStatus}
    {reason : Option String} {now : Instant} (h : ∀ e, LegReserved db e)
    (hg : KeepsLedger db (.comboStatus perm ids status reason now)) (e : ℕ) :
    LegReserved (step db (.comboStatus perm ids status reason now)) e := by
  by_cases hs : status = .filled
  · subst hs
    simp only [step, onComboStatus_filled, bookComboFilled]
    cases hf : ids.foldlM (bookComboLeg perm now) db with
    | error _ => exact h e
    | ok db' => exact comboFilled_legReserved h hf e
  · refine rewritten_legReserved h hg (recomputes_comboStatus hs)
      (comboStatus_length db perm ids status reason now) (fun _ => .of_eq ?_) e
    rcases onComboStatus_cases db perm ids status reason now with hdb | ⟨hfilled, _⟩ | hdb
    · simp only [step, hdb]
    · exact absurd hfilled hs
    · simp only [step, hdb]
      exact foldl_frame Db.legPositions (comboCancelLeg status reason now) (fun _ _ => rfl) ids db

theorem step_legReserved (h : ∀ e, LegReserved db e) (hg : KeepsLedger db ev) (e : ℕ) :
    LegReserved (step db ev) e := by
  cases ev with
  | submitPreview legs now =>
    have hnew : ∀ o ∈ legs.mapIdx fun i leg => leg.order db.structures.length i .entry now,
        o.closesOrderId = none := by
      intro o ho
      obtain ⟨k, hk, rfl⟩ := List.mem_mapIdx.mp ho
      rfl
    refine appended_legReserved h hnew ?_ ?_ e <;> rfl
  | createUnwind sid idx leg now =>
    simp only [step, Db.insertOrder]
    split_ifs
    · exact h e
    · have hnew : ∀ o ∈ [leg.order sid idx .unwind now], o.closesOrderId = none := by
        intro o ho
        rw [List.mem_singleton.mp ho]
        rfl
      refine appended_legReserved h hnew ?_ ?_ e <;> rfl
  | stampLive | stampPlacement | orderStatus =>
    exact rewritten_legReserved h hg rfl (List.length_modify ..) (fun _ => .of_eq rfl) e
  | comboStatus => exact comboStatus_legReserved h hg e
  | execution j fill now =>
    simp only [step]
    rcases deliverFill_cases db j fill now with hdb | ⟨o, ho, _, hdb⟩
    · rw [hdb]
      exact h e
    · rw [hdb]
      exact bookFill_legReserved h ho fill now e
  | commissionReport j x c cur =>
    have hframe : (step db (.commissionReport j x c cur)).orders.length = db.orders.length ∧
        (step db (.commissionReport j x c cur)).legPositions = db.legPositions := by
      rcases onCommissionReport_cases db j x cur c with hdb | ⟨cur', hdb⟩
      · simp [step, hdb]
      · simp [step, hdb, Db.updateOrder]
    exact rewritten_legReserved h hg rfl hframe.1 (fun _ => .of_eq hframe.2) e
  | completeStructure sid now =>
    obtain ⟨horders, _, hpos⟩ := maybeCompleteStructure_frame db sid now
    exact (h e).congr (.of_eq hpos) horders
  | reconcile now =>
    exact rewritten_legReserved h hg rfl (reconcile_length db now) (reconcile_keepsLeg db now) e
  | reap trades tau now => exact reap_legReserved h trades tau now e
  | reconnect trades now =>
    exact rewritten_legReserved h hg rfl (reconnect_length db trades now)
      (fun _ => .of_eq (reconnect_legPositions db trades now)) e
  | syncPositions rows => exact (h e).congr (.of_eq rfl) rfl
  | closeRequest pos qty lp target rth now =>
    exact closeRequest_legReserved h pos qty lp target rth now e
  | closeAnswer j outcome now =>
    exact rewritten_legReserved h hg rfl (step_length rfl)
      (fun _ => .of_eq (closeAnswer_legPositions db j outcome now)) e
  | cancelTrade tradeId ids now =>
    exact rewritten_legReserved h hg rfl (cancelTrade_length db tradeId ids now)
      (fun _ => .of_eq (cancelTrade_legPositions db tradeId ids now)) e
  | positionClose positionId alert now => exact positionClose_legReserved h positionId alert now e

theorem legReserved_empty (e : ℕ) : LegReserved Db.empty e where
  reserved := rfl
  booked o ho := by simp [Db.empty] at ho

/-- In every database that guarded transactions reach, each leg reserves what its working
closing orders have left. -/
theorem reservation_exact (hrun : Run step KeepsLedger Db.empty db) : ReservationExact db := by
  have hexact : ∀ e, LegReserved db e :=
    hrun.invariant (fun _ _ hs hg => step_legReserved hs hg) legReserved_empty
  intro o ho hrole e htarget
  obtain ⟨lp, hlp⟩ := Option.isSome_iff_exists.mp ((hexact e).booked o ho ⟨htarget, hrole⟩)
  have hreserved := (hexact e).reserved
  rw [reservedOf, legRow, hlp, Option.getD_some] at hreserved
  rw [hlp, Option.map_some, hreserved]

instance (db : Db) : ∀ ev, Decidable (KeepsLedger db ev)
  | .stampLive i _ _ _ _ | .stampPlacement i _ _ _ => inferInstanceAs (Decidable
      (∀ o ∈ db.orders[i]?, o.IsClose → o.state.isTerminal → o.qty ≤ o.qtyFilled))
  | .orderStatus i status reason _ => inferInstanceAs (Decidable
      (∀ o ∈ db.orders[i]?, o.IsClose → StatusEnds o.state status reason → o.qty ≤ o.qtyFilled))
  | .comboStatus _ ids status reason _ => inferInstanceAs (Decidable (∀ i ∈ ids,
      ∀ o ∈ db.orders[i]?, o.IsClose → StatusEnds o.state status reason → o.qty ≤ o.qtyFilled))
  | .commissionReport i x _ _ => inferInstanceAs (Decidable
      (∀ o ∈ db.orders[i]?, db.fills.any (·.isExecution i x) → o.IsClose →
        o.state.isTerminal = false → o.qty - o.qtyFilled = o.qty - db.recorded i))
  | .reconcile _ => inferInstanceAs (Decidable (∀ i ∈ stuckIds db, ∀ o ∈ db.orders[i]?,
      o.IsClose → ((bookVerdict db i).isSome → o.qty - o.qtyFilled = o.qty - db.recorded i) ∧
      ((bookVerdict db i).isNone → ∀ pos ∈ mirrorOf db o.structureId, legMatchesPosition o pos →
        o.qty ≤ o.qtyFilled)))
  | .closeAnswer i outcome _ => inferInstanceAs (Decidable (∀ o ∈ db.orders[i]?, o.IsClose →
      o.state.isTerminal ≠ outcome.state.isTerminal → o.qty ≤ o.qtyFilled))
  | .cancelTrade _ ids _ => inferInstanceAs (Decidable (∀ i ∈ ids, ∀ o ∈ db.orders[i]?,
      o.IsClose → o.state.isTerminal = false → o.qty ≤ o.qtyFilled))
  | .submitPreview .. | .createUnwind .. | .execution .. | .completeStructure .. | .reap ..
  | .reconnect .. | .syncPositions .. | .closeRequest .. | .positionClose .. => .isTrue trivial

/-- Three contracts of a leg of ten are closed and filled, the rest is being closed by an order
that fills in part and is then reaped. -/
def closedInParts : List Event :=
  [.submitPreview [callLeg .buy 10] 0, .execution 0 (execution "a" "BOT" 10 none) 1,
    .closeRequest (callPosition .buy 10) 3 none (some 0) true 2,
    .closeAnswer 1 (.accepted (some 7) none) 3,
    .closeRequest (callPosition .buy 10) 7 none (some 0) true 4, .closeAnswer 2 .unknown 5,
    .execution 1 (execution "b" "SLD" 3 none) 6, .execution 2 (execution "c" "SLD" 2 none) 7,
    .reap [] 100 1000]

theorem reservation_exact_closedInParts : ReservationExact (closedInParts.foldl step Db.empty) :=
  reservation_exact (Run.of_foldl closedInParts (by decide +kernel))

/-- IB cancels a close that has nothing filled: the leg stays reserved. -/
def cancelledClose : List Event :=
  [.submitPreview [callLeg .buy 10] 0, .execution 0 (execution "a" "BOT" 10 none) 1,
    .closeRequest (callPosition .buy 10) 10 none (some 0) true 2,
    .closeAnswer 1 (.accepted (some 7) none) 3, .orderStatus 1 .cancelled none 4]

theorem cancelled_close_stays_reserved : ¬ ∀ db, Reachable db → ReservationExact db := by
  intro h
  have hexact := h _ (reachable_events cancelledClose)
  revert hexact
  decide +kernel

end Runs

end FxVol
