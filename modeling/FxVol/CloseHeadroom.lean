import FxVol.BookConsistency
import FxVol.ReservationLedger
import FxVol.TableTotals

/-!
# Headroom of a close

What closing orders have filled and still work on, by entry leg, against what the leg opened, and what they work on by
contract and side, against what the account holds there.  `Admits` is what new closes need to fit, and `KeepsOrders`
what the orders that are there need in order not to claim more.
-/
namespace FxVol

open GuardedRuns KeyedPasses TableTotals

abbrev Contract := String × ContractType × Option Date × ℚ

def closesLeg (e : ℕ) (o : StructureOrder) : Bool := o.Targets e

/-- The contract by symbol, right, expiry and strike; the strike in the row of a future says nothing. -/
def contractOf (symbol : String) (type : ContractType) (expiry : Option Date) (strike : Option ℚ) : Contract :=
  (symbol, type, expiry, if type = .future then 0 else strike.getD 0)

def StructureOrder.ibContract (o : StructureOrder) : Contract :=
  contractOf o.contractSymbol o.contractType o.contractExpiry o.contractStrike

def closesOn (c : Contract) (s : Side) (o : StructureOrder) : Bool :=
  o.orderRole = .closing ∧ o.ibContract = c ∧ o.side = s

def filledBy (db : Db) (p : StructureOrder → Bool) : ℕ :=
  total (fun i o => if p o then db.recorded i else 0) db.orders

def workingOf (db : Db) (p : StructureOrder → Bool) : ℕ :=
  total (fun _ o => if p o then o.rest else 0) db.orders

/-- The open quantity of a leg's own fills. -/
def heldQty (db : Db) (e : ℕ) : ℕ := (foldFills (db.fillsOf e)).openQty.natAbs

def accountQty (db : Db) (c : Contract) : ℤ :=
  total (fun i o => if o.ibContract = c then (foldFills (db.fillsOf i)).openQty else 0) db.orders

/-- What a close on this side can take from the account, negative where the account is on the other side. -/
def closable (db : Db) (c : Contract) : Side → ℤ
  | .sell => accountQty db c
  | .buy => -accountQty db c

/-- Order `e` is no closing order. -/
def Db.Opens (db : Db) (e : ℕ) : Prop := ∀ o ∈ db.orders[e]?, o.orderRole ≠ .closing

/-- No leg has more closed and being closed than it opened, and none has more reserved than is left of it; no contract
has more being closed than the account holds. -/
structure NoOverClose (db : Db) : Prop where
  leg : ∀ e, db.Opens e →
    filledBy db (closesLeg e) + workingOf db (closesLeg e) ≤ heldQty db e
  contract : ∀ c s, (workingOf db (closesOn c s) : ℤ) ≤ max (closable db c s) 0
  available : ∀ e, db.Opens e →
    filledBy db (closesLeg e) + reservedOf db e ≤ heldQty db e

/-- The fills of closing orders do not take the account to the other side. -/
def ClosesNeverFlip (db db' : Db) : Prop :=
  ∀ c s, filledBy db (closesOn c s) < filledBy db' (closesOn c s) → 0 ≤ closable db' c s

/-- The new closes fit what their legs and contracts have left. -/
def Admits (db : Db) (new : List StructureOrder) : Prop :=
  (∀ o ∈ new, ∀ e ∈ o.closesOrderId, filledBy db (closesLeg e) + workingOf db (closesLeg e) +
    ((new.filter (closesLeg e)).map (·.qty)).sum ≤ heldQty db e) ∧
  ∀ o ∈ new, ((workingOf db (closesOn o.ibContract o.side) +
    ((new.filter (closesOn o.ibContract o.side)).map (·.qty)).sum : ℕ) : ℤ) ≤ closable db o.ibContract o.side

/-- Row `i` is a closing order: it is not revived with something left, nothing is executed
beyond its quantity, and it is not booked whole after it ended. -/
def KeepsClose (db : Db) (i : ℕ) (o : StructureOrder) : Event → Prop
  | .stampLive j _ _ _ _ | .stampPlacement j _ _ _ =>
    j = i → o.state.isTerminal → o.qty ≤ o.qtyFilled
  | .comboStatus _ ids .filled _ _ => i ∈ ids → o.state ≠ .filled → o.state.isTerminal = false
  | .execution j fill _ => j = i → ¬ db.Booked (.ib fill.execId) →
    o.state.isTerminal = false ∧ db.recorded i + fill.shares ≤ o.qty
  | .closeAnswer j outcome _ =>
    j = i → o.state.isTerminal → outcome.state.isTerminal = false → o.qty ≤ o.qtyFilled
  | _ => True

/-- Row `i` opens a position: it is not executed while a close on its side works on its contract. -/
def KeepsHolding (db : Db) (i : ℕ) (o : StructureOrder) : Event → Prop
  | .comboStatus _ ids .filled _ _ => i ∈ ids → o.state ≠ .filled → workingOf db (closesOn o.ibContract o.side) = 0
  | .execution j fill _ => j = i → ¬ db.Booked (.ib fill.execId) → workingOf db (closesOn o.ibContract o.side) = 0
  | _ => True

/-- Row `i` is executed on its own side. -/
def KeepsSide (db : Db) (i : ℕ) (o : StructureOrder) : Event → Prop
  | .execution j fill _ => j = i → ¬ db.Booked (.ib fill.execId) → normaliseSide fill.execSide = o.side
  | _ => True

def requestedCloses (db : Db) : Event → List StructureOrder
  | .closeRequest pos qty _ target _ now =>
    if qty ≤ pos.quantity ∧ alreadyClosing db pos now + qty ≤ pos.quantity then
      [closingOrder pos qty db.structures.length none (closeTarget db pos target) now]
    else []
  | .positionClose positionId _ now =>
    match db.bookedPositions[positionId]? with
    | none => []
    | some pos =>
      if pos.state ≠ .open then []
      else match buildClosingLegs ((entryOrders db pos.structureId).map (·.1)) with
        | .error _ => []
        | .ok legs =>
          positionCloseOrders db.structures.length (entryOrders db pos.structureId) legs now
  | _ => []

structure KeepsOrders (db : Db) (ev : Event) : Prop where
  sides : ∀ i o, db.orders[i]? = some o → KeepsSide db i o ev
  closes : ∀ i o, db.orders[i]? = some o → o.orderRole = .closing →
    KeepsRow db i o ev ∧ KeepsClose db i o ev
  holdings : ∀ i o, db.orders[i]? = some o → o.orderRole ≠ .closing → KeepsHolding db i o ev

section Rows
variable {db : Db} {i : ℕ} {o o' : StructureOrder} {ev : Event} {fills : List StructureFill}

theorem rest_eq (o : StructureOrder) (r : ℕ) (h : o.qtyFilled = r) :
    o.rest = if o.state.isTerminal then 0 else o.qty - r := by
  rw [StructureOrder.rest, h]

/-- With the same recorded, a close claims more only if it is revived with something left. -/
theorem claim_le_of_revived {r : ℕ} (hleg : o'.leg = o.leg) (hr : o.qtyFilled = r)
    (hr' : o'.qtyFilled = r)
    (h : o.state.isTerminal → o'.state.isTerminal = false → o.qty ≤ r) :
    r + o'.rest ≤ r + o.rest := by
  rw [rest_eq o r hr, rest_eq o' r hr', leg_qty hleg]
  cases hwork : o'.state.isTerminal with
  | true => exact Nat.add_le_add_left (Nat.zero_le _) r
  | false =>
    cases hterm : o.state.isTerminal with
    | false => exact le_rfl
    | true =>
      have hdone := h hterm hwork
      simp only [Bool.false_eq_true, if_true, if_false]
      omega

/-- A guarded change revives a closing order only with nothing left. -/
theorem RowChange.revived (h : RowChange db i o ev o' fills) (hq : o.qtyFilled = db.recorded i) (hgc : KeepsClose db i o ev)
    (hterm : o.state.isTerminal) (hwork : o'.state.isTerminal = false) : o.qty ≤ db.recorded i := by
  have hclosed : ¬ o.state.isTerminal = false := by simp [hterm]
  rw [← hq]
  cases h with
  | same => exact absurd hwork hclosed
  | stampedLive | stamped => exact hgc rfl hterm
  | onStatus status reason now =>
    rcases onStatus_state o now status reason with hsame | hnew
    · rw [hsame] at hwork
      exact absurd hwork hclosed
    · exact absurd (nextState_newState hnew).1 hclosed
  | comboCancelled perm status reason now hmem =>
    rw [onComboCancel_terminal o now status reason hterm] at hwork
    exact absurd hwork hclosed
  | comboBooked perm reason now hmem hopen => exact absurd (hgc hmem hopen) hclosed
  | booked now hnew => exact absurd (hgc rfl hnew).1 hclosed
  | reported x c cur cur' hfill =>
    rw [withAggregates_state] at hwork
    exact absurd hwork hclosed
  | repaired now hstuck hnew => exact absurd (OrderState.isTerminal_of_isStuck hstuck) hclosed
  | mirrored now hstuck hnone hpos hmatch => exact absurd (OrderState.isTerminal_of_isStuck hstuck) hclosed
  | adopted trades t tau now =>
    rw [adopted_state] at hwork
    split_ifs at hwork with hpending
    · rw [hpending] at hterm
      cases hterm
    · exact absurd hwork hclosed
  | expired trades tau now o₁ h₁ => cases hwork
  | rewired trades t now hworking =>
    rw [OrderState.isNonTerminal_eq, hterm] at hworking
    cases hworking
  | answered outcome now =>
    rw [answered_state] at hwork
    exact hgc rfl hterm hwork
  | cancelled => cases hwork

/-- A guarded change does not raise what a closing order has filled and works on. -/
theorem RowChange.claim_le (h : RowChange db i o ev o' fills)
    (hq : o.qtyFilled = db.recorded i) (hq' : o'.qtyFilled = (fills.map (·.qtyFilled)).sum)
    (hg : KeepsRow db i o ev) (hgc : KeepsClose db i o ev) :
    (fills.map (·.qtyFilled)).sum + o'.rest ≤ db.recorded i + o.rest := by
  -- most changes leave the fills alone, and then only a revived row claims more
  have hsame : (fills.map (·.qtyFilled)).sum = db.recorded i →
      (fills.map (·.qtyFilled)).sum + o'.rest ≤ db.recorded i + o.rest := by
    intro hsum
    rw [hsum] at hq' ⊢
    exact claim_le_of_revived h.leg hq hq' (h.revived hq hgc)
  cases h with
  | comboBooked perm reason now hmem hopen =>
    have hguard := hg hmem hopen
    have hsum : ((comboFills perm now i o (db.fillsOf i)).map (·.qtyFilled)).sum = o.qty := by
      rw [comboFills_sum, hguard]
      split_ifs <;> simp
    have hdone : (o.comboBooked now).rest = 0 := rfl
    rw [hsum, hdone, rest_eq o _ hq, hgc hmem hopen]
    simp only [Bool.false_eq_true, if_false]
    omega
  | @booked fill now hnew =>
    obtain ⟨hwork, hfit⟩ := hgc rfl hnew
    have hsum : ((db.fillsOf i ++ [fillRow i fill]).map (·.qtyFilled)).sum =
        db.recorded i + fill.shares := by simp [Db.recorded, fillRow]
    rw [hsum] at hq' ⊢
    rw [rest_eq o _ hq, rest_eq _ _ hq', hwork, leg_qty booked_leg]
    simp only [Bool.false_eq_true, if_false]
    split_ifs <;> omega
  | reported x c cur cur' hfill =>
    apply hsame
    rw [List.map_map]
    simp [Db.recorded, Function.comp_def]
  | _ => exact hsame rfl

/-- All fills of a leg are on its side. -/
def OnSide (side : Side) (fills : List StructureFill) : Prop := ∀ f ∈ fills, f.side = side

theorem OnSide.openQty {side : Side} (h : OnSide side fills) :
    (foldFills fills).openQty = signed side (fills.map (·.qtyFilled)).sum := by
  rw [foldFills_openQty]
  induction fills with
  | nil => cases side <;> rfl
  | cons f fills ih =>
    have htail := ih fun g hg => h g (List.mem_cons_of_mem _ hg)
    have hside := h f List.mem_cons_self
    simp only [List.map_cons, List.sum_cons, htail, hside]
    cases side <;> simp only [signed] <;> push_cast <;> ring

theorem OnSide.natAbs {side : Side} (h : OnSide side fills) :
    (foldFills fills).openQty.natAbs = (fills.map (·.qtyFilled)).sum := by
  rw [h.openQty]
  cases side with
  | buy => exact Int.natAbs_natCast _
  | sell => rw [signed, Int.natAbs_neg, Int.natAbs_natCast]

/-- A guarded change keeps the fills of an order on its side. -/
theorem RowChange.onSide (h : RowChange db i o ev o' fills) (hs : OnSide o.side (db.fillsOf i))
    (hg : KeepsSide db i o ev) : OnSide o'.side fills := by
  rw [leg_side h.leg]
  cases h with
  | comboBooked perm reason now =>
    intro f hf
    unfold comboFills at hf
    split_ifs at hf
    · exact hs f hf
    · rcases List.mem_append.mp hf with hold | hnew
      · exact hs f hold
      · rw [List.mem_singleton.mp hnew]
        rfl
  | booked now hnew =>
    intro f hf
    rcases List.mem_append.mp hf with hold | hadded
    · exact hs f hold
    · rw [List.mem_singleton.mp hadded]
      exact hg rfl hnew
  | reported x c cur cur' =>
    intro f hf
    obtain ⟨f₀, hf₀, rfl⟩ := List.mem_map.mp hf
    rw [reported_side]
    exact hs f₀ hf₀
  | _ => exact hs

/-- A guarded change of an opening order records nothing, or no close works against it and none comes. -/
theorem RowChange.quiet (h : RowChange db i o ev o' fills) (hg : KeepsHolding db i o ev) :
    (fills.map (·.qtyFilled)).sum = db.recorded i ∨
      workingOf db (closesOn o.ibContract o.side) = 0 ∧ requestedCloses db ev = [] := by
  cases h with
  | comboBooked perm reason now hmem hopen => exact .inr ⟨hg hmem hopen, rfl⟩
  | booked now hnew => exact .inr ⟨hg rfl hnew, rfl⟩
  | reported x c cur cur' =>
    left
    rw [List.map_map]
    simp [Db.recorded, Function.comp_def]
  | _ => exact .inl rfl

end Rows

/-- What the selected orders have filled and still work on. -/
def claimOf (db : Db) (p : StructureOrder → Bool) : ℕ :=
  total (fun i o => if p o then db.recorded i + o.rest else 0) db.orders

theorem claimOf_eq (db : Db) (p : StructureOrder → Bool) :
    claimOf db p = filledBy db p + workingOf db p := by
  rw [claimOf, filledBy, workingOf, ← total_add]
  congr 1
  funext i o
  split_ifs <;> rfl

theorem workingOf_closesLeg (db : Db) (e : ℕ) : workingOf db (closesLeg e) = inFlight db e := by
  rw [workingOf, total_const, inFlight]
  congr 1
  apply List.map_congr_left
  intro o _
  rw [reserves_eq, closesLeg]
  simp only [decide_eq_true_eq]
  rfl

/-- A selection of closing orders by columns no writer changes. -/
structure SelectsCloses (p : StructureOrder → Bool) : Prop where
  closing : ∀ o, p o → o.orderRole = .closing
  ofLeg : ∀ o o' : StructureOrder, o'.leg = o.leg → p o' = p o

theorem selectsCloses_leg (e : ℕ) : SelectsCloses (closesLeg e) where
  closing o h := by
    have htarget : o.Targets e := of_decide_eq_true h
    exact htarget.2
  ofLeg o o' h := by
    simp only [closesLeg, targets_of_leg h]

theorem leg_ibContract {o o' : StructureOrder} (h : o'.leg = o.leg) : o'.ibContract = o.ibContract := by
  have hcontract := leg_contract h
  simp only [StructureOrder.contract, Prod.mk.injEq] at hcontract
  simp only [StructureOrder.ibContract, hcontract]

theorem selectsCloses_on (c : Contract) (s : Side) : SelectsCloses (closesOn c s) where
  closing o h := by
    simp only [closesOn, decide_eq_true_eq] at h
    exact h.1
  ofLeg o o' h := by
    simp only [closesOn, leg_orderRole h, leg_ibContract h, leg_side h]

structure Headroom (db : Db) : Prop where
  wellFormed : db.WellFormed
  closes : ∀ i o, db.orders[i]? = some o → o.orderRole = .closing → RowConsistent db i o
  onSide : ∀ i o, db.orders[i]? = some o → OnSide o.side (db.fillsOf i)
  noOverClose : NoOverClose db

section Tables
variable {db : Db} {ev : Event} {p : StructureOrder → Bool}

theorem fresh_rest {o : StructureOrder} (h : o.Fresh) : o.rest = o.qty := by
  rw [rest_eq o 0 h.unfilled, h.pending]
  rfl

/-- Rows of the old table claim no more after a guarded transaction. -/
theorem step_claim_old (h : Headroom db) (hg : KeepsOrders db ev) (hp : SelectsCloses p) (i : ℕ)
    (o : StructureOrder) (ho : db.orders[i]? = some o) :
    ∃ o', (step db ev).orders[i]? = some o' ∧
      (if p o' then (step db ev).recorded i + o'.rest else 0) ≤
        if p o then db.recorded i + o.rest else 0 := by
  obtain ⟨o', ho', hchange⟩ := step_row ev ho
  refine ⟨o', ho', ?_⟩
  rw [hp.ofLeg o o' hchange.leg]
  split_ifs with hsel
  · have hclosing := hp.closing o hsel
    obtain ⟨hrow, hclose⟩ := hg.closes i o ho hclosing
    have hcons := h.closes i o ho hclosing
    have hcons' := hchange.consistent ho hcons hrow rfl
    exact hchange.claim_le hcons.qtyFilled hcons'.qtyFilled hrow hclose
  · exact le_rfl

/-- The claims of a table to which rows were appended. -/
theorem claimOf_append {db' : Db} {new : List StructureOrder} (hw : db.WellFormed)
    (horders : db'.orders = db.orders ++ new) (hfills : db'.fills = db.fills)
    (hfresh : ∀ o ∈ new, o.Fresh) :
    claimOf db' p = claimOf db p + ((new.filter p).map (·.qty)).sum := by
  have hnew : (new.mapIdx fun i o => if p o then db.recorded (i + db.orders.length) + o.rest
      else 0) = new.map fun o => if p o then o.qty else 0 := by
    apply List.ext_getElem (by simp)
    intro i hi hi'
    simp only [List.getElem_mapIdx, List.getElem_map]
    have hnone : db.fillsOf (i + db.orders.length) = [] := hw.fillsOf_unknown (by omega)
    rw [Db.recorded, hnone, fresh_rest (hfresh _ (List.getElem_mem _))]
    simp
  have hrec : ∀ i, db'.recorded i = db.recorded i := Db.recorded_congr hfills
  simp only [claimOf, horders, hrec, total_append, hnew, sum_selected]

theorem claimOf_insertClosing {o : StructureOrder} {now : Instant} (hw : db.WellFormed)
    (hfresh : o.Fresh) :
    claimOf (insertClosing db o now) p = claimOf db p + (([o].filter p).map (·.qty)).sum := by
  apply claimOf_append hw
  · rw [insertClosing, releaseReservation_orders]
    rfl
  · rw [insertClosing, releaseReservation_fills]
    rfl
  · intro o' ho'
    rw [List.mem_singleton.mp ho']
    exact hfresh

theorem claimOf_persistPositionClose {positionId : ℕ} {pos : BookedPosition}
    {legs : List ClosingLegSpec} {alert : Option ℕ} {now : Instant} (hw : db.WellFormed) :
    claimOf (persistPositionClose db positionId pos legs alert now) p = claimOf db p +
      (((positionCloseOrders db.structures.length (entryOrders db pos.structureId) legs
        now).filter p).map (·.qty)).sum := by
  apply claimOf_append hw (persistPositionClose_orders ..)
  · exact persistPositionClose_fills ..
  · intro o ho
    obtain ⟨leg, _, rfl⟩ := List.mem_map.mp ho
    exact ⟨.refl _, .refl _, .refl _, .refl _, .refl _⟩

theorem selected_congr {o o' : StructureOrder} (hp : SelectsCloses p) (hleg : o'.leg = o.leg) :
    (([o'].filter p).map (·.qty)).sum = (([o].filter p).map (·.qty)).sum := by
  rw [← sum_selected, ← sum_selected]
  simp only [List.map_cons, List.map_nil, hp.ofLeg o o' hleg, leg_qty hleg]

/-- What a guarded transaction adds to the claims is what it was asked to close. -/
theorem step_claim_le (h : Headroom db) (hg : KeepsOrders db ev) (hp : SelectsCloses p) :
    claimOf (step db ev) p ≤
      claimOf db p + (((requestedCloses db ev).filter p).map (·.qty)).sum := by
  have unasked : (∀ i o', db.orders.length ≤ i → (step db ev).orders[i]? = some o' →
      o'.orderRole ≠ .closing) → claimOf (step db ev) p ≤ claimOf db p := by
    intro hnew
    apply total_le (step_length_le db ev) (step_claim_old h hg hp)
    intro i o' hi ho'
    rw [if_neg]
    intro hsel
    exact hnew i o' hi ho' (hp.closing o' hsel)
  have kept : ev.inserts = false → claimOf (step db ev) p ≤ claimOf db p := by
    intro hins
    apply unasked
    intro i o' hi ho'
    have hlt := (List.getElem?_eq_some_iff.mp ho').1
    rw [step_length hins] at hlt
    omega
  cases ev with
  | submitPreview legs now =>
    refine (unasked ?_).trans (Nat.le_add_right _ _)
    intro i o' hi ho'
    rw [step, submitPreview, List.getElem?_append_right hi] at ho'
    obtain ⟨k, hk, rfl⟩ := List.mem_mapIdx.mp (List.mem_of_getElem? ho')
    simp [LegSpec.order, StructureOrder.new]
  | createUnwind sid idx leg now =>
    refine (unasked ?_).trans (Nat.le_add_right _ _)
    intro i o' hi ho'
    simp only [step, Db.insertOrder] at ho'
    split_ifs at ho'
    · rw [List.getElem?_eq_none hi] at ho'
      cases ho'
    · simp only [Db.addOrder, List.getElem?_append_right hi] at ho'
      rw [List.mem_singleton.mp (List.mem_of_getElem? ho')]
      simp [LegSpec.order, StructureOrder.new]
  | closeRequest pos qty lp target rth now =>
    rcases closeRequest_cases db pos qty lp target rth now with hdb | ⟨price, hqty, hguard, hdb⟩
    · rw [hdb]
      exact Nat.le_add_right _ _
    · have hasked : requestedCloses db (.closeRequest pos qty lp target rth now) =
          [closingOrder pos qty db.structures.length none (closeTarget db pos target) now] :=
        if_pos ⟨hqty, hguard⟩
      rw [hdb, hasked, claimOf_insertClosing h.wellFormed (fresh_closingOrder ..)]
      exact le_of_eq (congrArg _ (selected_congr hp rfl))
  | positionClose positionId alert now =>
    rcases positionClose_cases db positionId alert now with hdb | ⟨pos, legs, hpos, hopen, hlegs, hdb⟩
    · rw [hdb]
      exact Nat.le_add_right _ _
    · have hasked : requestedCloses db (.positionClose positionId alert now) =
          positionCloseOrders db.structures.length (entryOrders db pos.structureId) legs now := by
        simp only [requestedCloses, hpos, hopen, ne_eq, not_true_eq_false, if_false, hlegs]
      rw [hdb, hasked, claimOf_persistPositionClose h.wellFormed]
  | _ => exact (kept rfl).trans (Nat.le_add_right _ _)

theorem heldQty_eq (hw : db.WellFormed)
    (hside : ∀ i (o : StructureOrder), db.orders[i]? = some o → OnSide o.side (db.fillsOf i)) (e : ℕ) :
    heldQty db e = db.recorded e := by
  cases ho : db.orders[e]? with
  | some o => exact (hside e o ho).natAbs
  | none =>
    have hnone : db.fillsOf e = [] := hw.fillsOf_unknown (List.getElem?_eq_none_iff.mp ho)
    rw [heldQty, Db.recorded, hnone]
    rfl

theorem step_recorded_le (hw : db.WellFormed) (ev : Event) (i : ℕ) :
    db.recorded i ≤ (step db ev).recorded i := by
  cases ho : db.orders[i]? with
  | some o =>
    obtain ⟨_, _, _, hle⟩ := step_evolves db ev i o ho
    exact hle
  | none =>
    have hnone : db.fillsOf i = [] := hw.fillsOf_unknown (List.getElem?_eq_none_iff.mp ho)
    rw [Db.recorded, hnone]
    exact Nat.zero_le _

/-- The fills of an order stay on its side. -/
theorem step_onSide (h : Headroom db) (hg : KeepsOrders db ev) (i : ℕ) (o' : StructureOrder)
    (ho' : (step db ev).orders[i]? = some o') : OnSide o'.side ((step db ev).fillsOf i) := by
  rcases step_row_cases ho' with ⟨o, ho, hchange⟩ | ⟨hi, -⟩
  · exact hchange.onSide (h.onSide i o ho) (hg.sides i o ho)
  · rw [step_newRow h.wellFormed hi]
    intro f hf
    cases hf

/-- What an order on the contract gives to closes on a side, or takes from them -/
def against (db : Db) (c : Contract) (s : Side) (i : ℕ) (o : StructureOrder) : ℤ :=
  if o.ibContract = c then if o.side = s then -db.recorded i else db.recorded i else 0

theorem against_buy (db : Db) (c : Contract) (i : ℕ) (o : StructureOrder) :
    against db c .buy i o = -against db c .sell i o := by
  rw [against, against]
  by_cases hon : o.ibContract = c
  · cases hside : o.side <;> simp [hon]
  · simp [hon]

theorem closable_eq (hside : ∀ i (o : StructureOrder), db.orders[i]? = some o → OnSide o.side (db.fillsOf i))
    (c : Contract) (s : Side) : closable db c s = total (against db c s) db.orders := by
  have hbuy : ∀ i (o : StructureOrder), db.orders[i]? = some o →
      (if o.ibContract = c then (foldFills (db.fillsOf i)).openQty else 0) = against db c .sell i o := by
    intro i o ho
    rw [against, (hside i o ho).openQty]
    cases o.side <;> rfl
  have haccount : accountQty db c = total (against db c .sell) db.orders :=
    total_congr rfl fun i o ho => ⟨o, ho, hbuy i o ho⟩
  cases s with
  | sell => exact haccount
  | buy =>
    rw [closable, haccount, ← total_neg]
    congr 1
    funext i o
    exact (against_buy db c i o).symm

/-- What a row adds to what a close can still take and has taken -/
theorem against_add_closed (db : Db) (c : Contract) (s : Side) (i : ℕ) (o : StructureOrder) :
    against db c s i o + (if closesOn c s o then (db.recorded i : ℤ) else 0) =
      if o.ibContract = c then
        if o.side = s then if o.orderRole = .closing then 0 else -(db.recorded i : ℤ) else db.recorded i
      else 0 := by
  rw [against, closesOn]
  by_cases hon : o.ibContract = c
  · by_cases hside : o.side = s
    · by_cases hrole : o.orderRole = .closing <;> simp [hon, hside, hrole]
    · simp [hon, hside]
  · simp [hon]

/-- Without what its own closes have filled, a side of a contract loses nothing while no order opens on that side. -/
theorem step_opened_le (h : Headroom db) (hg : KeepsOrders db ev) (c : Contract) (s : Side)
    (hquiet : ∀ i o, db.orders[i]? = some o → o.orderRole ≠ .closing → o.ibContract = c → o.side = s →
      (step db ev).recorded i = db.recorded i) :
    closable db c s + filledBy db (closesOn c s) ≤
      closable (step db ev) c s + filledBy (step db ev) (closesOn c s) := by
  have hopened : ∀ db' : Db, (∀ i (o : StructureOrder), db'.orders[i]? = some o → OnSide o.side (db'.fillsOf i)) →
      closable db' c s + filledBy db' (closesOn c s) =
        total (fun i o => against db' c s i o + if closesOn c s o then (db'.recorded i : ℤ) else 0) db'.orders := by
    intro db' hside
    rw [total_add, ← closable_eq hside, filledBy, total_cast]
    congr 2
    funext i o
    split_ifs <;> rfl
  rw [hopened db h.onSide, hopened (step db ev) (step_onSide h hg)]
  apply total_grows (step_length_le db ev)
  · intro i o ho
    obtain ⟨o', ho', hchange⟩ := step_row ev ho
    refine ⟨o', ho', ?_⟩
    have hle : (db.recorded i : ℤ) ≤ (step db ev).recorded i := Int.ofNat_le.mpr hchange.recorded_le
    rw [against_add_closed, against_add_closed, leg_ibContract hchange.leg, leg_side hchange.leg,
      leg_orderRole hchange.leg]
    split_ifs with hon hside hclosing
    · exact le_rfl
    · rw [hquiet i o ho hclosing hon hside]
    · exact hle
    · exact le_rfl
  · intro i o' hi _
    have hnone : (step db ev).recorded i = 0 := by
      rw [Db.recorded, step_newRow h.wellFormed hi]
      rfl
    rw [against, hnone]
    split_ifs <;> simp

end Tables

/-- Leg `e` reserves what its closes work on, or nothing was reserved or filled on it. -/
def Released (db db' : Db) (e : ℕ) : Prop :=
  reservedOf db' e = inFlight db' e ∨
    (reservedOf db' e = reservedOf db e ∧ filledBy db' (closesLeg e) = filledBy db (closesLeg e))

/-- Nothing that concerns the closes of leg `e` is written. -/
structure Untouched (db db' : Db) (e : ℕ) : Prop where
  reserved : reservedOf db' e = reservedOf db e
  filled : filledBy db' (closesLeg e) = filledBy db (closesLeg e)
  inFlight : inFlight db' e = inFlight db e

section Releases
variable {db db' db'' : Db} {i e : ℕ} {o o' : StructureOrder} {ev : Event}

theorem Released.rfl : Released db db e := .inr ⟨.refl _, .refl _⟩

theorem Released.untouched (h : Released db db' e) (h' : Untouched db' db'' e) :
    Released db db'' e := by
  rcases h with hexact | ⟨hres, hfilled⟩
  · exact .inl (by rw [h'.reserved, hexact, h'.inFlight])
  · exact .inr ⟨h'.reserved.trans hres, h'.filled.trans hfilled⟩

/-- A recomputed leg reserves what its closes work on. -/
theorem Released.of_legReserved (h : LegReserved db' e) : Released db db' e := .inl h.reserved

/-- A row written with its fills does not touch a leg for whose closes nothing changes. -/
theorem untouched_set (ho : db.orders[i]? = some o) (hleg : o'.leg = o.leg)
    (hrow : o.Targets e → db'.recorded i = db.recorded i ∧ o'.rest = o.rest)
    (horders : db'.orders = db.orders.set i o')
    (hrec : ∀ j, j ≠ i → db'.recorded j = db.recorded j)
    (hres : reservedOf db' e = reservedOf db e) : Untouched db db' e := by
  have hlen : db'.orders.length = db.orders.length := by rw [horders, List.length_set]
  have hsel : closesLeg e o' = closesLeg e o := (selectsCloses_leg e).ofLeg o o' hleg
  refine ⟨hres, ?_, ?_⟩
  · apply total_congr hlen
    intro j p hp
    refine ⟨_, by rw [horders, setOrder_row o' hp], ?_⟩
    by_cases hj : j = i
    · subst hj
      obtain rfl : o = p := Option.some.inj (ho.symm.trans hp)
      rw [if_pos rfl, hsel]
      split_ifs with htarget
      · exact (hrow (of_decide_eq_true htarget)).1
      · rfl
    · rw [if_neg hj, hrec j hj]
  · rw [← workingOf_closesLeg, ← workingOf_closesLeg]
    apply total_congr hlen
    intro j p hp
    refine ⟨_, by rw [horders, setOrder_row o' hp], ?_⟩
    by_cases hj : j = i
    · subst hj
      obtain rfl : o = p := Option.some.inj (ho.symm.trans hp)
      rw [if_pos rfl, hsel]
      split_ifs with htarget
      · exact (hrow (of_decide_eq_true htarget)).2
      · rfl
    · rw [if_neg hj]

theorem untouched_congr (horders : db'.orders = db.orders) (hfills : db'.fills = db.fills)
    (hpos : db'.legPositions = db.legPositions) : Untouched db db' e where
  reserved := (KeepsLeg.of_eq hpos).reserved
  filled := by
    have hrec : ∀ i, db'.recorded i = db.recorded i := Db.recorded_congr hfills
    simp only [filledBy, horders, hrec]
  inFlight := by rw [inFlight, horders, inFlight]

/-- A write of row `i` followed by its release. -/
theorem Released.release (h : Released db db' e) (ho : db'.orders[i]? = some o)
    (hleg : o'.leg = o.leg) (horders : db''.orders = db'.orders.set i o')
    (hrec : ∀ j, j ≠ i → db''.recorded j = db'.recorded j)
    (hres : reservedOf db'' e = reservedOf db' e) :
    Released db (releaseReservation db'' o') e := by
  by_cases htarget : o'.Targets e
  · have hexact : LegReserved (releaseReservation db'' o') e :=
      legReserved_release fun hother => absurd htarget hother
    exact .of_legReserved hexact
  · have hpos : reservedOf (releaseReservation db'' o') e = reservedOf db'' e := by
      unfold releaseReservation
      split
      · next e' hrole hcloses =>
        apply reservedOf_recomputeReservation_ne
        rintro rfl
        exact htarget ⟨hcloses, hrole⟩
      · rfl
    apply h.untouched
    apply untouched_set ho hleg
    · intro hclose
      exact absurd ((targets_of_leg hleg).mpr hclose) htarget
    · rw [releaseReservation_orders, horders]
    · intro j hj
      rw [Db.recorded_congr (releaseReservation_fills db'' o') j, hrec j hj]
    · rw [hpos, hres]

theorem bookFill_released (ho : db.orders[i]? = some o) (fill : IbFill) (now : Instant) (e : ℕ) :
    Released db (bookFill db i o fill now) e := by
  have hleg : (o.booked fill (recomputeAggregates (db.addFill (fillRow i fill)) i o) now).leg =
      o.leg := booked_leg
  apply Released.rfl.release ho hleg rfl
  · intro j hj
    exact Db.addFill_recorded_ne db _ j (Ne.symm hj)
  · exact reservedOf_rebuildLeg

theorem bookComboLeg_released {perm : String} {now : Instant} (h : Released db db' e)
    (hok : bookComboLeg perm now db' i = .ok db'') : Released db db'' e := by
  rcases bookComboLeg_cases hok with rfl | ⟨o, db₁, ho, _, hfill, rfl⟩
  · exact h
  · have hpos : db₁.legPositions = db'.legPositions := by
      rcases hfill with ⟨_, rfl⟩ | ⟨_, rfl⟩ <;> rfl
    apply h.release ho (comboBooked_leg o now)
    · rw [rebuildLeg_orders, Db.setOrder_orders, hfill.orders]
    · intro j hj
      have hset : (rebuildLeg (db₁.setOrder i (o.comboBooked now)) i).recorded j = db₁.recorded j :=
        Db.recorded_congr rfl j
      rw [hset, Db.recorded, hfill.fillsOf_ne hj, Db.recorded]
    · have hset : KeepsLeg db' (db₁.setOrder i (o.comboBooked now)) e := .of_eq hpos
      exact reservedOf_rebuildLeg.trans hset.reserved

theorem reap_released (db : Db) (trades : List IbTrade) (tau : ℤ) (now : Instant) (e : ℕ) :
    Released db (reapStaleOrders db trades tau now) e := by
  have hadopt : Released db ((List.range db.orders.length).foldl (adoptOrphan trades now) db) e := by
    apply (passes_foldl _ _ db).invariant (I := fun s => Released db s e) ?_ .rfl
    rintro k _ s t hs rfl
    rcases adoptOrphan_cases trades now s k with hdb | ⟨o, t, ho, _, hdb⟩
    · rwa [hdb]
    · rw [hdb]
      apply hs.untouched
      exact untouched_set ho (adopted_leg o now t) (fun _ => ⟨rfl, adopted_rest o t now⟩) rfl
        (fun _ _ => rfl) rfl
  have hreap := (passes_foldl (reapOrder (liveIbOrderKeys trades) tau now) (staleIds
    ((List.range db.orders.length).foldl (adoptOrphan trades now) db) (now - tau))
    (_, [])).invariant (I := fun s => Released db s.1 e) ?_ hadopt
  · apply hreap.untouched
    exact untouched_congr (terminaliseStructures_orders ..) (terminaliseStructures_fills ..)
      (foldl_frame Db.legPositions _ (terminaliseStructure_legPositions now) _ _)
  · rintro k _ s t hs rfl
    rcases reapOrder_cases (liveIbOrderKeys trades) tau now s k with hdb | ⟨o, ho, _, hdb⟩
    · rwa [hdb]
    · rw [hdb]
      exact hs.release ho (expiredAt_leg o now) rfl (fun j _ => Db.recorded_congr rfl j) rfl

theorem filledBy_append {p : StructureOrder → Bool} {new : List StructureOrder}
    (hw : db.WellFormed) (horders : db'.orders = db.orders ++ new) (hfills : db'.fills = db.fills) :
    filledBy db' p = filledBy db p := by
  have hnew : (new.mapIdx fun i o => if p o then db.recorded (i + db.orders.length) else 0).sum =
      0 := by
    apply List.sum_eq_zero
    intro n hn
    obtain ⟨i, hi, rfl⟩ := List.mem_mapIdx.mp hn
    have hnone : db.fillsOf (i + db.orders.length) = [] := hw.fillsOf_unknown (by omega)
    rw [Db.recorded, hnone]
    split_ifs <;> rfl
  have hrec : ∀ i, db'.recorded i = db.recorded i := Db.recorded_congr hfills
  simp only [filledBy, horders, hrec, total_append, hnew, Nat.add_zero]

/-- A transaction that records nothing and leaves the reserved column alone. -/
theorem released_frame (hins : ev.inserts = false)
    (hrec : ∀ i, (step db ev).recorded i = db.recorded i)
    (hres : reservedOf (step db ev) e = reservedOf db e) : Released db (step db ev) e := by
  refine .inr ⟨hres, ?_⟩
  apply total_congr (step_length hins)
  intro i o ho
  obtain ⟨o', ho', hchange⟩ := step_row ev ho
  exact ⟨o', ho', by rw [(selectsCloses_leg e).ofLeg o o' hchange.leg, hrec]⟩

theorem comboStatus_released (db : Db) (perm : String) (ids : List ℕ) (status : IbStatus)
    (reason : Option String) (now : Instant) (e : ℕ) :
    Released db (step db (.comboStatus perm ids status reason now)) e := by
  rcases onComboStatus_cases db perm ids status reason now with hdb | ⟨_, hok⟩ | hdb
  · rw [step, hdb]
    exact .rfl
  · apply (passes_foldlM _ hok).invariant (I := fun s => Released db s e) ?_ .rfl
    intro k _ s t hs hk
    exact bookComboLeg_released hs hk
  · apply released_frame rfl
    · intro i
      simp only [step, hdb]
      exact Db.recorded_congr (comboCancel_fills status reason now ids db) i
    · simp only [step, hdb]
      exact (KeepsLeg.of_eq (foldl_frame Db.legPositions (comboCancelLeg status reason now)
        (fun _ _ => rfl) ids db)).reserved

theorem insertClosing_released (hw : db.WellFormed) (o : StructureOrder) (now : Instant) (e : ℕ) :
    Released db (insertClosing db o now) e := by
  by_cases htarget : o.Targets e
  · exact .of_legReserved (legReserved_release fun hother => absurd htarget hother)
  · refine .inr ⟨?_, ?_⟩
    · unfold insertClosing releaseReservation
      split
      · next e' hrole hcloses =>
        apply reservedOf_recomputeReservation_ne
        rintro rfl
        exact htarget ⟨hcloses, hrole⟩
      · rfl
    · apply filledBy_append hw
      · rw [insertClosing, releaseReservation_orders]
        rfl
      · rw [insertClosing, releaseReservation_fills]
        rfl

theorem recomputes_released (h : Released db db' e) (ids : List ℕ) :
    Released db (ids.foldl recomputeReservation db') e := by
  apply (passes_foldl recomputeReservation ids db').invariant (I := fun s => Released db s e) ?_ h
  rintro k _ s t hs rfl
  by_cases hek : e = k
  · subst hek
    exact .of_legReserved (legReserved_recompute_self s e)
  · exact hs.untouched ⟨reservedOf_recomputeReservation_ne hek, rfl, rfl⟩

theorem persistPositionClose_released (hw : db.WellFormed) (positionId : ℕ) (pos : BookedPosition)
    (legs : List ClosingLegSpec) (alert : Option ℕ) (now : Instant) (e : ℕ) :
    Released db (persistPositionClose db positionId pos legs alert now) e := by
  let orders := positionCloseOrders db.structures.length (entryOrders db pos.structureId) legs now
  let db₂ : Db := { db.addStructure (TradeStructure.new now) with orders := db.orders ++ orders }
  have hadded : Released db db₂ e := .inr ⟨rfl, filledBy_append hw rfl rfl⟩
  have hrecomputed := recomputes_released hadded (orders.filterMap (·.closesOrderId))
  exact hrecomputed.untouched (untouched_congr rfl rfl rfl)

theorem step_released (hw : db.WellFormed) (ev : Event) (e : ℕ) : Released db (step db ev) e := by
  cases ev with
  | submitPreview legs now => exact .inr ⟨rfl, filledBy_append hw rfl rfl⟩
  | createUnwind sid idx leg now =>
    simp only [step, Db.insertOrder]
    split_ifs
    · exact .rfl
    · exact .inr ⟨rfl, filledBy_append hw rfl rfl⟩
  | stampLive | stampPlacement | orderStatus => exact released_frame rfl (fun _ => rfl) rfl
  | comboStatus perm ids status reason now => exact comboStatus_released db perm ids status reason now e
  | execution j fill now =>
    simp only [step]
    rcases deliverFill_cases db j fill now with hdb | ⟨o, ho, _, hdb⟩
    · rw [hdb]
      exact .rfl
    · rw [hdb]
      exact bookFill_released ho fill now e
  | commissionReport j x c cur =>
    rcases onCommissionReport_cases db j x cur c with hdb | ⟨cur', hdb⟩
    · rw [step, hdb]
      exact .rfl
    · apply released_frame rfl
      · intro i
        simp only [step, hdb]
        exact reportFill_recorded db j i x (c.getD 0) cur'
      · simp only [step, hdb]
        rfl
  | completeStructure sid now =>
    obtain ⟨horders, hfills, hpos⟩ := maybeCompleteStructure_frame db sid now
    exact Released.rfl.untouched (untouched_congr horders hfills hpos)
  | reconcile now =>
    exact released_frame rfl (Db.recorded_congr (reconcile_fills db now))
      (reconcile_keepsLeg db now e).reserved
  | reap trades tau now => exact reap_released db trades tau now e
  | reconnect trades now =>
    have hrec : ∀ i, (step db (.reconnect trades now)).recorded i = db.recorded i :=
      Db.recorded_congr (reconnect_fills db trades now)
    apply released_frame rfl hrec
    exact (KeepsLeg.of_eq (reconnect_legPositions db trades now)).reserved
  | syncPositions rows => exact released_frame rfl (fun _ => rfl) rfl
  | closeRequest pos qty lp target rth now =>
    rcases closeRequest_cases db pos qty lp target rth now with hdb | ⟨price, _, _, hdb⟩
    · rw [hdb]
      exact .rfl
    · rw [hdb]
      exact insertClosing_released hw _ now e
  | closeAnswer j outcome now =>
    have hrec : ∀ i, (step db (.closeAnswer j outcome now)).recorded i = db.recorded i :=
      Db.recorded_congr (closeAnswer_fills db j outcome now)
    apply released_frame rfl hrec
    exact (KeepsLeg.of_eq (closeAnswer_legPositions db j outcome now)).reserved
  | cancelTrade tradeId ids now =>
    have hrec : ∀ i, (step db (.cancelTrade tradeId ids now)).recorded i = db.recorded i :=
      Db.recorded_congr (cancelTrade_fills db tradeId ids now)
    apply released_frame rfl hrec
    exact (KeepsLeg.of_eq (cancelTrade_legPositions db tradeId ids now)).reserved
  | positionClose positionId alert now =>
    rcases positionClose_cases db positionId alert now with hdb | ⟨pos, legs, _, _, _, hdb⟩
    · rw [hdb]
      exact .rfl
    · rw [hdb]
      exact persistPositionClose_released hw positionId pos legs alert now e

end Releases

section Step
variable {db : Db} {ev : Event}

/-- The sum over a selection that none of the new closes meets. -/
theorem sum_unselected {new : List StructureOrder} {p : StructureOrder → Bool}
    (h : ∀ o ∈ new, p o = false) : ((new.filter p).map (·.qty)).sum = 0 := by
  rw [List.filter_eq_nil_iff.mpr (fun o ho => by simp [h o ho])]
  rfl

/-- What is left by claims that grow by admitted closes at most, where nothing but these closes takes from the account
what a close works on. -/
theorem NoOverClose.extend {db' : Db} {new : List StructureOrder} (h : Headroom db)
    (hadmits : Admits db new)
    (hclaim : ∀ p, SelectsCloses p →
      claimOf db' p ≤ claimOf db p + ((new.filter p).map (·.qty)).sum)
    (hfilled : ∀ p, SelectsCloses p → filledBy db p ≤ filledBy db' p)
    (hrole : ∀ e, db'.Opens e → db.Opens e)
    (hheld : ∀ e, heldQty db e ≤ heldQty db' e)
    (hopened : ∀ c s, workingOf db (closesOn c s) = 0 ∧ new = [] ∨
      closable db c s + filledBy db (closesOn c s) ≤ closable db' c s + filledBy db' (closesOn c s))
    (hreleased : ∀ e, Released db db' e) : NoOverClose db' ∧ ClosesNeverFlip db db' := by
  have hleg : ∀ e, db'.Opens e →
      filledBy db' (closesLeg e) + workingOf db' (closesLeg e) ≤ heldQty db' e := by
    intro e he
    have hgrow := hclaim _ (selectsCloses_leg e)
    rw [claimOf_eq, claimOf_eq] at hgrow
    have hmore := hheld e
    by_cases hasked : ∃ o ∈ new, closesLeg e o
    · obtain ⟨o, ho, hsel⟩ := hasked
      have htarget : o.Targets e := of_decide_eq_true hsel
      have hfits := hadmits.1 o ho e htarget.1
      omega
    · push Not at hasked
      have hzero := sum_unselected fun o ho => Bool.eq_false_iff.mpr (hasked o ho)
      have hbefore := h.noOverClose.leg e (hrole e he)
      omega
  -- either nothing is being closed on the side, or the account has it all and gives it to nothing else
  have hroom : ∀ c s, workingOf db (closesOn c s) + ((new.filter (closesOn c s)).map (·.qty)).sum = 0 ∨
      ((workingOf db (closesOn c s) + ((new.filter (closesOn c s)).map (·.qty)).sum : ℕ) : ℤ) ≤ closable db c s ∧
        closable db c s + filledBy db (closesOn c s) ≤ closable db' c s + filledBy db' (closesOn c s) := by
    intro c s
    by_cases hasked : ∃ o ∈ new, closesOn c s o
    · obtain ⟨o, ho, hsel⟩ := hasked
      have hon : o.orderRole = .closing ∧ o.ibContract = c ∧ o.side = s := of_decide_eq_true hsel
      have hfits := hadmits.2 o ho
      rw [hon.2.1, hon.2.2] at hfits
      exact .inr ⟨hfits, (hopened c s).resolve_left fun hnone => List.ne_nil_of_mem ho hnone.2⟩
    · push Not at hasked
      rw [sum_unselected fun o ho => Bool.eq_false_iff.mpr (hasked o ho), Nat.add_zero]
      rcases Nat.eq_zero_or_pos (workingOf db (closesOn c s)) with hidle | hworks
      · exact .inl hidle
      · have hbefore := h.noOverClose.contract c s
        exact .inr ⟨by omega, (hopened c s).resolve_left fun hnone => hworks.ne' hnone.1⟩
  refine ⟨⟨hleg, ?_, ?_⟩, ?_⟩
  · intro c s
    have hgrow := hclaim _ (selectsCloses_on c s)
    rw [claimOf_eq, claimOf_eq] at hgrow
    have hmore := hfilled _ (selectsCloses_on c s)
    rcases hroom c s with hnone | ⟨hfits, hkept⟩ <;> omega
  · intro e he
    rcases hreleased e with hexact | ⟨hres, hfilled⟩
    · have hfits := hleg e he
      rw [workingOf_closesLeg] at hfits
      omega
    · have hbefore := h.noOverClose.available e (hrole e he)
      have hmore := hheld e
      omega
  · intro c s hcloses
    have hgrow := hclaim _ (selectsCloses_on c s)
    rw [claimOf_eq, claimOf_eq] at hgrow
    rcases hroom c s with hnone | ⟨hfits, hkept⟩ <;> omega

theorem step_filled_le (hw : db.WellFormed) (p : StructureOrder → Bool) (hp : SelectsCloses p) :
    filledBy db p ≤ filledBy (step db ev) p := by
  apply total_grows (step_length_le db ev)
  · intro i o ho
    obtain ⟨o', ho', hchange⟩ := step_row ev ho
    refine ⟨o', ho', ?_⟩
    rw [hp.ofLeg o o' hchange.leg]
    split_ifs
    · exact step_recorded_le hw ev i
    · exact le_rfl
  · exact fun _ _ _ _ => Nat.zero_le _

theorem step_opens {e : ℕ} (he : (step db ev).Opens e) : db.Opens e := by
  intro o ho
  obtain ⟨o', ho', hchange⟩ := step_row ev ho
  rw [← leg_orderRole hchange.leg]
  exact he o' ho'

/-- An opening order that is executed finds no close working against it. -/
theorem step_opened (h : Headroom db) (hg : KeepsOrders db ev) (c : Contract) (s : Side) :
    workingOf db (closesOn c s) = 0 ∧ requestedCloses db ev = [] ∨
      closable db c s + filledBy db (closesOn c s) ≤
        closable (step db ev) c s + filledBy (step db ev) (closesOn c s) := by
  by_cases hquiet : ∀ i o, db.orders[i]? = some o → o.orderRole ≠ .closing → o.ibContract = c → o.side = s →
      (step db ev).recorded i = db.recorded i
  · exact .inr (step_opened_le h hg c s hquiet)
  · push Not at hquiet
    obtain ⟨i, o, ho, hrole, rfl, rfl, hne⟩ := hquiet
    obtain ⟨o', ho', hchange⟩ := step_row ev ho
    exact .inl ((hchange.quiet (hg.holdings i o ho hrole)).resolve_left hne)

/-- A transaction whose orders keep to their claims and whose new closes fit leaves nothing over-closed. -/
theorem step_headroom (h : Headroom db) (hg : KeepsOrders db ev) (hadmits : Admits db (requestedCloses db ev)) :
    Headroom (step db ev) ∧ ClosesNeverFlip db (step db ev) := by
  have hw := step_wellFormed ev h.wellFormed
  have hcloses : ∀ i o, (step db ev).orders[i]? = some o → o.orderRole = .closing →
      RowConsistent (step db ev) i o := by
    intro i o' ho' hrole
    apply step_rowConsistent h.wellFormed i ?_ o' ho'
    intro o ho
    have hchange := step_change ho ho'
    rw [leg_orderRole hchange.leg] at hrole
    exact ⟨h.closes i o ho hrole, (hg.closes i o ho hrole).1⟩
  have hside := step_onSide h hg
  have hkept : NoOverClose (step db ev) ∧ ClosesNeverFlip db (step db ev) := by
    apply NoOverClose.extend h hadmits (fun p hp => step_claim_le h hg hp) ?_ (fun e => step_opens) ?_
      (step_opened h hg) (step_released h.wellFormed ev)
    · exact fun p hp => step_filled_le h.wellFormed p hp
    · intro e
      rw [heldQty_eq hw hside, heldQty_eq h.wellFormed h.onSide]
      exact step_recorded_le h.wellFormed ev e
  exact ⟨⟨hw, hcloses, hside, hkept.1⟩, hkept.2⟩

end Step

end FxVol
