import FxVol.CompletionCascade
import FxVol.OrderSlots
import Mathlib.Data.List.Dedup

/-!
# What calls the cascade

A transaction that fills an order calls the cascade of its structure; new orders come with a new
structure, and what the cascades write is left alone.
-/
namespace FxVol

open KeyedPasses

def Db.fullyFilled (db : Db) (s : ℕ) : Bool := (db.structures[s]?).any (·.state = .fullyFilled)

def Db.positionClosed (db : Db) (p : ℕ) : Bool := (db.bookedPositions[p]?).any (·.state = .closed)

def Db.tradeTables (db : Db) : List TradeStructure × List BookedPosition × List ExitAlert :=
  (db.structures, db.bookedPositions, db.exitAlerts)

section Tables
variable {db db' : Db}

theorem releaseReservation_tradeTables (db : Db) (o : StructureOrder) :
    (releaseReservation db o).tradeTables = db.tradeTables := by
  unfold releaseReservation
  split <;> rfl

theorem bookFill_tradeTables (i : ℕ) (o : StructureOrder) (fill : IbFill) (now : Instant) :
    (bookFill db i o fill now).tradeTables = db.tradeTables :=
  releaseReservation_tradeTables _ _

theorem comboStatus_tradeTables (perm : String) (ids : List ℕ) (status : IbStatus)
    (reason : Option String) (now : Instant) :
    (onComboStatus db perm ids status reason now).1.tradeTables = db.tradeTables := by
  rcases onComboStatus_cases db perm ids status reason now with h | ⟨_, h⟩ | h
  · rw [h]
  · apply (passes_foldlM _ h).invariant (I := fun s => s.tradeTables = db.tradeTables)
    · intro k _ s t hs hk
      rcases bookComboLeg_cases hk with rfl | ⟨o, s₁, _, _, ⟨_, rfl⟩ | ⟨_, rfl⟩, rfl⟩
      · exact hs
      · exact (releaseReservation_tradeTables _ _).trans hs
      · exact (releaseReservation_tradeTables _ _).trans hs
    · rfl
  · rw [h]
    exact foldl_frame Db.tradeTables (comboCancelLeg status reason now) (fun s i => rfl) ids db

theorem reconcile_tradeTables (db : Db) (now : Instant) :
    (reconcileStuckOrders db now).1.tradeTables = db.tradeTables := by
  have hmirror (acc : Db × List ℕ) (i : ℕ) :
      (mirrorPass now acc i).1.tradeTables = acc.1.tradeTables := by
    unfold mirrorPass
    split
    · rfl
    · split <;> rfl
  have hbook (db : Db) (i : ℕ) : (bookPass now db i).tradeTables = db.tradeTables := by
    rcases bookPass_cases now db i with h | ⟨o, new, _, _, h⟩ <;> rw [h]
    rfl
  have hfirst := foldl_frame Db.tradeTables (bookPass now) hbook (stuckIds db) db
  exact (foldl_frame (fun acc : Db × List ℕ => acc.1.tradeTables) (mirrorPass now) hmirror _
    _).trans hfirst

theorem reconnect_tradeTables (db : Db) (trades : List IbTrade) (now : Instant) :
    (attachOptionHandlers db trades now).tradeTables = db.tradeTables := by
  apply foldl_frame Db.tradeTables (attachOptionHandler trades now)
  intro db i
  rcases attachOptionHandler_cases trades now db i with h | ⟨o, t, _, _, h⟩ <;> rw [h]
  rfl

theorem reapOrders_tradeTables (db : Db) (trades : List IbTrade) (tau : ℤ) (now : Instant) :
    ((staleIds ((List.range db.orders.length).foldl (adoptOrphan trades now) db)
      (now - tau)).foldl (reapOrder (liveIbOrderKeys trades) tau now)
        ((List.range db.orders.length).foldl (adoptOrphan trades now) db, [])).1.tradeTables =
      db.tradeTables := by
  have hadopt (db : Db) (i : ℕ) : (adoptOrphan trades now db i).tradeTables = db.tradeTables := by
    rcases adoptOrphan_cases trades now db i with h | ⟨o, t, _, _, h⟩ <;> rw [h]
    rfl
  have hreap (acc : Db × List ℕ) (i : ℕ) :
      (reapOrder (liveIbOrderKeys trades) tau now acc i).1.tradeTables = acc.1.tradeTables := by
    rcases reapOrder_cases (liveIbOrderKeys trades) tau now acc i with h | ⟨o, _, _, h⟩ <;> rw [h]
    exact releaseReservation_tradeTables _ _
  have hfirst := foldl_frame Db.tradeTables (adoptOrphan trades now) hadopt
    (List.range db.orders.length) db
  exact (foldl_frame (fun acc : Db × List ℕ => acc.1.tradeTables)
    (reapOrder (liveIbOrderKeys trades) tau now) hreap _ _).trans hfirst

end Tables

/-- The transactions that submit, place, fill, reconcile and close structures; the legs of a
combo are of one structure. -/
def Trades (db : Db) : Event → Prop
  | .submitPreview .. | .stampLive .. | .stampPlacement .. | .orderStatus .. | .execution ..
  | .commissionReport .. | .reconcile _ | .reconnect .. | .syncPositions _ | .closeRequest ..
  | .positionClose .. => True
  | .comboStatus _ ids _ _ _ => ∀ i ∈ ids, ∀ j ∈ ids, ∀ o ∈ db.orders[i]?, ∀ o' ∈ db.orders[j]?,
      o.structureId = o'.structureId
  | .createUnwind .. | .completeStructure .. | .reap .. | .closeAnswer .. | .cancelTrade .. => False

instance (db : Db) : ∀ e, Decidable (Trades db e)
  | .submitPreview .. | .stampLive .. | .stampPlacement .. | .orderStatus .. | .execution ..
  | .commissionReport .. | .reconcile _ | .reconnect .. | .syncPositions _ | .closeRequest ..
  | .positionClose .. => .isTrue trivial
  | .comboStatus _ ids _ _ _ => inferInstanceAs (Decidable (∀ i ∈ ids, ∀ j ∈ ids,
      ∀ o ∈ db.orders[i]?, ∀ o' ∈ db.orders[j]?, o.structureId = o'.structureId))
  | .createUnwind .. | .completeStructure .. | .reap .. | .closeAnswer .. | .cancelTrade .. =>
    .isFalse not_false

/-- The rows of the alerts are the same, but for the one that a new closing structure is linked
to. -/
def Relinks (db db' : Db) : Prop :=
  db'.exitAlerts = db.exitAlerts ∨ (db.structures.length < db'.structures.length ∧
    ∃ (k : ℕ) (g : ExitAlert → ExitAlert), db'.exitAlerts = db.exitAlerts.modify k g ∧
      ∀ a, (g a).positionId = a.positionId ∧
        (g a).closingStructureId = some db.structures.length)

/-- What a transaction does to the tables of the cascade: structures come, and are new; no
position comes or goes or is closed. -/
structure TradeFrame (db db' : Db) : Prop where
  length : db.structures.length ≤ db'.structures.length
  structures : ∀ s, db'.fullyFilled s = db.fullyFilled s
  positions : db'.bookedPositions.map (·.structureId) = db.bookedPositions.map (·.structureId)
  closed : ∀ p, db'.positionClosed p = db.positionClosed p
  alerts : Relinks db db'

section Frame
variable {db db' : Db} {e : Event}

theorem TradeFrame.of_tradeTables (h : db'.tradeTables = db.tradeTables) : TradeFrame db db' := by
  simp only [Db.tradeTables, Prod.mk.injEq] at h
  obtain ⟨hs, hp, ha⟩ := h
  refine ⟨by rw [hs], ?_, by rw [hp], ?_, .inl ha⟩
  · intro s
    rw [Db.fullyFilled, hs, Db.fullyFilled]
  · intro p
    rw [Db.positionClosed, hp, Db.positionClosed]

theorem fullyFilled_append {r : TradeStructure} (hs : db'.structures = db.structures ++ [r])
    (hr : r.state ≠ .fullyFilled) (s : ℕ) : db'.fullyFilled s = db.fullyFilled s := by
  rw [Db.fullyFilled, Db.fullyFilled, hs]
  rcases Nat.lt_trichotomy s db.structures.length with hlt | rfl | hgt
  · rw [List.getElem?_append_left hlt]
  · simp [hr]
  · have hnone : db.structures[s]? = none := List.getElem?_eq_none (by omega)
    have hnone' : (db.structures ++ [r])[s]? = none := List.getElem?_eq_none (by simp; omega)
    rw [hnone, hnone']

/-- A new structure, and nothing else of the cascade. -/
theorem TradeFrame.add {r : TradeStructure} (hs : db'.structures = db.structures ++ [r])
    (hr : r.state ≠ .fullyFilled) (hp : db'.bookedPositions = db.bookedPositions)
    (ha : db'.exitAlerts = db.exitAlerts) : TradeFrame db db' := by
  refine ⟨by simp [hs], fullyFilled_append hs hr, by rw [hp], ?_, .inl ha⟩
  intro p
  rw [Db.positionClosed, hp, Db.positionClosed]

theorem map_set_same {α β : Type*} {f : α → β} {l : List α} {k : ℕ} {a b : α}
    (ha : l[k]? = some a) (h : f b = f a) : (l.set k b).map f = l.map f := by
  apply List.ext_getElem?
  intro j
  by_cases hj : k = j
  · subst hj
    obtain ⟨hlt, hrow⟩ := List.getElem?_eq_some_iff.mp ha
    simp [hlt, hrow, h]
  · simp [hj]

theorem persistPositionClose_booked (db : Db) (positionId : ℕ) (pos : BookedPosition)
    (legs : List ClosingLegSpec) (alert : Option ℕ) (now : Instant) :
    (persistPositionClose db positionId pos legs alert now).bookedPositions =
      db.bookedPositions.set positionId { pos with state := .closing } := by
  have hbook := foldl_frame Db.bookedPositions recomputeReservation fun _ _ => rfl
  simp only [persistPositionClose, hbook]
  rfl

theorem persistPositionClose_frame {positionId : ℕ} {pos : BookedPosition}
    (hpos : db.bookedPositions[positionId]? = some pos) (hopen : pos.state = .open)
    (legs : List ClosingLegSpec) (alert : Option ℕ) (now : Instant) :
    TradeFrame db (persistPositionClose db positionId pos legs alert now) := by
  have hs := persistPositionClose_structures db positionId pos legs alert now
  have hp := persistPositionClose_booked db positionId pos legs alert now
  have halerts := foldl_frame Db.exitAlerts recomputeReservation fun _ _ => rfl
  obtain ⟨hlt, hrow⟩ := List.getElem?_eq_some_iff.mp hpos
  refine ⟨by simp [hs], fullyFilled_append hs (by simp [TradeStructure.new]), ?_, ?_, ?_⟩
  · rw [hp]
    exact map_set_same hpos rfl
  · intro p
    rw [Db.positionClosed, Db.positionClosed, hp]
    by_cases heq : positionId = p
    · subst heq
      simp [hlt, hrow, hopen]
    · rw [List.getElem?_set_ne heq]
  · cases alert with
    | none =>
      left
      simp only [persistPositionClose, halerts]
      rfl
    | some k =>
      right
      refine ⟨by simp [hs], k, fun a => { a with
        autoExecuted := true
        executionStatus := some "in_progress"
        closingStructureId := some db.structures.length }, ?_, fun a => ⟨rfl, rfl⟩⟩
      simp only [persistPositionClose, halerts]
      rfl

/-- What a transaction does to the tables of the cascade: nothing, or it adds a structure, or it
starts the close of an open position. -/
theorem step_trades (he : Trades db e) : (step db e).tradeTables = db.tradeTables ∨
    (∃ r : TradeStructure, r.state ≠ .fullyFilled ∧
      (step db e).tradeTables = (db.structures ++ [r], db.bookedPositions, db.exitAlerts)) ∨
    ∃ positionId pos legs alert now, db.bookedPositions[positionId]? = some pos ∧
      pos.state = .open ∧ step db e = persistPositionClose db positionId pos legs alert now := by
  have newState (now : Instant) : (TradeStructure.new now).state ≠ .fullyFilled := by
    simp [TradeStructure.new]
  cases e with
  | submitPreview legs now => exact .inr (.inl ⟨.new now, newState now, rfl⟩)
  | stampLive | stampPlacement | orderStatus | syncPositions => exact .inl rfl
  | comboStatus perm ids status reason now =>
    exact .inl (comboStatus_tradeTables perm ids status reason now)
  | execution i fill now =>
    left
    rcases deliverFill_cases db i fill now with h | ⟨o, _, _, h⟩
    · rw [step, h]
    · rw [step, h, bookFill_tradeTables]
  | commissionReport i x c cur =>
    left
    rcases onCommissionReport_cases db i x cur c with h | ⟨cur', h⟩ <;> rw [step, h]
    rfl
  | reconcile now => exact .inl (reconcile_tradeTables db now)
  | reconnect trades now => exact .inl (reconnect_tradeTables db trades now)
  | closeRequest pos qty lp target rth now =>
    rcases closeRequest_cases db pos qty lp target rth now with h | ⟨price, _, _, h⟩
    · exact .inl (by rw [h])
    · refine .inr (.inl ⟨.new now, newState now, ?_⟩)
      rw [h, insertClosing, releaseReservation_tradeTables]
      rfl
  | positionClose positionId alert now =>
    rcases positionClose_cases db positionId alert now with h | ⟨pos, legs, hpos, hopen, _, h⟩
    · exact .inl (by rw [h])
    · exact .inr (.inr ⟨positionId, pos, legs, alert, now, hpos, hopen, h⟩)
  | createUnwind | completeStructure | reap | closeAnswer | cancelTrade => exact he.elim

theorem step_tradeFrame (he : Trades db e) : TradeFrame db (step db e) := by
  rcases step_trades he with h | ⟨r, hr, h⟩ | ⟨positionId, pos, legs, alert, now, hpos, hopen, h⟩
  · exact .of_tradeTables h
  · simp only [Db.tradeTables, Prod.mk.injEq] at h
    exact .add h.1 hr h.2.1 h.2.2
  · rw [h]
    exact persistPositionClose_frame hpos hopen legs alert now

/-- New rows are for a new structure. -/
theorem step_newStructure (he : Trades db e) {i : ℕ} {o : StructureOrder}
    (hi : db.orders.length ≤ i) (ho : (step db e).orders[i]? = some o) :
    o.structureId = db.structures.length ∧
      db.structures.length < (step db e).structures.length := by
  have hlt : i < (step db e).orders.length := (List.getElem?_eq_some_iff.mp ho).1
  cases hins : e.inserts with
  | false =>
    rw [step_length hins] at hlt
    omega
  | true =>
    cases e with
    | submitPreview legs now =>
      simp only [step, submitPreview] at ho
      rw [List.getElem?_append_right hi, List.getElem?_mapIdx] at ho
      obtain ⟨leg, _, rfl⟩ := Option.map_eq_some_iff.mp ho
      refine ⟨rfl, ?_⟩
      simp [step, submitPreview, Db.addStructure]
    | closeRequest pos qty lp target rth now =>
      rcases closeRequest_cases db pos qty lp target rth now with h | ⟨price, _, _, h⟩
      · rw [h] at hlt
        omega
      · rw [h, insertClosing, releaseReservation_orders] at ho
        simp only [Db.addOrder, Db.addStructure] at ho
        rw [List.getElem?_append_right hi] at ho
        obtain rfl := List.mem_singleton.mp (List.mem_of_getElem? ho)
        refine ⟨rfl, ?_⟩
        rw [h, insertClosing, releaseReservation_structures]
        simp [Db.addOrder, Db.addStructure]
    | positionClose positionId alert now =>
      rcases positionClose_cases db positionId alert now with h | ⟨pos, legs, _, _, _, h⟩
      · rw [h] at hlt
        omega
      · rw [h, persistPositionClose_orders, List.getElem?_append_right hi] at ho
        obtain ⟨leg, _, rfl⟩ := List.mem_map.mp (List.mem_of_getElem? ho)
        refine ⟨rfl, ?_⟩
        rw [h, persistPositionClose_structures]
        simp
    | createUnwind => exact he.elim
    | _ => cases hins

theorem mem_reconciled {now : Instant} {i : ℕ} {o o' : StructureOrder}
    (ho : db.orders[i]? = some o) (hstuck : o.state.isStuck)
    (ho' : (reconcileStuckOrders db now).1.orders[i]? = some o') (hfilled : o'.state = .filled) :
    o'.structureId ∈ (reconcileStuckOrders db now).2 := by
  simp only [reconcileStuckOrders] at ho' ⊢
  rw [List.mem_dedup]
  refine List.mem_filterMap.mpr ⟨i, List.mem_filter.mpr ⟨(mem_stuckIds ho).mpr hstuck, ?_⟩, ?_⟩
  · rw [ho']
    simp [hfilled]
  · rw [ho']
    rfl

/-- The structure of a leg that a combo books is the one the combo completes. -/
theorem mem_comboCompleted {perm : String} {ids : List ℕ} {reason : Option String} {now : Instant}
    {i : ℕ} {o o' : StructureOrder} (he : Trades db (.comboStatus perm ids .filled reason now))
    (ho : db.orders[i]? = some o) (hmem : i ∈ ids) (hopen : o.state ≠ .filled)
    (ho' : (step db (.comboStatus perm ids .filled reason now)).orders[i]? = some o')
    (hfilled : o'.state = .filled) :
    o.structureId ∈ cascadesOf db (.comboStatus perm ids .filled reason now) := by
  simp only [step, cascadesOf, onComboStatus_filled, bookComboFilled] at ho' ⊢
  cases hfold : ids.foldlM (bookComboLeg perm now) db with
  | error err =>
    rw [hfold] at ho'
    obtain rfl := Option.some.inj (ho.symm.trans ho')
    exact absurd hfilled hopen
  | ok db' =>
    have hne : ids.filterMap (db.orders[·]?) ≠ [] :=
      List.ne_nil_of_mem (List.mem_filterMap.mpr ⟨i, hmem, ho⟩)
    obtain ⟨j, hj, hlast⟩ := List.mem_filterMap.mp (List.getLast_mem hne)
    simp only [List.getLast?_eq_some_getLast hne, Option.map_some, Option.toList_some,
      List.mem_singleton]
    exact he i hmem j hj o ho _ hlast

/-- A transaction that fills an order calls the cascade of its structure. -/
theorem newly_filled (he : Trades db e) {i : ℕ} {o o' : StructureOrder}
    (ho : db.orders[i]? = some o) (ho' : (step db e).orders[i]? = some o')
    (hopen : o.state ≠ .filled) (hfilled : o'.state = .filled) :
    o.structureId ∈ cascadesOf db e := by
  have hchange := step_change ho ho'
  have hsid := leg_structureId hchange.leg
  generalize (step db e).fillsOf i = fills at hchange
  cases hchange with
  | same => exact absurd hfilled hopen
  | stampedLive | stamped | cancelled => cases hfilled
  | onStatus status reason now =>
    rcases onStatus_state o now status reason with hsame | hnew
    · exact absurd (hsame.symm.trans hfilled) hopen
    · rw [hfilled] at hnew
      rcases (nextState_newState hnew).2 with h | h | h <;> simp at h
  | comboCancelled perm status reason now hmem =>
    rcases onComboCancel_state o now status reason with hsame | ⟨_, hdead | hdead⟩
    · rw [hsame] at hfilled
      exact absurd hfilled hopen
    · rw [hfilled] at hdead
      cases hdead
    · rw [hfilled] at hdead
      cases hdead
  | comboBooked perm reason now hmem => exact mem_comboCompleted he ho hmem hopen ho' hfilled
  | @booked fill now hnew =>
    rw [booked_state] at hfilled
    split_ifs at hfilled with hfull
    simp [cascadesOf, persistFill_new ho hnew, hfull]
  | reported => exact absurd hfilled hopen
  | repaired now hstuck | mirrored now hstuck =>
    rw [← hsid]
    exact mem_reconciled ho hstuck ho' hfilled
  | adopted => exact he.elim
  | expired => exact he.elim
  | rewired trades t now =>
    rw [rewired_state] at hfilled
    split_ifs at hfilled
    exact absurd hfilled hopen
  | answered => exact he.elim

end Frame

section Rows
variable {db : Db} {e : Event} {s : ℕ}

/-- A row of an older structure was there before. -/
theorem step_oldRow (he : Trades db e) {o' : StructureOrder} (ho' : o' ∈ (step db e).orders)
    (hs : o'.structureId < db.structures.length) : ∃ (i : ℕ) (o : StructureOrder),
      db.orders[i]? = some o ∧ (step db e).orders[i]? = some o' ∧
        o'.structureId = o.structureId ∧ o'.orderRole = o.orderRole := by
  obtain ⟨i, hi⟩ := List.mem_iff_getElem?.mp ho'
  rcases step_row_cases hi with ⟨o, ho, hchange⟩ | ⟨hnew, -⟩
  · exact ⟨i, o, ho, hi, leg_structureId hchange.leg, leg_orderRole hchange.leg⟩
  · obtain ⟨hsid, _⟩ := step_newStructure he hnew hi
    omega

theorem step_keptRow (e : Event) {o : StructureOrder} (ho : o ∈ db.orders) :
    ∃ o' ∈ (step db e).orders, o'.structureId = o.structureId ∧ o'.orderRole = o.orderRole := by
  obtain ⟨i, hi⟩ := List.mem_iff_getElem?.mp ho
  obtain ⟨o', ho', hchange⟩ := step_row e hi
  exact ⟨o', List.mem_of_getElem? ho', leg_structureId hchange.leg, leg_orderRole hchange.leg⟩

/-- A structure with a filled row is an older one. -/
theorem filled_known (hk : ∀ o ∈ db.orders, o.structureId < db.structures.length)
    {o' : StructureOrder} (ho' : o' ∈ (step db e).orders) (hfilled : o'.state = .filled) :
    o'.structureId < db.structures.length := by
  obtain ⟨i, hi⟩ := List.mem_iff_getElem?.mp ho'
  rcases step_row_cases hi with ⟨o, ho, hchange⟩ | ⟨-, hfresh⟩
  · rw [leg_structureId hchange.leg]
    exact hk o (List.mem_of_getElem? ho)
  · have hpending := hfresh.pending
    rw [hfilled] at hpending
    cases hpending

/-- Rows of a structure that are all filled now were so before, or the cascade is called. -/
theorem filled_or_called (he : Trades db e) {p : OrderRole → Prop}
    (hall : ∀ o ∈ (step db e).orders, o.structureId = s → p o.orderRole → o.state = .filled) :
    (∀ o ∈ db.orders, o.structureId = s → p o.orderRole → o.state = .filled) ∨
      s ∈ cascadesOf db e := by
  by_cases hold : ∀ o ∈ db.orders, o.structureId = s → p o.orderRole → o.state = .filled
  · exact .inl hold
  · push Not at hold
    obtain ⟨o, ho, hsid, hrole, hopen⟩ := hold
    obtain ⟨i, hi⟩ := List.mem_iff_getElem?.mp ho
    obtain ⟨o', ho', hchange⟩ := step_row e hi
    have hfilled := hall o' (List.mem_of_getElem? ho') ((leg_structureId hchange.leg).trans hsid)
      ((leg_orderRole hchange.leg).symm ▸ hrole)
    exact .inr (hsid ▸ newly_filled he hi ho' hopen hfilled)

end Rows

end FxVol
