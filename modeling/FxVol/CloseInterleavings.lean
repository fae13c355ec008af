import FxVol.CloseChecks

/-!
# Interleaved closes

A close request reads the tables, checks and prices, and only then inserts its order; the close
of a booked position reads its legs and inserts their closes later.  Anything may happen in
between, another request included, and the check is not repeated.  In runs whose inserts find
their checks and reads still current, nothing is over-closed.
-/
namespace FxVol

open GuardedRuns TableTotals

/-- A close request between its checks and its insert, with what its guard counted. -/
structure AdmittedClose where
  pos : OpenPosition
  qty : ℕ
  counted : ℕ
  limitPrice : Option ℚ
  entryOrderId : Option ℕ

structure ReadPosition where
  positionId : ℕ
  pos : BookedPosition
  legs : List ClosingLegSpec
  exitAlertId : Option ℕ

structure CloseWorld where
  db : Db
  admitted : List AdmittedClose
  positions : List ReadPosition

def CloseWorld.empty : CloseWorld := ⟨Db.empty, [], []⟩

inductive CloseEvent
  | book (e : Event)
  | check (pos : OpenPosition) (qty : ℕ) (limitPrice : Option ℚ) (entryOrderId : Option ℕ)
      (rth : Bool) (now : Instant)
  | insert (k : ℕ) (now : Instant)
  | readPosition (positionId : ℕ) (exitAlertId : Option ℕ)
  | persistPosition (k : ℕ) (now : Instant)

def AdmittedClose.order (r : AdmittedClose) (db : Db) (now : Instant) : StructureOrder :=
  closingOrder r.pos r.qty db.structures.length r.limitPrice r.entryOrderId now

def ReadPosition.orders (r : ReadPosition) (db : Db) (now : Instant) : List StructureOrder :=
  positionCloseOrders db.structures.length (entryOrders db r.pos.structureId) r.legs now

def closeStep (w : CloseWorld) : CloseEvent → CloseWorld
  | .book e => { w with db := step w.db e }
  | .check pos qty limitPrice entryOrderId rth now =>
    match closeOneOpenPosition w.db pos qty limitPrice entryOrderId rth now,
        closePrice pos limitPrice rth with
    | .ok _, .ok price =>
      { w with
        admitted := w.admitted ++
          [⟨pos, qty, alreadyClosing w.db pos now, price, closeTarget w.db pos entryOrderId⟩] }
    | _, _ => w
  | .insert k now =>
    match w.admitted[k]? with
    | none => w
    | some r =>
      { w with db := insertClosing w.db (r.order w.db now) now, admitted := w.admitted.eraseIdx k }
  | .readPosition positionId exitAlertId =>
    match w.db.bookedPositions[positionId]? with
    | none => w
    | some pos =>
      if pos.state ≠ .open then w
      else match buildClosingLegs ((entryOrders w.db pos.structureId).map (·.1)) with
        | .error _ => w
        | .ok legs => { w with positions := w.positions ++ [⟨positionId, pos, legs, exitAlertId⟩] }
  | .persistPosition k now =>
    match w.positions[k]? with
    | none => w
    | some r =>
      { w with
        db := persistPositionClose w.db r.positionId r.pos r.legs r.exitAlertId now
        positions := w.positions.eraseIdx k }

/-- A close that passes its checks finds them current and its leg free; the legs of a position that is closed stand
alone. -/
def KeepsInserts (db : Db) : Event → Prop
  | .closeRequest pos qty _ target _ now => alreadyClosing db pos now + qty ≤ pos.quantity →
      GuardCurrent db pos now ∧
        LegCovers db (closingOrder pos qty db.structures.length none (closeTarget db pos target) now)
  | .positionClose positionId _ _ => ∀ pos ∈ db.bookedPositions[positionId]?, pos.state = .open →
      PositionAlone db pos.structureId
  | _ => True

/-- The orders keep to their claims.  An insert finds the guard of its check current, with no more to count than at the
check, and its leg free; the commit of a position's closes finds the legs as they were read, each standing alone. -/
def KeepsCloses (w : CloseWorld) : CloseEvent → Prop
  | .book e => KeepsOrders w.db e ∧ KeepsInserts w.db e
  | .insert k now => ∀ r ∈ w.admitted[k]?, alreadyClosing w.db r.pos now ≤ r.counted ∧
      GuardCurrent w.db r.pos now ∧ LegCovers w.db (r.order w.db now)
  | .persistPosition k _ => ∀ r ∈ w.positions[k]?,
      buildClosingLegs ((entryOrders w.db r.pos.structureId).map (·.1)) = .ok r.legs ∧
        PositionAlone w.db r.pos.structureId
  | .check .. | .readPosition .. => True

/-- A request that inserts as soon as it has passed its checks is the one transaction of the
book. -/
theorem check_insert (w : CloseWorld) (pos : OpenPosition) (qty : ℕ) (limitPrice : Option ℚ)
    (entryOrderId : Option ℕ) (rth : Bool) (now : Instant) {r : Db × ℕ}
    (hok : closeOneOpenPosition w.db pos qty limitPrice entryOrderId rth now = .ok r) :
    (closeStep (closeStep w (.check pos qty limitPrice entryOrderId rth now))
      (.insert w.admitted.length now)).db =
        step w.db (.closeRequest pos qty limitPrice entryOrderId rth now) := by
  obtain ⟨db', k⟩ := r
  obtain ⟨_, _, _, price, hprice, hdb'⟩ := closeOneOpenPosition_ok hok
  simp only [closeStep, step, hok, hprice, List.getElem?_concat_length]
  exact hdb'.symm

section Inserts
variable {db db' : Db} {new : List StructureOrder}

theorem closable_append (c : Contract) (s : Side) (hw : db.WellFormed) (horders : db'.orders = db.orders ++ new)
    (hfills : db'.fills = db.fills) : closable db' c s = closable db c s := by
  have hnew : (new.mapIdx fun i o => if o.ibContract = c then
      (foldFills (db.fillsOf (i + db.orders.length))).openQty else 0).sum = 0 := by
    apply List.sum_eq_zero
    intro n hn
    obtain ⟨i, hi, rfl⟩ := List.mem_mapIdx.mp hn
    have hnone : db.fillsOf (i + db.orders.length) = [] := hw.fillsOf_unknown (by omega)
    rw [hnone]
    split_ifs <;> rfl
  have hof : ∀ i, db'.fillsOf i = db.fillsOf i := Db.fillsOf_congr hfills
  have haccount : accountQty db' c = accountQty db c := by
    simp only [accountQty, horders, hof, total_append, hnew, add_zero]
  cases s with
  | sell => exact haccount
  | buy => exact congrArg Neg.neg haccount

/-- Admitted closes leave the headroom they found. -/
theorem Headroom.append (h : Headroom db) (horders : db'.orders = db.orders ++ new)
    (hfills : db'.fills = db.fills) (hfresh : ∀ o ∈ new, o.Fresh)
    (hadmits : Admits db new) (hreleased : ∀ e, Released db db' e) : Headroom db' ∧ ClosesNeverFlip db db' := by
  have hold : ∀ i, i < db.orders.length → db'.orders[i]? = db.orders[i]? := by
    intro i hi
    rw [horders, List.getElem?_append_left hi]
  have hnew : ∀ i o, db.orders.length ≤ i → db'.orders[i]? = some o → o ∈ new := by
    intro i o hi ho
    rw [horders, List.getElem?_append_right hi] at ho
    exact List.mem_of_getElem? ho
  have hof : ∀ i, db'.fillsOf i = db.fillsOf i := Db.fillsOf_congr hfills
  have hrec : ∀ i, db'.recorded i = db.recorded i := Db.recorded_congr hfills
  have hkept : NoOverClose db' ∧ ClosesNeverFlip db db' := by
    have hfilled : ∀ p, filledBy db' p = filledBy db p := fun p => filledBy_append h.wellFormed horders hfills
    apply NoOverClose.extend h hadmits ?_ ?_ ?_ ?_ ?_ hreleased
    · intro p _
      exact (claimOf_append h.wellFormed horders hfills hfresh).le
    · exact fun p _ => (hfilled p).ge
    · intro e he o ho
      apply he
      have hi := (List.getElem?_eq_some_iff.mp ho).1
      rw [hold e hi]
      exact ho
    · intro e
      rw [heldQty, heldQty, hof]
    · intro c s
      right
      rw [closable_append c s h.wellFormed horders hfills, hfilled]
  refine ⟨⟨h.wellFormed.append horders hfills, ?_, ?_, hkept.1⟩, hkept.2⟩
  · intro i o ho hrole
    by_cases hi : i < db.orders.length
    · rw [hold i hi] at ho
      obtain ⟨hq, hf⟩ := h.closes i o ho hrole
      exact ⟨by rw [hrec, hq], by rwa [hrec]⟩
    · have hf := hfresh o (hnew i o (by omega) ho)
      have hzero : db'.recorded i = 0 := by
        rw [Db.recorded, hof, h.wellFormed.fillsOf_unknown (by omega)]
        rfl
      refine ⟨hf.unfilled.trans hzero.symm, ?_⟩
      intro hfilled
      rw [hf.pending] at hfilled
      cases hfilled
  · intro i o ho
    rw [hof]
    by_cases hi : i < db.orders.length
    · rw [hold i hi] at ho
      exact h.onSide i o ho
    · rw [h.wellFormed.fillsOf_unknown (by omega)]
      intro f hf
      cases hf

end Inserts

/-- What a transaction of the book asks to close is admitted. -/
theorem admits_requested {db : Db} (h : Headroom db) {e : Event} (hg : KeepsInserts db e) :
    Admits db (requestedCloses db e) := by
  have hnone : Admits db [] := by simp [Admits]
  cases e with
  | closeRequest pos qty lp target rth now =>
    rw [requestedCloses]
    have hg : alreadyClosing db pos now + qty ≤ pos.quantity → GuardCurrent db pos now ∧
        LegCovers db (closingOrder pos qty db.structures.length none (closeTarget db pos target) now) := hg
    split_ifs with hpasses
    · exact admits_checked h (hg hpasses.2).1 hpasses.2 (hg hpasses.2).2
    · exact hnone
  | positionClose positionId alert now =>
    rw [requestedCloses]
    cases hpos : db.bookedPositions[positionId]? with
    | none => exact hnone
    | some pos =>
      dsimp only
      split_ifs with hopen
      · exact hnone
      · cases hlegs : buildClosingLegs ((entryOrders db pos.structureId).map (·.1)) with
        | error _ => exact hnone
        | ok legs => exact admits_position h (hg pos hpos (not_not.mp hopen)) hlegs _ now
  | _ => exact hnone

/-- Nothing is over-closed, and each request between its checks and its insert has passed the guard. -/
structure Interleaved (w : CloseWorld) : Prop where
  headroom : Headroom w.db
  guarded : ∀ r ∈ w.admitted, r.counted + r.qty ≤ r.pos.quantity

section Runs
variable {w : CloseWorld} {ev : CloseEvent}

theorem check_guarded (h : Interleaved w) (pos : OpenPosition) (qty : ℕ) (lp : Option ℚ) (target : Option ℕ) (rth : Bool)
    (now : Instant) : Interleaved (closeStep w (.check pos qty lp target rth now)) := by
  rw [closeStep]
  split
  · next r price hok hprice =>
    obtain ⟨db', k⟩ := r
    refine ⟨h.headroom, fun r hr => ?_⟩
    rcases List.mem_append.mp hr with hold | hnew
    · exact h.guarded r hold
    · rw [List.mem_singleton.mp hnew]
      exact (closeOneOpenPosition_ok hok).2.1
  · exact h

/-- An insert whose check is still current -/
theorem insert_headroom {r : AdmittedClose} {now : Instant} (h : Headroom w.db) (hguard : r.counted + r.qty ≤ r.pos.quantity)
    (hcount : alreadyClosing w.db r.pos now ≤ r.counted) (hcurrent : GuardCurrent w.db r.pos now)
    (hleg : LegCovers w.db (r.order w.db now)) :
    Headroom (insertClosing w.db (r.order w.db now) now) ∧
      ClosesNeverFlip w.db (insertClosing w.db (r.order w.db now) now) := by
  have hfits : alreadyClosing w.db r.pos now + r.qty ≤ r.pos.quantity := by omega
  have hadmits : Admits w.db [r.order w.db now] := admits_checked h hcurrent hfits hleg
  apply h.append ?_ ?_ ?_ hadmits (insertClosing_released h.wellFormed (r.order w.db now) now)
  · rw [insertClosing, releaseReservation_orders]
    rfl
  · rw [insertClosing, releaseReservation_fills]
    rfl
  · intro o ho
    rw [List.mem_singleton.mp ho]
    exact fresh_closingOrder ..

theorem closeStep_headroom (h : Interleaved w) (hg : KeepsCloses w ev) :
    Interleaved (closeStep w ev) ∧ ClosesNeverFlip w.db (closeStep w ev).db := by
  have hstill : ClosesNeverFlip w.db w.db := fun c s hlt => absurd hlt (Nat.lt_irrefl _)
  cases ev with
  | book e =>
    obtain ⟨hkept, hflips⟩ := step_headroom h.headroom hg.1 (admits_requested h.headroom hg.2)
    exact ⟨⟨hkept, h.guarded⟩, hflips⟩
  | check pos qty lp target rth now =>
    refine ⟨check_guarded h pos qty lp target rth now, ?_⟩
    rw [closeStep]
    split <;> exact hstill
  | insert k now =>
    rw [closeStep]
    cases hk : w.admitted[k]? with
    | none => exact ⟨h, hstill⟩
    | some r =>
      obtain ⟨hcount, hcurrent, hleg⟩ := hg r hk
      obtain ⟨hkept, hflips⟩ :=
        insert_headroom h.headroom (h.guarded r (List.mem_of_getElem? hk)) hcount hcurrent hleg
      exact ⟨⟨hkept, fun r' hr' => h.guarded r' (List.mem_of_mem_eraseIdx hr')⟩, hflips⟩
  | readPosition positionId alert =>
    have hdb : (closeStep w (.readPosition positionId alert)).db = w.db ∧
        (closeStep w (.readPosition positionId alert)).admitted = w.admitted := by
      rw [closeStep]
      split
      · exact ⟨rfl, rfl⟩
      · split_ifs
        · exact ⟨rfl, rfl⟩
        · split <;> exact ⟨rfl, rfl⟩
    exact ⟨⟨by rw [hdb.1]; exact h.headroom, by rw [hdb.2]; exact h.guarded⟩, by rw [hdb.1]; exact hstill⟩
  | persistPosition k now =>
    rw [closeStep]
    cases hk : w.positions[k]? with
    | none => exact ⟨h, hstill⟩
    | some r =>
      obtain ⟨hlegs, halone⟩ := hg r hk
      have hadmits : Admits w.db (r.orders w.db now) := admits_position h.headroom halone hlegs _ now
      have hfresh : ∀ o ∈ r.orders w.db now, o.Fresh := by
        intro o ho
        obtain ⟨leg, _, rfl⟩ := List.mem_map.mp ho
        exact ⟨.refl _, .refl _, .refl _, .refl _, .refl _⟩
      obtain ⟨hkept, hflips⟩ := h.headroom.append (persistPositionClose_orders ..) (persistPositionClose_fills ..)
        hfresh hadmits fun e => persistPositionClose_released h.headroom.wellFormed _ _ _ r.exitAlertId now e
      exact ⟨⟨hkept, h.guarded⟩, hflips⟩

theorem interleaved_empty : Interleaved CloseWorld.empty where
  headroom :=
    { wellFormed := wellFormed_empty
      closes i o ho := by simp [CloseWorld.empty, Db.empty] at ho
      onSide i o ho := by simp [CloseWorld.empty, Db.empty] at ho
      noOverClose := ⟨fun e _ => le_rfl, fun c s => le_max_right _ _, fun e _ => le_rfl⟩ }
  guarded := nofun

instance (db : Db) (i : ℕ) (o : StructureOrder) (e : Event) : Decidable (KeepsRow db i o e) := by
  unfold KeepsRow
  split <;> infer_instance

instance (db : Db) (i : ℕ) (o : StructureOrder) (e : Event) : Decidable (KeepsClose db i o e) := by
  unfold KeepsClose
  split <;> infer_instance

instance (db : Db) (i : ℕ) (o : StructureOrder) (e : Event) :
    Decidable (KeepsHolding db i o e) := by
  unfold KeepsHolding
  split <;> infer_instance

instance (db : Db) (i : ℕ) (o : StructureOrder) (e : Event) : Decidable (KeepsSide db i o e) := by
  unfold KeepsSide
  split <;> infer_instance

theorem keepsOrders_iff (db : Db) (e : Event) : KeepsOrders db e ↔
    ∀ i < db.orders.length, ∀ o ∈ db.orders[i]?, KeepsSide db i o e ∧
      if o.orderRole = .closing then KeepsRow db i o e ∧ KeepsClose db i o e else KeepsHolding db i o e := by
  constructor
  · intro h i _ o ho
    refine ⟨h.sides i o ho, ?_⟩
    split_ifs with hrole
    · exact h.closes i o ho hrole
    · exact h.holdings i o ho hrole
  · intro hrows
    have hrow : ∀ i (o : StructureOrder), db.orders[i]? = some o → _ :=
      fun i o ho => hrows i (List.getElem?_eq_some_iff.mp ho).1 o ho
    refine ⟨fun i o ho => (hrow i o ho).1, fun i o ho hrole => ?_, fun i o ho hrole => ?_⟩
    · have hclose := (hrow i o ho).2
      rwa [if_pos hrole] at hclose
    · have hholding := (hrow i o ho).2
      rwa [if_neg hrole] at hholding

instance (db : Db) (e : Event) : Decidable (KeepsOrders db e) :=
  decidable_of_iff _ (keepsOrders_iff db e).symm

instance (db : Db) : ∀ e, Decidable (KeepsInserts db e)
  | .closeRequest .. => inferInstanceAs (Decidable (_ → _ ∧ _))
  | .positionClose positionId _ _ => inferInstanceAs (Decidable
      (∀ pos ∈ db.bookedPositions[positionId]?, pos.state = .open → PositionAlone db pos.structureId))
  | .submitPreview .. | .createUnwind .. | .stampLive .. | .stampPlacement .. | .orderStatus .. | .comboStatus ..
  | .execution .. | .commissionReport .. | .completeStructure .. | .reconcile .. | .reap .. | .reconnect ..
  | .syncPositions .. | .closeAnswer .. | .cancelTrade .. => .isTrue trivial

instance (w : CloseWorld) : ∀ e, Decidable (KeepsCloses w e)
  | .book e => inferInstanceAs (Decidable (KeepsOrders w.db e ∧ KeepsInserts w.db e))
  | .insert k _ => inferInstanceAs (Decidable (∀ r ∈ w.admitted[k]?, _ ≤ r.counted ∧ _ ∧ _))
  | .persistPosition k _ => inferInstanceAs (Decidable (∀ r ∈ w.positions[k]?,
      buildClosingLegs ((entryOrders w.db r.pos.structureId).map (·.1)) = .ok r.legs ∧
        PositionAlone w.db r.pos.structureId))
  | .check .. | .readPosition .. => .isTrue trivial

def otherLeg : LegSpec := { callLeg .buy 10 with contractStrike := some (6 / 5) }

def otherExecution : IbFill := { execution "b" "BOT" 10 none with localSymbol := some "EUUU6 C1200" }

/-- Two requests close ten of a call, the second once the first is in the tables, while the position in another call is
read and closed. -/
def closedByTwo : List CloseEvent :=
  [.book (.submitPreview [callLeg .buy 10] 0), .book (.submitPreview [otherLeg] 0),
    .book (.execution 0 (execution "a" "BOT" 10 none) 1), .book (.execution 1 otherExecution 1),
    .book (.completeStructure 1 2), .check (callPosition .buy 10) 6 none (some 0) true 2, .readPosition 0 none,
    .insert 0 3, .check (callPosition .buy 10) 4 none (some 0) true 3, .persistPosition 0 3,
    .book (.closeAnswer 2 (.accepted (some 7) none) 4), .insert 0 4, .book (.closeAnswer 4 .unknown 4),
    .book (.execution 2 (execution "c" "SLD" 6 none) 5), .book (.execution 4 (execution "d" "SLD" 1 none) 6)]

/-- A leg of ten is being closed by hand when the close of its position closes it again. -/
def closedTwice : List CloseEvent :=
  [.book (.submitPreview [callLeg .buy 10] 0),
    .book (.execution 0 (execution "a" "BOT" 10 none) 1),
    .book (.completeStructure 0 2),
    .check (callPosition .buy 10) 10 none (some 0) true 3, .insert 0 3,
    .book (.closeAnswer 1 (.accepted (some 7) none) 4),
    .readPosition 0 none, .persistPosition 0 5]

end Runs

end FxVol
