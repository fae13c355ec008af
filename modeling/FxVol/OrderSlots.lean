import FxVol.ClaimColumns

/-!
# One row for each slot of a structure

`uq_structure_orders_structure_leg_role` lets a structure have one row for each leg and role.
The writers keep it: the entry legs of a preview go to a structure of their own, and an unwind
goes through the constraint.
-/
namespace FxVol

open KeyedPasses

/-- The columns of `uq_structure_orders_structure_leg_role`. -/
def StructureOrder.slot (o : StructureOrder) : ℕ × ℕ × OrderRole :=
  (o.structureId, o.legIdx, o.orderRole)

/-- Entry and unwind rows have a slot each, and an entry leg belongs to a structure. -/
structure Db.Slotted (db : Db) : Prop where
  known : ∀ (i : ℕ) (o : StructureOrder), db.orders[i]? = some o → o.orderRole = .entry →
    o.structureId < db.structures.length
  once : ∀ (i j : ℕ) (o o' : StructureOrder), db.orders[i]? = some o → db.orders[j]? = some o' →
    o.slot = o'.slot → o.orderRole ≠ .closing → i = j

section Rows
variable {db db' : Db} {i : ℕ} {o o' : StructureOrder} {e : Event} {fills : List StructureFill}

theorem RowChange.legIdx (h : RowChange db i o e o' fills) : o'.legIdx = o.legIdx := by
  cases h with
  | same | stampedLive | stamped | reported | repaired | mirrored | adopted | rewired => rfl
  | comboBooked | cancelled => rfl
  | onStatus status reason now =>
    unfold StructureOrder.onStatus
    dsimp only
    split <;> try rfl
    split_ifs <;> rfl
  | comboCancelled perm status reason now =>
    unfold StructureOrder.onComboCancel
    split <;> rfl
  | booked =>
    unfold StructureOrder.booked StructureOrder.afterFill
    split_ifs <;> rfl
  | expired trades tau now o₁ h₁ => rcases h₁ with rfl | ⟨t, _, rfl⟩ <;> rfl
  | answered outcome now => cases outcome <;> rfl

theorem leg_structureId (h : o'.leg = o.leg) : o'.structureId = o.structureId := by
  simp only [StructureOrder.leg, Prod.mk.injEq] at h
  exact h.1

theorem RowChange.slot (h : RowChange db i o e o' fills) : o'.slot = o.slot := by
  rw [StructureOrder.slot, h.legIdx, leg_structureId h.leg, leg_orderRole h.leg]
  rfl

end Rows

section Structures
variable (db : Db) (now : Instant)

theorem terminaliseStructure_length (sid : ℕ) :
    (terminaliseStructure now db sid).structures.length = db.structures.length := by
  unfold terminaliseStructure
  split
  · split_ifs
    · rfl
    · exact List.length_set ..
  · rfl

theorem maybeCompleteStructure_length (sid : ℕ) :
    (maybeCompleteStructure db sid now).1.structures.length = db.structures.length := by
  unfold maybeCompleteStructure
  split
  · rfl
  · dsimp only
    split_ifs
    · rfl
    · exact List.length_set ..
    · rw [bookPosition_structures]
      exact List.length_set ..

theorem closeAnswer_length (i : ℕ) (outcome : DispatchOutcome) :
    (closeAnswer db i outcome now).structures.length = db.structures.length := by
  unfold closeAnswer
  split
  · rfl
  · dsimp only
    split
    · exact List.length_set ..
    · exact List.length_set ..
    · rfl

theorem reap_structures_length (trades : List IbTrade) (tau : ℤ) :
    (reapStaleOrders db trades tau now).structures.length = db.structures.length :=
  (foldl_frame (fun db : Db => db.structures.length) (terminaliseStructure now)
    (fun db sid => terminaliseStructure_length db now sid) _ _).trans
      (congrArg List.length (reapOrders_structures db trades tau now))

/-- No transaction deletes a structure. -/
theorem step_structures_le (e : Event) : db.structures.length ≤ (step db e).structures.length := by
  cases e with
  | submitPreview legs now => simp [step, submitPreview, Db.addStructure]
  | createUnwind sid idx leg now =>
    simp only [step, Db.insertOrder]
    split_ifs <;> exact le_rfl
  | stampLive | stampPlacement | orderStatus | syncPositions => exact le_rfl
  | comboStatus perm ids status reason now =>
    exact (congrArg List.length (comboStatus_structures perm ids status reason now)).ge
  | execution i fill now =>
    rcases deliverFill_cases db i fill now with h | ⟨o, _, _, h⟩
    · rw [step, h]
    · rw [step, h, bookFill]
      simp
  | commissionReport i x c cur =>
    rcases onCommissionReport_cases db i x cur c with h | ⟨cur', h⟩ <;> rw [step, h]
    simp
  | completeStructure sid now => exact (maybeCompleteStructure_length db now sid).ge
  | reconcile now => exact (congrArg List.length (reconcile_structures db now)).ge
  | reap trades tau now => exact (reap_structures_length db now trades tau).ge
  | reconnect trades now => exact (congrArg List.length (reconnect_structures db trades now)).ge
  | closeRequest pos qty lp target rth now =>
    rcases closeRequest_cases db pos qty lp target rth now with h | ⟨price, _, _, h⟩
    · rw [h]
    · rw [h, insertClosing, releaseReservation_structures]
      simp [Db.addOrder, Db.addStructure]
  | closeAnswer i outcome now => exact (closeAnswer_length db now i outcome).ge
  | cancelTrade tradeId ids now =>
    rw [step, cancelTrade, terminaliseStructure_length]
    exact (congrArg List.length
      (foldl_frame Db.structures (cancelOrder now) (fun s i => rfl) ids db)).ge
  | positionClose positionId alert now =>
    rcases positionClose_cases db positionId alert now with h | ⟨pos, legs, _, _, _, h⟩
    · rw [h]
    · rw [h, persistPositionClose_structures]
      simp

end Structures

/-- Row `i` is new: a closing order, an entry leg of a new structure, or an unwind whose slot
was free. -/
inductive TakesSlot (db db' : Db) (i : ℕ) (o : StructureOrder) : Prop
  | closing (hrole : o.orderRole = .closing)
  | entry (hrole : o.orderRole = .entry) (hsid : o.structureId = db.structures.length)
      (hidx : o.legIdx = i - db.orders.length) (hgrow : db.structures.length < db'.structures.length)
  | unwind (hrole : o.orderRole = .unwind) (hkey : i = db.orders.length)
      (hfree : ∀ o' ∈ db.orders, o'.slot ≠ o.slot)

section Slots
variable {db db' : Db} {i j : ℕ} {o o' : StructureOrder} {e : Event}

theorem insertOrder_free {new : StructureOrder} (h : db.insertOrder new = .ok db') :
    db' = db.addOrder new ∧ ∀ o ∈ db.orders, o.slot ≠ new.slot := by
  unfold Db.insertOrder at h
  split_ifs at h with hany
  refine ⟨(Except.ok.inj h).symm, ?_⟩
  intro o ho heq
  simp only [StructureOrder.slot, Prod.mk.injEq] at heq
  exact hany (List.any_eq_true.mpr ⟨o, ho, decide_eq_true heq⟩)

/-- An unwind that is inserted takes a free slot. -/
theorem insertOrder_takesSlot {new : StructureOrder} (h : db.insertOrder new = .ok db')
    (hrole : new.orderRole = .unwind) (hi : db.orders.length ≤ i) (ho : db'.orders[i]? = some o) :
    TakesSlot db db' i o := by
  obtain ⟨rfl, hfree⟩ := insertOrder_free h
  have hlt := (List.getElem?_eq_some_iff.mp ho).1
  simp only [Db.addOrder, List.length_append, List.length_singleton] at hlt
  obtain rfl : i = db.orders.length := by omega
  simp only [Db.addOrder, List.getElem?_concat_length, Option.some.injEq] at ho
  subst ho
  exact .unwind hrole rfl hfree

/-- A row beyond the old table takes a free slot, and is an unwind only when it was asked for. -/
theorem step_takesSlot (hi : db.orders.length ≤ i) (ho : (step db e).orders[i]? = some o) :
    TakesSlot db (step db e) i o ∧
      (o.orderRole = .unwind → ∃ sid idx leg now, e = .createUnwind sid idx leg now) := by
  have hlt : i < (step db e).orders.length := (List.getElem?_eq_some_iff.mp ho).1
  cases hins : e.inserts with
  | false =>
    rw [step_length hins] at hlt
    omega
  | true =>
    cases e with
    | submitPreview legs now =>
      simp only [step, submitPreview] at ho
      rw [List.getElem?_append_right hi, List.getElem?_mapIdx] at ho
      obtain ⟨leg, _, rfl⟩ := Option.map_eq_some_iff.mp ho
      refine ⟨.entry rfl rfl rfl ?_, fun hunwind => ?_⟩
      · simp [step, submitPreview, Db.addStructure]
      · cases hunwind
    | createUnwind sid idx leg now =>
      refine ⟨?_, fun _ => ⟨sid, idx, leg, now, rfl⟩⟩
      simp only [step] at ho hlt ⊢
      split at ho
      · next db' hok => exact insertOrder_takesSlot hok rfl hi ho
      · next herr =>
        simp only [herr] at hlt
        omega
    | closeRequest pos qty lp target rth now =>
      rcases closeRequest_cases db pos qty lp target rth now with h | ⟨price, _, _, h⟩
      · rw [h] at hlt
        omega
      · rw [h, insertClosing, releaseReservation_orders] at ho
        simp only [Db.addOrder, Db.addStructure] at ho
        rw [List.getElem?_append_right hi] at ho
        obtain rfl := List.mem_singleton.mp (List.mem_of_getElem? ho)
        refine ⟨.closing rfl, fun hunwind => ?_⟩
        cases hunwind
    | positionClose positionId alert now =>
      rcases positionClose_cases db positionId alert now with h | ⟨pos, legs, _, _, _, h⟩
      · rw [h] at hlt
        omega
      · rw [h, persistPositionClose_orders, List.getElem?_append_right hi] at ho
        obtain ⟨leg, _, rfl⟩ := List.mem_map.mp (List.mem_of_getElem? ho)
        refine ⟨.closing rfl, fun hunwind => ?_⟩
        cases hunwind
    | _ => cases hins

theorem TakesSlot.slot_free (h : TakesSlot db db' j o') (hs : db.Slotted)
    (ho : db.orders[i]? = some o) (hslot : o.slot = o'.slot) : o'.orderRole = .closing := by
  have heq := hslot
  simp only [StructureOrder.slot, Prod.mk.injEq] at heq
  obtain ⟨hsid, _, hrole⟩ := heq
  cases h with
  | closing hrole' => exact hrole'
  | entry hrole' hsid' =>
    have hlt := hs.known i o ho (hrole.trans hrole')
    omega
  | unwind _ _ hfree => exact absurd hslot (hfree o (List.mem_of_getElem? ho))

theorem TakesSlot.inj (h : TakesSlot db db' i o) (h' : TakesSlot db db' j o')
    (hi : db.orders.length ≤ i) (hj : db.orders.length ≤ j) (hslot : o.slot = o'.slot)
    (hrole : o.orderRole ≠ .closing) : i = j := by
  simp only [StructureOrder.slot, Prod.mk.injEq] at hslot
  obtain ⟨_, hidx, hroles⟩ := hslot
  cases h with
  | closing h₁ => exact absurd h₁ hrole
  | entry h₁ _ hidx₁ =>
    cases h' with
    | closing h₂ => exact absurd (hroles.trans h₂) hrole
    | entry _ _ hidx₂ => omega
    | unwind h₂ =>
      rw [h₁, h₂] at hroles
      cases hroles
  | unwind h₁ hkey₁ =>
    cases h' with
    | closing h₂ => exact absurd (hroles.trans h₂) hrole
    | entry h₂ =>
      rw [h₁, h₂] at hroles
      cases hroles
    | unwind _ hkey₂ => rw [hkey₁, hkey₂]

/-- Rows that keep their slots next to new ones in free slots. -/
theorem Db.Slotted.grow (h : db.Slotted)
    (hold : ∀ (i : ℕ) (o : StructureOrder), db.orders[i]? = some o →
      ∃ o', db'.orders[i]? = some o' ∧ o'.slot = o.slot)
    (hlen : db.structures.length ≤ db'.structures.length)
    (hnew : ∀ (i : ℕ) (o : StructureOrder), db.orders.length ≤ i → db'.orders[i]? = some o →
      TakesSlot db db' i o) : db'.Slotted := by
  have row (i : ℕ) (o : StructureOrder) (ho : db'.orders[i]? = some o) :
      (∃ a : StructureOrder, db.orders[i]? = some a ∧ o.slot = a.slot) ∨
        db.orders.length ≤ i ∧ TakesSlot db db' i o := by
    by_cases hi : i < db.orders.length
    · obtain ⟨o', ho', hslot⟩ := hold i _ (List.getElem?_eq_getElem hi)
      obtain rfl : o' = o := Option.some.inj (ho'.symm.trans ho)
      exact .inl ⟨_, List.getElem?_eq_getElem hi, hslot⟩
    · exact .inr ⟨by omega, hnew i o (by omega) ho⟩
  constructor
  · intro i o ho hrole
    rcases row i o ho with ⟨a, ha, hslot⟩ | ⟨_, hins⟩
    · simp only [StructureOrder.slot, Prod.mk.injEq] at hslot
      have hlt := h.known i a ha (hslot.2.2.symm.trans hrole)
      omega
    · cases hins with
      | closing hrole' =>
        rw [hrole] at hrole'
        cases hrole'
      | entry _ hsid _ hgrow => omega
      | unwind hrole' =>
        rw [hrole] at hrole'
        cases hrole'
  · intro i j o o' ho ho' hslot hrole
    have hroles : o.orderRole = o'.orderRole := congrArg (fun s => s.2.2) hslot
    rcases row i o ho with ⟨a, ha, hsa⟩ | ⟨hi, hins⟩ <;>
      rcases row j o' ho' with ⟨b, hb, hsb⟩ | ⟨hj, hins'⟩
    · have hab : a.slot = b.slot := hsa.symm.trans (hslot.trans hsb)
      have hra : o.orderRole = a.orderRole := congrArg (fun s => s.2.2) hsa
      exact h.once i j a b ha hb hab (hra ▸ hrole)
    · exact absurd (hroles.trans (hins'.slot_free h ha (hsa.symm.trans hslot))) hrole
    · exact absurd (hins.slot_free h hb (hsb.symm.trans hslot.symm)) hrole
    · exact hins.inj hins' hi hj hslot hrole

/-- Every transaction keeps one row in each slot. -/
theorem step_slotted (h : db.Slotted) (e : Event) : (step db e).Slotted := by
  apply h.grow
  · intro i o ho
    obtain ⟨o', ho', hchange⟩ := step_row e ho
    exact ⟨o', ho', hchange.slot⟩
  · exact step_structures_le db e
  · intro i o hi ho
    exact (step_takesSlot hi ho).1

theorem slotted_empty : Db.empty.Slotted := ⟨by simp [Db.empty], by simp [Db.empty]⟩

end Slots

end FxVol
