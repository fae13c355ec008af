import FxVol.FillHandlers

/-!
# What the event handlers write

One inversion lemma for each handler of `FillHandlers`: either it leaves the tables as they
are, or it makes exactly the change stated here.
-/
namespace FxVol

namespace Db

def addFill (db : Db) (row : StructureFill) : Db := { db with fills := db.fills ++ [row] }

variable (db : Db) (row : StructureFill) (j : ℕ)

@[simp] theorem addFill_orders : (db.addFill row).orders = db.orders := rfl
@[simp] theorem addFill_fills : (db.addFill row).fills = db.fills ++ [row] := rfl
@[simp] theorem addFill_legPositions : (db.addFill row).legPositions = db.legPositions := rfl
@[simp] theorem addFill_structures : (db.addFill row).structures = db.structures := rfl

theorem addFill_fillsOf_self {i : ℕ} (h : row.orderId = i) :
    (db.addFill row).fillsOf i = db.fillsOf i ++ [row] := by
  simp [fillsOf, addFill, List.filter_append, h]

theorem addFill_fillsOf_ne (h : row.orderId ≠ j) : (db.addFill row).fillsOf j = db.fillsOf j := by
  simp [fillsOf, addFill, List.filter_append, h]

theorem addFill_recorded_self {i : ℕ} (h : row.orderId = i) :
    (db.addFill row).recorded i = db.recorded i + row.qtyFilled := by
  simp [recorded, addFill_fillsOf_self db row h]

theorem addFill_recorded_ne (h : row.orderId ≠ j) : (db.addFill row).recorded j = db.recorded j := by
  simp [recorded, addFill_fillsOf_ne db row j h]

/-- An execution id is on some fill row. -/
def Booked (db : Db) (id : ExecId) : Prop := id ∈ db.fills.map (·.ibExecutionId)

instance (id : ExecId) : Decidable (db.Booked id) := inferInstanceAs (Decidable (_ ∈ _))

variable {db row}

theorem insertFill_ok (ho : row.orderId < db.orders.length) (hnew : ¬ db.Booked row.ibExecutionId) :
    db.insertFill row = .ok (db.addFill row) := if_pos ⟨ho, hnew⟩

theorem insertFill_error (h : db.orders.length ≤ row.orderId ∨ db.Booked row.ibExecutionId) :
    db.insertFill row = .error .integrityError := by
  apply if_neg
  rintro ⟨ho, hnew⟩
  rcases h with h | h
  · omega
  · exact hnew h

theorem Booked.of_fillsOf {id : ExecId} {i : ℕ} (h : id ∈ (db.fillsOf i).map (·.ibExecutionId)) :
    db.Booked id := by
  obtain ⟨f, hf, rfl⟩ := List.mem_map.mp h
  exact List.mem_map_of_mem (List.mem_of_mem_filter hf)

end Db

/-- The tables after an execution of order `i`, whose row is `o`, is booked. -/
def bookFill (db : Db) (i : ℕ) (o : StructureOrder) (fill : IbFill) (now : Instant) : Db :=
  let db₁ := db.addFill (fillRow i fill)
  let o' := o.booked fill (recomputeAggregates db₁ i o) now
  releaseReservation (rebuildLeg (db₁.setOrder i o') i) o'

section Executions
variable {db : Db} {i : ℕ} {o : StructureOrder} {fill : IbFill} {now : Instant}

/-- The aggregates of an order once one more execution is recorded. -/
def aggregatesWith (db : Db) (i : ℕ) (o : StructureOrder) (fill : IbFill) : OrderAggregate :=
  updateOrderAggregates (db.fillsOf i ++ [fillRow i fill]) o.qty o.side o.previewPrice

theorem recomputeAggregates_addFill :
    recomputeAggregates (db.addFill (fillRow i fill)) i o = aggregatesWith db i o fill := by
  have h : (db.addFill (fillRow i fill)).fillsOf i = db.fillsOf i ++ [fillRow i fill] :=
    Db.addFill_fillsOf_self db _ rfl
  rw [recomputeAggregates, aggregatesWith, h]

@[simp] theorem aggregatesWith_qtyFilled :
    (aggregatesWith db i o fill).qtyFilled = db.recorded i + fill.shares := by
  simp [aggregatesWith, Db.recorded, fillRow]

theorem aggregatesWith_fullyFilled : (aggregatesWith db i o fill).fullyFilled = true ↔
    0 < db.recorded i + fill.shares ∧ o.qty ≤ db.recorded i + fill.shares := by
  rw [aggregatesWith, updateOrderAggregates_fullyFilled]
  simp [Db.recorded, fillRow]

theorem bookFill_orders : (bookFill db i o fill now).orders =
    db.orders.set i (o.booked fill (aggregatesWith db i o fill) now) := by
  simp [bookFill, recomputeAggregates_addFill]

theorem bookFill_fills : (bookFill db i o fill now).fills = db.fills ++ [fillRow i fill] := by
  simp [bookFill]

theorem bookFill_recorded (j : ℕ) : (bookFill db i o fill now).recorded j =
    if j = i then db.recorded i + fill.shares else db.recorded j := by
  have hfills : (bookFill db i o fill now).recorded j =
      (db.addFill (fillRow i fill)).recorded j := Db.recorded_congr bookFill_fills j
  rw [hfills]
  by_cases hj : j = i
  · subst hj
    rw [if_pos rfl]
    exact Db.addFill_recorded_self db _ rfl
  · rw [if_neg hj]
    exact Db.addFill_recorded_ne db _ j (Ne.symm hj)

theorem bookFill_booked (id : ExecId) : (bookFill db i o fill now).Booked id ↔
    db.Booked id ∨ id = .ib fill.execId := by
  simp only [Db.Booked, bookFill_fills, List.map_append, List.mem_append, List.map_singleton,
    List.mem_singleton]
  rfl

/-- A persisted execution is a new row of a known order; its exception is a unique or foreign
key violation; a skipped one is already on the order. -/
theorem persistFill_new (ho : db.orders[i]? = some o) (hnew : ¬ db.Booked (.ib fill.execId)) :
    persistFill db i fill now = .ok (bookFill db i o fill now,
      if (aggregatesWith db i o fill).fullyFilled then some o.structureId else none) := by
  have hi : i < db.orders.length := (List.getElem?_eq_some_iff.mp ho).1
  have hseen : ExecId.ib fill.execId ∉ (db.fillsOf i).map (·.ibExecutionId) :=
    fun h => hnew (.of_fillsOf h)
  have hins : db.insertFill (fillRow i fill) = .ok (db.addFill (fillRow i fill)) :=
    Db.insertFill_ok hi hnew
  have ho₁ : (db.addFill (fillRow i fill)).orders[i]? = some o := ho
  simp only [persistFill, applyFillIdempotent, hseen, not_false_eq_true, decide_true, Bool.not_true,
    Bool.false_eq_true, if_false, hins, ho₁, recomputeAggregates_addFill, bookFill]

theorem persistFill_seen (h : ExecId.ib fill.execId ∈ (db.fillsOf i).map (·.ibExecutionId)) :
    persistFill db i fill now = .ok (db, none) := by
  simp only [persistFill, applyFillIdempotent, h, not_true_eq_false, decide_false, Bool.not_false,
    if_true]

theorem persistFill_error (hseen : ExecId.ib fill.execId ∉ (db.fillsOf i).map (·.ibExecutionId))
    (h : db.orders.length ≤ i ∨ db.Booked (.ib fill.execId)) :
    persistFill db i fill now = .error .integrityError := by
  have hins : db.insertFill (fillRow i fill) = .error .integrityError := Db.insertFill_error h
  simp only [persistFill, applyFillIdempotent, hseen, not_false_eq_true, decide_true, Bool.not_true,
    Bool.false_eq_true, if_false, hins]

theorem deliverFill_new (ho : db.orders[i]? = some o) (hnew : ¬ db.Booked (.ib fill.execId)) :
    deliverFill db i fill now = bookFill db i o fill now := by
  rw [deliverFill, persistFill_new ho hnew]

theorem deliverFill_booked (h : db.Booked (.ib fill.execId)) : deliverFill db i fill now = db := by
  by_cases hseen : ExecId.ib fill.execId ∈ (db.fillsOf i).map (·.ibExecutionId)
  · rw [deliverFill, persistFill_seen hseen]
  · rw [deliverFill, persistFill_error hseen (.inr h)]

theorem deliverFill_missing (h : db.orders[i]? = none) : deliverFill db i fill now = db := by
  have hi : db.orders.length ≤ i := List.getElem?_eq_none_iff.mp h
  by_cases hseen : ExecId.ib fill.execId ∈ (db.fillsOf i).map (·.ibExecutionId)
  · rw [deliverFill, persistFill_seen hseen]
  · rw [deliverFill, persistFill_error hseen (.inl hi)]

theorem deliverFill_cases (db : Db) (i : ℕ) (fill : IbFill) (now : Instant) :
    deliverFill db i fill now = db ∨
      ∃ o, db.orders[i]? = some o ∧ ¬ db.Booked (.ib fill.execId) ∧
        deliverFill db i fill now = bookFill db i o fill now := by
  by_cases hb : db.Booked (.ib fill.execId)
  · exact .inl (deliverFill_booked hb)
  cases ho : db.orders[i]? with
  | none => exact .inl (deliverFill_missing ho)
  | some o => exact .inr ⟨o, rfl, hb, deliverFill_new ho hb⟩

end Executions

section Reports
variable (db : Db) (i j : ℕ) (x : String) (c : ℚ) (cur : Option String) (f : StructureFill)

@[simp] theorem reported_orderId : (f.reported i x c cur).orderId = f.orderId := by
  unfold StructureFill.reported
  split_ifs <;> rfl

@[simp] theorem reported_ibExecutionId :
    (f.reported i x c cur).ibExecutionId = f.ibExecutionId := by
  unfold StructureFill.reported
  split_ifs <;> rfl

@[simp] theorem reported_qtyFilled : (f.reported i x c cur).qtyFilled = f.qtyFilled := by
  unfold StructureFill.reported
  split_ifs <;> rfl

@[simp] theorem reported_side : (f.reported i x c cur).side = f.side := by
  unfold StructureFill.reported
  split_ifs <;> rfl

@[simp] theorem reported_fillPrice : (f.reported i x c cur).fillPrice = f.fillPrice := by
  unfold StructureFill.reported
  split_ifs <;> rfl

/-- A report about another order leaves the fills of this one as they are. -/
theorem reported_other {db : Db} {i j : ℕ} {x : String} {c : ℚ} {cur : Option String}
    (h : j ≠ i) : ((db.fillsOf j).map fun f => f.reported i x c cur) = db.fillsOf j := by
  have hid : ∀ f ∈ db.fillsOf j, StructureFill.reported i x c cur f = f := by
    intro f hf
    have hj : f.orderId = j := by simpa [Db.fillsOf] using (List.mem_filter.mp hf).2
    have hne : f.orderId ≠ i := fun hi => h (hj.symm.trans hi)
    simp [StructureFill.reported, StructureFill.isExecution, hne]
  rw [List.map_congr_left hid, List.map_id']

theorem reported_commissionUsd : (f.reported i x c cur).commissionUsd =
    if f.isExecution i x then c else f.commissionUsd := by
  unfold StructureFill.reported
  split_ifs <;> rfl

@[simp] theorem reportFill_orders : (db.reportFill i x c cur).orders = db.orders := rfl

@[simp] theorem reportFill_legPositions :
    (db.reportFill i x c cur).legPositions = db.legPositions := rfl

@[simp] theorem reportFill_structures : (db.reportFill i x c cur).structures = db.structures := rfl

theorem reportFill_fills :
    (db.reportFill i x c cur).fills = db.fills.map fun f => f.reported i x c cur := rfl

theorem reportFill_fillsOf : (db.reportFill i x c cur).fillsOf j =
    (db.fillsOf j).map fun f => f.reported i x c cur := by
  simp only [Db.fillsOf, Db.reportFill, List.filter_map]
  congr 1
  apply List.filter_congr
  intro f _
  simp

@[simp] theorem reportFill_recorded : (db.reportFill i x c cur).recorded j = db.recorded j := by
  have h : (fun f => f.qtyFilled) ∘ (fun f => StructureFill.reported i x c cur f) =
      fun f => f.qtyFilled := by
    funext f
    simp
  rw [Db.recorded, reportFill_fillsOf, List.map_map, h, Db.recorded]

/-- A report that comes before its fill row writes nothing. -/
theorem onCommissionReport_missing {c : Option ℚ}
    (h : ¬ db.fills.any (·.isExecution i x)) : onCommissionReport db i x c cur = db := if_neg h

/-- A report changes nothing, or it writes its commission and refolds the order. -/
theorem onCommissionReport_cases (c : Option ℚ) : onCommissionReport db i x c cur = db ∨
    ∃ cur', onCommissionReport db i x c cur =
      (db.reportFill i x (c.getD 0) cur').updateOrder i fun o =>
        o.withAggregates (recomputeAggregates (db.reportFill i x (c.getD 0) cur') i o) := by
  unfold onCommissionReport
  dsimp only
  split_ifs
  · exact .inr ⟨_, rfl⟩
  · exact .inl rfl

end Reports

/-- The tables after a leg is booked whole, its synthetic fill being there. -/
def bookComboRow (db : Db) (i : ℕ) (o : StructureOrder) (now : Instant) : Db :=
  releaseReservation (rebuildLeg (db.setOrder i (o.comboBooked now)) i) (o.comboBooked now)

section Combos
variable {db db' : Db} {i : ℕ} {o : StructureOrder} {perm : String} {now : Instant}

@[simp] theorem bookComboRow_orders :
    (bookComboRow db i o now).orders = db.orders.set i (o.comboBooked now) := by
  simp [bookComboRow]

@[simp] theorem bookComboRow_fills : (bookComboRow db i o now).fills = db.fills := by
  simp [bookComboRow]

/-- Where the synthetic fill of a leg stands when the leg is booked: already recorded, or
added now under an id that no row has. -/
def SyntheticFill (perm : String) (now : Instant) (i : ℕ) (o : StructureOrder) (db db₁ : Db) :
    Prop :=
  (ExecId.combo perm i ∈ (db.fillsOf i).map (·.ibExecutionId) ∧ db₁ = db) ∨
    (¬ db.Booked (.combo perm i) ∧ db₁ = db.addFill (comboFillRow perm now i o))

theorem bookComboLeg_missing (h : db.orders[i]? = none) : bookComboLeg perm now db i = .ok db := by
  simp only [bookComboLeg, h]

theorem bookComboLeg_filled (ho : db.orders[i]? = some o) (h : o.state = .filled) :
    bookComboLeg perm now db i = .ok db := by
  simp only [bookComboLeg, ho, h, if_true]

theorem bookComboLeg_open (ho : db.orders[i]? = some o) (h : o.state ≠ .filled)
    (hok : bookComboLeg perm now db i = .ok db') :
    ∃ db₁, SyntheticFill perm now i o db db₁ ∧ db' = bookComboRow db₁ i o now := by
  have hi : i < db.orders.length := (List.getElem?_eq_some_iff.mp ho).1
  simp only [bookComboLeg, ho, h, if_false] at hok
  by_cases hs : ExecId.combo perm i ∈ (db.fillsOf i).map (·.ibExecutionId)
  · simp only [hs, not_true_eq_false, if_false, Except.ok.injEq] at hok
    exact ⟨db, .inl ⟨hs, rfl⟩, hok.symm⟩
  · by_cases hb : db.Booked (.combo perm i)
    · have hins : db.insertFill (comboFillRow perm now i o) = .error .integrityError :=
        Db.insertFill_error (.inr hb)
      simp only [hs, not_false_eq_true, if_true, hins] at hok
      cases hok
    · have hins : db.insertFill (comboFillRow perm now i o) =
          .ok (db.addFill (comboFillRow perm now i o)) := Db.insertFill_ok hi hb
      simp only [hs, not_false_eq_true, if_true, hins, Except.ok.injEq] at hok
      exact ⟨_, .inr ⟨hb, rfl⟩, hok.symm⟩

/-- A leg that the booking handles without an exception is left alone or booked whole. -/
theorem bookComboLeg_cases (hok : bookComboLeg perm now db i = .ok db') :
    db' = db ∨ ∃ o db₁, db.orders[i]? = some o ∧ o.state ≠ .filled ∧
      SyntheticFill perm now i o db db₁ ∧ db' = bookComboRow db₁ i o now := by
  cases ho : db.orders[i]? with
  | none =>
    rw [bookComboLeg_missing ho] at hok
    exact .inl (Except.ok.inj hok).symm
  | some o =>
    by_cases h : o.state = .filled
    · rw [bookComboLeg_filled ho h] at hok
      exact .inl (Except.ok.inj hok).symm
    · obtain ⟨db₁, hs, hdb'⟩ := bookComboLeg_open ho h hok
      exact .inr ⟨o, db₁, rfl, h, hs, hdb'⟩

theorem nextState_fillPending {status : IbStatus} {err : Bool} :
    (nextState .submitted status err).kind = .fillPending ↔ status = .filled := by
  constructor
  · intro h
    cases status <;> cases err <;> first | rfl | cases h
  · rintro rfl
    rfl

theorem onComboStatus_filled (db : Db) (perm : String) (ids : List ℕ) (reason : Option String)
    (now : Instant) : onComboStatus db perm ids .filled reason now =
      match bookComboFilled db perm ids now with
      | .ok r => r
      | .error _ => (db, none) := rfl

/-- A combo status books every leg, cancels or rejects every leg, or writes nothing. -/
theorem onComboStatus_cases (db : Db) (perm : String) (ids : List ℕ) (status : IbStatus)
    (reason : Option String) (now : Instant) :
    (onComboStatus db perm ids status reason now).1 = db ∨
    (status = .filled ∧ ids.foldlM (bookComboLeg perm now) db =
      .ok (onComboStatus db perm ids status reason now).1) ∨
    (onComboStatus db perm ids status reason now).1 =
      ids.foldl (comboCancelLeg status reason now) db := by
  by_cases hs : status = .filled
  · subst hs
    rw [onComboStatus_filled, bookComboFilled]
    cases hf : ids.foldlM (bookComboLeg perm now) db with
    | error e => exact .inl rfl
    | ok db' => exact .inr (.inl ⟨rfl, rfl⟩)
  · have hk : (nextState .submitted status reason.isSome).kind ≠ .fillPending :=
      fun h => hs (nextState_fillPending.mp h)
    unfold onComboStatus
    dsimp only
    split
    · next h => exact absurd h hk
    · exact .inl rfl
    · exact .inr (.inr rfl)
    · exact .inr (.inr rfl)
    · exact .inl rfl

end Combos

/-- What a leg trades. -/
def StructureOrder.contract (o : StructureOrder) :
    String × ContractType × Option Date × Option ℚ :=
  (o.contractSymbol, o.contractType, o.contractExpiry, o.contractStrike)

/-- The columns of an order row that no writer changes after the insert. -/
def StructureOrder.leg (o : StructureOrder) : ℕ × OrderRole × Side × ℕ × Option ℕ ×
    String × ContractType × Option Date × Option ℚ :=
  (o.structureId, o.orderRole, o.side, o.qty, o.closesOrderId, o.contract)

section Legs
variable {o o' : StructureOrder} (h : o'.leg = o.leg)
include h

theorem leg_orderRole : o'.orderRole = o.orderRole := by
  simp only [StructureOrder.leg, Prod.mk.injEq] at h
  exact h.2.1

theorem leg_side : o'.side = o.side := by
  simp only [StructureOrder.leg, Prod.mk.injEq] at h
  exact h.2.2.1

theorem leg_qty : o'.qty = o.qty := by
  simp only [StructureOrder.leg, Prod.mk.injEq] at h
  exact h.2.2.2.1

theorem leg_closesOrderId : o'.closesOrderId = o.closesOrderId := by
  simp only [StructureOrder.leg, Prod.mk.injEq] at h
  exact h.2.2.2.2.1

theorem leg_contract : o'.contract = o.contract := by
  simp only [StructureOrder.leg, Prod.mk.injEq] at h
  exact h.2.2.2.2.2

end Legs

section Rows
variable {o : StructureOrder} {fill : IbFill} {agg : OrderAggregate} {now : Instant}

@[simp] theorem booked_leg : (o.booked fill agg now).leg = o.leg := by
  unfold StructureOrder.booked StructureOrder.afterFill
  split_ifs <;> rfl

@[simp] theorem booked_qtyFilled : (o.booked fill agg now).qtyFilled = agg.qtyFilled := by
  unfold StructureOrder.booked StructureOrder.afterFill
  split_ifs <;> rfl

/-- After a fill the state is what the aggregates say, whatever it was before. -/
theorem booked_state : (o.booked fill agg now).state =
    if agg.fullyFilled then .filled else .partiallyFilled := by
  unfold StructureOrder.booked StructureOrder.afterFill
  by_cases hf : agg.fullyFilled
  · by_cases hs : o.state = .filled
    · simp [hf, hs, StructureOrder.withAggregates, StructureOrder.stampLocalSymbol]
    · simp [hf, hs, StructureOrder.withAggregates, StructureOrder.stampLocalSymbol]
  · simp [hf]

/-- A status event keeps the leg and its quantities. -/
theorem onStatus_leg (status : IbStatus) (reason : Option String) :
    (o.onStatus status reason now).leg = o.leg ∧
      (o.onStatus status reason now).qtyFilled = o.qtyFilled := by
  unfold StructureOrder.onStatus
  dsimp only
  split <;> try exact ⟨rfl, rfl⟩
  split_ifs <;> exact ⟨rfl, rfl⟩

/-- A status event moves the state as `next_state` decides, or not at all. -/
theorem onStatus_state (o : StructureOrder) (now : Instant) (status : IbStatus)
    (reason : Option String) :
    (o.onStatus status reason now).state = o.state ∨
      (nextState o.state status reason.isSome).newState =
        some (o.onStatus status reason now).state := by
  unfold StructureOrder.onStatus
  dsimp only
  split
  · exact .inl rfl
  · exact .inl rfl
  · exact .inl rfl
  · next hnew _ _ _ => exact .inr hnew
  · next hnew _ _ _ => exact .inr hnew
  · next hnew _ _ _ => exact .inr hnew
  · split_ifs <;> exact .inl rfl
  · exact .inl rfl

end Rows

end FxVol
