import FxVol.CloseHeadroom

/-!
# What the checks of a close are worth

The stacking guard compares what it counts with the netted mirror, `try_reserve` what a leg reserves with its open
quantity, and the close of a booked position checks nothing.  A close fits what is left where the mirror and the columns
are current, the guard counts whatever works, and the leg it is for holds its contract alone or has its reservation
granted.
-/
namespace FxVol

open TableTotals

def OpenPosition.ibContract (pos : OpenPosition) : Contract :=
  let fields := contractFieldsFromSymbol pos.localSymbol
  contractOf fields.1 fields.2.1 pos.expiry fields.2.2

/-- The mirror row shows what the account holds, and the guard counts each close that works on it: none is in a state that
it leaves out, and none older than the window. -/
structure GuardCurrent (db : Db) (pos : OpenPosition) (now : Instant) : Prop where
  mirror : signed pos.side pos.quantity = accountQty db pos.ibContract
  counted : ∀ o ∈ db.orders, closesOn pos.ibContract pos.side.opposite o = true → 0 < o.rest →
    stackingCandidate pos o = true ∧ now - inflightCloseWindow ≤ o.submittedAt.getD o.stateUpdatedAt

instance (db : Db) (pos : OpenPosition) (now : Instant) : Decidable (GuardCurrent db pos now) :=
  decidable_of_iff (_ ∧ ∀ o ∈ db.orders, closesOn pos.ibContract pos.side.opposite o = true → 0 < o.rest →
      stackingCandidate pos o = true ∧ now - inflightCloseWindow ≤ o.submittedAt.getD o.stateUpdatedAt)
    ⟨fun h => ⟨h.1, h.2⟩, fun h => ⟨h.mirror, h.counted⟩⟩

/-- Leg `e` has opened all that the account ever held of the contract, and whatever closes the leg is on this side of
it. -/
structure HoldsAlone (db : Db) (e : ℕ) (c : Contract) (s : Side) : Prop where
  known : e < db.orders.length
  entry : ∀ o ∈ db.orders[e]?, o.orderRole ≠ .closing ∧ o.ibContract = c ∧ o.side ≠ s
  others : ∀ i < db.orders.length, ∀ o ∈ db.orders[i]?, o.ibContract = c → i = e ∨ db.recorded i = 0 ∨ o.Targets e
  closes : ∀ o ∈ db.orders, o.Targets e → o.ibContract = c ∧ o.side = s

instance (db : Db) (e : ℕ) (c : Contract) (s : Side) : Decidable (HoldsAlone db e c s) :=
  have : Decidable (∀ i < db.orders.length, ∀ o ∈ db.orders[i]?,
    o.ibContract = c → i = e ∨ db.recorded i = 0 ∨ o.Targets e) := inferInstance
  decidable_of_iff (_ ∧ (∀ o ∈ db.orders[e]?, o.orderRole ≠ .closing ∧ o.ibContract = c ∧ o.side ≠ s) ∧ _ ∧
      ∀ o ∈ db.orders, o.Targets e → o.ibContract = c ∧ o.side = s)
    ⟨fun h => ⟨h.1, h.2.1, h.2.2.1, h.2.2.2⟩, fun h => ⟨h.known, h.entry, h.others, h.closes⟩⟩

/-- `try_reserve` grants the quantity on the columns of leg `e`; these are current, and nothing of the leg is closed, which
the open quantity would not show. -/
structure Reserves (db : Db) (e qty : ℕ) : Prop where
  openQty : (legRow db e).openQty = (foldFills (db.fillsOf e)).openQty
  reserved : reservedOf db e = inFlight db e
  unclosed : filledBy db (closesLeg e) = 0
  granted : (tryReserve (legRow db e).openQty (legRow db e).reservedQty qty).isOk = true

instance (db : Db) (e qty : ℕ) : Decidable (Reserves db e qty) :=
  decidable_of_iff (_ ∧ _ ∧ _ ∧ _)
    ⟨fun h => ⟨h.1, h.2.1, h.2.2.1, h.2.2.2⟩, fun h => ⟨h.openQty, h.reserved, h.unclosed, h.granted⟩⟩

/-- The leg of a close holds the contract alone, or has the close reserved. -/
def LegCovers (db : Db) (o : StructureOrder) : Prop :=
  ∀ e ∈ o.closesOrderId, HoldsAlone db e o.ibContract o.side ∨ Reserves db e o.qty

instance (db : Db) (o : StructureOrder) : Decidable (LegCovers db o) := inferInstanceAs (Decidable (∀ _ ∈ _, _ ∨ _))

/-- Entry order `i` has opened all that the account holds of its contract, nothing closes there or has closed the leg,
its column counts its fills, and no other entry of the structure has its leg index. -/
structure StandsAlone (db : Db) (sid i : ℕ) (o : StructureOrder) : Prop where
  counted : o.qtyFilled = db.recorded i
  alone : ∀ j < db.orders.length, ∀ o' ∈ db.orders[j]?, o'.ibContract = o.ibContract → j = i ∨ db.recorded j = 0
  idle : workingOf db (closesOn o.ibContract o.side.opposite) = 0
  unclosed : filledBy db (closesLeg i) + workingOf db (closesLeg i) = 0
  index : ∀ p ∈ entryOrders db sid, p.1.legIdx = o.legIdx → p.2 = i

instance (db : Db) (sid i : ℕ) (o : StructureOrder) : Decidable (StandsAlone db sid i o) :=
  have : Decidable (∀ j < db.orders.length, ∀ o' ∈ db.orders[j]?,
    o'.ibContract = o.ibContract → j = i ∨ db.recorded j = 0) := inferInstance
  decidable_of_iff (_ ∧ _ ∧ _ ∧ _ ∧ ∀ p ∈ entryOrders db sid, p.1.legIdx = o.legIdx → p.2 = i)
    ⟨fun h => ⟨h.1, h.2.1, h.2.2.1, h.2.2.2.1, h.2.2.2.2⟩, fun h => ⟨h.counted, h.alone, h.idle, h.unclosed, h.index⟩⟩

/-- Every filled entry of a position stands alone. -/
def PositionAlone (db : Db) (sid : ℕ) : Prop :=
  ∀ p ∈ entryOrders db sid, 0 < p.1.qtyFilled → StandsAlone db sid p.2 p.1

instance (db : Db) (sid : ℕ) : Decidable (PositionAlone db sid) := inferInstanceAs (Decidable (∀ _ ∈ _, _ → _))

section Checks
variable {db : Db} {pos : OpenPosition} {qty n e sid : ℕ} {now : Instant} {c : Contract} {s : Side} {o : StructureOrder}

theorem closable_signed {side : Side} (h : signed side n = accountQty db c) : closable db c side.opposite = n := by
  cases side with
  | buy => exact h.symm
  | sell =>
    change -accountQty db c = n
    rw [← h, signed, neg_neg]

/-- The stacking guard keeps a close within what the account holds. -/
theorem guard_fits (h : GuardCurrent db pos now) (hguard : alreadyClosing db pos now + qty ≤ pos.quantity) :
    ((workingOf db (closesOn pos.ibContract pos.side.opposite) + qty : ℕ) : ℤ) ≤
      closable db pos.ibContract pos.side.opposite := by
  have hworking : workingOf db (closesOn pos.ibContract pos.side.opposite) ≤ alreadyClosing db pos now := by
    rw [workingOf, total_const, alreadyClosing, ← sum_selected]
    apply List.sum_le_sum
    intro o ho
    split_ifs with hsel hcand
    · by_cases hrest : 0 < o.rest
      · have hrecent := (h.counted o ho hsel hrest).2
        rw [closeInflightRemaining, if_neg (not_lt.mpr hrecent), StructureOrder.rest]
        split_ifs <;> omega
      · omega
    · have hzero : ¬ 0 < o.rest := fun hrest => hcand (h.counted o ho hsel hrest).1
      omega
    · exact Nat.zero_le _
    · exact le_rfl
  rw [closable_signed h.mirror]
  omega

/-- `try_reserve` grants what the columns leave. -/
theorem tryReserve_isOk (openQty : ℤ) (reserved qty : ℕ) :
    (tryReserve openQty reserved qty).isOk = true ↔ reserved + qty ≤ openQty.natAbs := by
  have hnonneg : ¬ (qty : ℚ) < 0 := not_lt.mpr (Nat.cast_nonneg qty)
  have habs : |(openQty : ℚ)| = (openQty.natAbs : ℚ) := by rw [Nat.cast_natAbs, Int.cast_abs]
  rw [tryReserve, if_neg hnonneg, available, habs]
  split_ifs with hover
  · refine iff_of_false nofun fun hfit => ?_
    have hcast : (reserved : ℚ) + qty ≤ openQty.natAbs := by exact_mod_cast hfit
    linarith
  · refine iff_of_true rfl ?_
    by_contra hmore
    have hcast : (openQty.natAbs : ℚ) + 1 ≤ reserved + qty := by
      exact_mod_cast (by omega : openQty.natAbs + 1 ≤ reserved + qty)
    apply hover
    linarith

theorem reserves_fits (h : Reserves db e qty) :
    filledBy db (closesLeg e) + workingOf db (closesLeg e) + qty ≤ heldQty db e := by
  have hgranted := (tryReserve_isOk _ _ _).mp h.granted
  rw [h.openQty] at hgranted
  rw [h.unclosed, workingOf_closesLeg, ← h.reserved, heldQty, Nat.zero_add]
  exact hgranted

/-- A leg that holds its contract alone has left what the account holds there. -/
theorem closable_alone (hr : Headroom db) (h : HoldsAlone db e c s) :
    closable db c s = heldQty db e - filledBy db (closesLeg e) := by
  obtain ⟨entry, hentry⟩ : ∃ o, db.orders[e]? = some o := ⟨_, List.getElem?_eq_getElem h.known⟩
  obtain ⟨hrole, hcontract, hside⟩ := h.entry entry hentry
  have hsplit : ∀ i (o : StructureOrder), db.orders[i]? = some o → against db c s i o =
      (if i = e then (db.recorded e : ℤ) else 0) + -((if closesLeg e o then db.recorded i else 0 : ℕ) : ℤ) := by
    intro i o ho
    by_cases hie : i = e
    · subst hie
      obtain rfl : entry = o := Option.some.inj (hentry.symm.trans ho)
      have hno : closesLeg i entry = false := decide_eq_false fun htarget => hrole htarget.2
      rw [against, if_pos hcontract, if_neg hside, if_pos rfl, hno]
      simp
    · rw [if_neg hie, zero_add, against]
      by_cases htarget : o.Targets e
      · obtain ⟨hon, hown⟩ := h.closes o (List.mem_of_getElem? ho) htarget
        rw [if_pos hon, if_pos hown, closesLeg, if_pos (decide_eq_true htarget)]
      · have hnone : o.ibContract = c → db.recorded i = 0 := by
          intro hon
          rcases h.others i (List.getElem?_eq_some_iff.mp ho).1 o ho hon with heq | hzero | hclose
          · exact absurd heq hie
          · exact hzero
          · exact absurd hclose htarget
        rw [closesLeg, decide_eq_false htarget, if_neg Bool.false_ne_true]
        split_ifs with hon <;> simp [hnone, hon]
  have htotal : total (against db c s) db.orders = total (fun i o => (if i = e then (db.recorded e : ℤ) else 0) +
      -((if closesLeg e o then db.recorded i else 0 : ℕ) : ℤ)) db.orders :=
    total_congr rfl fun i o ho => ⟨o, ho, hsplit i o ho⟩
  rw [closable_eq hr.onSide, heldQty_eq hr.wellFormed hr.onSide, filledBy, htotal, total_add, total_neg, total_cast,
    sub_eq_add_neg, total_single hentry fun i o _ hie => if_neg hie, if_pos rfl]

/-- A close that fits the contract fits a leg that holds the contract alone. -/
theorem holdsAlone_fits (hr : Headroom db) (h : HoldsAlone db e c s)
    (hfits : ((workingOf db (closesOn c s) + qty : ℕ) : ℤ) ≤ closable db c s) :
    filledBy db (closesLeg e) + workingOf db (closesLeg e) + qty ≤ heldQty db e := by
  have hworking : workingOf db (closesLeg e) ≤ workingOf db (closesOn c s) := by
    rw [workingOf, workingOf, total_const, total_const]
    apply List.sum_le_sum
    intro o ho
    split_ifs with hleg hon
    · exact le_rfl
    · have htarget : o.Targets e := of_decide_eq_true hleg
      exact absurd (decide_eq_true ⟨htarget.2, h.closes o ho htarget⟩) hon
    · exact Nat.zero_le _
    · exact le_rfl
  rw [closable_alone hr h] at hfits
  omega

/-- A close that fits the contract and whose leg is free is admitted. -/
theorem admits_close (hr : Headroom db) (hrole : o.orderRole = .closing)
    (hfits : ((workingOf db (closesOn o.ibContract o.side) + o.qty : ℕ) : ℤ) ≤ closable db o.ibContract o.side)
    (hleg : LegCovers db o) : Admits db [o] := by
  constructor
  · intro o' ho' e he
    obtain rfl := List.mem_singleton.mp ho'
    have hsel : closesLeg e o' = true := decide_eq_true ⟨he, hrole⟩
    simp only [List.filter_cons_of_pos hsel, List.filter_nil, List.map_cons, List.map_nil, List.sum_cons, List.sum_nil,
      Nat.add_zero]
    rcases hleg e he with halone | hreserved
    · exact holdsAlone_fits hr halone hfits
    · exact reserves_fits hreserved
  · intro o' ho'
    obtain rfl := List.mem_singleton.mp ho'
    have hsel : closesOn o'.ibContract o'.side o' = true := decide_eq_true ⟨hrole, rfl, rfl⟩
    simpa only [List.filter_cons_of_pos hsel, List.filter_nil, List.map_cons, List.map_nil, List.sum_cons,
      List.sum_nil, Nat.add_zero] using hfits

/-- A close that passes its guard while the guard is current, and whose leg is free, is admitted. -/
theorem admits_checked {sid : ℕ} {lp : Option ℚ} {target : Option ℕ} {placed : Instant} (hr : Headroom db)
    (h : GuardCurrent db pos now) (hguard : alreadyClosing db pos now + qty ≤ pos.quantity)
    (hleg : LegCovers db (closingOrder pos qty sid lp target placed)) :
    Admits db [closingOrder pos qty sid lp target placed] := by
  refine admits_close hr rfl ?_ hleg
  change ((workingOf db (closesOn pos.ibContract pos.side.opposite) + qty : ℕ) : ℤ) ≤
    closable db pos.ibContract pos.side.opposite
  exact guard_fits h hguard

theorem entryOrders_row {p : StructureOrder × ℕ} (h : p ∈ entryOrders db sid) :
    db.orders[p.2]? = some p.1 ∧ p.1.orderRole = .entry := by
  obtain ⟨hof, hrole⟩ := List.mem_filter.mp h
  exact ⟨List.mem_zipIdx_iff_getElem?.mp (List.mem_of_mem_filter hof), of_decide_eq_true hrole⟩

theorem nodup_entryOrders (db : Db) (sid : ℕ) : (entryOrders db sid).Nodup := by
  have hrows : db.orders.zipIdx.Nodup := by
    apply List.Nodup.of_map Prod.snd
    rw [List.zipIdx_map_snd]
    exact List.nodup_range'
  exact (hrows.filter _).filter _

/-- A sum over a selection that one row only meets -/
theorem sum_only {α : Type*} {rows : List α} (hn : rows.Nodup) {p : α → Bool} {a : α} (h : ∀ b ∈ rows, p b → b = a)
    (f : α → ℕ) : ((rows.filter p).map f).sum ≤ f a := by
  have hall : ∀ b ∈ rows.filter p, b = a := fun b hb => h b (List.mem_of_mem_filter hb) (List.mem_filter.mp hb).2
  cases hrows : rows.filter p with
  | nil => exact Nat.zero_le _
  | cons b bs =>
    have hnodup := hrows ▸ hn.filter p
    rw [hrows] at hall
    have hb := hall b List.mem_cons_self
    cases bs with
    | nil => simp [hb]
    | cons b' bs =>
      have hb' := hall b' (List.mem_cons_of_mem _ List.mem_cons_self)
      exact absurd (hb'.trans hb.symm ▸ List.mem_cons_self) (List.nodup_cons.mp hnodup).1

def closeOf (db : Db) (sid structureId : ℕ) (now : Instant) (p : StructureOrder × ℕ) : StructureOrder :=
  positionCloseOrder structureId (closingLeg p.1)
    (((entryOrders db sid).reverse.find? fun q => q.1.legIdx = p.1.legIdx).map (·.2)) now

theorem positionCloseOrders_eq {legs : List ClosingLegSpec} (structureId : ℕ) (now : Instant)
    (h : buildClosingLegs ((entryOrders db sid).map (·.1)) = .ok legs) :
    positionCloseOrders structureId (entryOrders db sid) legs now =
      ((entryOrders db sid).filter fun p => 0 < p.1.qtyFilled).map (closeOf db sid structureId now) := by
  rw [buildClosingLegs] at h
  split_ifs at h
  rw [← Except.ok.inj h, positionCloseOrders, List.filter_map, List.map_map, List.map_map]
  rfl

theorem closeOf_ibContract (structureId : ℕ) (p : StructureOrder × ℕ) :
    (closeOf db sid structureId now p).ibContract = p.1.ibContract := rfl

/-- The close of an entry whose leg index is its own is for the entry. -/
theorem closeOf_closesOrderId {structureId : ℕ} {p : StructureOrder × ℕ} (hp : p ∈ entryOrders db sid)
    (h : StandsAlone db sid p.2 p.1) : (closeOf db sid structureId now p).closesOrderId = some p.2 := by
  change ((entryOrders db sid).reverse.find? fun q => q.1.legIdx = p.1.legIdx).map (·.2) = some p.2
  cases hfind : (entryOrders db sid).reverse.find? fun q => q.1.legIdx = p.1.legIdx with
  | none =>
    have hnone := List.find?_eq_none.mp hfind p (List.mem_reverse.mpr hp)
    simp at hnone
  | some q =>
    have hq := List.mem_reverse.mp (List.mem_of_find?_eq_some hfind)
    have hindex : q.1.legIdx = p.1.legIdx := of_decide_eq_true (List.find?_some hfind :)
    rw [Option.map_some, h.index q hq hindex]

/-- What the account holds of the contract of an entry that stands alone -/
theorem closable_entry (hr : Headroom db) {p : StructureOrder × ℕ} (hp : p ∈ entryOrders db sid)
    (h : StandsAlone db sid p.2 p.1) : closable db p.1.ibContract p.1.side.opposite = p.1.qtyFilled := by
  have hrow := (entryOrders_row hp).1
  have hothers : ∀ j (o : StructureOrder), db.orders[j]? = some o → j ≠ p.2 →
      against db p.1.ibContract p.1.side.opposite j o = 0 := by
    intro j o ho hj
    rw [against]
    split_ifs with hon hside
    · have hzero := (h.alone j (List.getElem?_eq_some_iff.mp ho).1 o ho hon).resolve_left hj
      rw [hzero]
      rfl
    · have hzero := (h.alone j (List.getElem?_eq_some_iff.mp ho).1 o ho hon).resolve_left hj
      rw [hzero]
      rfl
    · rfl
  rw [closable_eq hr.onSide, total_single hrow hothers, against, if_pos rfl,
    if_neg (Side.opposite_ne p.1.side).symm, h.counted]

/-- The closes of a position whose filled entries stand alone are admitted. -/
theorem admits_position {legs : List ClosingLegSpec} (hr : Headroom db) (halone : PositionAlone db sid)
    (hlegs : buildClosingLegs ((entryOrders db sid).map (·.1)) = .ok legs) (structureId : ℕ) (now : Instant) :
    Admits db (positionCloseOrders structureId (entryOrders db sid) legs now) := by
  rw [positionCloseOrders_eq structureId now hlegs]
  have hfilled : ∀ p ∈ (entryOrders db sid).filter fun p => 0 < p.1.qtyFilled,
      p ∈ entryOrders db sid ∧ 0 < p.1.qtyFilled ∧ StandsAlone db sid p.2 p.1 := by
    intro p hp
    obtain ⟨hmem, hpos⟩ := List.mem_filter.mp hp
    exact ⟨hmem, of_decide_eq_true hpos, halone p hmem (of_decide_eq_true hpos)⟩
  have hnodup := (nodup_entryOrders db sid).filter fun p => 0 < p.1.qtyFilled
  -- two entries in one row are one entry
  have hrow : ∀ p ∈ entryOrders db sid, ∀ q ∈ entryOrders db sid, p.2 = q.2 → p = q := by
    intro p hp q hq hpq
    have hp' := (entryOrders_row hp).1
    rw [hpq, (entryOrders_row hq).1] at hp'
    exact Prod.ext (Option.some.inj hp').symm hpq
  have hsum : ∀ p ∈ (entryOrders db sid).filter fun p => 0 < p.1.qtyFilled, ∀ sel : StructureOrder → Bool,
      (∀ q ∈ (entryOrders db sid).filter fun p => 0 < p.1.qtyFilled,
        sel (closeOf db sid structureId now q) → q.2 = p.2) →
      (((((entryOrders db sid).filter fun p => 0 < p.1.qtyFilled).map (closeOf db sid structureId now)).filter
        sel).map (·.qty)).sum ≤ p.1.qtyFilled := by
    intro p hp sel honly
    rw [List.filter_map, List.map_map]
    exact sum_only hnodup (fun q hq hsel => hrow q (hfilled q hq).1 p (hfilled p hp).1 (honly q hq hsel)) _
  constructor
  · intro o ho e he
    obtain ⟨p, hp, rfl⟩ := List.mem_map.mp ho
    obtain ⟨hmem, hpos, hstands⟩ := hfilled p hp
    rw [Option.mem_def, closeOf_closesOrderId hmem hstands] at he
    obtain rfl := Option.some.inj he
    have hnew := hsum p hp (closesLeg p.2) fun q hq hsel => by
      have htarget : (closeOf db sid structureId now q).Targets p.2 := of_decide_eq_true hsel
      rw [StructureOrder.Targets, closeOf_closesOrderId (hfilled q hq).1 (hfilled q hq).2.2] at htarget
      exact Option.some.inj htarget.1
    rw [hstands.unclosed, Nat.zero_add, heldQty_eq hr.wellFormed hr.onSide, ← hstands.counted]
    exact hnew
  · intro o ho
    obtain ⟨p, hp, rfl⟩ := List.mem_map.mp ho
    obtain ⟨hmem, hpos, hstands⟩ := hfilled p hp
    have hnew := hsum p hp (closesOn p.1.ibContract p.1.side.opposite) fun q hq hsel => by
      obtain ⟨hqmem, hqpos, hqstands⟩ := hfilled q hq
      have hon : _ ∧ q.1.ibContract = p.1.ibContract ∧ _ := of_decide_eq_true hsel
      have hqrow := (entryOrders_row hqmem).1
      refine (hstands.alone q.2 (List.getElem?_eq_some_iff.mp hqrow).1 q.1 hqrow hon.2.1).resolve_right fun hzero => ?_
      rw [hqstands.counted, hzero] at hqpos
      exact Nat.lt_irrefl 0 hqpos
    rw [closeOf_ibContract]
    change ((workingOf db (closesOn p.1.ibContract p.1.side.opposite) + _ : ℕ) : ℤ) ≤
      closable db p.1.ibContract p.1.side.opposite
    rw [hstands.idle, Nat.zero_add, closable_entry hr hmem hstands]
    exact_mod_cast hnew

end Checks

end FxVol
