import FxVol.BookConsistency
import FxVol.OrderSlots
import FxVol.PlacementClaims
import FxVol.TableTotals

/-!
# Rollback of a structure, run after run

What a leg has executed, what its unwinds have executed and still work on, and what the next
rollback plans.  `decide_rollback` counts a failed unwind as nothing, whatever it executed
before it failed; everywhere else the plan leaves room for what is there.
-/
namespace FxVol

open GuardedRuns KeyedPasses TableTotals

def isEntryOf (s l : ℕ) (o : StructureOrder) : Bool :=
  o.structureId = s ∧ o.orderRole = .entry ∧ o.legIdx = l

def isUnwindOf (s l : ℕ) (o : StructureOrder) : Bool :=
  o.structureId = s ∧ o.orderRole = .unwind ∧ o.legIdx = l

/-- What is left of an order that is not at an end. -/
def workingRest (db : Db) (i : ℕ) (o : StructureOrder) : ℕ :=
  if o.state.isTerminal then 0 else o.qty - db.recorded i

/-- What the unwinds of a leg have executed. -/
def unwoundQty (db : Db) (s l : ℕ) : ℕ :=
  total (fun i o => if isUnwindOf s l o then db.recorded i else 0) db.orders

def unwindingQty (db : Db) (s l : ℕ) : ℕ :=
  total (fun i o => if isUnwindOf s l o then workingRest db i o else 0) db.orders

def plannedQty (db : Db) (s l : ℕ) : ℕ :=
  (((rollbackPlan db s).unwinds.filter (·.legIdx = l)).map (·.qty)).sum

def entryQty (db : Db) (s l : ℕ) : ℕ :=
  total (fun _ o => if isEntryOf s l o then o.qtyFilled else 0) db.orders

/-- Unwinding a leg does not go beyond what was filled of it. -/
def NeverFlips (db : Db) (s l : ℕ) : Prop :=
  unwoundQty db s l + unwindingQty db s l + plannedQty db s l ≤ entryQty db s l

def OrderState.isFailed (s : OrderState) : Bool := s ∈ [OrderState.rejected, .cancelled, .expired]

/-- No unwind of the leg failed with a part executed, while the entry side of the leg is one that
`decide_rollback` unwinds. -/
def NoPartlyFailedUnwind (db : Db) (s l : ℕ) : Prop :=
  ∀ (i j : ℕ) (o u : StructureOrder), db.orders[i]? = some o → db.orders[j]? = some u →
    isEntryOf s l o → isUnwindOf s l u → o.state ∈ [OrderState.partiallyFilled, .filled] →
      u.state.isFailed → db.recorded j = 0

def FitsUnwinds (db : Db) : Event → Prop
  | .execution i fill _ => ¬ db.Booked (.ib fill.execId) → ∀ o ∈ db.orders[i]?,
      o.orderRole = .unwind → db.recorded i + fill.shares ≤ o.qty
  | .createUnwind .. => False
  | _ => True

/-- Rollback calls next to the writers of the book; unwinds come from the calls. -/
def RollsBack (w : World) : WorldEvent → Prop
  | .book e => KeepsBook w.db e ∧ FitsUnwinds w.db e
  | .startRollback _ | .run _ _ | .crash _ => True
  | _ => False

/-- Some entry leg has this much filled. -/
def EntryHolds (db : Db) (s l q : ℕ) : Prop :=
  ∃ i o, db.orders[i]? = some o ∧ isEntryOf s l o ∧ q ≤ db.recorded i

def RollbackPc.PlansHeld (db : Db) (s : ℕ) : RollbackPc → Prop
  | .start => True
  | .unwinding _ rest | .qualifying _ rest | .placing _ _ rest =>
    ∀ p ∈ rest, EntryHolds db s p.1.legIdx p.1.qty

def Call.PlansHeld (db : Db) : Call → Prop
  | .rollback s pc => pc.PlansHeld db s
  | .done => True
  | _ => False

structure RollbackInvariant (w : World) : Prop where
  wellFormed : w.db.WellFormed
  consistent : w.db.Consistent
  slotted : w.db.Slotted
  unwinds : ∀ (j : ℕ) (u : StructureOrder), w.db.orders[j]? = some u → u.orderRole = .unwind →
    w.db.recorded j ≤ u.qty ∧ EntryHolds w.db u.structureId u.legIdx u.qty
  calls : ∀ call ∈ w.calls, call.PlansHeld w.db

/-- Rows stay as they are for the book. -/
structure Touches (db db' : Db) : Prop where
  rows : ∀ (i : ℕ) (o : StructureOrder), db.orders[i]? = some o → ∃ o' : StructureOrder,
    db'.orders[i]? = some o' ∧ o'.leg = o.leg ∧ o'.legIdx = o.legIdx ∧
      o'.qtyFilled = o.qtyFilled ∧ (o'.state = .filled → o.state = .filled)
  length : db'.orders.length = db.orders.length
  fills : db'.fills = db.fills
  legPositions : db'.legPositions = db.legPositions
  structures : db'.structures.length = db.structures.length

section Touches
variable {db db' : Db} {i : ℕ} {o : StructureOrder}

theorem Touches.of_orders (ho : db'.orders = db.orders) (hf : db'.fills = db.fills)
    (hl : db'.legPositions = db.legPositions)
    (hs : db'.structures.length = db.structures.length) : Touches db db' := by
  refine ⟨?_, by rw [ho], hf, hl, hs⟩
  intro i o hrow
  exact ⟨o, by rw [ho, hrow], rfl, rfl, rfl, id⟩

theorem Touches.update (db : Db) (i : ℕ) {g : StructureOrder → StructureOrder}
    (hleg : ∀ o, (g o).leg = o.leg) (hidx : ∀ o, (g o).legIdx = o.legIdx)
    (hqty : ∀ o, (g o).qtyFilled = o.qtyFilled)
    (hstate : ∀ o, (g o).state = .filled → o.state = .filled) :
    Touches db (db.updateOrder i g) := by
  refine ⟨?_, List.length_modify .., rfl, rfl, rfl⟩
  intro j o ho
  refine ⟨_, updateOrder_row g ho, ?_⟩
  split_ifs
  · exact ⟨hleg o, hidx o, hqty o, hstate o⟩
  · exact ⟨rfl, rfl, rfl, id⟩

theorem Touches.recorded (h : Touches db db') (i : ℕ) : db'.recorded i = db.recorded i :=
  Db.recorded_congr h.fills i

theorem Touches.consistent (h : Touches db db') (hc : db.Consistent) : db'.Consistent := by
  refine ⟨?_, hc.folds.congr h.fills h.legPositions⟩
  intro i o' ho'
  have hi := (List.getElem?_eq_some_iff.mp ho').1
  rw [h.length] at hi
  have ho := List.getElem?_eq_getElem hi
  obtain ⟨o'', ho'', hleg, _, hqty, hstate⟩ := h.rows i _ ho
  obtain rfl : o'' = o' := Option.some.inj (ho''.symm.trans ho')
  have hrow := (hc.rows i _ ho).keep hleg hqty hstate
  exact ⟨by rw [h.recorded, hrow.qtyFilled], by rw [h.recorded]; exact hrow.filled⟩

theorem Touches.wellFormed (h : Touches db db') (hw : db.WellFormed) : db'.WellFormed := by
  refine ⟨?_, ?_⟩
  · rw [h.length, h.fills]
    exact hw.fillsOk
  · intro i o' ho' f hf p j hid
    have hi := (List.getElem?_eq_some_iff.mp ho').1
    rw [h.length] at hi
    have ho := List.getElem?_eq_getElem hi
    obtain ⟨o'', ho'', hleg, _⟩ := h.rows i _ ho
    obtain rfl : o'' = o' := Option.some.inj (ho''.symm.trans ho')
    rw [Db.fillsOf_congr h.fills] at hf
    rw [leg_qty hleg]
    exact hw.whole i _ ho f hf p j hid

theorem Touches.slotted (h : Touches db db') (hs : db.Slotted) : db'.Slotted := by
  apply hs.grow
  · intro i o ho
    obtain ⟨o', ho', hleg, hidx, _⟩ := h.rows i o ho
    refine ⟨o', ho', ?_⟩
    rw [StructureOrder.slot, hidx, leg_structureId hleg, leg_orderRole hleg]
    rfl
  · exact h.structures.ge
  · intro i o hi ho
    have hlt := (List.getElem?_eq_some_iff.mp ho).1
    rw [h.length] at hlt
    omega

end Touches

section Held
variable {db db' : Db} {s l q : ℕ}

theorem isEntryOf_iff {o : StructureOrder} : isEntryOf s l o ↔ o.slot = (s, l, .entry) := by
  simp only [isEntryOf, StructureOrder.slot, decide_eq_true_eq, Prod.mk.injEq]
  tauto

theorem isUnwindOf_iff {o : StructureOrder} : isUnwindOf s l o ↔ o.slot = (s, l, .unwind) := by
  simp only [isUnwindOf, StructureOrder.slot, decide_eq_true_eq, Prod.mk.injEq]
  tauto

/-- Rows keep their slot and nothing recorded is lost. -/
def KeepsSlots (db db' : Db) : Prop :=
  ∀ (i : ℕ) (o : StructureOrder), db.orders[i]? = some o →
    ∃ o' : StructureOrder, db'.orders[i]? = some o' ∧ o'.slot = o.slot ∧ o'.qty = o.qty ∧
      db.recorded i ≤ db'.recorded i

theorem EntryHolds.mono (h : EntryHolds db s l q) (hk : KeepsSlots db db') :
    EntryHolds db' s l q := by
  obtain ⟨i, o, ho, hentry, hq⟩ := h
  obtain ⟨o', ho', hslot, _, hle⟩ := hk i o ho
  exact ⟨i, o', ho', isEntryOf_iff.mpr (hslot.trans (isEntryOf_iff.mp hentry)), hq.trans hle⟩

theorem RollbackPc.PlansHeld.mono {pc : RollbackPc} (h : pc.PlansHeld db s)
    (hk : KeepsSlots db db') : pc.PlansHeld db' s := by
  cases pc with
  | start => trivial
  | unwinding | qualifying | placing => exact fun p hp => (h p hp).mono hk

theorem Call.PlansHeld.mono {call : Call} (h : call.PlansHeld db) (hk : KeepsSlots db db') :
    call.PlansHeld db' := by
  cases call with
  | rollback s pc => exact RollbackPc.PlansHeld.mono h hk
  | done => trivial
  | submit | close | hedge => exact h

theorem step_keepsSlots (db : Db) (e : Event) : KeepsSlots db (step db e) := by
  intro i o ho
  obtain ⟨o', ho', hchange⟩ := step_row e ho
  exact ⟨o', ho', hchange.slot, leg_qty hchange.leg, hchange.recorded_le⟩

theorem Touches.keepsSlots (h : Touches db db') : KeepsSlots db db' := by
  intro i o ho
  obtain ⟨o', ho', hleg, hidx, _⟩ := h.rows i o ho
  refine ⟨o', ho', ?_, leg_qty hleg, (h.recorded i).ge⟩
  rw [StructureOrder.slot, hidx, leg_structureId hleg, leg_orderRole hleg]
  rfl

end Held

section Step
variable {w : World} {db' : Db}

/-- An unwind keeps to its quantity. -/
theorem RowChange.unwind_le {db : Db} {i : ℕ} {o o' : StructureOrder} {e : Event}
    {fills : List StructureFill} (h : RowChange db i o e o' fills) (ho : db.orders[i]? = some o)
    (hrow : KeepsRow db i o e) (hfits : FitsUnwinds db e) (hrole : o.orderRole = .unwind)
    (hle : db.recorded i ≤ o.qty) : (fills.map (·.qtyFilled)).sum ≤ o.qty := by
  cases h with
  | comboBooked perm reason now hmem hopen =>
    rw [comboFills_sum, hrow hmem hopen]
    split_ifs <;> simp
  | @booked fill now hnew =>
    have hroom := hfits hnew o ho hrole
    simpa [Db.recorded, fillRow] using hroom
  | reported =>
    rw [List.map_map]
    simpa [Db.recorded, Function.comp_def] using hle
  | _ => exact hle

theorem RollbackInvariant.book (h : RollbackInvariant w) {e : Event} (hg : KeepsBook w.db e)
    (hfits : FitsUnwinds w.db e) : RollbackInvariant { w with db := step w.db e } := by
  have hkeeps := step_keepsSlots w.db e
  refine ⟨step_wellFormed e h.wellFormed, step_consistent h.wellFormed h.consistent hg,
    step_slotted h.slotted e, ?_, ?_⟩
  · intro j u' hu' hrole
    by_cases hj : j < w.db.orders.length
    · have hu := List.getElem?_eq_getElem hj
      obtain ⟨u'', hu'', hchange⟩ := step_row e hu
      obtain rfl : u'' = u' := Option.some.inj (hu''.symm.trans hu')
      have hslot := hchange.slot
      simp only [StructureOrder.slot, Prod.mk.injEq] at hslot
      obtain ⟨hsid, hidx, hroles⟩ := hslot
      obtain ⟨hle, hheld⟩ := h.unwinds j _ hu (hroles.symm.trans hrole)
      have hqty := leg_qty hchange.leg
      have hroom := hchange.unwind_le hu (hg.row hu) hfits (hroles.symm.trans hrole) hle
      refine ⟨?_, ?_⟩
      · rw [hqty]
        exact hroom
      · rw [hsid, hidx, hqty]
        exact hheld.mono hkeeps
    · -- the only writer of the book that inserts unwinds is excluded
      obtain ⟨sid, idx, leg, now, rfl⟩ := (step_takesSlot (by omega) hu').2 hrole
      exact hfits.elim
  · intro call hcall
    exact (h.calls call hcall).mono hkeeps

theorem RollbackInvariant.touch {w' : World} (h : RollbackInvariant w) (ht : Touches w.db w'.db)
    (hcalls : w'.calls = w.calls) : RollbackInvariant w' := by
  have hkeeps := ht.keepsSlots
  refine ⟨ht.wellFormed h.wellFormed, ht.consistent h.consistent, ht.slotted h.slotted, ?_, ?_⟩
  · intro j u' hu' hrole
    have hj := (List.getElem?_eq_some_iff.mp hu').1
    rw [ht.length] at hj
    obtain ⟨u'', hu'', hleg, hidx, _⟩ := ht.rows j _ (List.getElem?_eq_getElem hj)
    obtain rfl : u'' = u' := Option.some.inj (hu''.symm.trans hu')
    rw [leg_orderRole hleg] at hrole
    obtain ⟨hle, hheld⟩ := h.unwinds j _ (List.getElem?_eq_getElem hj) hrole
    rw [ht.recorded, leg_qty hleg, leg_structureId hleg, hidx]
    exact ⟨hle, hheld.mono hkeeps⟩
  · intro call hcall
    rw [hcalls] at hcall
    exact (h.calls call hcall).mono hkeeps

/-- The unwind of a leg that has it filled. -/
theorem RollbackInvariant.insert (h : RollbackInvariant w) {s : ℕ} {limit : ℚ} {now : Instant}
    {entry : StructureOrder} {u : UnwindAction}
    (hok : w.db.insertOrder (unwindOrder s entry u limit now) = .ok db')
    (hheld : EntryHolds w.db s u.legIdx u.qty) :
    RollbackInvariant { w with db := db' } ∧ KeepsSlots w.db db' := by
  have hadd : db' = w.db.addOrder (unwindOrder s entry u limit now) := (insertOrder_free hok).1
  have horders : db'.orders = w.db.orders ++ [unwindOrder s entry u limit now] := by rw [hadd]; rfl
  have hfills : db'.fills = w.db.fills := by rw [hadd]; rfl
  have hlegs : db'.legPositions = w.db.legPositions := by rw [hadd]; rfl
  have hrec : ∀ i, db'.recorded i = w.db.recorded i := Db.recorded_congr hfills
  have hold : ∀ (i : ℕ) (o : StructureOrder), w.db.orders[i]? = some o → db'.orders[i]? = some o := by
    intro i o ho
    have hi := (List.getElem?_eq_some_iff.mp ho).1
    rw [horders, List.getElem?_append_left hi, ho]
  have hkeeps : KeepsSlots w.db db' := fun i o ho => ⟨o, hold i o ho, rfl, rfl, (hrec i).ge⟩
  have hnew : ∀ (i : ℕ) (o : StructureOrder), w.db.orders.length ≤ i → db'.orders[i]? = some o →
      o = unwindOrder s entry u limit now ∧ db'.recorded i = 0 := by
    intro i o hi ho
    rw [horders, List.getElem?_append_right hi] at ho
    refine ⟨List.mem_singleton.mp (List.mem_of_getElem? ho), ?_⟩
    rw [hrec, Db.recorded, h.wellFormed.fillsOf_unknown hi]
    rfl
  refine ⟨⟨h.wellFormed.append horders hfills, ⟨?_, h.consistent.folds.congr hfills hlegs⟩, ?_, ?_,
    ?_⟩, hkeeps⟩
  · intro i o ho
    by_cases hi : i < w.db.orders.length
    · have hrow := List.getElem?_eq_getElem hi
      obtain rfl := Option.some.inj ((hold i _ hrow).symm.trans ho)
      have hc := h.consistent.rows i _ hrow
      exact ⟨by rw [hrec]; exact hc.qtyFilled, by rw [hrec]; exact hc.filled⟩
    · obtain ⟨rfl, hzero⟩ := hnew i o (by omega) ho
      refine ⟨hzero.symm, fun hstate => ?_⟩
      cases hstate
  · apply h.slotted.grow
    · exact fun i o ho => ⟨o, hold i o ho, rfl⟩
    · rw [hadd]
      exact le_rfl
    · exact fun i o hi ho => insertOrder_takesSlot hok rfl hi ho
  · intro j o ho hrole
    by_cases hj : j < w.db.orders.length
    · have hrow := List.getElem?_eq_getElem hj
      obtain rfl := Option.some.inj ((hold j _ hrow).symm.trans ho)
      obtain ⟨hle, hentry⟩ := h.unwinds j _ hrow hrole
      exact ⟨(hrec j).symm ▸ hle, hentry.mono hkeeps⟩
    · obtain ⟨rfl, hzero⟩ := hnew j o (by omega) ho
      have hzero' : db'.recorded j ≤ u.qty := by omega
      exact ⟨hzero', hheld.mono hkeeps⟩
  · exact fun call hcall => (h.calls call hcall).mono hkeeps

theorem mem_rows {db : Db} {s : ℕ} {o : StructureOrder} :
    o ∈ (db.ordersOf s).map (·.1) ↔ ∃ i : ℕ, db.orders[i]? = some o ∧ o.structureId = s := by
  simp only [Db.ordersOf, List.mem_map, List.mem_filter, decide_eq_true_eq, Prod.exists,
    exists_and_right, exists_eq_right, List.mem_zipIdx_iff_getElem?]

/-- A rollback plans no more than is filled. -/
theorem planned_held {db : Db} (hc : db.Consistent) {s : ℕ} {u : UnwindAction}
    (hu : u ∈ (rollbackPlan db s).unwinds) : EntryHolds db s u.legIdx u.qty := by
  simp only [rollbackPlan, decideRollback] at hu
  obtain ⟨o, ho, hunwind⟩ := List.mem_filterMap.mp hu
  obtain ⟨hrow, hrole⟩ := List.mem_filter.mp ho
  obtain ⟨i, hi, hsid⟩ := mem_rows.mp hrow
  have hqty := (hc.rows i o hi).qtyFilled
  unfold unwindOf at hunwind
  dsimp only at hunwind
  split_ifs at hunwind
  obtain rfl := Option.some.inj hunwind
  refine ⟨i, o, hi, ?_, by dsimp only; omega⟩
  simp only [isEntryOf, hsid, of_decide_eq_true hrole, and_self, decide_true]

theorem startRollback_touches (s : ℕ) (startedAt : Option Instant) :
    Touches w.db (w.startRollback s startedAt).db :=
  .of_orders rfl rfl rfl (List.length_modify ..)

theorem placeStep_touches (a : Answer) (i : ℕ) (pc : PlacePc) :
    Touches w.db (placeStep a w (.order i) pc).1.db ∧
      (placeStep a w (.order i) pc).1.calls = w.calls := by
  have same : Touches w.db w.db := .of_orders rfl rfl rfl rfl
  have claim (v : Option Instant) : Touches w.db (w.setClaim v (.row (.order i))).db :=
    .update w.db i (fun _ => rfl) (fun _ => rfl) (fun _ => rfl) (fun _ => id)
  cases pc with
  | start =>
    simp only [placeStep]
    split_ifs
    · exact ⟨claim _, rfl⟩
    · exact ⟨same, rfl⟩
  | claimed =>
    simp only [placeStep]
    cases a.placed <;> exact ⟨same, rfl⟩
  | releasing => exact ⟨claim none, rfl⟩
  | sent ids =>
    refine ⟨.update w.db i (fun _ => rfl) (fun _ => rfl) (fun _ => rfl) ?_, rfl⟩
    exact fun _ hfilled => by cases hfilled

theorem rollbackStep_invariant (h : RollbackInvariant w) (a : Answer) {s : ℕ} {pc : RollbackPc}
    (hp : pc.PlansHeld w.db s) : RollbackInvariant (rollbackStep a w s pc).1 ∧
      Continues (RollbackPc.PlansHeld (rollbackStep a w s pc).1.db s) (rollbackStep a w s pc).2 := by
  cases pc with
  | start =>
    simp only [rollbackStep]
    split_ifs
    · exact ⟨h, trivial⟩
    · exact ⟨h.touch (startRollback_touches s _) rfl, trivial⟩
    · refine ⟨h, ?_⟩
      intro p hmem
      obtain ⟨u, hu, rfl⟩ := List.mem_map.mp hmem
      exact planned_held h.consistent hu
  | unwinding startedAt rest =>
    rcases rest with _ | ⟨⟨u, _ | entry⟩, rest⟩
    · exact ⟨h.touch (startRollback_touches s startedAt) rfl, trivial⟩
    · exact ⟨h, fun p hmem => hp p (List.mem_cons_of_mem _ hmem)⟩
    · simp only [rollbackStep]
      split_ifs
      · exact ⟨h, fun p hmem => hp p (List.mem_cons_of_mem _ hmem)⟩
      · split
        · exact ⟨h, trivial⟩
        · next db hok =>
          have hheld : EntryHolds w.db s u.legIdx u.qty := hp _ List.mem_cons_self
          obtain ⟨hins, hkeeps⟩ := h.insert hok hheld
          have htouch := startRollback_touches (w := { w with db := db }) s startedAt
          refine ⟨hins.touch htouch rfl, ?_⟩
          intro p hmem
          exact ((hp p (List.mem_cons_of_mem _ hmem)).mono hkeeps).mono htouch.keepsSlots
  | qualifying i rest =>
    simp only [rollbackStep]
    split_ifs
    · exact ⟨h, hp⟩
    · exact ⟨h, hp⟩
    · exact ⟨h, trivial⟩
  | placing i pc rest =>
    obtain ⟨htouch, hcalls⟩ := placeStep_touches (w := w) a i pc
    have hinv := h.touch htouch hcalls
    have hrest : ∀ p ∈ rest, EntryHolds (placeStep a w (.order i) pc).1.db s p.1.legIdx p.1.qty :=
      fun p hmem => (hp p hmem).mono htouch.keepsSlots
    simp only [rollbackStep]
    revert hinv hrest
    rcases placeStep a w (.order i) pc with ⟨w', _ | _ | _ | _⟩
    · exact fun hinv hrest => ⟨hinv, hrest⟩
    · exact fun hinv hrest => ⟨hinv, hrest⟩
    · exact fun hinv _ => ⟨hinv, trivial⟩
    · exact fun hinv hrest => ⟨hinv, hrest⟩

theorem RollbackInvariant.setCall (h : RollbackInvariant w) {call : Call}
    (hcall : call.PlansHeld w.db) (c : ℕ) :
    RollbackInvariant { w with calls := w.calls.set c call } := by
  refine ⟨h.wellFormed, h.consistent, h.slotted, h.unwinds, ?_⟩
  intro call' hmem
  rcases List.mem_or_eq_of_mem_set hmem with hold | rfl
  · exact h.calls call' hold
  · exact hcall

theorem worldStep_rollbackInvariant (cfg : SubmitConfig) (h : RollbackInvariant w) {e : WorldEvent}
    (hg : RollsBack w e) : RollbackInvariant (worldStep cfg w e) := by
  cases e with
  | book e => exact h.book hg.1 hg.2
  | startRollback s =>
    refine ⟨h.wellFormed, h.consistent, h.slotted, h.unwinds, ?_⟩
    intro call hmem
    rcases List.mem_append.mp hmem with hold | hnew
    · exact h.calls call hold
    · rw [List.mem_singleton.mp hnew]
      trivial
  | run c a =>
    simp only [worldStep]
    split
    · exact h
    · next call hcall =>
      have hheld := h.calls call (List.mem_of_getElem? hcall)
      cases call with
      | rollback s pc =>
        obtain ⟨hinv, hnext⟩ := rollbackStep_invariant h a hheld
        simp only [callStep]
        revert hinv hnext
        rcases rollbackStep a w s pc with ⟨w', _ | pc'⟩
        · intro hinv _
          have hdone : Call.done.PlansHeld w'.db := trivial
          exact hinv.setCall hdone c
        · intro hinv hnext
          have hcall : (Call.rollback s pc').PlansHeld w'.db := hnext
          exact hinv.setCall hcall c
      | done => exact h.setCall hheld c
      | submit | close | hedge => exact hheld.elim
  | crash c =>
    have hdone : Call.done.PlansHeld w.db := trivial
    exact h.setCall hdone c
  | newHedge | hedgeFilled | startSubmit | startClose | startHedge => exact hg.elim

theorem rollbackInvariant_empty : RollbackInvariant World.empty where
  wellFormed := wellFormed_empty
  consistent := consistent_empty
  slotted := slotted_empty
  unwinds := by simp [World.empty, Db.empty]
  calls := by simp [World.empty]

end Step

/-- The unwinds `load_order_states` finds. -/
def unwindRows (db : Db) (s : ℕ) : List StructureOrder :=
  ((db.ordersOf s).map (·.1)).filter fun o => o.orderRole = .unwind

section Plan
variable {db : Db} {s l : ℕ}

theorem unwindOf_legIdx {rows : List StructureOrder} {o : StructureOrder} {u : UnwindAction}
    (h : unwindOf rows o = some u) : u.legIdx = o.legIdx := by
  unfold unwindOf at h
  dsimp only at h
  split_ifs at h
  rw [← Option.some.inj h]

theorem sum_unwinds (rows entries : List StructureOrder) (l : ℕ) :
    (((entries.filterMap (unwindOf rows)).filter (·.legIdx = l)).map (·.qty)).sum =
      (entries.map fun o => if o.legIdx = l then (unwindOf rows o).elim 0 (·.qty) else 0).sum := by
  induction entries with
  | nil => rfl
  | cons o entries ih =>
    rw [List.map_cons, List.sum_cons, ← ih]
    cases hu : unwindOf rows o with
    | none => simp [hu]
    | some u =>
      have hidx := unwindOf_legIdx hu
      by_cases hl : o.legIdx = l <;> simp [hu, hidx, hl]

theorem plannedQty_eq (db : Db) (s l : ℕ) : plannedQty db s l = total (fun _ o =>
    if isEntryOf s l o then (unwindOf (unwindRows db s) o).elim 0 (·.qty) else 0) db.orders := by
  have hplan : (rollbackPlan db s).unwinds = (((db.ordersOf s).map (·.1)).filter fun o =>
      o.orderRole = .entry).filterMap (unwindOf (unwindRows db s)) := rfl
  have hentries : (((db.ordersOf s).map (·.1)).filter fun o => o.orderRole = .entry) =
      db.orders.filter fun o => o.orderRole = .entry ∧ o.structureId = s := by
    rw [Db.ordersOf_rows, List.filter_filter]
    simp only [Bool.decide_and]
  rw [plannedQty, hplan, sum_unwinds, hentries, ← sum_selected, total_const]
  congr 1
  apply List.map_congr_left
  intro o _
  by_cases hs : o.structureId = s <;> by_cases hr : o.orderRole = .entry <;>
    by_cases hl : o.legIdx = l <;> simp [isEntryOf, hs, hr, hl]

theorem coveredQty_eq (db : Db) (s l : ℕ) : coveredQty (unwindRows db s) l = total (fun _ u =>
    if isUnwindOf s l u then (if u.state.isFailed then 0 else u.qty) else 0) db.orders := by
  rw [coveredQty, unwindRows, Db.ordersOf_rows, List.filter_filter, List.filter_filter,
    ← sum_selected, total_const]
  congr 2
  funext u
  by_cases hs : u.structureId = s <;> by_cases hr : u.orderRole = .unwind <;>
    by_cases hl : u.legIdx = l <;> by_cases hf : u.state.isFailed <;>
    simp_all [isUnwindOf, OrderState.isFailed]

end Plan

section Law
variable {w : World} {s l : ℕ}

theorem RollbackInvariant.entry_unique (h : RollbackInvariant w) {i j : ℕ}
    {o o' : StructureOrder} (ho : w.db.orders[i]? = some o) (hentry : isEntryOf s l o)
    (ho' : w.db.orders[j]? = some o') (hentry' : isEntryOf s l o') : j = i := by
  have hslot := isEntryOf_iff.mp hentry'
  have hrole : o'.orderRole = .entry := congrArg (fun x => x.2.2) hslot
  exact h.slotted.once j i o' o ho' ho (hslot.trans (isEntryOf_iff.mp hentry).symm)
    (by rw [hrole]; decide)

theorem RollbackInvariant.unwind_unique (h : RollbackInvariant w) {i j : ℕ}
    {u u' : StructureOrder} (hu : w.db.orders[i]? = some u) (hunwind : isUnwindOf s l u)
    (hu' : w.db.orders[j]? = some u') (hunwind' : isUnwindOf s l u') : j = i := by
  have hslot := isUnwindOf_iff.mp hunwind'
  have hrole : u'.orderRole = .unwind := congrArg (fun x => x.2.2) hslot
  exact h.slotted.once j i u' u hu' hu (hslot.trans (isUnwindOf_iff.mp hunwind).symm)
    (by rw [hrole]; decide)

/-- The one entry row of a leg is all there is of its entry side. -/
theorem RollbackInvariant.entry_total (h : RollbackInvariant w) {i : ℕ} {o : StructureOrder}
    (ho : w.db.orders[i]? = some o) (hentry : isEntryOf s l o) (f : StructureOrder → ℕ) :
    total (fun _ o => if isEntryOf s l o then f o else 0) w.db.orders = f o := by
  rw [total_single ho]
  · exact if_pos hentry
  · intro j o' ho' hne
    exact if_neg fun hentry' => hne (h.entry_unique ho hentry ho' hentry')

/-- The same of its one unwind. -/
theorem RollbackInvariant.unwind_total (h : RollbackInvariant w) {j : ℕ} {u : StructureOrder}
    (hu : w.db.orders[j]? = some u) (hunwind : isUnwindOf s l u) (f : ℕ → StructureOrder → ℕ) :
    total (fun j u => if isUnwindOf s l u then f j u else 0) w.db.orders = f j u := by
  rw [total_single hu]
  · exact if_pos hunwind
  · intro k u' hu' hne
    exact if_neg fun hunwind' => hne (h.unwind_unique hu hunwind hu' hunwind')

theorem selected_none {f : ℕ → StructureOrder → ℕ} {p : StructureOrder → Bool} {db : Db}
    (h : ∀ (i : ℕ) (o : StructureOrder), db.orders[i]? = some o → ¬ p o) :
    total (fun i o => if p o then f i o else 0) db.orders = 0 := by
  apply total_eq_zero
  intro i o ho
  exact if_neg (h i o ho)

/-- The unwind of a leg was planned from its one entry row. -/
theorem RollbackInvariant.unwind_within (h : RollbackInvariant w) {i j : ℕ} {o u : StructureOrder}
    (ho : w.db.orders[i]? = some o) (hentry : isEntryOf s l o) (hu : w.db.orders[j]? = some u)
    (hunwind : isUnwindOf s l u) : w.db.recorded j ≤ u.qty ∧ u.qty ≤ o.qtyFilled := by
  have hslot := isUnwindOf_iff.mp hunwind
  simp only [StructureOrder.slot, Prod.mk.injEq] at hslot
  obtain ⟨hsid, hidx, hrole⟩ := hslot
  obtain ⟨hle, k, e, he, hentry', hq⟩ := h.unwinds j u hu hrole
  rw [hsid, hidx] at hentry'
  obtain rfl := h.entry_unique ho hentry he hentry'
  obtain rfl := Option.some.inj (he.symm.trans ho)
  rw [(h.consistent.rows k e he).qtyFilled]
  exact ⟨hle, hq⟩

/-- An unwind that did not fail has executed or still works on its whole quantity. -/
theorem RollbackInvariant.unwind_claims (h : RollbackInvariant w) {j : ℕ} {u : StructureOrder}
    (hu : w.db.orders[j]? = some u) (hle : w.db.recorded j ≤ u.qty) :
    w.db.recorded j + workingRest w.db j u =
      if u.state.isFailed then w.db.recorded j else u.qty := by
  have hfilled := (h.consistent.rows j u hu).filled
  rw [workingRest]
  cases hstate : u.state with
  | rejected | cancelled | expired => rfl
  | filled =>
    have hall := hfilled hstate
    exact le_antisymm hle hall
  | pending | submitted | acknowledged | partiallyFilled => exact Nat.add_sub_of_le hle

/-- What a rollback plans of an entry row. -/
theorem unwindOf_qty (rows : List StructureOrder) (o : StructureOrder) :
    (unwindOf rows o).elim 0 (·.qty) =
      if o.state ∈ [OrderState.partiallyFilled, .filled] then
        o.qtyFilled - coveredQty rows o.legIdx
      else 0 := by
  unfold unwindOf
  dsimp only
  by_cases hstate : o.state ∈ [OrderState.partiallyFilled, .filled]
  · simp only [hstate, and_true, if_true]
    split_ifs with hfilled hresidual
    · rfl
    · rw [Option.elim_none]
      omega
    · rw [Option.elim_none]
      omega
  · simp only [hstate, and_false, if_false, Option.elim_none]

/-- A leg is unwound within what was filled of it exactly when no unwind of it failed with a part
executed while its entry side is one that is unwound. -/
theorem RollbackInvariant.neverFlips_iff (h : RollbackInvariant w) (s l : ℕ) :
    NeverFlips w.db s l ↔ NoPartlyFailedUnwind w.db s l := by
  by_cases hentry : ∃ (i : ℕ) (o : StructureOrder), w.db.orders[i]? = some o ∧ isEntryOf s l o
  · obtain ⟨i, o, ho, hentry⟩ := hentry
    have hidx : o.legIdx = l := congrArg (fun x => x.2.1) (isEntryOf_iff.mp hentry)
    have hfilled : entryQty w.db s l = o.qtyFilled := h.entry_total ho hentry (·.qtyFilled)
    have hplanned := (plannedQty_eq w.db s l).trans (h.entry_total ho hentry _)
    rw [unwindOf_qty, hidx, coveredQty_eq] at hplanned
    by_cases hunwind : ∃ (j : ℕ) (u : StructureOrder), w.db.orders[j]? = some u ∧
        isUnwindOf s l u
    · obtain ⟨j, u, hu, hunwind⟩ := hunwind
      obtain ⟨hle, hwithin⟩ := h.unwind_within ho hentry hu hunwind
      have hunwound : unwoundQty w.db s l = w.db.recorded j :=
        h.unwind_total hu hunwind fun j _ => w.db.recorded j
      have hrest : unwindingQty w.db s l = workingRest w.db j u :=
        h.unwind_total hu hunwind (workingRest w.db)
      rw [h.unwind_total hu hunwind fun _ u => if u.state.isFailed then 0 else u.qty] at hplanned
      have hclean : NoPartlyFailedUnwind w.db s l ↔
          (o.state ∈ [OrderState.partiallyFilled, .filled] → u.state.isFailed →
            w.db.recorded j = 0) := by
        constructor
        · exact fun hall hstate hfailed => hall i j o u ho hu hentry hunwind hstate hfailed
        · intro hone i' j' o' u' ho' hu' hentry' hunwind' hstate hfailed
          obtain rfl := h.entry_unique ho hentry ho' hentry'
          obtain rfl := h.unwind_unique hu hunwind hu' hunwind'
          obtain rfl := Option.some.inj (ho.symm.trans ho')
          obtain rfl := Option.some.inj (hu.symm.trans hu')
          exact hone hstate hfailed
      have hclaims := h.unwind_claims hu hle
      rw [hclean, NeverFlips, hunwound, hrest, hplanned, hfilled, hclaims]
      split_ifs with hfailed hstate hstate
      · simp only [hfailed, hstate, forall_const]
        omega
      · exact iff_of_true (by omega) fun hno => absurd hno hstate
      · exact iff_of_true (by omega) fun _ hno => absurd hno hfailed
      · exact iff_of_true (by omega) fun hno => absurd hno hstate
    · push Not at hunwind
      have hunwound : unwoundQty w.db s l = 0 := selected_none hunwind
      have hrest : unwindingQty w.db s l = 0 := selected_none hunwind
      have hclean : NoPartlyFailedUnwind w.db s l :=
        fun _ j _ u _ hu _ hunwind' => absurd hunwind' (hunwind j u hu)
      refine iff_of_true ?_ hclean
      rw [NeverFlips, hunwound, hrest, hplanned, hfilled]
      split_ifs <;> omega
  · push Not at hentry
    have hplanned := (plannedQty_eq w.db s l).trans (selected_none hentry)
    have hnone : ∀ (j : ℕ) (u : StructureOrder), w.db.orders[j]? = some u → ¬ isUnwindOf s l u := by
      intro j u hu hunwind
      have hslot := isUnwindOf_iff.mp hunwind
      simp only [StructureOrder.slot, Prod.mk.injEq] at hslot
      obtain ⟨hsid, hidx, hrole⟩ := hslot
      obtain ⟨_, i, o, ho, hentry', _⟩ := h.unwinds j u hu hrole
      exact hentry i o ho (by rwa [hsid, hidx] at hentry')
    have hunwound : unwoundQty w.db s l = 0 := selected_none hnone
    have hrest : unwindingQty w.db s l = 0 := selected_none hnone
    have hclean : NoPartlyFailedUnwind w.db s l :=
      fun i _ o _ ho _ hentry' _ => absurd hentry' (hentry i o ho)
    refine iff_of_true ?_ hclean
    rw [NeverFlips, hunwound, hrest, hplanned]
    exact Nat.zero_le _

/-- In every run of rollback calls, fills, partial fills, cancels, rejects and expiries, at any
moment: what the unwinds of a leg have executed, still work on and would be planned for now is
within what was filled of it, exactly when no unwind of the leg failed with a part executed while
its entry side is one that is unwound. -/
theorem rollback_never_flips_iff {cfg : SubmitConfig}
    (hrun : Run (worldStep cfg) RollsBack World.empty w) (s l : ℕ) :
    NeverFlips w.db s l ↔ NoPartlyFailedUnwind w.db s l :=
  (hrun.invariant (fun _ _ hinv hg => worldStep_rollbackInvariant cfg hinv hg)
    rollbackInvariant_empty).neverFlips_iff s l

end Law

instance (db : Db) : ∀ e, Decidable (FitsUnwinds db e)
  | .execution i fill _ => inferInstanceAs (Decidable (¬ db.Booked (.ib fill.execId) →
      ∀ o ∈ db.orders[i]?, o.orderRole = .unwind → db.recorded i + fill.shares ≤ o.qty))
  | .createUnwind .. => .isFalse not_false
  | .submitPreview .. | .stampLive .. | .stampPlacement .. | .orderStatus .. | .comboStatus ..
  | .commissionReport .. | .completeStructure .. | .reconcile .. | .reap .. | .reconnect ..
  | .syncPositions .. | .closeRequest .. | .closeAnswer .. | .cancelTrade .. | .positionClose .. =>
    .isTrue trivial

instance (w : World) : ∀ e, Decidable (RollsBack w e)
  | .book e => inferInstanceAs (Decidable (KeepsBook w.db e ∧ FitsUnwinds w.db e))
  | .startRollback _ | .run .. | .crash _ => .isTrue trivial
  | .newHedge .. | .hedgeFilled _ | .startSubmit .. | .startClose _ | .startHedge _ =>
    .isFalse not_false

/-- A leg of ten is filled and rolled back; the unwind executes four and is cancelled. -/
def partlyUnwound : List WorldEvent :=
  [.book (.submitPreview [callLeg .buy 10] 0), .book (.stampLive 0 (some 11) none none 1),
    .book (.execution 0 (execution "1" "BOT" 10 (some 0)) 2), .startRollback 0] ++
  List.replicate 7 (.run 0 (answer 3 (some ⟨some 12, none⟩))) ++
  [.book (.execution 1 (execution "2" "SLD" 4 (some 0)) 4)]

def unwindCancelled : List WorldEvent :=
  partlyUnwound ++ [.book (.orderStatus 1 .cancelled none 5)]

theorem rollback_never_flips_iff_partlyUnwound :
    NeverFlips (partlyUnwound.foldl (worldStep ⟨["EUR"], 1 / 2⟩) .empty).db 0 0 ↔
      NoPartlyFailedUnwind (partlyUnwound.foldl (worldStep ⟨["EUR"], 1 / 2⟩) .empty).db 0 0 :=
  rollback_never_flips_iff (Run.of_foldl partlyUnwound (by decide +kernel)) 0 0

/-- A second rollback plans the whole ten again. -/
theorem unwound_twice : ¬ ∀ (cfg : SubmitConfig) (w : World),
    Run (worldStep cfg) RollsBack World.empty w → ∀ s l, NeverFlips w.db s l := by
  intro h
  have hflips := h ⟨["EUR"], 1 / 2⟩ _ (Run.of_foldl unwindCancelled (by decide +kernel)) 0 0
  revert hflips
  unfold NeverFlips
  decide +kernel

end FxVol
