import FxVol.TableGrowth
import FxVol.RowUpdates

/-!
# Booking a combo from two sources

The events of one BAG: executions of its legs, routed by `conId`, executions on the BAG's own
contract, and `Filled` statuses.  A `Filled` status books the legs in one transaction, but it
takes no order lock: it reads the legs one by one and writes at its commit, and other events
may commit in between.  Read and committed in one go, this is `bookComboFilled`.
-/
namespace FxVol

open GuardedRuns KeyedPasses RowUpdates

/-- A placed BAG: its permanent id and `conid_to_order`. -/
structure Bag where
  perm : String
  conidToOrder : List (ℕ × ℕ)
  deriving DecidableEq

def Bag.orderIds (bag : Bag) : List ℕ := bag.conidToOrder.map (·.2)

/-- `_leg_for`: the leg whose contract was executed. -/
def Bag.legFor (bag : Bag) (fill : IbFill) : Option ℕ :=
  if fill.conId = 0 then none
  else (bag.conidToOrder.find? fun r => r.1 = fill.conId).map (·.2)

/-- What a booking has read of one leg. -/
structure LegSnapshot where
  orderId : ℕ
  order : StructureOrder
  seen : Bool
  deriving DecidableEq

/-- A `Filled` booking in progress: the legs it has still to read, and what it has read. -/
structure Booking where
  rest : List ℕ
  snaps : List LegSnapshot
  deriving DecidableEq

def readLeg (perm : String) (db : Db) (orderId : ℕ) : Option LegSnapshot :=
  (db.orders[orderId]?).map fun o =>
    { orderId := orderId
      order := o
      seen := .combo perm orderId ∈ (db.fillsOf orderId).map (·.ibExecutionId) }

/-- The columns a booking writes, from what it read of the leg. -/
def StructureOrder.comboWritten (o : StructureOrder) (read : StructureOrder) (now : Instant) :
    StructureOrder :=
  { o with
    qtyFilled := read.qty
    avgFillPrice :=
      if read.avgFillPrice = none then some (read.previewPrice.getD 0) else o.avgFillPrice
    state := .filled
    fullyFilledAt := some now }

def writeLeg (db : Db) (leg : LegSnapshot) (now : Instant) : Db :=
  let db₁ := db.updateOrder leg.orderId fun o => o.comboWritten leg.order now
  releaseReservation (rebuildLeg db₁ leg.orderId) leg.order

def commitLeg (perm : String) (now : Instant) (db : Db) (leg : LegSnapshot) : Except DbError Db :=
  if leg.order.state = .filled then .ok db
  else
    let inserted :=
      if leg.seen then .ok db else db.insertFill (comboFillRow perm now leg.orderId leg.order)
    match inserted with
    | .error e => .error e
    | .ok db₁ => .ok (writeLeg db₁ leg now)

inductive BagEvent
  | execution (fill : IbFill) (now : Instant)
  | filled
  | read (booking : ℕ)
  | commit (booking : ℕ) (now : Instant)

structure BagState where
  db : Db
  bookings : List Booking
  reportedFilled : Bool

/-- A BAG is reported filled once a booking of it has committed. -/
def bagStep (bag : Bag) (s : BagState) : BagEvent → BagState
  | .execution fill now =>
    match bag.legFor fill with
    | none => s
    | some orderId => { s with db := deliverFill s.db orderId fill now }
  | .filled => { s with bookings := s.bookings ++ [⟨bag.orderIds, []⟩] }
  | .read k =>
    { s with
      bookings := s.bookings.modify k fun b =>
        match b.rest with
        | [] => b
        | i :: rest => ⟨rest, b.snaps ++ (readLeg bag.perm s.db i).toList⟩ }
  | .commit k now =>
    match s.bookings[k]? with
    | some ⟨[], snaps⟩ =>
      match snaps.foldlM (commitLeg bag.perm now) s.db with
      | .ok db' => ⟨db', s.bookings.eraseIdx k, true⟩
      | .error _ => { s with bookings := s.bookings.eraseIdx k }
    | _ => s

def BagState.placed (db : Db) : BagState := ⟨db, [], false⟩

/-- The legs as they are placed: not filled, and with nothing recorded. -/
def Placed (bag : Bag) (db : Db) : Prop :=
  ∀ i ∈ bag.orderIds, ∃ o, db.orders[i]? = some o ∧ o.state ≠ .filled ∧ db.fillsOf i = []

/-- Another booking has already inserted a synthetic fill that this one is about to insert. -/
def Booking.Collides (perm : String) (db : Db) (b : Booking) : Prop :=
  ∃ leg ∈ b.snaps, leg.order.state ≠ .filled ∧ leg.seen = false ∧
    db.Booked (.combo perm leg.orderId)

/-- A new execution fits what its leg has left, so none follows the synthetic fill of its leg.
A booking that goes through finds nothing recorded on a leg it books whole. -/
def KeepsExact (bag : Bag) (s : BagState) : BagEvent → Prop
  | .execution fill _ => ∀ i ∈ bag.legFor fill, ∀ o ∈ s.db.orders[i]?,
      ¬ s.db.Booked (.ib fill.execId) → s.db.recorded i + fill.shares ≤ o.qty
  | .commit k _ => ∀ b ∈ s.bookings[k]?, b.rest = [] → b.Collides bag.perm s.db ∨
      ∀ leg ∈ b.snaps, leg.order.state ≠ .filled → leg.seen = false →
        s.db.recorded leg.orderId = 0
  | _ => True

structure LegExact (perm : String) (db : Db) (i : ℕ) (o : StructureOrder) : Prop where
  within : db.recorded i ≤ o.qty
  filled : o.state = .filled → db.recorded i = o.qty
  synthetic : db.Booked (.combo perm i) → db.recorded i = o.qty

/-- What a booking has read is still true of the leg, as far as it matters. -/
structure ReadOk (bag : Bag) (db : Db) (leg : LegSnapshot) : Prop where
  member : leg.orderId ∈ bag.orderIds
  row : ∃ o, db.orders[leg.orderId]? = some o ∧ o.qty = leg.order.qty ∧
    (leg.order.state = .filled → db.recorded leg.orderId = o.qty)
  seen : leg.seen → db.Booked (.combo bag.perm leg.orderId)

def LegsExact (bag : Bag) (db : Db) : Prop :=
  ∀ i ∈ bag.orderIds, ∀ o, db.orders[i]? = some o → LegExact bag.perm db i o

/-- Rows persist, nothing recorded is lost and no execution id goes away. -/
structure Grows (db db' : Db) : Prop where
  evolves : Evolves db db'
  booked : ∀ id, db.Booked id → db'.Booked id
  length : db'.orders.length = db.orders.length

section Growth
variable {bag : Bag} {db db' db'' : Db} {i : ℕ} {o : StructureOrder} {leg : LegSnapshot}

theorem Grows.refl (db : Db) : Grows db db := ⟨.refl db, fun _ h => h, rfl⟩

theorem Grows.trans (h : Grows db db') (h' : Grows db' db'') : Grows db db'' where
  evolves := h.evolves.trans h'.evolves
  booked id hid := h'.booked id (h.booked id hid)
  length := h'.length.trans h.length

/-- A leg whose fills sum to its quantity stays so, as long as no leg has more. -/
theorem Grows.exact (h : Grows db db') (hx : LegsExact bag db') (hi : i ∈ bag.orderIds)
    (ho : db.orders[i]? = some o) (hq : db.recorded i = o.qty) :
    ∃ o', db'.orders[i]? = some o' ∧ o'.qty = o.qty ∧ db'.recorded i = o'.qty := by
  obtain ⟨o', ho', hleg, hle⟩ := h.evolves i o ho
  have hqty : o'.qty = o.qty := leg_qty hleg
  have hwithin := (hx i hi o' ho').within
  exact ⟨o', ho', hqty, by omega⟩

theorem ReadOk.mono (h : ReadOk bag db leg) (hg : Grows db db') (hx : LegsExact bag db') :
    ReadOk bag db' leg := by
  obtain ⟨o, ho, hqty, hfilled⟩ := h.row
  obtain ⟨o', ho', hleg, _⟩ := hg.evolves _ o ho
  refine ⟨h.member, ⟨o', ho', (leg_qty hleg).trans hqty, ?_⟩, fun hs => hg.booked _ (h.seen hs)⟩
  intro hf
  obtain ⟨o₁, ho₁, _, hq⟩ := hg.exact hx h.member ho (hfilled hf)
  obtain rfl : o₁ = o' := Option.some.inj (ho₁.symm.trans ho')
  exact hq

end Growth

section Executions
variable {bag : Bag} {db : Db} {i j : ℕ} {o : StructureOrder} {fill : IbFill} {now : Instant}

theorem deliverFill_grows (db : Db) (i : ℕ) (fill : IbFill) (now : Instant) :
    Grows db (deliverFill db i fill now) := by
  refine ⟨step_evolves db (.execution i fill now), ?_, ?_⟩
  · intro id hid
    rcases deliverFill_cases db i fill now with h | ⟨o, _, _, h⟩
    · rwa [h]
    · rw [h, bookFill_booked]
      exact .inl hid
  · rcases deliverFill_cases db i fill now with h | ⟨o, _, _, h⟩
    · rw [h]
    · rw [h, bookFill_orders, List.length_set]

/-- An execution that fits keeps every leg exact. -/
theorem deliverFill_legsExact (hx : LegsExact bag db) (hi : i ∈ bag.orderIds)
    (hfits : ∀ o ∈ db.orders[i]?, ¬ db.Booked (.ib fill.execId) →
      db.recorded i + fill.shares ≤ o.qty) :
    LegsExact bag (deliverFill db i fill now) := by
  rcases deliverFill_cases db i fill now with h | ⟨o, ho, hnew, h⟩
  · rwa [h]
  · rw [h]
    have hfit := hfits o ho hnew
    intro j hj o' ho'
    have hbooked : (bookFill db i o fill now).Booked (.combo bag.perm j) →
        db.Booked (.combo bag.perm j) := by
      rw [bookFill_booked]
      rintro (hb | hb)
      · exact hb
      · cases hb
    by_cases hji : j = i
    · subst hji
      rw [bookFill_orders, setOrder_row _ ho, if_pos rfl] at ho'
      obtain rfl := Option.some.inj ho'
      have hold := hx j hj o ho
      have hqty : (o.booked fill (aggregatesWith db j o fill) now).qty = o.qty :=
        leg_qty booked_leg
      refine ⟨?_, ?_, ?_⟩
      · rw [bookFill_recorded, if_pos rfl, hqty]
        exact hfit
      · intro hf
        rw [booked_state] at hf
        split_ifs at hf with hfull
        have hge := (aggregatesWith_fullyFilled.mp hfull).2
        rw [bookFill_recorded, if_pos rfl, hqty]
        omega
      · intro hb
        have hq := hold.synthetic (hbooked hb)
        rw [bookFill_recorded, if_pos rfl, hqty]
        omega
    · have hrow : db.orders[j]? = some o' := by
        rw [bookFill_orders] at ho'
        exact (Db.setOrder_getElem?_ne db i _ hji).symm.trans ho'
      have hold := hx j hj o' hrow
      have hrec : (bookFill db i o fill now).recorded j = db.recorded j := by
        rw [bookFill_recorded, if_neg hji]
      exact ⟨hrec ▸ hold.within, fun hf => hrec ▸ hold.filled hf,
        fun hb => hrec ▸ hold.synthetic (hbooked hb)⟩

end Executions

section Commits
variable {bag : Bag} {perm : String} {now : Instant} {db db' db₁ : Db} {leg : LegSnapshot}
  {snaps : List LegSnapshot}

@[simp] theorem writeLeg_fills : (writeLeg db leg now).fills = db.fills := by
  simp [writeLeg]

theorem writeLeg_orders : (writeLeg db leg now).orders =
    (db.updateOrder leg.orderId fun o => o.comboWritten leg.order now).orders := by
  simp [writeLeg]

/-- What a leg commits to: its synthetic fill is there already, or is inserted now. -/
def Inserted (perm : String) (now : Instant) (leg : LegSnapshot) (db db₁ : Db) : Prop :=
  (leg.seen ∧ db₁ = db) ∨
  (leg.seen = false ∧ ¬ db.Booked (.combo perm leg.orderId) ∧
    db₁ = db.addFill (comboFillRow perm now leg.orderId leg.order))

/-- A leg that commits was read as filled and is skipped, or is booked whole. -/
theorem commitLeg_cases (hok : commitLeg perm now db leg = .ok db') :
    (leg.order.state = .filled ∧ db' = db) ∨
    (leg.order.state ≠ .filled ∧ ∃ db₁, Inserted perm now leg db db₁ ∧
      db' = writeLeg db₁ leg now) := by
  unfold commitLeg at hok
  by_cases hf : leg.order.state = .filled
  · rw [if_pos hf] at hok
    exact .inl ⟨hf, (Except.ok.inj hok).symm⟩
  · rw [if_neg hf] at hok
    refine .inr ⟨hf, ?_⟩
    cases hs : leg.seen with
    | true =>
      simp only [hs, if_true] at hok
      exact ⟨db, .inl ⟨hs, rfl⟩, (Except.ok.inj hok).symm⟩
    | false =>
      simp only [hs, Bool.false_eq_true, if_false] at hok
      by_cases hb : db.orders.length ≤ leg.orderId ∨ db.Booked (.combo perm leg.orderId)
      · have hins : db.insertFill (comboFillRow perm now leg.orderId leg.order) =
            .error .integrityError := Db.insertFill_error hb
        simp only [hins] at hok
        cases hok
      · rw [not_or] at hb
        have hins : db.insertFill (comboFillRow perm now leg.orderId leg.order) =
            .ok (db.addFill (comboFillRow perm now leg.orderId leg.order)) :=
          Db.insertFill_ok (Nat.lt_of_not_le hb.1) hb.2
        simp only [hins] at hok
        exact ⟨_, .inr ⟨hs, hb.2, rfl⟩, (Except.ok.inj hok).symm⟩

theorem Inserted.orders (h : Inserted perm now leg db db₁) : db₁.orders = db.orders := by
  rcases h with ⟨_, rfl⟩ | ⟨_, _, rfl⟩ <;> rfl

theorem Inserted.booked (h : Inserted perm now leg db db₁) (id : ExecId) : db₁.Booked id ↔
    db.Booked id ∨ (leg.seen = false ∧ id = .combo perm leg.orderId) := by
  rcases h with ⟨hs, rfl⟩ | ⟨hs, _, rfl⟩
  · simp [hs]
  · simp [Db.Booked, Db.addFill, hs, comboFillRow]

theorem Inserted.recorded (h : Inserted perm now leg db db₁) (j : ℕ) : db₁.recorded j =
    if leg.seen = false ∧ j = leg.orderId then db.recorded j + leg.order.qty
    else db.recorded j := by
  rcases h with ⟨hs, rfl⟩ | ⟨hs, _, rfl⟩
  · simp [hs]
  · by_cases hj : j = leg.orderId
    · subst hj
      rw [if_pos ⟨hs, rfl⟩]
      exact Db.addFill_recorded_self db _ rfl
    · rw [if_neg (fun h => hj h.2)]
      exact Db.addFill_recorded_ne db _ j (Ne.symm hj)

theorem commitLeg_grows (hok : commitLeg perm now db leg = .ok db') : Grows db db' := by
  rcases commitLeg_cases hok with ⟨_, rfl⟩ | ⟨_, db₁, hins, rfl⟩
  · exact .refl _
  · refine ⟨?_, ?_, ?_⟩
    · intro i o ho
      have ho₁ : db₁.orders[i]? = some o := by rw [hins.orders, ho]
      refine ⟨if i = leg.orderId then o.comboWritten leg.order now else o, ?_, ?_, ?_⟩
      · rw [writeLeg_orders]
        exact updateOrder_row _ ho₁
      · split_ifs <;> rfl
      · rw [Db.recorded_congr writeLeg_fills, hins.recorded]
        split_ifs <;> omega
    · intro id hid
      have hb : db₁.Booked id := (hins.booked id).mpr (.inl hid)
      rw [Db.Booked, writeLeg_fills]
      exact hb
    · rw [writeLeg_orders, ← hins.orders]
      exact List.length_modify ..

/-- What the commit of one leg needs: nothing recorded on a leg it books anew. -/
def LegFree (perm : String) (db : Db) (leg : LegSnapshot) : Prop :=
  leg.order.state ≠ .filled → leg.seen = false →
    db.recorded leg.orderId = 0 ∨ db.Booked (.combo perm leg.orderId)

theorem commitLeg_legsExact (hx : LegsExact bag db) (hr : ReadOk bag db leg)
    (hfree : LegFree bag.perm db leg) (hok : commitLeg bag.perm now db leg = .ok db') :
    LegsExact bag db' := by
  rcases commitLeg_cases hok with ⟨_, rfl⟩ | ⟨hopen, db₁, hins, rfl⟩
  · exact hx
  · obtain ⟨o, ho, hqty, _⟩ := hr.row
    have hold := hx _ hr.member o ho
    -- the leg itself ends with exactly its quantity recorded
    have hself : db₁.recorded leg.orderId = o.qty := by
      rw [hins.recorded]
      rcases hins with ⟨hs, _⟩ | ⟨hs, hnew, _⟩
      · rw [if_neg (by simp [hs])]
        exact hold.synthetic (hr.seen hs)
      · rw [if_pos ⟨hs, rfl⟩]
        rcases hfree hopen hs with hzero | hb
        · omega
        · exact absurd hb hnew
    have hrec : ∀ j, (writeLeg db₁ leg now).recorded j = db₁.recorded j :=
      fun j => Db.recorded_congr writeLeg_fills j
    intro j hj o' ho'
    rw [writeLeg_orders] at ho'
    by_cases hji : j = leg.orderId
    · subst hji
      have ho₁ : db₁.orders[leg.orderId]? = some o := by rw [hins.orders, ho]
      rw [Db.updateOrder_getElem?_self, ho₁] at ho'
      obtain rfl := Option.some.inj ho'
      have hq : (o.comboWritten leg.order now).qty = o.qty := rfl
      rw [← hq, ← hrec] at hself
      exact ⟨hself.le, fun _ => hself, fun _ => hself⟩
    · rw [Db.updateOrder_getElem?_ne _ _ _ hji, hins.orders] at ho'
      have hj' := hx j hj o' ho'
      have hsame : (writeLeg db₁ leg now).recorded j = db.recorded j := by
        rw [hrec, hins.recorded, if_neg (fun h => hji h.2)]
      refine ⟨hsame ▸ hj'.within, fun hf => hsame ▸ hj'.filled hf, ?_⟩
      intro hb
      have hb₁ : db₁.Booked (.combo bag.perm j) := by
        rw [Db.Booked, writeLeg_fills] at hb
        exact hb
      rcases (hins.booked _).mp hb₁ with hb₀ | ⟨_, heq⟩
      · exact hsame ▸ hj'.synthetic hb₀
      · exact absurd (ExecId.combo.inj heq).2 hji

theorem LegFree.mono {leg' : LegSnapshot} (h : LegFree perm db leg')
    (hok : commitLeg perm now db leg = .ok db') : LegFree perm db' leg' := by
  intro hopen hs
  rcases h hopen hs with hzero | hb
  · rcases commitLeg_cases hok with ⟨_, rfl⟩ | ⟨_, db₁, hins, rfl⟩
    · exact .inl hzero
    · rw [Db.recorded_congr writeLeg_fills, hins.recorded]
      split_ifs with hleg
      · right
        have hb₁ : db₁.Booked (.combo perm leg'.orderId) :=
          (hins.booked _).mpr (.inr ⟨hleg.1, by rw [hleg.2]⟩)
        rw [Db.Booked, writeLeg_fills]
        exact hb₁
      · exact .inl hzero
  · exact .inr ((commitLeg_grows hok).booked _ hb)

/-- A booking that goes through keeps every leg exact and leaves each leg it read with
exactly its quantity. -/
theorem commit_exact (hx : LegsExact bag db) (hreads : ∀ leg ∈ snaps, ReadOk bag db leg)
    (hfree : (∃ leg ∈ snaps, leg.order.state ≠ .filled ∧ leg.seen = false ∧
        db.Booked (.combo bag.perm leg.orderId)) ∨
      ∀ leg ∈ snaps, leg.order.state ≠ .filled → leg.seen = false →
        db.recorded leg.orderId = 0)
    (hok : snaps.foldlM (commitLeg bag.perm now) db = .ok db') :
    Grows db db' ∧ LegsExact bag db' ∧
      ∀ leg ∈ snaps, ∀ o, db'.orders[leg.orderId]? = some o → db'.recorded leg.orderId = o.qty := by
  have hp := passes_foldlM _ hok
  -- a collision would have stopped the booking
  have hzero : ∀ leg ∈ snaps, LegFree bag.perm db leg := by
    rcases hfree with ⟨leg, hmem, hopen, hs, hb⟩ | hzero
    · obtain ⟨s, t, hbs, ht⟩ := hp.taken (I := fun s => s.Booked (.combo bag.perm leg.orderId))
        (fun k _ s t hs hk => (commitLeg_grows hk).booked _ hs) hb hmem
      rcases commitLeg_cases ht with ⟨hf, _⟩ | ⟨_, db₁, ⟨hseen, _⟩ | ⟨_, hnew, _⟩, _⟩
      · exact absurd hf hopen
      · rw [hs] at hseen
        cases hseen
      · exact absurd hbs hnew
    · intro leg hmem hopen hs
      exact .inl (hzero leg hmem hopen hs)
  have hinv := hp.invariant (I := fun s => Grows db s ∧ LegsExact bag s ∧
    (∀ leg ∈ snaps, ReadOk bag s leg) ∧ ∀ leg ∈ snaps, LegFree bag.perm s leg) ?_
    ⟨.refl db, hx, hreads, hzero⟩
  · refine ⟨hinv.1, hinv.2.1, ?_⟩
    intro leg hmem o ho
    have hread := hinv.2.2.1 leg hmem
    obtain ⟨o₁, ho₁, _, hfilled⟩ := hread.row
    obtain rfl : o₁ = o := Option.some.inj (ho₁.symm.trans ho)
    by_cases hf : leg.order.state = .filled
    · exact hfilled hf
    · have hb : db'.Booked (.combo bag.perm leg.orderId) := by
        cases hs : leg.seen with
        | true => exact hread.seen hs
        | false =>
          apply hp.established hmem (Q := fun s => s.Booked (.combo bag.perm leg.orderId))
          · intro s t hk
            rcases commitLeg_cases hk with ⟨hf', _⟩ | ⟨_, db₁, hins, rfl⟩
            · exact absurd hf' hf
            · rw [Db.Booked, writeLeg_fills]
              exact (hins.booked _).mpr (.inr ⟨hs, rfl⟩)
          · exact fun k s t hs hk => (commitLeg_grows hk).booked _ hs
      exact (hinv.2.1 _ hread.member o₁ ho).synthetic hb
  · rintro k hk s t ⟨hgrow, hxs, hrs, hfs⟩ hstep
    have hxt := commitLeg_legsExact hxs (hrs k hk) (hfs k hk) hstep
    have hgt := commitLeg_grows hstep
    exact ⟨hgrow.trans hgt, hxt, fun leg hmem => (hrs leg hmem).mono hgt hxt,
      fun leg hmem => (hfs leg hmem).mono hstep⟩

end Commits

structure BagInvariant (bag : Bag) (s : BagState) : Prop where
  present : ∀ i ∈ bag.orderIds, i < s.db.orders.length
  legs : LegsExact bag s.db
  reads : ∀ b ∈ s.bookings, ∀ leg ∈ b.snaps, ReadOk bag s.db leg
  /-- A booking reads every leg of the BAG, and no other. -/
  covers : ∀ b ∈ s.bookings, ∀ i, i ∈ bag.orderIds ↔ i ∈ b.rest ∨ ∃ leg ∈ b.snaps, leg.orderId = i
  done : s.reportedFilled → ∀ i ∈ bag.orderIds, ∀ o, s.db.orders[i]? = some o →
    s.db.recorded i = o.qty

section Runs
variable {bag : Bag} {db : Db} {s : BagState} {b : Booking}

theorem legFor_mem {fill : IbFill} {i : ℕ} (h : bag.legFor fill = some i) : i ∈ bag.orderIds := by
  unfold Bag.legFor at h
  split_ifs at h
  obtain ⟨route, hroute, rfl⟩ := Option.map_eq_some_iff.mp h
  exact List.mem_map_of_mem (List.mem_of_find?_eq_some hroute)

/-- The invariant follows the database when nothing is lost and no leg gets too much. -/
theorem BagInvariant.grow {db' : Db} (h : BagInvariant bag s) (hg : Grows s.db db')
    (hx : LegsExact bag db') : BagInvariant bag { s with db := db' } where
  present i hi := hg.length ▸ h.present i hi
  legs := hx
  reads b hb leg hleg := (h.reads b hb leg hleg).mono hg hx
  covers := h.covers
  done := by
    intro hr i hi o' ho'
    have ho := List.getElem?_eq_getElem (h.present i hi)
    obtain ⟨o₁, ho₁, _, hq⟩ := hg.exact hx hi ho (h.done hr i hi _ ho)
    obtain rfl : o₁ = o' := Option.some.inj (ho₁.symm.trans ho')
    exact hq

theorem BagInvariant.drop {k : ℕ} (h : BagInvariant bag s) :
    BagInvariant bag { s with bookings := s.bookings.eraseIdx k } where
  present := h.present
  legs := h.legs
  reads b hb := h.reads b (List.mem_of_mem_eraseIdx hb)
  covers b hb := h.covers b (List.mem_of_mem_eraseIdx hb)
  done := h.done

theorem readLeg_ok {i : ℕ} {leg : LegSnapshot} (hx : LegsExact bag db) (hi : i ∈ bag.orderIds)
    (h : readLeg bag.perm db i = some leg) : ReadOk bag db leg ∧ leg.orderId = i := by
  obtain ⟨o, ho, rfl⟩ := Option.map_eq_some_iff.mp h
  refine ⟨⟨hi, ⟨o, ho, rfl, (hx i hi o ho).filled⟩, ?_⟩, rfl⟩
  intro hs
  simp only [decide_eq_true_eq] at hs
  exact Db.Booked.of_fillsOf hs

theorem BagInvariant.read {k : ℕ} (h : BagInvariant bag s) :
    BagInvariant bag (bagStep bag s (.read k)) := by
  refine ⟨h.present, h.legs, ?_, ?_, h.done⟩
  · intro b' hb' leg hleg
    rcases mem_modify hb' with hb | ⟨b, hb, rfl⟩
    · exact h.reads b' hb leg hleg
    · cases hrest : b.rest with
      | nil =>
        simp only [hrest] at hleg
        exact h.reads b hb leg hleg
      | cons i rest =>
        simp only [hrest, List.mem_append, Option.mem_toList] at hleg
        rcases hleg with hleg | hleg
        · exact h.reads b hb leg hleg
        · have hi : i ∈ bag.orderIds := (h.covers b hb i).mpr (.inl (by simp [hrest]))
          exact (readLeg_ok h.legs hi hleg).1
  · intro b' hb' i
    rcases mem_modify hb' with hb | ⟨b, hb, rfl⟩
    · exact h.covers b' hb i
    · cases hrest : b.rest with
      | nil =>
        dsimp only
        exact hrest ▸ h.covers b hb i
      | cons j rest =>
        have hcov := h.covers b hb
        have hj : j ∈ bag.orderIds := (hcov j).mpr (.inl (by simp [hrest]))
        obtain ⟨read, hread⟩ : ∃ leg, readLeg bag.perm s.db j = some leg := by
          rw [readLeg, List.getElem?_eq_getElem (h.present j hj), Option.map_some]
          exact ⟨_, rfl⟩
        have hid : read.orderId = j := (readLeg_ok h.legs hj hread).2
        simp only [hread, Option.toList_some, List.mem_append, List.mem_singleton]
        rw [hcov i, hrest, List.mem_cons]
        constructor
        · rintro ((rfl | hmem) | ⟨leg, hleg, hid⟩)
          · exact .inr ⟨read, .inr rfl, hid⟩
          · exact .inl hmem
          · exact .inr ⟨leg, .inl hleg, hid⟩
        · rintro (hmem | ⟨leg, hleg | rfl, hleg_id⟩)
          · exact .inl (.inr hmem)
          · exact .inr ⟨leg, hleg, hleg_id⟩
          · exact .inl (.inl (hleg_id.symm.trans hid))

theorem BagInvariant.commit {k : ℕ} {now : Instant} (h : BagInvariant bag s)
    (hg : KeepsExact bag s (.commit k now)) : BagInvariant bag (bagStep bag s (.commit k now)) := by
  cases hk : s.bookings[k]? with
  | none => simpa [bagStep, hk] using h
  | some b =>
    obtain ⟨rest, snaps⟩ := b
    have hmem : ⟨rest, snaps⟩ ∈ s.bookings := List.mem_of_getElem? hk
    cases rest with
    | cons i rest => simpa [bagStep, hk] using h
    | nil =>
      cases hok : snaps.foldlM (commitLeg bag.perm now) s.db with
      | error e =>
        simp only [bagStep, hk, hok]
        exact h.drop
      | ok db' =>
        simp only [bagStep, hk, hok]
        obtain ⟨hgrow, hx, hall⟩ := commit_exact h.legs (h.reads _ hmem) (hg _ hk rfl) hok
        have hinv := (h.grow hgrow hx).drop (k := k)
        refine ⟨hinv.present, hinv.legs, hinv.reads, hinv.covers, ?_⟩
        intro _ i hi o ho
        rcases (h.covers _ hmem i).mp hi with hrest | ⟨leg, hleg, rfl⟩
        · cases hrest
        · exact hall leg hleg o ho

theorem BagInvariant.step (h : BagInvariant bag s) (e : BagEvent) (hg : KeepsExact bag s e) :
    BagInvariant bag (bagStep bag s e) := by
  cases e with
  | execution fill now =>
    cases hleg : bag.legFor fill with
    | none => simpa [bagStep, hleg] using h
    | some i =>
      simp only [bagStep, hleg]
      apply h.grow (deliverFill_grows s.db i fill now)
      exact deliverFill_legsExact h.legs (legFor_mem hleg) (hg i hleg)
  | filled =>
    refine ⟨h.present, h.legs, ?_, ?_, h.done⟩
    · intro b hb
      rcases List.mem_append.mp hb with hb | hb
      · exact h.reads b hb
      · rw [List.mem_singleton.mp hb]
        intro leg hleg
        cases hleg
    · intro b hb i
      rcases List.mem_append.mp hb with hb | hb
      · exact h.covers b hb i
      · rw [List.mem_singleton.mp hb]
        simp
  | read k => exact h.read
  | commit k now => exact h.commit hg

theorem placed_invariant (hw : db.WellFormed) (hp : Placed bag db) :
    BagInvariant bag (.placed db) where
  present := by
    intro i hi
    obtain ⟨o, ho, _⟩ := hp i hi
    exact (List.getElem?_eq_some_iff.mp ho).1
  legs := by
    intro i hi o ho
    obtain ⟨o₁, ho₁, hopen, hfills⟩ := hp i hi
    obtain rfl : o₁ = o := Option.some.inj (ho₁.symm.trans ho)
    have hzero : (BagState.placed db).db.recorded i = 0 := by
      rw [BagState.placed, Db.recorded, hfills]
      rfl
    refine ⟨by omega, fun hf => absurd hf hopen, ?_⟩
    intro hb
    have hmem := hw.synthetic hb
    rw [hfills] at hmem
    cases hmem
  reads := by simp [BagState.placed]
  covers := by simp [BagState.placed]
  done := by simp [BagState.placed]

/-- In every state that guarded events reach, once the BAG has been booked as filled, the
fills of each leg sum to exactly its quantity. -/
theorem combo_exact (h : Reachable db) (hp : Placed bag db)
    (hrun : Run (bagStep bag) (KeepsExact bag) (.placed db) s) (hr : s.reportedFilled) :
    ∀ i ∈ bag.orderIds, ∀ o, s.db.orders[i]? = some o → s.db.recorded i = o.qty := by
  have hinv : BagInvariant bag s :=
    hrun.invariant (fun s e hs he => hs.step e he) (placed_invariant h.wellFormed hp)
  exact hinv.done hr

instance (bag : Bag) (s : BagState) : ∀ e, Decidable (KeepsExact bag s e)
  | .execution fill _ => inferInstanceAs (Decidable (∀ i ∈ bag.legFor fill, ∀ o ∈ s.db.orders[i]?,
      ¬ s.db.Booked (.ib fill.execId) → s.db.recorded i + fill.shares ≤ o.qty))
  | .commit k _ => inferInstanceAs (Decidable (∀ b ∈ s.bookings[k]?, b.rest = [] →
      (∃ leg ∈ b.snaps, leg.order.state ≠ .filled ∧ leg.seen = false ∧
        s.db.Booked (.combo bag.perm leg.orderId)) ∨
      ∀ leg ∈ b.snaps, leg.order.state ≠ .filled → leg.seen = false →
        s.db.recorded leg.orderId = 0))
  | .filled | .read _ => .isTrue trivial

def twoLegs : Bag := ⟨"900", [(11, 0), (12, 1)]⟩

def twoLegsPlaced : List Event :=
  [.submitPreview [callLeg .buy 10, callLeg .sell 10] 0, .stampLive 0 (some 7) (some 900) none 1,
    .stampLive 1 (some 7) (some 900) none 1]

theorem placed_twoLegs : Placed twoLegs (twoLegsPlaced.foldl step Db.empty) := by
  intro i hi
  have hcases : i = 0 ∨ i = 1 := by simpa [twoLegs, Bag.orderIds] using hi
  rcases hcases with rfl | rfl <;> exact ⟨_, rfl, by decide, rfl⟩

def legExecution (conId : ℕ) (execId execSide : String) (shares : ℕ) : BagEvent :=
  .execution { execution execId execSide shares none with conId := conId } 2

/-- The first leg is executed and re-delivered, the second is reported on the BAG only, and
two `Filled` statuses overlap. -/
def exactBag : List BagEvent :=
  [legExecution 11 "a" "BOT" 4, legExecution 11 "b" "BOT" 6, legExecution 99 "bag" "BOT" 10,
    .filled, .read 0, .filled, .read 1, .read 0, .read 1, .commit 0 3, .commit 0 3,
    legExecution 11 "a" "BOT" 4]

theorem combo_exact_twoLegs :
    (exactBag.foldl (bagStep twoLegs)
      (.placed (twoLegsPlaced.foldl step Db.empty))).reportedFilled ∧
    ∀ i ∈ twoLegs.orderIds, ∀ o,
      (exactBag.foldl (bagStep twoLegs)
        (.placed (twoLegsPlaced.foldl step Db.empty))).db.orders[i]? = some o →
      (exactBag.foldl (bagStep twoLegs)
        (.placed (twoLegsPlaced.foldl step Db.empty))).db.recorded i = o.qty := by
  have hfilled : (exactBag.foldl (bagStep twoLegs)
      (.placed (twoLegsPlaced.foldl step Db.empty))).reportedFilled := by decide +kernel
  exact ⟨hfilled, combo_exact (reachable_events twoLegsPlaced) placed_twoLegs
    (Run.of_foldl exactBag (by decide +kernel)) hfilled⟩

/-- What IB executed on a leg: its recorded quantity without the synthetic fill. -/
def executedQty (db : Db) (i : ℕ) : ℕ :=
  (((db.fillsOf i).filter fun f =>
    match f.ibExecutionId with
    | .ib _ => true
    | .combo _ _ => false).map (·.qtyFilled)).sum

/-- The first leg is partly executed when the BAG is reported filled, and its last execution
comes after the booking. -/
def doubleBookedBag : List BagEvent :=
  [legExecution 11 "a" "BOT" 3, legExecution 12 "c" "SLD" 10, .filled, .read 0, .read 0,
    .commit 0 3, legExecution 11 "b" "BOT" 7]

/-- A BAG whose legs are executed for exactly their quantities can still be booked twice. -/
theorem combo_double_booked : ¬ ∀ bag db s, Reachable db → Placed bag db →
    Run (bagStep bag) (fun _ _ => True) (.placed db) s → s.bookings = [] → s.reportedFilled →
    (∀ i ∈ bag.orderIds, ∀ o ∈ s.db.orders[i]?, executedQty s.db i = o.qty) →
    ∀ i ∈ bag.orderIds, ∀ o, s.db.orders[i]? = some o → s.db.recorded i = o.qty := by
  intro h
  have hq := h twoLegs _ _ (reachable_events twoLegsPlaced) placed_twoLegs
    (Run.of_events doubleBookedBag) (by decide +kernel) (by decide +kernel) (by decide +kernel)
    0 (by decide) _ rfl
  revert hq
  decide +kernel

end Runs

section Atomic
variable {perm : String} {now : Instant} {db db₀ : Db} {i : ℕ}

theorem updateOrder_eq_setOrder {o : StructureOrder} (g : StructureOrder → StructureOrder)
    (ho : db.orders[i]? = some o) : db.updateOrder i g = db.setOrder i (g o) := by
  simp [Db.updateOrder, Db.setOrder, List.modify_eq_set_getElem?, ho]

/-- Committed on the tables it was read from, a leg is booked as `bookComboLeg` does. -/
theorem commitLeg_read {leg : LegSnapshot} (h : readLeg perm db i = some leg) :
    commitLeg perm now db leg = bookComboLeg perm now db i := by
  obtain ⟨o, ho, rfl⟩ := Option.map_eq_some_iff.mp h
  have hwrite : ∀ db₁ : Db, db₁.orders = db.orders → ∀ seen,
      writeLeg db₁ ⟨i, o, seen⟩ now = bookComboRow db₁ i o now := by
    intro db₁ horders seen
    have ho₁ : db₁.orders[i]? = some o := by rw [horders, ho]
    have hrow : o.comboWritten o now = o.comboBooked now := by
      cases havg : o.avgFillPrice <;>
        simp [StructureOrder.comboWritten, StructureOrder.comboBooked, havg]
    rw [writeLeg, updateOrder_eq_setOrder _ ho₁, hrow]
    rfl
  by_cases hf : o.state = .filled
  · rw [bookComboLeg_filled ho hf, commitLeg, if_pos hf]
  · simp only [commitLeg, bookComboLeg, ho, hf, if_false, decide_eq_true_eq]
    by_cases hs : ExecId.combo perm i ∈ (db.fillsOf i).map (·.ibExecutionId)
    · simp only [hs, if_true, not_true_eq_false, if_false]
      rw [hwrite db rfl]
      rfl
    · simp only [hs, if_false, not_false_eq_true, if_true]
      cases hins : db.insertFill (comboFillRow perm now i o) with
      | error e => rfl
      | ok db₁ =>
        have horders : db₁.orders = db.orders := by
          unfold Db.insertFill at hins
          split_ifs at hins
          obtain rfl := Except.ok.inj hins
          rfl
        simp only
        rw [hwrite db₁ horders]
        rfl

/-- A booking that reads all legs and commits before anything else happens is the handler of
a filled combo. -/
theorem commit_read_all {ids : List ℕ} (hd : ids.Nodup)
    (hsame : ∀ i ∈ ids, db.orders[i]? = db₀.orders[i]? ∧ db.fillsOf i = db₀.fillsOf i) :
    (ids.filterMap (readLeg perm db₀)).foldlM (commitLeg perm now) db =
      ids.foldlM (bookComboLeg perm now) db := by
  induction ids generalizing db with
  | nil => rfl
  | cons i ids ih =>
    have hd' := List.nodup_cons.mp hd
    obtain ⟨hrow, hfills⟩ := hsame i List.mem_cons_self
    have hread : readLeg perm db₀ i = readLeg perm db i := by
      rw [readLeg, readLeg, hrow, hfills]
    have htail : ∀ j ∈ ids, db.orders[j]? = db₀.orders[j]? ∧ db.fillsOf j = db₀.fillsOf j :=
      fun j hj => hsame j (List.mem_cons_of_mem _ hj)
    rw [List.filterMap_cons, hread, List.foldlM_cons]
    cases hleg : readLeg perm db i with
    | none =>
      have ho : db.orders[i]? = none := Option.map_eq_none_iff.mp hleg
      rw [bookComboLeg_missing ho]
      exact ih hd'.2 htail
    | some leg =>
      simp only [List.foldlM_cons]
      rw [commitLeg_read hleg]
      cases hok : bookComboLeg perm now db i with
      | error e => rfl
      | ok db₁ =>
        apply ih hd'.2
        intro j hj
        have hne : j ≠ i := fun h => hd'.1 (h ▸ hj)
        have hlocal := local_bookComboLeg perm now db i db₁ hok j hne
        obtain ⟨ho, hf⟩ := htail j hj
        exact ⟨(congrArg Prod.fst hlocal).trans ho, (congrArg Prod.snd hlocal).trans hf⟩

end Atomic

end FxVol
