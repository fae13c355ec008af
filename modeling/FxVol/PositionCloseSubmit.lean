import FxVol.PlacementClaims

/-!
# The live submit of a closing structure

`initiate_position_close` inserts orders with role `closing` and hands the structure to
`submit_structure_live`, which selects orders with role `entry`.  The submit finds nothing to
place, so the position is closing and no closing order is at IB.
-/
namespace FxVol

/-- The handler of `/internal/structure/submit`, with the answer it gets at each of its steps. -/
def submitHandler (cfg : SubmitConfig) (w : World) (s : ℕ) (useCombo : Bool)
    (answers : List Answer) : World × Call :=
  answers.foldl (fun p a => callStep cfg a p.1 p.2) (w, .submit s useCombo .start)

/-- A position that `initiate_position_close` closes: open, with a filled entry leg. -/
def Closable (db : Db) (positionId : ℕ) : Prop :=
  ∃ pos, db.bookedPositions[positionId]? = some pos ∧ pos.state = .open ∧
    ∃ p ∈ entryOrders db pos.structureId, 0 < p.1.qtyFilled

def insertedLegs (before after : Db) : List ℕ :=
  (List.range after.orders.length).drop before.orders.length

/-- Each of the legs has its order at IB. -/
def World.LegsPlaced (w : World) (legs : List ℕ) : Prop :=
  ∀ i ∈ legs, (w.sent.filter (·.covers (.order i))).length = 1

/-- The position is closing and none of its closing legs is at IB. -/
structure World.CloseStranded (w : World) (positionId : ℕ) (legs : List ℕ) : Prop where
  closing : (w.db.bookedPositions[positionId]?).any (·.state = .closing)
  unplaced : ∀ i ∈ legs, ∀ x ∈ w.sent, x.covers (.order i) = false

/-- A submit leaves the positions alone and sends orders under the claim of its structure. -/
structure SendsUnder (s : ℕ) (w w' : World) : Prop where
  booked : w'.db.bookedPositions = w.db.bookedPositions
  sent : ∀ x ∈ w'.sent, x ∈ w.sent ∨ x.guard = .structure s

section Submit
variable {w w' : World} {s i : ℕ} (cfg : SubmitConfig) (a : Answer)

theorem SendsUnder.keep (hb : w'.db.bookedPositions = w.db.bookedPositions)
    (hs : w'.sent = w.sent) : SendsUnder s w w' := ⟨hb, fun _ hx => .inl (hs ▸ hx)⟩

theorem SendsUnder.send {x : IbPlacement} (hx : x.guard = .structure s) :
    SendsUnder s w (w.send x) := by
  refine ⟨rfl, ?_⟩
  intro y hy
  rcases List.mem_append.mp hy with hy | hy
  · exact .inl hy
  · rw [List.mem_singleton.mp hy]
    exact .inr hx

theorem SendsUnder.trans {w'' : World} (h : SendsUnder s w w') (h' : SendsUnder s w' w'') :
    SendsUnder s w w'' := by
  refine ⟨h'.booked.trans h.booked, ?_⟩
  intro x hx
  rcases h'.sent x hx with hx | hx
  · exact h.sent x hx
  · exact .inr hx

theorem stampLives_booked (ib : IbIds) (limit : Option ℚ) (now : Instant) (ids : List ℕ) (db : Db) :
    (ids.foldl (fun db i => stampLive db i ib.orderId ib.permId limit now) db).bookedPositions =
      db.bookedPositions := by
  apply KeyedPasses.foldl_frame Db.bookedPositions
  exact fun _ _ => rfl

theorem submitStep_sends (useCombo : Bool) (pc : SubmitPc) :
    SendsUnder s w (submitStep cfg a w s useCombo pc).1 := by
  have same : SendsUnder s w w := .keep rfl rfl
  cases pc with
  | start =>
    simp only [submitStep]
    split_ifs <;> exact same
  | checked =>
    simp only [submitStep]
    split_ifs
    · exact .keep rfl rfl
    · exact same
  | claimed =>
    simp only [submitStep]
    split_ifs <;> exact same
  | aborting => exact .keep rfl rfl
  | selected legs =>
    simp only [submitStep]
    split_ifs
    · cases prepareCombo legs a.qualify <;> exact same
    · cases prepareLegs legs a.qualify <;> exact same
    · exact same
  | bagReady legs =>
    simp only [submitStep]
    cases a.placed with
    | none => exact same
    | some ids => exact .send rfl
  | bagSent legs ids =>
    simp only [submitStep]
    split_ifs
    · exact .keep (stampLives_booked ids none a.now _ w.db) rfl
    · exact same
  | prepared legs =>
    simp only [submitStep]
    cases gateLegs cfg a.quote legs <;> exact same
  | placing legs placed =>
    cases legs with
    | nil => exact same
    | cons leg rest =>
      simp only [submitStep]
      split_ifs
      · cases a.placed with
        | none => exact same
        | some ids => exact .send rfl
      · exact same
  | legSent leg ids rest placed =>
    simp only [submitStep]
    split_ifs
    · exact .keep rfl rfl
    · exact same
  | failed =>
    simp only [submitStep]
    split
    · exact same
    · exact .keep rfl rfl

def Call.Submits (s : ℕ) : Call → Prop
  | .submit s' _ _ => s' = s
  | .done => True
  | _ => False

theorem callStep_submits {call : Call} (h : call.Submits s) :
    (callStep cfg a w call).2.Submits s ∧ SendsUnder s w (callStep cfg a w call).1 := by
  cases call with
  | submit s' useCombo pc =>
    obtain rfl : s' = s := h
    have hsends := submitStep_sends (w := w) (s := s') cfg a useCombo pc
    simp only [callStep]
    revert hsends
    rcases submitStep cfg a w s' useCombo pc with ⟨w', _ | pc'⟩
    · exact fun hsends => ⟨trivial, hsends⟩
    · exact fun hsends => ⟨rfl, hsends⟩
  | done => exact ⟨trivial, .keep rfl rfl⟩
  | rollback | close | hedge => exact h.elim

/-- What holds at every step of the handler. -/
structure Submitting (s : ℕ) (w : World) (p : World × Call) : Prop where
  submits : p.2.Submits s
  call : p.2.Grounded p.1.db
  sends : SendsUnder s w p.1
  keeps : KeepsLegs w.db p.1.db
  grounded : (∀ x ∈ w.sent, x.Grounded w.db) → ∀ x ∈ p.1.sent, x.Grounded p.1.db

theorem submitHandler_submitting (useCombo : Bool) (answers : List Answer) :
    Submitting s w (submitHandler cfg w s useCombo answers) := by
  have hrun : ∀ p, Submitting s w p →
      Submitting s w (answers.foldl (fun p a => callStep cfg a p.1 p.2) p) := by
    induction answers with
    | nil => exact fun p h => h
    | cons a answers ih =>
      intro p h
      apply ih
      obtain ⟨hsubmits, hsends⟩ := callStep_submits (w := p.1) cfg a h.submits
      obtain ⟨hadv, hcall⟩ := callStep_advances cfg a h.call
      refine ⟨hsubmits, hcall, h.sends.trans hsends, h.keeps.trans hadv.keeps, ?_⟩
      intro hw x hx
      rcases hadv.sent x hx with hold | hnew
      · exact (h.grounded hw x hold).mono hadv.keeps
      · exact hnew
  exact hrun _ ⟨rfl, trivial, .keep rfl rfl, .rfl w.db, fun hw => hw⟩

end Submit

section Close
variable {w : World} {positionId : ℕ}

theorem mem_insertedLegs {db db' : Db} {orders : List StructureOrder}
    (h : db'.orders = db.orders ++ orders) {i : ℕ} (hi : i ∈ insertedLegs db db') :
    db.orders.length ≤ i ∧ ∃ o ∈ orders, db'.orders[i]? = some o := by
  obtain ⟨k, hk, rfl⟩ := List.mem_iff_getElem.mp hi
  simp only [insertedLegs, h, List.length_append, List.length_drop, List.length_range] at hk
  have hlt : k < orders.length := by omega
  simp only [insertedLegs, List.getElem_drop, List.getElem_range]
  refine ⟨by omega, orders[k], List.getElem_mem hlt, ?_⟩
  rw [h, List.getElem?_append_right (by omega), Nat.add_sub_cancel_left,
    List.getElem?_eq_getElem hlt]

theorem insertedLegs_ne_nil {db db' : Db} {orders : List StructureOrder}
    (h : db'.orders = db.orders ++ orders) (hne : orders ≠ []) : insertedLegs db db' ≠ [] := by
  have hpos := List.length_pos_iff.mpr hne
  apply List.ne_nil_of_length_pos
  simp only [insertedLegs, h, List.length_append, List.length_drop, List.length_range]
  omega

/-- An order at IB is for rows that exist. -/
theorem IbPlacement.Grounded.row_lt {db : Db} {x : IbPlacement} {i : ℕ} (h : x.Grounded db)
    (hcovers : x.covers (.order i) = true) : i < db.orders.length := by
  have entry {s j : ℕ} (hentry : EntryOf db s j) : j < db.orders.length := by
    obtain ⟨o, ho, _⟩ := hentry
    exact (List.getElem?_eq_some_iff.mp ho).1
  match x with
  | .leg s j =>
    simp only [IbPlacement.covers, decide_eq_true_eq] at hcovers
    exact entry (hcovers ▸ h)
  | .bag s ids =>
    simp only [IbPlacement.covers, decide_eq_true_eq] at hcovers
    exact entry (h i hcovers)
  | .row s j =>
    simp only [IbPlacement.covers, decide_eq_true_eq] at hcovers
    obtain ⟨o, ho, _⟩ := h
    exact hcovers ▸ (List.getElem?_eq_some_iff.mp ho).1
  | .hedge _ => cases hcovers

theorem buildClosingLegs_filled {entries : List StructureOrder}
    (h : ∃ e ∈ entries, 0 < e.qtyFilled) :
    ∃ legs, buildClosingLegs entries = .ok legs ∧ legs ≠ [] := by
  obtain ⟨e, he, hfilled⟩ := h
  have hne : (entries.filter fun e => 0 < e.qtyFilled).map closingLeg ≠ [] := by
    have hleg : closingLeg e ∈ (entries.filter fun e => 0 < e.qtyFilled).map closingLeg :=
      List.mem_map_of_mem (List.mem_filter.mpr ⟨he, decide_eq_true hfilled⟩)
    exact List.ne_nil_of_mem hleg
  exact ⟨_, by rw [buildClosingLegs, if_neg hne], hne⟩

/-- A closable position is closed: it is closing, and new closing legs are inserted. -/
theorem initiatePositionClose_closable {db : Db} (h : Closable db positionId)
    (alert : Option ℕ) (now : Instant) :
    ∃ db', initiatePositionClose db positionId alert now = .ok (db', some db.structures.length) ∧
      (db'.bookedPositions[positionId]?).any (·.state = .closing) ∧
      ∃ orders, db'.orders = db.orders ++ orders ∧ orders ≠ [] ∧
        ∀ o ∈ orders, o.orderRole = .closing ∧ o.structureId = db.structures.length := by
  obtain ⟨pos, hpos, hopen, p, hp, hfilled⟩ := h
  have hentry : ∃ e ∈ (entryOrders db pos.structureId).map (·.1), 0 < e.qtyFilled :=
    ⟨p.1, List.mem_map_of_mem hp, hfilled⟩
  obtain ⟨legs, hlegs, hne⟩ := buildClosingLegs_filled hentry
  refine ⟨persistPositionClose db positionId pos legs alert now, ?_, ?_, _,
    persistPositionClose_orders db positionId pos legs alert now, ?_, ?_⟩
  · simp only [initiatePositionClose, hpos, hopen, hlegs, ne_eq, not_true_eq_false, if_false]
  · have hlt := (List.getElem?_eq_some_iff.mp hpos).1
    have hbooked : (persistPositionClose db positionId pos legs alert now).bookedPositions =
        db.bookedPositions.set positionId { pos with state := .closing } := by
      have hfold := KeyedPasses.foldl_frame Db.bookedPositions recomputeReservation
        fun _ _ => rfl
      simp only [persistPositionClose, hfold]
      rfl
    rw [hbooked, List.getElem?_set_self hlt]
    simp
  · simpa [positionCloseOrders] using hne
  · intro o ho
    obtain ⟨leg, _, rfl⟩ := List.mem_map.mp ho
    exact ⟨rfl, rfl⟩

/-- In every world that events lead to, the close of an open position with a filled entry leg
is recorded, and whatever the submit of its closing structure meets, it places no leg: the
position stays closing with no closing order at IB. -/
theorem position_close_stranded (cfg : SubmitConfig) (es : List WorldEvent) (positionId : ℕ)
    (alert : Option ℕ) (now : Instant)
    (h : Closable (es.foldl (worldStep cfg) .empty).db positionId) :
    ∃ db s, initiatePositionClose (es.foldl (worldStep cfg) .empty).db positionId alert now =
        .ok (db, some s) ∧
      ∀ useCombo answers,
        let legs := insertedLegs (es.foldl (worldStep cfg) .empty).db db
        let after := (submitHandler cfg { es.foldl (worldStep cfg) .empty with db := db } s
          useCombo answers).1
        ¬ after.LegsPlaced legs ∧ after.CloseStranded positionId legs := by
  obtain ⟨db, hok, hclosing, orders, horders, hne, hlegs⟩ :=
    initiatePositionClose_closable h alert now
  refine ⟨db, _, hok, ?_⟩
  intro useCombo answers
  obtain ⟨_, hground⟩ := reached cfg es
  generalize es.foldl (worldStep cfg) .empty = w at *
  have hsub : Submitting w.db.structures.length { w with db := db } _ :=
    submitHandler_submitting cfg useCombo answers
  have hkeeps : KeepsLegs w.db db := by
    intro i o ho
    have hi := (List.getElem?_eq_some_iff.mp ho).1
    exact ⟨o, by rw [horders, List.getElem?_append_left hi, ho], rfl⟩
  have hunplaced : ∀ i ∈ insertedLegs w.db db, ∀ x ∈ (submitHandler cfg { w with db := db }
      w.db.structures.length useCombo answers).1.sent, x.covers (.order i) = false := by
    intro i hi x hx
    by_contra hcovers
    rw [Bool.not_eq_false] at hcovers
    obtain ⟨hnew, o, ho, hrow⟩ := mem_insertedLegs horders hi
    rcases hsub.sends.sent x hx with hold | hguard
    · -- an order from before the close is for an older row
      exact absurd ((hground.sent x hold).row_lt hcovers) (not_lt.mpr hnew)
    · -- the submit sends under the claim of the structure, which guards entry rows only
      have hx' := hsub.grounded (fun y hy => (hground.sent y hy).mono hkeeps) x hx
      obtain ⟨o', ho', hleg⟩ := hsub.keeps i o hrow
      have hrole : o'.orderRole ≠ .entry := by
        rw [(leg_role hleg).2, (hlegs o ho).1]
        decide
      rw [hx'.guard_eq hcovers, Db.rowClaim, ho'] at hguard
      simp only [if_neg hrole] at hguard
      cases hguard
  refine ⟨?_, ?_, hunplaced⟩
  · intro hplaced
    obtain ⟨i, hi⟩ := List.exists_mem_of_ne_nil _ (insertedLegs_ne_nil horders hne)
    have hone := hplaced i hi
    obtain ⟨x, hx⟩ := List.length_pos_iff_exists_mem.mp (Nat.lt_of_sub_eq_succ hone)
    obtain ⟨hsent, hcovers⟩ := List.mem_filter.mp hx
    rw [hunplaced i hi x hsent] at hcovers
    cases hcovers
  · rw [hsub.sends.booked]
    exact hclosing

end Close

/-- A call bought and booked, then closed. -/
def bookedCall : List WorldEvent :=
  [.book (.submitPreview [callLeg .buy 10] 0), .book (.stampLive 0 (some 11) none none 1),
    .book (.execution 0 (execution "1" "BOT" 10 (some 0)) 2), .book (.completeStructure 0 3)]

theorem bookedCall_closable :
    Closable (bookedCall.foldl (worldStep ⟨["EUR"], 1 / 2⟩) .empty).db 0 := by
  have hbooked : (bookedCall.foldl (worldStep ⟨["EUR"], 1 / 2⟩) .empty).db.bookedPositions[0]?.any
      fun pos => pos.state = .open ∧ (entryOrders
        (bookedCall.foldl (worldStep ⟨["EUR"], 1 / 2⟩) .empty).db pos.structureId).any
          fun p => 0 < p.1.qtyFilled := by decide +kernel
  simp only [Option.any_eq_true, decide_eq_true_eq, List.any_eq_true] at hbooked
  obtain ⟨pos, hpos, hopen, p, hp, hfilled⟩ := hbooked
  exact ⟨pos, hpos, hopen, p, hp, hfilled⟩

theorem position_close_stranded_bookedCall :
    ∃ db s, initiatePositionClose (bookedCall.foldl (worldStep ⟨["EUR"], 1 / 2⟩) .empty).db 0 none
        4 = .ok (db, some s) ∧
      ∀ useCombo answers,
        let legs := insertedLegs (bookedCall.foldl (worldStep ⟨["EUR"], 1 / 2⟩) .empty).db db
        let after := (submitHandler ⟨["EUR"], 1 / 2⟩
          { bookedCall.foldl (worldStep ⟨["EUR"], 1 / 2⟩) .empty with db := db } s
          useCombo answers).1
        ¬ after.LegsPlaced legs ∧ after.CloseStranded 0 legs :=
  position_close_stranded ⟨["EUR"], 1 / 2⟩ bookedCall 0 none 4 bookedCall_closable

/-- The call is closed while IB is connected, qualifies every contract, quotes at the reference
price and accepts every order. -/
def bookedCallClosed : List WorldEvent :=
  bookedCall ++ [.book (.positionClose 0 none 4), .startSubmit 1 false] ++
    List.replicate 9 (.run 0 (answer 5 (some ⟨some 12, none⟩)))

/-- The submit ends, the position is closing and its closing leg is not at IB. -/
theorem closing_leg_unplaced :
    let w := bookedCallClosed.foldl (worldStep ⟨["EUR"], 1 / 2⟩) .empty
    w.db.bookedPositions.map (·.state) = [.closing] ∧
      (w.db.orders.map fun o => (o.orderRole, o.side, o.qty, o.state)) =
        [(.entry, .buy, 10, .filled), (.closing, .sell, 10, .pending)] ∧
      w.calls = [.done] ∧ w.sent = [] := by
  decide +kernel

end FxVol
