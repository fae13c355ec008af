import FxVol.OrderEvents
import FxVol.FillEffects
import FxVol.KeyedPasses

/-!
# What one transaction does to one order row

`RowChange db i o e o'` lists every way in which event `e`, taken on `db`, can rewrite row `i`
from `o` to `o'`.  Each writer of `trade_order` has its own constructor, with the guard the
writer checks.
-/
namespace FxVol

open KeyedPasses

def DispatchOutcome.state : DispatchOutcome → OrderState
  | .notSent _ | .refused _ => .rejected
  | .unknown | .accepted _ _ => .submitted

section Rows
variable (o : StructureOrder) (a b : Option ℕ) (lp : Option ℚ) (now : Instant)
  (agg : OrderAggregate) (status : IbStatus) (reason : Option String) (recorded : ℕ)
  (new : OrderState) (pos : OpenPosition) (t : IbTrade) (outcome : DispatchOutcome)

@[simp] theorem stamped_leg : (o.stamped a b now).leg = o.leg := rfl
@[simp] theorem stampedLive_leg : (o.stampedLive a b lp now).leg = o.leg := rfl
@[simp] theorem withAggregates_leg : (o.withAggregates agg).leg = o.leg := rfl
@[simp] theorem comboBooked_leg : (o.comboBooked now).leg = o.leg := rfl
@[simp] theorem repaired_leg : (o.repaired recorded new now).leg = o.leg := rfl
@[simp] theorem mirrored_leg : (o.mirrored pos now).leg = o.leg := rfl
@[simp] theorem adopted_leg : (o.adopted t now).leg = o.leg := rfl
@[simp] theorem rewired_leg : (o.rewired t now).leg = o.leg := rfl
@[simp] theorem expiredAt_leg : (o.expiredAt now).leg = o.leg := rfl
@[simp] theorem cancelledAt_leg : (o.cancelledAt now).leg = o.leg := rfl

@[simp] theorem answered_leg : (o.answered now outcome).leg = o.leg := by cases outcome <;> rfl

@[simp] theorem onComboCancel_leg : (o.onComboCancel status reason now).leg = o.leg := by
  unfold StructureOrder.onComboCancel
  split <;> rfl

@[simp] theorem stamped_qtyFilled : (o.stamped a b now).qtyFilled = o.qtyFilled := rfl
@[simp] theorem stampedLive_qtyFilled : (o.stampedLive a b lp now).qtyFilled = o.qtyFilled := rfl
@[simp] theorem withAggregates_qtyFilled : (o.withAggregates agg).qtyFilled = agg.qtyFilled := rfl
@[simp] theorem comboBooked_qtyFilled : (o.comboBooked now).qtyFilled = o.qty := rfl
@[simp] theorem repaired_qtyFilled :
    (o.repaired recorded new now).qtyFilled = min recorded o.qty := rfl
@[simp] theorem mirrored_qtyFilled : (o.mirrored pos now).qtyFilled = o.qty := rfl
@[simp] theorem adopted_qtyFilled : (o.adopted t now).qtyFilled = o.qtyFilled := rfl
@[simp] theorem rewired_qtyFilled : (o.rewired t now).qtyFilled = o.qtyFilled := rfl
@[simp] theorem expiredAt_qtyFilled : (o.expiredAt now).qtyFilled = o.qtyFilled := rfl
@[simp] theorem cancelledAt_qtyFilled : (o.cancelledAt now).qtyFilled = o.qtyFilled := rfl

@[simp] theorem answered_qtyFilled : (o.answered now outcome).qtyFilled = o.qtyFilled := by
  cases outcome <;> rfl

@[simp] theorem onComboCancel_qtyFilled :
    (o.onComboCancel status reason now).qtyFilled = o.qtyFilled := by
  unfold StructureOrder.onComboCancel
  split <;> rfl

@[simp] theorem stamped_state : (o.stamped a b now).state = .submitted := rfl
@[simp] theorem stampedLive_state : (o.stampedLive a b lp now).state = .submitted := rfl
@[simp] theorem withAggregates_state : (o.withAggregates agg).state = o.state := rfl
@[simp] theorem comboBooked_state : (o.comboBooked now).state = .filled := rfl
@[simp] theorem repaired_state : (o.repaired recorded new now).state = new := rfl
@[simp] theorem mirrored_state : (o.mirrored pos now).state = .filled := rfl
@[simp] theorem expiredAt_state : (o.expiredAt now).state = .expired := rfl
@[simp] theorem cancelledAt_state : (o.cancelledAt now).state = .cancelled := rfl

theorem answered_state : (o.answered now outcome).state = outcome.state := by
  cases outcome <;> rfl

@[simp] theorem adopted_state :
    (o.adopted t now).state = if o.state = .pending then .submitted else o.state := rfl

@[simp] theorem rewired_state :
    (o.rewired t now).state = if o.state = .pending then .submitted else o.state := rfl

/-- A combo cancel ends a leg that is not terminal, or leaves it alone. -/
theorem onComboCancel_state :
    o.onComboCancel status reason now = o ∨ (o.state.isTerminal = false ∧
      ((o.onComboCancel status reason now).state = .cancelled ∨
        (o.onComboCancel status reason now).state = .rejected)) := by
  unfold StructureOrder.onComboCancel
  split
  · next h => exact .inr ⟨(nextState_newState h).1, .inl rfl⟩
  · next h => exact .inr ⟨(nextState_newState h).1, .inr rfl⟩
  · exact .inl rfl

theorem onComboCancel_terminal (h : o.state.isTerminal) : o.onComboCancel status reason now = o := by
  rcases onComboCancel_state o now status reason with heq | hdead
  · exact heq
  · rw [h] at hdead
    cases hdead.1

end Rows

/-- The fills of a leg once its synthetic fill is recorded. -/
def comboFills (perm : String) (now : Instant) (i : ℕ) (o : StructureOrder)
    (fills : List StructureFill) : List StructureFill :=
  if ExecId.combo perm i ∈ fills.map (·.ibExecutionId) then fills
  else fills ++ [comboFillRow perm now i o]

inductive RowChange (db : Db) (i : ℕ) (o : StructureOrder) :
    Event → StructureOrder → List StructureFill → Prop
  | same (e : Event) : RowChange db i o e o (db.fillsOf i)
  | stampedLive (a b : Option ℕ) (lp : Option ℚ) (now : Instant) :
      RowChange db i o (.stampLive i a b lp now) (o.stampedLive a b lp now) (db.fillsOf i)
  | stamped (a b : Option ℕ) (now : Instant) :
      RowChange db i o (.stampPlacement i a b now) (o.stamped a b now) (db.fillsOf i)
  | onStatus (status : IbStatus) (reason : Option String) (now : Instant) :
      RowChange db i o (.orderStatus i status reason now) (o.onStatus status reason now)
        (db.fillsOf i)
  | comboCancelled {ids : List ℕ} (perm : String) (status : IbStatus) (reason : Option String)
      (now : Instant) (hmem : i ∈ ids) :
      RowChange db i o (.comboStatus perm ids status reason now) (o.onComboCancel status reason now)
        (db.fillsOf i)
  | comboBooked {ids : List ℕ} (perm : String) (reason : Option String) (now : Instant)
      (hmem : i ∈ ids) (hopen : o.state ≠ .filled) :
      RowChange db i o (.comboStatus perm ids .filled reason now) (o.comboBooked now)
        (comboFills perm now i o (db.fillsOf i))
  | booked {fill : IbFill} (now : Instant) (hnew : ¬ db.Booked (.ib fill.execId)) :
      RowChange db i o (.execution i fill now) (o.booked fill (aggregatesWith db i o fill) now)
        (db.fillsOf i ++ [fillRow i fill])
  | reported (x : String) (c : Option ℚ) (cur cur' : Option String)
      (hfill : db.fills.any (·.isExecution i x)) :
      RowChange db i o (.commissionReport i x c cur)
        (o.withAggregates (recomputeAggregates (db.reportFill i x (c.getD 0) cur') i o))
        ((db.fillsOf i).map fun f => f.reported i x (c.getD 0) cur')
  | repaired {new : OrderState} (now : Instant) (hstuck : o.state.isStuck)
      (hnew : stateFromRecordedFills (db.recorded i) o.qty o.state = some new) :
      RowChange db i o (.reconcile now) (o.repaired (db.recorded i) new now) (db.fillsOf i)
  | mirrored {pos : OpenPosition} (now : Instant) (hstuck : o.state.isStuck)
      (hnone : stateFromRecordedFills (db.recorded i) o.qty o.state = none)
      (hpos : pos ∈ mirrorOf db o.structureId) (hleg : legMatchesPosition o pos) :
      RowChange db i o (.reconcile now) (o.mirrored pos now) (db.fillsOf i)
  | adopted (trades : List IbTrade) (t : IbTrade) (tau : ℤ) (now : Instant)
      (hids : o.ibOrderId = none) :
      RowChange db i o (.reap trades tau now) (o.adopted t now) (db.fillsOf i)
  | expired (trades : List IbTrade) (tau : ℤ) (now : Instant) (o₁ : StructureOrder)
      (h₁ : o₁ = o ∨ ∃ t, o.ibOrderId = none ∧ o₁ = o.adopted t now) (hstuck : o₁.state.isStuck) :
      RowChange db i o (.reap trades tau now) (o₁.expiredAt now) (db.fillsOf i)
  | rewired (trades : List IbTrade) (t : IbTrade) (now : Instant)
      (hworking : o.state.isNonTerminal) :
      RowChange db i o (.reconnect trades now) (o.rewired t now) (db.fillsOf i)
  | answered (outcome : DispatchOutcome) (now : Instant) :
      RowChange db i o (.closeAnswer i outcome now) (o.answered now outcome) (db.fillsOf i)
  | cancelled {ids : List ℕ} (tradeId : ℕ) (now : Instant) (hmem : i ∈ ids) :
      RowChange db i o (.cancelTrade tradeId ids now) (o.cancelledAt now) (db.fillsOf i)

theorem RowChange.leg {db : Db} {i : ℕ} {o o' : StructureOrder} {e : Event}
    {fills : List StructureFill} (h : RowChange db i o e o' fills) : o'.leg = o.leg := by
  cases h with
  | same | stampedLive | stamped | reported | repaired | mirrored | adopted | rewired => rfl
  | comboBooked | cancelled => rfl
  | onStatus status reason now => exact (onStatus_leg status reason).1
  | comboCancelled perm status reason now => exact onComboCancel_leg o now status reason
  | booked => exact booked_leg
  | expired trades tau now o₁ h₁ =>
    rcases h₁ with rfl | ⟨t, _, rfl⟩ <;> rfl
  | answered outcome now => exact answered_leg o now outcome

section Updates
variable {db : Db} {i j : ℕ} {o : StructureOrder}

theorem updateOrder_row (g : StructureOrder → StructureOrder) (ho : db.orders[j]? = some o) :
    (db.updateOrder i g).orders[j]? = some (if j = i then g o else o) := by
  by_cases hj : j = i
  · subst hj
    rw [Db.updateOrder_getElem?_self, ho, if_pos rfl, Option.map_some]
  · rw [Db.updateOrder_getElem?_ne _ _ _ hj, ho, if_neg hj]

theorem setOrder_row (o' : StructureOrder) (ho : db.orders[j]? = some o) :
    (db.orders.set i o')[j]? = some (if j = i then o' else o) := by
  by_cases hj : j = i
  · subst hj
    rw [if_pos rfl]
    exact Db.setOrder_getElem?_self db j o' (by simp [ho])
  · rw [if_neg hj, ← ho]
    exact Db.setOrder_getElem?_ne db i o' hj

end Updates

section Handlers
variable {db : Db} {i : ℕ} {o : StructureOrder}

theorem onComboCancel_idem (o : StructureOrder) (status : IbStatus) (reason : Option String)
    (now : Instant) : (o.onComboCancel status reason now).onComboCancel status reason now =
      o.onComboCancel status reason now := by
  rcases onComboCancel_state o now status reason with h | ⟨_, h⟩
  · rw [h, h]
  · apply onComboCancel_terminal
    rcases h with h | h <;> rw [h] <;> rfl

/-- Writing each listed row through an idempotent change leaves it changed once. -/
theorem updateOrders_row (g : StructureOrder → StructureOrder) (idem : ∀ o, g (g o) = g o)
    (ids : List ℕ) (ho : db.orders[i]? = some o) :
    (ids.foldl (fun db i => db.updateOrder i g) db).orders[i]? =
      some (if i ∈ ids then g o else o) := by
  induction ids generalizing db o with
  | nil => simpa using ho
  | cons k ids ih =>
    have hk := updateOrder_row (i := k) g ho
    rw [List.foldl_cons, ih hk]
    by_cases hik : i = k <;> by_cases hmem : i ∈ ids <;> simp [hik, hmem, idem]

theorem terminaliseStructure_orders (now : Instant) (db : Db) (sid : ℕ) :
    (terminaliseStructure now db sid).orders = db.orders := by
  unfold terminaliseStructure
  split
  · split_ifs <;> rfl
  · rfl

theorem SyntheticFill.orders {perm : String} {now : Instant} {db₁ : Db}
    (h : SyntheticFill perm now i o db db₁) : db₁.orders = db.orders := by
  rcases h with ⟨_, rfl⟩ | ⟨_, rfl⟩ <;> rfl

theorem SyntheticFill.fillsOf_self {perm : String} {now : Instant} {db₁ : Db}
    (h : SyntheticFill perm now i o db db₁) :
    db₁.fillsOf i = comboFills perm now i o (db.fillsOf i) := by
  rcases h with ⟨hseen, rfl⟩ | ⟨hnew, rfl⟩
  · rw [comboFills, if_pos hseen]
  · have hunseen : ExecId.combo perm i ∉ (db.fillsOf i).map (·.ibExecutionId) :=
      fun h => hnew (.of_fillsOf h)
    rw [comboFills, if_neg hunseen]
    exact Db.addFill_fillsOf_self db _ rfl

theorem SyntheticFill.fillsOf_ne {perm : String} {now : Instant} {db₁ : Db} {j : ℕ}
    (h : SyntheticFill perm now i o db db₁) (hj : j ≠ i) : db₁.fillsOf j = db.fillsOf j := by
  rcases h with ⟨_, rfl⟩ | ⟨_, rfl⟩
  · rfl
  · exact Db.addFill_fillsOf_ne db _ j (Ne.symm hj)

theorem local_bookComboLeg (perm : String) (now : Instant) :
    Local (fun (db : Db) i => (db.orders[i]?, db.fillsOf i))
      fun s i t => bookComboLeg perm now s i = .ok t := by
  intro s i t hok j hj
  rcases bookComboLeg_cases hok with rfl | ⟨o, s₁, _, _, hs, rfl⟩
  · rfl
  · have ho : (bookComboRow s₁ i o now).orders[j]? = s.orders[j]? := by
      rw [bookComboRow_orders, hs.orders]
      exact Db.setOrder_getElem?_ne s i _ hj
    have hf : (bookComboRow s₁ i o now).fillsOf j = s.fillsOf j := by
      rw [Db.fillsOf_congr bookComboRow_fills, hs.fillsOf_ne hj]
    exact Prod.ext ho hf

/-- A filled combo leaves a listed leg alone or books it whole. -/
theorem bookCombo_row {perm : String} {ids : List ℕ} {now : Instant} {db' : Db}
    (hok : ids.foldlM (bookComboLeg perm now) db = .ok db') (ho : db.orders[i]? = some o) :
    (db'.orders[i]? = some o ∧ db'.fillsOf i = db.fillsOf i) ∨
    (i ∈ ids ∧ o.state ≠ .filled ∧ db'.orders[i]? = some (o.comboBooked now) ∧
      db'.fillsOf i = comboFills perm now i o (db.fillsOf i)) := by
  have hp := passes_foldlM _ hok
  have hl := local_bookComboLeg perm now
  by_cases hmem : i ∈ ids
  · have hrel := hp.view_rel hl (I := fun _ => True)
      (R := fun k v w => w = v ∨ ∃ o, v.1 = some o ∧ o.state ≠ .filled ∧
        w = (some (o.comboBooked now), comboFills perm now k o v.2))
      (fun _ _ => .inl rfl) ?_ (fun _ _ _ _ _ => trivial) ?_ trivial i
    · rcases hrel with h | ⟨o₁, h₁, hne, h⟩
      · exact .inl ⟨(congrArg Prod.fst h).trans ho, congrArg Prod.snd h⟩
      · obtain rfl : o = o₁ := Option.some.inj (ho.symm.trans h₁)
        exact .inr ⟨hmem, hne, congrArg Prod.fst h, congrArg Prod.snd h⟩
    · rintro _ v w x (rfl | ⟨o₁, hv, hne, rfl⟩) (rfl | ⟨o₂, hw₂, hne₂, rfl⟩)
      · exact .inl rfl
      · exact .inr ⟨o₂, hw₂, hne₂, rfl⟩
      · exact .inr ⟨o₁, hv, hne, rfl⟩
      · obtain rfl : o₁.comboBooked now = o₂ := Option.some.inj hw₂
        exact absurd rfl hne₂
    · intro s k t _ hk
      rcases bookComboLeg_cases hk with rfl | ⟨o₁, s₁, ho₁, hne, hs, rfl⟩
      · exact .inl rfl
      · refine .inr ⟨o₁, ho₁, hne, Prod.ext ?_ ?_⟩
        · dsimp only
          rw [bookComboRow_orders, hs.orders]
          exact Db.setOrder_getElem?_self s k _ (by simp [ho₁])
        · dsimp only
          rw [Db.fillsOf_congr bookComboRow_fills, hs.fillsOf_self]
  · have hv := hp.view_notMem hl hmem
    exact .inl ⟨(congrArg Prod.fst hv).trans ho, congrArg Prod.snd hv⟩

theorem comboCancel_fills (status : IbStatus) (reason : Option String) (now : Instant)
    (ids : List ℕ) (db : Db) :
    (ids.foldl (comboCancelLeg status reason now) db).fills = db.fills := by
  apply (passes_foldl _ ids db).invariant (I := fun s => s.fills = _)
  · rintro k _ s t hs rfl
    exact hs
  · rfl

theorem comboStatus_row (perm : String) (ids : List ℕ) (status : IbStatus)
    (reason : Option String) (now : Instant) (ho : db.orders[i]? = some o) :
    ∃ o', (onComboStatus db perm ids status reason now).1.orders[i]? = some o' ∧
      RowChange db i o (.comboStatus perm ids status reason now) o'
        ((onComboStatus db perm ids status reason now).1.fillsOf i) := by
  rcases onComboStatus_cases db perm ids status reason now with h | ⟨rfl, hok⟩ | h
  · rw [h]
    exact ⟨o, ho, .same _⟩
  · rcases bookCombo_row hok ho with ⟨ho', hfills⟩ | ⟨hmem, hopen, ho', hfills⟩
    · exact ⟨_, ho', hfills ▸ .same _⟩
    · exact ⟨_, ho', hfills ▸ .comboBooked perm reason now hmem hopen⟩
  · have hrow := updateOrders_row (fun o => o.onComboCancel status reason now)
      (fun o => onComboCancel_idem o status reason now) ids ho
    rw [h, Db.fillsOf_congr (comboCancel_fills status reason now ids db)]
    refine ⟨_, hrow, ?_⟩
    split_ifs with hmem
    · exact .comboCancelled perm status reason now hmem
    · exact .same _

theorem terminaliseStructure_fills (now : Instant) (db : Db) (sid : ℕ) :
    (terminaliseStructure now db sid).fills = db.fills := by
  unfold terminaliseStructure
  split
  · split_ifs <;> rfl
  · rfl

theorem terminaliseStructure_legPositions (now : Instant) (db : Db) (sid : ℕ) :
    (terminaliseStructure now db sid).legPositions = db.legPositions := by
  unfold terminaliseStructure
  split
  · split_ifs <;> rfl
  · rfl

theorem cancelTrade_fills (db : Db) (tradeId : ℕ) (ids : List ℕ) (now : Instant) :
    (cancelTrade db tradeId ids now).fills = db.fills := by
  rw [cancelTrade, terminaliseStructure_fills]
  apply (passes_foldl _ ids db).invariant (I := fun s => s.fills = _)
  · rintro k _ s t hs rfl
    exact hs
  · rfl

theorem cancelTrade_row (tradeId : ℕ) (ids : List ℕ) (now : Instant)
    (ho : db.orders[i]? = some o) :
    ∃ o', (cancelTrade db tradeId ids now).orders[i]? = some o' ∧
      RowChange db i o (.cancelTrade tradeId ids now) o'
        ((cancelTrade db tradeId ids now).fillsOf i) := by
  have hrow := updateOrders_row (fun o => o.cancelledAt now) (fun _ => rfl) ids ho
  have horders : (cancelTrade db tradeId ids now).orders[i]? =
      some (if i ∈ ids then o.cancelledAt now else o) := by
    rw [cancelTrade, terminaliseStructure_orders]
    exact hrow
  rw [Db.fillsOf_congr (cancelTrade_fills db tradeId ids now)]
  refine ⟨_, horders, ?_⟩
  split_ifs with hmem
  · exact .cancelled tradeId now hmem
  · exact .same _

/-- The reconciler: pass 1 sees every stuck row as it was, pass 2 the rows pass 1 left. -/
theorem bookPass_cases (now : Instant) (db : Db) (i : ℕ) : bookPass now db i = db ∨
    ∃ o new, db.orders[i]? = some o ∧
      stateFromRecordedFills (db.recorded i) o.qty o.state = some new ∧
      bookPass now db i =
        rebuildLeg (db.setOrder i (o.repaired (db.recorded i) new now)) i := by
  unfold bookPass
  split
  · next o new ho hv =>
    refine .inr ⟨o, new, ho, ?_, rfl⟩
    simpa [bookVerdict, ho] using hv
  · exact .inl rfl

theorem local_bookPass (now : Instant) :
    Local (fun (db : Db) i => (db.orders[i]?, db.fillsOf i)) fun s i t => t = bookPass now s i := by
  rintro s i t rfl j hj
  rcases bookPass_cases now s i with h | ⟨o, new, _, _, h⟩
  · rw [h]
  · rw [h]
    exact Prod.ext (Db.setOrder_getElem?_ne s i _ hj) rfl

/-- What pass 1 leaves alone: the fills and the mirror. -/
theorem bookPass_frame (now : Instant) (db : Db) (i : ℕ) :
    (bookPass now db i).fills = db.fills ∧
      (bookPass now db i).openPositions = db.openPositions := by
  rcases bookPass_cases now db i with h | ⟨o, new, _, _, h⟩ <;> rw [h] <;> exact ⟨rfl, rfl⟩

theorem bookPasses_row (now : Instant) (ids : List ℕ) (hd : ids.Nodup)
    (ho : db.orders[i]? = some o) :
    (ids.foldl (bookPass now) db).orders[i]? = some (match bookVerdict db i with
      | some new => if i ∈ ids then o.repaired (db.recorded i) new now else o
      | none => o) := by
  have hp := passes_foldl (bookPass now) ids db
  have hl := local_bookPass now
  by_cases hmem : i ∈ ids
  · obtain ⟨s, t, _, rfl, hs, ht⟩ := hp.view_mem hl hd (I := fun _ => True)
      (fun _ _ _ _ _ => trivial) trivial hmem
    have hrow : s.orders[i]? = some o := (congrArg Prod.fst hs).trans ho
    have hfills : s.fillsOf i = db.fillsOf i := congrArg Prod.snd hs
    have hrec : s.recorded i = db.recorded i := by rw [Db.recorded, hfills, Db.recorded]
    have hverdict : bookVerdict s i = bookVerdict db i := by
      rw [bookVerdict, bookVerdict, hrow, ho, hrec]
    have hrow' : (ids.foldl (bookPass now) db).orders[i]? = (bookPass now s i).orders[i]? :=
      congrArg Prod.fst ht
    rw [hrow', ← hverdict, bookPass, hrow]
    cases hv : bookVerdict s i with
    | none => exact hrow
    | some new =>
      simp only [if_pos hmem, ← hrec]
      exact Db.setOrder_getElem?_self s i _ (by simp [hrow])
  · have hv : (ids.foldl (bookPass now) db).orders[i]? = db.orders[i]? :=
      congrArg Prod.fst (hp.view_notMem hl hmem)
    rw [hv, ho]
    cases bookVerdict db i <;> simp [hmem]

theorem local_mirrorPass (now : Instant) :
    Local (fun (acc : Db × List ℕ) i => acc.1.orders[i]?)
      fun s i t => t = mirrorPass now s i := by
  rintro s i t rfl j hj
  unfold mirrorPass
  split
  · rfl
  · split
    · rfl
    · exact Db.setOrder_getElem?_ne _ i _ hj

theorem mirrorPass_frame (now : Instant) (acc : Db × List ℕ) (i : ℕ) :
    (mirrorPass now acc i).1.openPositions = acc.1.openPositions ∧
      (mirrorPass now acc i).1.fills = acc.1.fills ∧
      (mirrorPass now acc i).1.legPositions = acc.1.legPositions := by
  unfold mirrorPass
  split
  · exact ⟨rfl, rfl, rfl⟩
  · split <;> exact ⟨rfl, rfl, rfl⟩

theorem mirrorMatch_some {used : List ℕ} {pos : OpenPosition}
    (h : mirrorMatch db used o = some pos) :
    pos ∈ mirrorOf db o.structureId ∧ pos.id ∉ used ∧ legMatchesPosition o pos := by
  have hpos := List.mem_of_find?_eq_some h
  have hp := List.find?_some h
  simp only [decide_eq_true_eq] at hp
  exact ⟨hpos, hp⟩

theorem mirrorMatch_congr {db db' : Db} (h : db'.openPositions = db.openPositions)
    (used : List ℕ) (o : StructureOrder) : mirrorMatch db' used o = mirrorMatch db used o := by
  simp only [mirrorMatch, mirrorOf, h]

theorem mirrorPasses_row (now : Instant) (ids used : List ℕ) (hd : ids.Nodup)
    (ho : db.orders[i]? = some o) :
    ∃ o', (ids.foldl (mirrorPass now) (db, used)).1.orders[i]? = some o' ∧
      (o' = o ∨ i ∈ ids ∧ ∃ pos ∈ mirrorOf db o.structureId, legMatchesPosition o pos ∧
        o' = o.mirrored pos now) := by
  have hp := passes_foldl (mirrorPass now) ids (db, used)
  have honce := hp.view_once (local_mirrorPass now) hd
      (I := fun acc => acc.1.openPositions = db.openPositions)
      (R := fun _ v w => ∀ o, v = some o → ∃ o', w = some o' ∧ (o' = o ∨
        ∃ pos ∈ mirrorOf db o.structureId, legMatchesPosition o pos ∧ o' = o.mirrored pos now))
      ?_ ?_ rfl i
  · rcases honce with h | ⟨hmem, h⟩
    · exact ⟨o, h.trans ho, .inl rfl⟩
    · obtain ⟨o', ho', h | h⟩ := h o ho
      · exact ⟨o', ho', .inl h⟩
      · exact ⟨o', ho', .inr ⟨hmem, h⟩⟩
  · rintro s k t hs rfl
    rw [(mirrorPass_frame now s k).1, hs]
  · rintro s k t hs rfl o hrow
    simp only [mirrorPass, hrow]
    cases hm : mirrorMatch s.1 s.2 o with
    | none => exact ⟨o, hrow, .inl rfl⟩
    | some pos =>
      obtain ⟨hpos, _, hleg⟩ := mirrorMatch_some hm
      have hmirror : mirrorOf s.1 o.structureId = mirrorOf db o.structureId := by
        rw [mirrorOf, mirrorOf, hs]
      refine ⟨o.mirrored pos now, ?_, .inr ⟨pos, hmirror ▸ hpos, hleg, rfl⟩⟩
      exact Db.setOrder_getElem?_self s.1 k _ (by simp [hrow])

theorem stuckIds_nodup (db : Db) : (stuckIds db).Nodup := db.orderIds_nodup _

theorem mem_stuckIds (ho : db.orders[i]? = some o) : i ∈ stuckIds db ↔ o.state.isStuck := by
  simp [stuckIds, Db.mem_orderIds, ho]

theorem bookVerdict_of_row (ho : db.orders[i]? = some o) :
    bookVerdict db i = stateFromRecordedFills (db.recorded i) o.qty o.state := by
  rw [bookVerdict, ho, Option.bind_some]

theorem bookPasses_openPositions (now : Instant) (ids : List ℕ) (db : Db) :
    (ids.foldl (bookPass now) db).openPositions = db.openPositions := by
  apply (passes_foldl (bookPass now) ids db).invariant (I := fun s => s.openPositions = _)
  · rintro k _ s t hs rfl
    rw [(bookPass_frame now s k).2, hs]
  · rfl

theorem reconcile_fills (db : Db) (now : Instant) :
    (reconcileStuckOrders db now).1.fills = db.fills := by
  have h₁ : ((stuckIds db).foldl (bookPass now) db).fills = db.fills := by
    apply (passes_foldl _ _ db).invariant (I := fun s => s.fills = _)
    · rintro k _ s t hs rfl
      rw [(bookPass_frame now s k).1, hs]
    · rfl
  apply (passes_foldl (mirrorPass now) _ _).invariant (I := fun s => s.1.fills = _)
  · rintro k _ s t hs rfl
    rw [(mirrorPass_frame now s k).2.1, hs]
  · exact h₁

theorem reconcile_row (now : Instant) (ho : db.orders[i]? = some o) :
    ∃ o', (reconcileStuckOrders db now).1.orders[i]? = some o' ∧
      RowChange db i o (.reconcile now) o' ((reconcileStuckOrders db now).1.fillsOf i) := by
  rw [Db.fillsOf_congr (reconcile_fills db now)]
  have hverdict := bookVerdict_of_row ho
  have hrow₁ := bookPasses_row now (stuckIds db) (stuckIds_nodup db) ho
  have hd : ((stuckIds db).filter fun i => (bookVerdict db i).isNone).Nodup :=
    (stuckIds_nodup db).filter _
  obtain ⟨o', ho', hchange⟩ := mirrorPasses_row now _ [] hd hrow₁
  refine ⟨o', ho', ?_⟩
  cases hv : bookVerdict db i with
  | some new =>
    have hnone : i ∉ (stuckIds db).filter fun i => (bookVerdict db i).isNone := by simp [hv]
    simp only [hv, hnone, false_and, or_false] at hchange
    by_cases hmem : i ∈ stuckIds db
    · rw [hchange, if_pos hmem]
      exact .repaired now ((mem_stuckIds ho).mp hmem) (hverdict ▸ hv)
    · rw [hchange, if_neg hmem]
      exact .same _
  | none =>
    simp only [hv] at hchange
    rcases hchange with rfl | ⟨hmem, pos, hpos, hleg, rfl⟩
    · exact .same _
    · have hstuck := (mem_stuckIds ho).mp (List.mem_of_mem_filter hmem)
      have hmirror : mirrorOf ((stuckIds db).foldl (bookPass now) db) o.structureId =
          mirrorOf db o.structureId := by
        rw [mirrorOf, bookPasses_openPositions, mirrorOf]
      exact .mirrored now hstuck (hverdict ▸ hv) (hmirror ▸ hpos) hleg

/-- The reaper: adoption, expiry of stale orders, then the structures. -/
theorem adoptOrphan_cases (trades : List IbTrade) (now : Instant) (db : Db) (i : ℕ) :
    adoptOrphan trades now db i = db ∨ ∃ o t, db.orders[i]? = some o ∧ o.ibOrderId = none ∧
      adoptOrphan trades now db i = db.setOrder i (o.adopted t now) := by
  unfold adoptOrphan
  split
  · next o t ho ht =>
    split_ifs with hids
    · exact .inr ⟨o, t, ho, hids, rfl⟩
    · exact .inl rfl
  · exact .inl rfl

theorem local_adoptOrphan (trades : List IbTrade) (now : Instant) :
    Local (fun (db : Db) i => db.orders[i]?) fun s i t => t = adoptOrphan trades now s i := by
  rintro s i t rfl j hj
  rcases adoptOrphan_cases trades now s i with h | ⟨o, t, _, _, h⟩
  · rw [h]
  · rw [h]
    exact Db.setOrder_getElem?_ne s i _ hj

theorem adoptOrphans_row (trades : List IbTrade) (now : Instant) (ids : List ℕ) (hd : ids.Nodup)
    (ho : db.orders[i]? = some o) :
    ∃ o₁, (ids.foldl (adoptOrphan trades now) db).orders[i]? = some o₁ ∧
      (o₁ = o ∨ ∃ t, o.ibOrderId = none ∧ o₁ = o.adopted t now) := by
  have hp := passes_foldl (adoptOrphan trades now) ids db
  have honce := hp.view_once (local_adoptOrphan trades now) hd (I := fun _ => True)
      (R := fun _ v w => ∀ o, v = some o → ∃ o₁, w = some o₁ ∧
        (o₁ = o ∨ ∃ t, o.ibOrderId = none ∧ o₁ = o.adopted t now))
      (fun _ _ _ _ _ => trivial) ?_ trivial i
  · rcases honce with h | ⟨_, h⟩
    · exact ⟨o, h.trans ho, .inl rfl⟩
    · exact h o ho
  · rintro s k t _ rfl o hrow
    rcases adoptOrphan_cases trades now s k with h | ⟨o₁, t, ho₁, hids, h⟩
    · exact ⟨o, by rw [h, hrow], .inl rfl⟩
    · obtain rfl : o = o₁ := Option.some.inj (hrow.symm.trans ho₁)
      refine ⟨o.adopted t now, ?_, .inr ⟨t, hids, rfl⟩⟩
      rw [h]
      exact Db.setOrder_getElem?_self s k _ (by simp [hrow])

theorem decideReap_expired {state : OrderState} {age tau : ℤ} {held matches_ : Bool}
    (h : decideReap state age tau held matches_ = some .expired) : state.isStuck := by
  unfold decideReap at h
  split_ifs at h with hstuck
  · cases h
  · simpa using hstuck

theorem reapOrder_cases (live : List ℕ) (tau : ℤ) (now : Instant) (acc : Db × List ℕ) (i : ℕ) :
    (reapOrder live tau now acc i).1 = acc.1 ∨
    ∃ o, acc.1.orders[i]? = some o ∧ o.state.isStuck ∧ (reapOrder live tau now acc i).1 =
      releaseReservation (acc.1.setOrder i (o.expiredAt now)) (o.expiredAt now) := by
  unfold reapOrder
  split
  · exact .inl rfl
  · next o ho =>
    split_ifs
    · exact .inl rfl
    · dsimp only
      split
      · exact .inl rfl
      · next hdecide => exact .inr ⟨o, ho, decideReap_expired hdecide, rfl⟩
      · exact .inl rfl

theorem local_reapOrder (live : List ℕ) (tau : ℤ) (now : Instant) :
    Local (fun (acc : Db × List ℕ) i => acc.1.orders[i]?)
      fun s i t => t = reapOrder live tau now s i := by
  rintro s i t rfl j hj
  rcases reapOrder_cases live tau now s i with h | ⟨o, _, _, h⟩
  · exact congrArg (fun db : Db => db.orders[j]?) h
  · have hset := Db.setOrder_getElem?_ne s.1 i (o.expiredAt now) hj
    have hrow : (reapOrder live tau now s i).1.orders[j]? = s.1.orders[j]? := by
      rw [h, releaseReservation_orders]
      exact hset
    exact hrow

theorem reapOrders_row (live : List ℕ) (tau : ℤ) (now : Instant) (ids used : List ℕ)
    (hd : ids.Nodup) (ho : db.orders[i]? = some o) :
    ∃ o', (ids.foldl (reapOrder live tau now) (db, used)).1.orders[i]? = some o' ∧
      (o' = o ∨ i ∈ ids ∧ o.state.isStuck ∧ o' = o.expiredAt now) := by
  have hp := passes_foldl (reapOrder live tau now) ids (db, used)
  have honce := hp.view_once (local_reapOrder live tau now) hd (I := fun _ => True)
      (R := fun _ v w => ∀ o, v = some o → ∃ o', w = some o' ∧
        (o' = o ∨ o.state.isStuck ∧ o' = o.expiredAt now))
      (fun _ _ _ _ _ => trivial) ?_ trivial i
  · rcases honce with h | ⟨hmem, h⟩
    · exact ⟨o, h.trans ho, .inl rfl⟩
    · obtain ⟨o', ho', hexpired⟩ := h o ho
      exact ⟨o', ho', hexpired.imp id fun hstuck => ⟨hmem, hstuck⟩⟩
  · rintro s k t _ rfl o hrow
    rcases reapOrder_cases live tau now s k with h | ⟨o₁, ho₁, hstuck, h⟩
    · exact ⟨o, by rw [h, hrow], .inl rfl⟩
    · obtain rfl : o = o₁ := Option.some.inj (hrow.symm.trans ho₁)
      refine ⟨o.expiredAt now, ?_, .inr ⟨hstuck, rfl⟩⟩
      rw [h, releaseReservation_orders]
      exact Db.setOrder_getElem?_self s.1 k _ (by simp [hrow])

theorem terminaliseStructures_orders (now : Instant) (sids : List ℕ) (db : Db) :
    (sids.foldl (terminaliseStructure now) db).orders = db.orders := by
  apply (passes_foldl (terminaliseStructure now) sids db).invariant (I := fun s => s.orders = _)
  · rintro k _ s t hs rfl
    rw [terminaliseStructure_orders, hs]
  · rfl

theorem terminaliseStructures_fills (now : Instant) (sids : List ℕ) (db : Db) :
    (sids.foldl (terminaliseStructure now) db).fills = db.fills := by
  apply (passes_foldl (terminaliseStructure now) sids db).invariant (I := fun s => s.fills = _)
  · rintro k _ s t hs rfl
    rw [terminaliseStructure_fills, hs]
  · rfl

theorem reap_fills (db : Db) (trades : List IbTrade) (tau : ℤ) (now : Instant) :
    (reapStaleOrders db trades tau now).fills = db.fills := by
  rw [reapStaleOrders, terminaliseStructures_fills]
  apply (passes_foldl (reapOrder (liveIbOrderKeys trades) tau now) _ _).invariant
    (I := fun s => s.1.fills = _)
  · rintro k _ s t hs rfl
    rcases reapOrder_cases (liveIbOrderKeys trades) tau now s k with h | ⟨o, _, _, h⟩ <;>
      simp [h, hs]
  · apply (passes_foldl _ _ db).invariant (I := fun s => s.fills = _)
    · rintro k _ s t hs rfl
      rcases adoptOrphan_cases trades now s k with h | ⟨o, t, _, _, h⟩ <;> simp [h, hs]
    · rfl

theorem reap_row (trades : List IbTrade) (tau : ℤ) (now : Instant)
    (ho : db.orders[i]? = some o) :
    ∃ o', (reapStaleOrders db trades tau now).orders[i]? = some o' ∧
      RowChange db i o (.reap trades tau now) o'
        ((reapStaleOrders db trades tau now).fillsOf i) := by
  rw [Db.fillsOf_congr (reap_fills db trades tau now)]
  obtain ⟨o₁, ho₁, h₁⟩ := adoptOrphans_row trades now _ List.nodup_range ho
  obtain ⟨o', ho', h'⟩ := reapOrders_row (liveIbOrderKeys trades) tau now _ []
    (Db.orderIds_nodup _ _) ho₁
  refine ⟨o', ?_, ?_⟩
  · rw [reapStaleOrders, terminaliseStructures_orders]
    exact ho'
  · rcases h' with rfl | ⟨_, hstuck, rfl⟩
    · rcases h₁ with rfl | ⟨t, hids, rfl⟩
      · exact .same _
      · exact .adopted trades t tau now hids
    · exact .expired trades tau now o₁ h₁ hstuck

theorem attachOptionHandler_cases (trades : List IbTrade) (now : Instant) (db : Db) (i : ℕ) :
    attachOptionHandler trades now db i = db ∨
    ∃ o t, db.orders[i]? = some o ∧ o.state.isNonTerminal ∧
      attachOptionHandler trades now db i = db.setOrder i (o.rewired t now) := by
  unfold attachOptionHandler
  split
  · next o t ho ht =>
    split_ifs with hworking
    · exact .inr ⟨o, t, ho, hworking, rfl⟩
    · exact .inl rfl
  · exact .inl rfl

theorem reconnect_fills (db : Db) (trades : List IbTrade) (now : Instant) :
    (attachOptionHandlers db trades now).fills = db.fills := by
  apply (passes_foldl _ _ db).invariant (I := fun s => s.fills = _)
  · rintro k _ s t hs rfl
    rcases attachOptionHandler_cases trades now s k with h | ⟨o, t, _, _, h⟩ <;> simp [h, hs]
  · rfl

theorem reconnect_row (trades : List IbTrade) (now : Instant) (ho : db.orders[i]? = some o) :
    ∃ o', (attachOptionHandlers db trades now).orders[i]? = some o' ∧
      RowChange db i o (.reconnect trades now) o'
        ((attachOptionHandlers db trades now).fillsOf i) := by
  rw [Db.fillsOf_congr (reconnect_fills db trades now)]
  have hp := passes_foldl (attachOptionHandler trades now) (List.range db.orders.length) db
  have hl : Local (fun (db : Db) i => db.orders[i]?)
      fun s i t => t = attachOptionHandler trades now s i := by
    rintro s i t rfl j hj
    rcases attachOptionHandler_cases trades now s i with h | ⟨o, t, _, _, h⟩
    · rw [h]
    · rw [h]
      exact Db.setOrder_getElem?_ne s i _ hj
  have honce := hp.view_once hl List.nodup_range (I := fun _ => True)
      (R := fun _ v w => ∀ o, v = some o → ∃ o', w = some o' ∧
        (o' = o ∨ ∃ t, o.state.isNonTerminal ∧ o' = o.rewired t now))
      (fun _ _ _ _ _ => trivial) ?_ trivial i
  · rcases honce with h | ⟨_, h⟩
    · exact ⟨o, h.trans ho, .same _⟩
    · obtain ⟨o', ho', rfl | ⟨t, hworking, rfl⟩⟩ := h o ho
      · exact ⟨_, ho', .same _⟩
      · exact ⟨_, ho', .rewired trades t now hworking⟩
  · rintro s k t _ rfl o hrow
    rcases attachOptionHandler_cases trades now s k with h | ⟨o₁, t, ho₁, hworking, h⟩
    · exact ⟨o, by rw [h, hrow], .inl rfl⟩
    · obtain rfl : o = o₁ := Option.some.inj (hrow.symm.trans ho₁)
      refine ⟨o.rewired t now, ?_, .inr ⟨t, hworking, rfl⟩⟩
      rw [h]
      exact Db.setOrder_getElem?_self s k _ (by simp [hrow])

end Handlers

end FxVol
