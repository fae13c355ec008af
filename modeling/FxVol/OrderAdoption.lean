import FxVol.ReaperAgreement
import FxVol.TableGrowth

/-!
# Adopting orders that IB holds

A placement that crashes between `placeOrder` and the commit of the ids leaves an order at IB
whose row is `pending` and has no ids.  The reconnect and the reaper both give the row its ids
back; only the reaper gives it a `submitted_at`, without which no order is ever stale.
-/
namespace FxVol

open GuardedRuns KeyedPasses

/-- A pass over the orders IB lists: the rehydration of a reconnect, or the adoption sweep of the
reaper. -/
inductive AdoptionSweep
  | reconnect (trades : List IbTrade) (now : Instant)
  | reaper (trades : List IbTrade) (now : Instant)

namespace AdoptionSweep

def trades : AdoptionSweep → List IbTrade
  | reconnect trades _ | reaper trades _ => trades

def run (db : Db) : AdoptionSweep → Db
  | reconnect trades now => attachOptionHandlers db trades now
  | reaper trades now => adoptOrphans db trades now

def isReaper : AdoptionSweep → Bool
  | reaper .. => true
  | reconnect .. => false

/-- The sweep sees order `i` at IB, under these ids. -/
def Sees (sweep : AdoptionSweep) (i ibOrderId ibPermId : ℕ) : Prop :=
  ∃ t, tradeNaming sweep.trades i = some t ∧ t.orderId = some ibOrderId ∧
    t.permId = some ibPermId

end AdoptionSweep

/-- The placement of the order crashed before its ids were committed. -/
def PlacementCrashed (db : Db) (i : ℕ) : Prop :=
  ∃ o, db.orders[i]? = some o ∧ o.state = .pending ∧ o.ibOrderId = none ∧ o.ibPermId = none ∧
    o.submittedAt = none

/-- The row has the ids of the order at IB, and since when it is submitted. -/
structure StructureOrder.AdoptedAs (o : StructureOrder) (ibOrderId ibPermId : ℕ) : Prop where
  orderId : o.ibOrderId = some ibOrderId
  permId : o.ibPermId = some ibPermId
  state : o.state = .submitted
  since : o.submittedAt.isSome

/-- What the sweep makes of the row of order `i`. -/
def AdoptionSweep.rowOf (i : ℕ) (o : StructureOrder) : AdoptionSweep → StructureOrder
  | reconnect trades now => match tradeNaming trades i with
    | some t => if o.state.isNonTerminal then o.rewired t now else o
    | none => o
  | reaper trades now => match tradeNaming trades i with
    | some t => if o.ibOrderId = none then o.adopted t now else o
    | none => o

section Rows
variable {db : Db} {i ibOrderId ibPermId : ℕ} {o : StructureOrder}

/-- A sweep that rewrites the rows it finds at IB and that meet a test. -/
theorem sweep_row {trades : List IbTrade} {pass : Db → ℕ → Db} {p : StructureOrder → Prop}
    [DecidablePred p] {change : StructureOrder → IbTrade → StructureOrder}
    (hpass : ∀ db i, pass db i = match db.orders[i]?, tradeNaming trades i with
      | some o, some t => if p o then db.setOrder i (change o t) else db
      | _, _ => db)
    (ho : db.orders[i]? = some o) :
    ((List.range db.orders.length).foldl pass db).orders[i]? =
      some (match tradeNaming trades i with
        | some t => if p o then change o t else o
        | none => o) := by
  have hlocal : Local (fun (db : Db) i => db.orders[i]?) fun db i db' => db' = pass db i := by
    rintro db i _ rfl j hj
    rw [hpass]
    split
    · split_ifs
      · exact Db.setOrder_getElem?_ne db i _ hj
      · rfl
    · rfl
  have hown (db : Db) (i : ℕ) : (pass db i).orders[i]? = (db.orders[i]?).map fun o =>
      match tradeNaming trades i with
      | some t => if p o then change o t else o
      | none => o := by
    rw [hpass]
    cases ho : db.orders[i]? with
    | none => simp [ho]
    | some o =>
      cases tradeNaming trades i with
      | none => simp [ho]
      | some t =>
        simp only [Option.map_some]
        split_ifs
        · exact Db.setOrder_getElem?_self db i _ (by simp [ho])
        · exact ho
  have hlt := (List.getElem?_eq_some_iff.mp ho).1
  rw [foldl_view hlocal hown List.nodup_range (List.mem_range.mpr hlt) db, ho, Option.map_some]

theorem AdoptionSweep.run_row (sweep : AdoptionSweep) (ho : db.orders[i]? = some o) :
    (sweep.run db).orders[i]? = some (sweep.rowOf i o) := by
  cases sweep with
  | reconnect trades now => exact sweep_row (fun _ _ => rfl) ho
  | reaper trades now => exact sweep_row (fun _ _ => rfl) ho

theorem AdoptionSweep.runs_row (sweeps : List AdoptionSweep) (ho : db.orders[i]? = some o) :
    (sweeps.foldl AdoptionSweep.run db).orders[i]? =
      some (sweeps.foldl (fun o sweep => sweep.rowOf i o) o) := by
  induction sweeps generalizing db o with
  | nil => exact ho
  | cons sweep sweeps ih => exact ih (sweep.run_row ho)

/-- A property of rows that have their order id, which every reconnect keeps, is kept. -/
theorem AdoptionSweep.runs_keep {P : StructureOrder → Prop} (sweeps : List AdoptionSweep)
    (hid : ∀ o, P o → o.ibOrderId ≠ none) (hkeep : ∀ o t now, P o → P (o.rewired t now))
    (ho : P o) : P (sweeps.foldl (fun o sweep => sweep.rowOf i o) o) := by
  induction sweeps generalizing o with
  | nil => exact ho
  | cons sweep sweeps ih =>
    refine ih ?_
    cases sweep with
    | reconnect trades now =>
      simp only [rowOf]
      split
      · split_ifs
        · exact hkeep _ _ _ ho
        · exact ho
      · exact ho
    | reaper trades now =>
      simp only [rowOf, hid o ho, if_false]
      split <;> exact ho

/-- The sweep that sees the order first decides whether its row is submitted since an instant. -/
theorem adopted_iff_reaper_first {first : AdoptionSweep} {rest : List AdoptionSweep}
    (hcrashed : PlacementCrashed db i) (hsees : first.Sees i ibOrderId ibPermId) :
    (∃ o, ((first :: rest).foldl AdoptionSweep.run db).orders[i]? = some o ∧
      o.AdoptedAs ibOrderId ibPermId) ↔ first.isReaper := by
  obtain ⟨o, ho, hpending, hid, hperm, hsince⟩ := hcrashed
  obtain ⟨t, ht, htid, htperm⟩ := hsees
  rw [AdoptionSweep.runs_row _ ho, List.foldl_cons]
  cases first with
  | reconnect trades now =>
    have hrow : (AdoptionSweep.reconnect trades now).rowOf i o = o.rewired t now := by
      simp only [AdoptionSweep.trades] at ht
      simp [AdoptionSweep.rowOf, ht, hpending, OrderState.isNonTerminal]
    have hkept := AdoptionSweep.runs_keep (i := i)
      (P := fun o => o.ibOrderId = some ibOrderId ∧ o.submittedAt = none) (o := o.rewired t now) rest
      (fun o h => by simp [h.1]) (fun o t now h => ⟨by simp [StructureOrder.rewired, h.1], h.2⟩)
      ⟨by simp [StructureOrder.rewired, hid, htid], hsince⟩
    rw [hrow]
    refine iff_of_false ?_ nofun
    rintro ⟨o', ho', hadopted⟩
    have hsome := hadopted.since
    rw [← Option.some.inj ho', hkept.2] at hsome
    cases hsome
  | reaper trades now =>
    have hrow : (AdoptionSweep.reaper trades now).rowOf i o = o.adopted t now := by
      simp only [AdoptionSweep.trades] at ht
      simp [AdoptionSweep.rowOf, ht, hid]
    have hadopted : (o.adopted t now).AdoptedAs ibOrderId ibPermId :=
      ⟨htid, htperm, by simp [hpending], rfl⟩
    rw [hrow]
    refine iff_of_true ⟨_, rfl, ?_⟩ rfl
    apply AdoptionSweep.runs_keep (P := fun o => o.AdoptedAs ibOrderId ibPermId) _ ?_ ?_ hadopted
    · intro o h
      simp [h.orderId]
    · intro o t now h
      exact ⟨by simp [StructureOrder.rewired, h.orderId], by simp [StructureOrder.rewired, h.permId],
        by simp [h.state], h.since⟩

end Rows

/-- Every order that IB has acknowledged is subject to the staleness rule. -/
def AcknowledgedReapable (db : Db) : Prop :=
  ∀ (i : ℕ) (o : StructureOrder), db.orders[i]? = some o → o.state.isStuck →
    ∃ since, o.submittedAt = some since ∧ ∀ cutoff, since < cutoff → i ∈ staleIds db cutoff

/-- A reconnect sees no order that was never submitted, and no execution fills a part of one. -/
def KeepsReapable (db : Db) : Event → Prop
  | .reconnect trades _ => ∀ (i : ℕ) (o : StructureOrder), db.orders[i]? = some o →
      o.state = .pending → o.submittedAt = none → tradeNaming trades i = none
  | .execution i fill _ => ∀ o ∈ db.orders[i]?, o.submittedAt = none →
      ¬ db.Booked (.ib fill.execId) → (aggregatesWith db i o fill).fullyFilled
  | _ => True

section Reapable
variable {db : Db} {i : ℕ} {o o' : StructureOrder} {e : Event} {fills : List StructureFill}

/-- An order IB has acknowledged is submitted since an instant. -/
def StructureOrder.SinceKnown (o : StructureOrder) : Prop := o.state.isStuck → o.submittedAt.isSome

theorem acknowledgedReapable_iff : AcknowledgedReapable db ↔
    ∀ (i : ℕ) (o : StructureOrder), db.orders[i]? = some o → o.SinceKnown := by
  refine forall_congr' fun i => forall_congr' fun o => forall_congr' fun ho =>
    forall_congr' fun hstuck => ⟨?_, ?_⟩
  · rintro ⟨since, hsince, _⟩
    simp [hsince]
  · intro hsome
    obtain ⟨since, hsince⟩ := Option.isSome_iff_exists.mp hsome
    refine ⟨since, hsince, fun cutoff hlt => Db.mem_orderIds.mpr ⟨o, ho, ?_⟩⟩
    simp [hstuck, hsince, hlt]

theorem StructureOrder.SinceKnown.onStatus (h : o.SinceKnown) (status : IbStatus)
    (reason : Option String) (now : Instant) : (o.onStatus status reason now).SinceKnown := by
  unfold StructureOrder.onStatus
  dsimp only
  split
  · exact h
  · exact h
  · exact h
  · exact fun _ => rfl
  · exact nofun
  · exact nofun
  · split_ifs <;> exact h
  · exact h

theorem sinceKnown_booked {fill : IbFill} {agg : OrderAggregate} {now : Instant} :
    (o.booked fill agg now).SinceKnown ↔ (o.submittedAt = none → agg.fullyFilled) := by
  have hsince : (o.booked fill agg now).submittedAt = o.submittedAt := by
    unfold StructureOrder.booked StructureOrder.afterFill
    split_ifs <;> rfl
  rw [StructureOrder.SinceKnown, booked_state, hsince]
  cases o.submittedAt <;> cases agg.fullyFilled <;> simp [OrderState.isStuck]

/-- Outside reconnects and executions, a row stays one whose submission is known. -/
theorem RowChange.sinceKnown (h : RowChange db i o e o' fills) (ho : o.SinceKnown)
    (hreconnect : ∀ trades now, e ≠ .reconnect trades now)
    (hexecution : ∀ fill now, e ≠ .execution i fill now) : o'.SinceKnown := by
  cases h with
  | same => exact ho
  | stampedLive | stamped | adopted => exact fun _ => rfl
  | onStatus status reason now => exact ho.onStatus status reason now
  | comboCancelled perm status reason now =>
    rcases onComboCancel_state o now status reason with heq | ⟨_, hdead⟩
    · rwa [heq]
    · intro hstuck
      rcases hdead with hdead | hdead <;> rw [hdead] at hstuck <;> cases hstuck
  | comboBooked | mirrored | expired | cancelled => exact nofun
  | booked now => exact absurd rfl (hexecution _ now)
  | reported => exact ho
  | repaired now hstuck => exact fun _ => ho hstuck
  | rewired trades t now => exact absurd rfl (hreconnect trades now)
  | answered outcome now =>
    cases outcome with
    | unknown | accepted => exact fun _ => rfl
    | notSent | refused => exact nofun

/-- A reconnect that sees an order that was never submitted loses sight of since when it is. -/
theorem reconnect_sinceKnown (trades : List IbTrade) (now : Instant) (ho : o.SinceKnown) :
    ((AdoptionSweep.reconnect trades now).rowOf i o).SinceKnown ↔
      (o.state = .pending → o.submittedAt = none → tradeNaming trades i = none) := by
  simp only [AdoptionSweep.rowOf]
  cases ht : tradeNaming trades i with
  | none => exact iff_of_true ho fun _ _ => rfl
  | some t =>
    dsimp only
    by_cases hpending : o.state = .pending
    · rw [if_pos (by rw [hpending]; rfl), StructureOrder.SinceKnown, rewired_state, if_pos hpending]
      cases hsince : o.submittedAt <;>
        simp [StructureOrder.rewired, hpending, hsince, OrderState.isStuck]
    · refine iff_of_true ?_ fun h => absurd h hpending
      split_ifs
      · intro hstuck
        rw [rewired_state, if_neg hpending] at hstuck
        exact ho hstuck
      · exact ho

/-- Rows of a transaction that adds none but pending ones. -/
theorem sinceKnown_step (h : ∀ (i : ℕ) (o o' : StructureOrder), db.orders[i]? = some o →
      (step db e).orders[i]? = some o' → o'.SinceKnown) :
    ∀ (i : ℕ) (o' : StructureOrder), (step db e).orders[i]? = some o' → o'.SinceKnown := by
  intro i o' ho'
  by_cases hlt : i < db.orders.length
  · exact h i _ o' (List.getElem?_eq_getElem hlt) ho'
  · intro hstuck
    rw [(step_new (by omega) ho').pending] at hstuck
    cases hstuck

theorem step_reapable (h : AcknowledgedReapable db) :
    AcknowledgedReapable (step db e) ↔ KeepsReapable db e := by
  rw [acknowledgedReapable_iff] at h ⊢
  have kept (hreconnect : ∀ trades now, e ≠ .reconnect trades now)
      (hexecution : ∀ i fill now, e ≠ .execution i fill now) :
      ∀ (i : ℕ) (o' : StructureOrder), (step db e).orders[i]? = some o' → o'.SinceKnown := by
    refine sinceKnown_step fun i o o' ho ho' => ?_
    have hchange := step_change ho ho'
    exact hchange.sinceKnown (h i o ho) hreconnect (hexecution i)
  cases e with
  | reconnect trades now =>
    have hrow {i : ℕ} {o : StructureOrder} (ho : db.orders[i]? = some o) :=
      (AdoptionSweep.reconnect trades now).run_row ho
    constructor
    · intro hall i o ho
      exact (reconnect_sinceKnown trades now (h i o ho)).mp (hall i _ (hrow ho))
    · intro hguard
      refine sinceKnown_step fun i o o' ho ho' => ?_
      obtain rfl := Option.some.inj ((hrow ho).symm.trans ho')
      exact (reconnect_sinceKnown trades now (h i o ho)).mpr (hguard i o ho)
  | execution j fill now =>
    constructor
    · intro hall o ho hsince hnew
      have hrow : (step db (.execution j fill now)).orders[j]? =
          some (o.booked fill (aggregatesWith db j o fill) now) := by
        have hlt := (List.getElem?_eq_some_iff.mp ho).1
        rw [step, deliverFill_new ho hnew, bookFill_orders, List.getElem?_set_self hlt]
      exact sinceKnown_booked.mp (hall j _ hrow) hsince
    · intro hguard
      refine sinceKnown_step fun i o o' ho ho' => ?_
      have hchange := step_change ho ho'
      generalize (step db (.execution j fill now)).fillsOf i = fills at hchange
      cases hchange with
      | same => exact h i o ho
      | booked now hnew => exact sinceKnown_booked.mpr fun hsince => hguard o ho hsince hnew
  | _ =>
    refine iff_of_true ?_ trivial
    exact kept (fun _ _ h => by cases h) (fun _ _ _ h => by cases h)

end Reapable

/-- All along a run, what IB has acknowledged is reapable, just where the run keeps it so; and of
the sweeps that see an order whose placement crashed, the first must be the reaper's for its row to
end with the ids, the state and the instant that make it reapable. -/
theorem adoption_reapable_iff (es : List Event) :
    ((∀ past, past <+: es → AcknowledgedReapable (past.foldl step Db.empty)) ↔
      Guarded step KeepsReapable Db.empty es) ∧
    ∀ (db : Db) (i ibOrderId ibPermId : ℕ) (first : AdoptionSweep) (rest : List AdoptionSweep),
      PlacementCrashed db i → (∀ sweep ∈ first :: rest, sweep.Sees i ibOrderId ibPermId) →
        ((∃ o, ((first :: rest).foldl AdoptionSweep.run db).orders[i]? = some o ∧
          o.AdoptedAs ibOrderId ibPermId) ↔ first.isReaper) := by
  constructor
  · exact guarded_iff (I := fun _ => True) (fun _ _ _ => trivial)
      (fun _ _ _ hreapable => step_reapable hreapable) trivial
      (fun i o ho => by simp [Db.empty] at ho) es
  · intro db i ibOrderId ibPermId first rest hcrashed hsees
    exact adopted_iff_reaper_first hcrashed (hsees first List.mem_cons_self)

/-- A placement of one call crashes; IB holds the order. -/
def crashedPlacement : Db := step Db.empty (.submitPreview [callLeg .buy 10] 0)

def heldOrder : IbTrade := ⟨some 7, some 70, .submitted, 10, some (orderRef 0 0)⟩

theorem sees_heldOrder (now : Instant) :
    (AdoptionSweep.reconnect [heldOrder] now).Sees 0 7 70 ∧
      (AdoptionSweep.reaper [heldOrder] now).Sees 0 7 70 := by
  have hnamed : tradeNaming [heldOrder] 0 = some heldOrder := by
    simp [tradeNaming, heldOrder, parseOrderRef_orderRef]
  exact ⟨⟨heldOrder, hnamed, rfl, rfl⟩, ⟨heldOrder, hnamed, rfl, rfl⟩⟩

theorem placementCrashed_crashedPlacement : PlacementCrashed crashedPlacement 0 :=
  ⟨(callLeg .buy 10).order 0 0 .entry 0, by decide +kernel, rfl, rfl, rfl, rfl⟩

theorem adoption_reapable_iff_heldOrder :
    ∃ o, ([.reaper [heldOrder] 1, .reconnect [heldOrder] 2].foldl AdoptionSweep.run
      crashedPlacement).orders[0]? = some o ∧ o.AdoptedAs 7 70 := by
  apply ((adoption_reapable_iff []).2 crashedPlacement 0 7 70 (.reaper [heldOrder] 1)
    [.reconnect [heldOrder] 2] placementCrashed_crashedPlacement ?_).mpr rfl
  intro sweep hsweep
  rcases List.mem_cons.mp hsweep with rfl | hlast
  · exact (sees_heldOrder 1).2
  · rw [List.mem_singleton.mp hlast]
    exact (sees_heldOrder 2).1

/-- The reconnect sees the order first: its row is `submitted` under the ids of IB, the reaper
leaves it as it is, and at no time is it stale. -/
theorem reconnect_adopts_without_instant :
    let db := [.reconnect [heldOrder] 1, .reaper [heldOrder] 2].foldl AdoptionSweep.run
      crashedPlacement
    (∃ o, db.orders[0]? = some o ∧ o.state = .submitted ∧ o.ibOrderId = some 7 ∧
      o.submittedAt = none) ∧ (∀ cutoff, 0 ∉ staleIds db cutoff) ∧ ¬ AcknowledgedReapable db := by
  have hrow : ([.reconnect [heldOrder] 1, .reaper [heldOrder] 2].foldl AdoptionSweep.run
      crashedPlacement).orders[0]? = some { (callLeg .buy 10).order 0 0 .entry 0 with
        ibOrderId := some 7, ibPermId := some 70, state := .submitted, stateUpdatedAt := 1 } := by
    decide +kernel
  have hstale (cutoff : Instant) : 0 ∉ staleIds ([.reconnect [heldOrder] 1,
      .reaper [heldOrder] 2].foldl AdoptionSweep.run crashedPlacement) cutoff := by
    intro hmem
    obtain ⟨o, ho, hp⟩ := Db.mem_orderIds.mp hmem
    rw [← Option.some.inj (hrow.symm.trans ho)] at hp
    cases hp
  refine ⟨⟨_, hrow, rfl, rfl, rfl⟩, hstale, ?_⟩
  intro hall
  obtain ⟨since, hsince, _⟩ := hall 0 _ hrow rfl
  cases hsince

end FxVol
