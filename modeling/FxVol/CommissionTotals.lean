import FxVol.CommissionFolds
import FxVol.CompletionOnce
import FxVol.TableTotals

/-!
# Commissions in the totals of a structure

The cascade of a structure reads its orders once, sums them, and writes the sums on the structure
and on its booked position.  A commission that is reported after that read is on the order and in
no total.
-/
namespace FxVol

open GuardedRuns TableTotals RowUpdates

def Db.primary (db : Db) (s : ℕ) : List StructureOrder := primaryOrders ((db.ordersOf s).map (·.1))

def entryCost (orders : List StructureOrder) : ℚ :=
  pyRound (totalSlippage orders + totalCommission orders) 2

/-- The totals on a structure are the ones computed from the order totals. -/
structure TradeStructure.AddsUp (r : TradeStructure) (orders : List StructureOrder) : Prop where
  commission : r.totalCommissionUsd = some (pyRound (totalCommission orders) 2)
  entryCost : r.totalEntryCostUsd = some (FxVol.entryCost orders)

/-- Every fill has the reported commission, and every total is computed from the fills below it. -/
structure CommissionsAddUp (κ : String → ℚ) (db : Db) : Prop where
  fills : ∀ f ∈ db.fills, ∀ x, f.ibExecutionId = .ib x → f.commissionUsd = κ x
  orders : ∀ (i : ℕ) (o : StructureOrder), db.orders[i]? = some o →
    o.totalCommissionUsd = ((db.fillsOf i).map (·.commissionUsd)).sum
  completed : ∀ s, EntryFilled db s ∨ ClosingFilled db s → db.fullyFilled s
  booked : ∀ s, EntryFilled db s → db.isBooked s
  structures : ∀ (s : ℕ) (r : TradeStructure), db.structures[s]? = some r →
    r.state = .fullyFilled → r.AddsUp (db.primary s)
  positions : ∀ p ∈ db.bookedPositions, p.entryTotalCostUsd = entryCost (db.primary p.structureId)

/-- The tables with the cascades under way, and the commission reports handled so far. -/
structure ReportWorld where
  world : CascadeWorld
  reported : List (ℕ × String)

def ReportWorld.empty : ReportWorld := ⟨.empty, []⟩

def CascadeEvent.reports : CascadeEvent → List (ℕ × String)
  | .book e => reportsIn e
  | _ => []

def reportWorldStep (w : ReportWorld) (e : CascadeEvent) : ReportWorld where
  world := cascadeWorldStep w.world e
  reported := w.reported ++ e.reports

/-- IB reports each execution once; the process does not crash. -/
def Delivers (κ : String → ℚ) (w : ReportWorld) : CascadeEvent → Prop
  | .book e => Trades w.world.db e ∧ ReportsOnce κ w.reported e
  | .raiseAlert positionId _ => positionId < w.world.db.bookedPositions.length
  | .run .. => True
  | .crash => False

def CascadePc.read : CascadePc → Option (List StructureOrder)
  | .counting orders _ | .booking orders _ _ | .completing orders _ => some orders
  | .called | .checked | .finalising | .closing .. => none

/-- The costs of a structure are summed already, or a cascade has read what it sums. -/
def Counted (w : CascadeWorld) (s : ℕ) : Prop :=
  w.db.fullyFilled s ∨ ∃ task ∈ w.tasks, task.1 = s ∧ task.2.read.isSome

/-- An event brings no new execution of a leg of the structure, and no report on one that says
something else than the fill row. -/
def KeepsCosts (db : Db) (s : ℕ) : Event → Prop
  | .execution i fill _ => ∀ o ∈ db.orders[i]?, o.structureId = s → db.Booked (.ib fill.execId)
  | .commissionReport i x c _ => ∀ o ∈ db.orders[i]?, o.structureId = s → ∀ f ∈ db.fillsOf i,
      f.ibExecutionId = .ib x → f.commissionUsd = c.getD 0
  | _ => True

def CostsKnown (w : ReportWorld) : CascadeEvent → Prop
  | .book e => ∀ o ∈ w.world.db.orders, Counted w.world o.structureId →
      KeepsCosts w.world.db o.structureId e
  | _ => True

/-- A report of the execution has been handled; a synthetic fill has none. -/
def ExecId.IsReported (reported : List (ℕ × String)) (orderId : ℕ) : ExecId → Prop
  | .ib x => (orderId, x) ∈ reported
  | .combo _ _ => True

/-- No cascade is under way, and the commission of every execution on a fill row is reported. -/
structure AllProcessed (w : ReportWorld) : Prop where
  idle : w.world.tasks = []
  reported : ∀ f ∈ w.world.db.fills, f.ibExecutionId.IsReported w.reported f.orderId

section Book
variable {db : Db} {e : Event} {s : ℕ}

/-- The totals of the order rows, and the reported commissions on the fill rows. -/
structure FoldedTables (κ : String → ℚ) (reported : List (ℕ × String)) (db : Db) : Prop where
  wellFormed : db.WellFormed
  fills : ∀ f ∈ db.fills, f.Sound κ reported
  orders : ∀ (i : ℕ) (o : StructureOrder), db.orders[i]? = some o → o.FoldsCosts (db.fillsOf i)

theorem StructureFill.Sound.empty {κ : String → ℚ} {reported : List (ℕ × String)}
    {f : StructureFill} (h : f.Sound κ reported) (hq : f.qtyFilled = 0) : f.commissionUsd = 0 := by
  unfold Sound at h
  split at h
  · omega
  · exact h

theorem FoldedTables.step {κ : String → ℚ} {reported : List (ℕ × String)}
    (h : FoldedTables κ reported db) (hr : ReportsOnce κ reported e) :
    FoldedTables κ (reported ++ reportsIn e) (FxVol.step db e) := by
  have hfills : ∀ f ∈ (FxVol.step db e).fills, f.Sound κ (reported ++ reportsIn e) :=
    fun f hf => (step_fill hf).sound hr h.fills
  refine ⟨step_wellFormed e h.wellFormed, hfills, ?_⟩
  intro i o' ho'
  rcases step_row_cases ho' with ⟨o, ho, hchange⟩ | ⟨hi, hfresh⟩
  · refine hchange.foldsCosts (h.orders i o ho) ?_
    exact fun f hf => (hfills f (List.mem_of_mem_filter hf)).empty
  · rw [step_newRow h.wellFormed hi]
    refine ⟨hfresh.noCommission, ?_⟩
    rw [hfresh.noSlippage]
    cases o'.previewPrice <;> simp [slippageOf]

/-- A transaction that keeps the costs of a structure. -/
theorem step_costs {κ : String → ℚ} {reported : List (ℕ × String)} (he : Trades db e)
    (h : FoldedTables κ reported db) (hr : ReportsOnce κ reported e) (hk : KeepsCosts db s e)
    (hs : s < db.structures.length) :
    costsOf ((step db e).primary s) = costsOf (db.primary s) := by
  rw [Db.primary, Db.primary, Db.ordersOf_rows, Db.ordersOf_rows]
  apply costs_congr
  apply selected_congr
  · intro i o ho
    obtain ⟨o', ho', hchange⟩ := step_row e ho
    have hsid := leg_structureId hchange.leg
    refine ⟨o', ho', by rw [hsid], ?_⟩
    intro hmem
    have hself : o.structureId = s := of_decide_eq_true hmem
    have hfolds' := (h.step hr).orders i o' ho'
    refine hchange.cost (h.orders i o ho) hfolds' ?_ ?_
    · rintro fill now rfl
      exact hk o ho hself
    · rintro x c cur rfl
      exact hk o ho hself
  · intro i o' hi ho'
    obtain ⟨hsid, _⟩ := step_newStructure he hi ho'
    exact decide_eq_false (by omega)

end Book

/-- What the cascades have read, and the totals they have written, are what the orders cost. -/
structure CostsRead (w : CascadeWorld) : Prop where
  read : ∀ s pc, (s, pc) ∈ w.tasks → ∀ orders ∈ pc.read,
    costsOf orders = costsOf (w.db.primary s)
  structures : ∀ (s : ℕ) (r : TradeStructure), w.db.structures[s]? = some r →
    r.state = .fullyFilled → r.AddsUp (w.db.primary s)
  positions : ∀ p ∈ w.db.bookedPositions,
    p.entryTotalCostUsd = entryCost (w.db.primary p.structureId)

section Cascades
variable {w w' : CascadeWorld} {db db' : Db} {s : ℕ} {pc : CascadePc} {next : Option CascadePc}
  {orders orders' : List StructureOrder} {r : TradeStructure} {tasks : List (ℕ × CascadePc)}

theorem entryCost_congr (h : costsOf orders' = costsOf orders) :
    entryCost orders' = entryCost orders := by
  simp only [costsOf, Prod.mk.injEq] at h
  simp only [entryCost, h.1, h.2]

theorem TradeStructure.AddsUp.congr (ha : r.AddsUp orders) (h : costsOf orders' = costsOf orders) :
    r.AddsUp orders' := by
  have hcost := entryCost_congr h
  simp only [costsOf, Prod.mk.injEq] at h
  exact ⟨h.2 ▸ ha.commission, hcost ▸ ha.entryCost⟩

theorem completed_addsUp (r : TradeStructure) (orders : List StructureOrder) (now : Instant) :
    (r.completed orders now).AddsUp orders := ⟨rfl, rfl⟩

theorem primary_congr (h : db'.orders = db.orders) (s : ℕ) : db'.primary s = db.primary s := by
  simp only [Db.primary, Db.ordersOf, h]

/-- A transaction writes no fully filled structure and no entry cost. -/
theorem step_booked {e : Event} (he : Trades db e) :
    (∀ (s : ℕ) (r : TradeStructure), (step db e).structures[s]? = some r →
      r.state = .fullyFilled → db.structures[s]? = some r) ∧
    (step db e).bookedPositions.map (fun p => (p.structureId, p.entryTotalCostUsd)) =
      db.bookedPositions.map fun p => (p.structureId, p.entryTotalCostUsd) := by
  have appended {new : TradeStructure} (hnew : new.state ≠ .fullyFilled) (s : ℕ)
      (r : TradeStructure) (hr : (db.structures ++ [new])[s]? = some r)
      (hfull : r.state = .fullyFilled) : db.structures[s]? = some r := by
    by_cases hs : s < db.structures.length
    · rwa [List.getElem?_append_left hs] at hr
    · rw [List.getElem?_append_right (by omega)] at hr
      rw [List.mem_singleton.mp (List.mem_of_getElem? hr)] at hfull
      exact absurd hfull hnew
  rcases step_trades he with h | ⟨new, hnew, h⟩ | ⟨positionId, pos, legs, alert, now, hpos, _, h⟩
  · simp only [Db.tradeTables, Prod.mk.injEq] at h
    rw [h.1, h.2.1]
    exact ⟨fun _ _ hr _ => hr, rfl⟩
  · simp only [Db.tradeTables, Prod.mk.injEq] at h
    rw [h.1, h.2.1]
    exact ⟨appended hnew, rfl⟩
  · rw [h, persistPositionClose_structures, persistPositionClose_booked]
    exact ⟨appended (by simp [TradeStructure.new]), map_set_same hpos rfl⟩

/-- A transaction keeps what the structures that are counted cost. -/
theorem CostsRead.book {e : Event} (h : CostsRead w) (ht : TradesConsistent w.db)
    (hholds : ∀ s pc, (s, pc) ∈ w.tasks → pc.Holds w.db s) (he : Trades w.db e)
    (hkeep : ∀ s, Counted w s → s < w.db.structures.length →
      costsOf ((step w.db e).primary s) = costsOf (w.db.primary s)) :
    CostsRead (cascadeWorldStep w (.book e)) := by
  obtain ⟨hstructures, hpositions⟩ := step_booked he
  refine ⟨?_, ?_, ?_⟩
  · intro s pc hpc orders horders
    rcases List.mem_append.mp hpc with hold | hnew
    · have hcounted : Counted w s := .inr ⟨_, hold, rfl, by rw [horders]; rfl⟩
      have hlt : s < w.db.structures.length := by
        have hpcHolds := hholds s pc hold
        cases pc with
        | counting =>
          obtain ⟨o, ho, rfl, _⟩ := hpcHolds
          exact ht.known o ho
        | booking =>
          obtain ⟨⟨o, ho, rfl, _⟩, _⟩ := hpcHolds
          exact ht.known o ho
        | completing =>
          obtain ⟨⟨o, ho, rfl⟩, _⟩ := hpcHolds
          exact ht.known o ho
        | called | checked | finalising | closing => cases horders
      exact (h.read s pc hold orders horders).trans (hkeep s hcounted hlt).symm
    · obtain ⟨s', _, heq⟩ := List.mem_map.mp hnew
      obtain ⟨_, rfl⟩ := Prod.mk.inj heq
      cases horders
  · intro s r hr hfull
    have hold := hstructures s r hr hfull
    have hfullyFilled : w.db.fullyFilled s := by simp [Db.fullyFilled, hold, hfull]
    exact (h.structures s r hold hfull).congr
      (hkeep s (.inl hfullyFilled) (fullyFilled_known hfullyFilled))
  · intro p hp
    have hmem : (p.structureId, p.entryTotalCostUsd) ∈
        (step w.db e).bookedPositions.map fun p => (p.structureId, p.entryTotalCostUsd) :=
      List.mem_map_of_mem hp
    rw [hpositions] at hmem
    obtain ⟨q, hq, heq⟩ := List.mem_map.mp hmem
    obtain ⟨hsid, hcost⟩ := Prod.mk.inj heq
    have hfull := ht.filled p.structureId (hsid ▸ List.mem_map_of_mem hq)
    rw [← hcost, h.positions q hq, hsid]
    exact (entryCost_congr (hkeep _ (.inl hfull) (fullyFilled_known hfull))).symm

theorem CascadeMove.sameOrders (hm : CascadeMove w s pc w' next) :
    w'.db.orders = w.db.orders := by
  cases hm with
  | booked => exact bookPosition_orders ..
  | _ => rfl

/-- What a cascade goes on with is what the orders cost, if that is what it had read. -/
theorem CascadeMove.read (hm : CascadeMove w s pc w' next)
    (h : ∀ orders ∈ pc.read, costsOf orders = costsOf (w.db.primary s)) :
    ∀ pc' ∈ next, ∀ orders ∈ pc'.read, costsOf orders = costsOf (w.db.primary s) := by
  rintro pc' hpc' orders horders
  cases hm with
  | count orders' now hread | complete orders' now hread =>
    cases hpc'
    cases horders
    rw [hread, Db.primary]
  | counted orders' now existing =>
    cases hpc'
    exact h orders horders
  | check | completed | found =>
    cases hpc'
    cases horders
  | _ => cases hpc'

/-- A structure or a position is written with the costs the cascade had read. -/
theorem CascadeMove.written (hm : CascadeMove w s pc w' next) (h : CostsRead w)
    (hread : ∀ orders ∈ pc.read, costsOf orders = costsOf (w.db.primary s)) :
    (∀ (s' : ℕ) (r : TradeStructure), w'.db.structures[s']? = some r → r.state = .fullyFilled →
      r.AddsUp (w.db.primary s')) ∧
    ∀ p ∈ w'.db.bookedPositions, p.entryTotalCostUsd = entryCost (w.db.primary p.structureId) := by
  have set (orders : List StructureOrder) (now : Instant) (r₀ : TradeStructure)
      (horders : orders ∈ pc.read) (s' : ℕ) (r : TradeStructure)
      (hr : (w.db.structures.set s (r₀.completed orders now))[s']? = some r)
      (hfull : r.state = .fullyFilled) : r.AddsUp (w.db.primary s') := by
    by_cases hs : s = s'
    · subst hs
      rw [List.getElem?_set_self'] at hr
      obtain ⟨_, _, rfl⟩ := Option.map_eq_some_iff.mp hr
      exact (completed_addsUp r₀ orders now).congr (hread orders horders).symm
    · rw [List.getElem?_set_ne hs] at hr
      exact h.structures s' r hr hfull
  cases hm with
  | rebooked orders now r₀ hr₀ | completed orders now r₀ hr₀ =>
    exact ⟨set orders now r₀ rfl, h.positions⟩
  | booked orders now r₀ hr₀ hfree =>
    have hany : ¬ (w.db.bookedPositions.any fun p => p.structureId = s) :=
      fun hbooked => hfree (isBooked_iff.mpr hbooked)
    have hbook : bookPosition (w.db.setStructure s (r₀.completed orders now)) s
        (r₀.completed orders now) now = { w.db.setStructure s (r₀.completed orders now) with
          bookedPositions := w.db.bookedPositions ++
            [⟨s, now, (r₀.completed orders now).totalPremiumPaidUsd.getD 0, entryCost orders,
              .open⟩] } := if_neg hany
    dsimp only
    rw [hbook]
    refine ⟨set orders now r₀ rfl, ?_⟩
    intro p hp
    rcases List.mem_append.mp hp with hold | hnew
    · exact h.positions p hold
    · rw [List.mem_singleton.mp hnew]
      exact (entryCost_congr (hread orders rfl).symm).symm
  | close k p stamp =>
    refine ⟨h.structures, ?_⟩
    intro q hq
    have hsame : (closePosition w.db k p).bookedPositions.map
          (fun p => (p.structureId, p.entryTotalCostUsd)) =
        w.db.bookedPositions.map fun p => (p.structureId, p.entryTotalCostUsd) := by
      apply map_modify_same
      exact fun _ => rfl
    have hmem := List.mem_map_of_mem (f := fun p => (p.structureId, p.entryTotalCostUsd)) hq
    rw [hsame] at hmem
    obtain ⟨q₀, hq₀, heq⟩ := List.mem_map.mp hmem
    obtain ⟨hsid, hcost⟩ := Prod.mk.inj heq
    rw [← hcost, ← hsid]
    exact h.positions q₀ hq₀
  | _ => exact ⟨h.structures, h.positions⟩

theorem CascadeMove.costsRead (hm : CascadeMove w s pc w' next) (h : CostsRead w)
    (hpc : (s, pc) ∈ w.tasks) (hres : Resumed w.tasks tasks s pc next) :
    CostsRead { w' with tasks := tasks } := by
  have hprimary (s' : ℕ) : w'.db.primary s' = w.db.primary s' := primary_congr hm.sameOrders s'
  obtain ⟨hstructures, hpositions⟩ := hm.written h (h.read s pc hpc)
  refine ⟨?_, ?_, ?_⟩
  · intro s' pc' hpc' orders horders
    rw [hprimary]
    rcases hres.sub _ hpc' with hold | ⟨pc'', hmem, heq⟩
    · exact h.read s' pc' hold orders horders
    · obtain ⟨rfl, rfl⟩ := Prod.mk.inj heq
      exact hm.read (h.read _ pc hpc) _ hmem orders horders
  · intro s' r hr hfull
    rw [hprimary]
    exact hstructures s' r hr hfull
  · intro p hp
    rw [hprimary]
    exact hpositions p hp

/-- A structure whose legs are all filled is fully filled, or a cascade of it is under way. -/
def FilledOrDue (w : CascadeWorld) : Prop :=
  ∀ s, EntryFilled w.db s ∨ ClosingFilled w.db s → w.db.fullyFilled s ∨ ∃ pc, (s, pc) ∈ w.tasks

theorem FilledOrDue.book {e : Event} (h : FilledOrDue w) (ht : TradesConsistent w.db)
    (he : Trades w.db e) : FilledOrDue (cascadeWorldStep w (.book e)) := by
  intro s hs
  have hfull : (cascadeWorldStep w (.book e)).db.fullyFilled s = w.db.fullyFilled s :=
    (step_tradeFrame he).structures s
  have hcall : (EntryFilled w.db s ∨ ClosingFilled w.db s) ∨ s ∈ cascadesOf w.db e := by
    rcases hs with hs | hs
    · exact (entryFilled_step he ht.known hs).imp .inl id
    · exact (closingFilled_step he ht.known hs).imp .inr id
  rw [hfull]
  rcases hcall with hold | hcalled
  · exact (h s hold).imp id fun ⟨pc, hpc⟩ => ⟨pc, List.mem_append_left _ hpc⟩
  · exact .inr ⟨.called, List.mem_append_right _ (List.mem_map_of_mem hcalled)⟩

theorem CascadeMove.filled (hm : CascadeMove w s pc w' next) (s' : ℕ)
    (h : w.db.fullyFilled s') : w'.db.fullyFilled s' := by
  cases hm with
  | rebooked orders now r hr | completed orders now r hr =>
    exact (fullyFilled_set hr rfl s').mpr (.inr h)
  | booked orders now r hr hfree =>
    obtain ⟨ha, _, _⟩ := advances_book now hr (by rfl : (r.completed orders now).state = _) hfree
    exact ha.filled s' h
  | _ => exact h

/-- A cascade that ends leaves its structure fully filled, unless its legs are not filled. -/
theorem CascadeMove.ends_filled (hm : CascadeMove w s pc w' none) (ht : TradesConsistent w.db)
    (hholds : pc.Holds w.db s) (hs : EntryFilled w.db s ∨ ClosingFilled w.db s) :
    w'.db.fullyFilled s := by
  have known : s < w.db.structures.length := by
    rcases hs with ⟨⟨o, ho, rfl, _⟩, _⟩ | ⟨⟨o, ho, rfl⟩, _⟩ <;> exact ht.known o ho
  have unknown (hnone : w.db.structures[s]? = none) : w.db.fullyFilled s := by
    have hge := List.getElem?_eq_none_iff.mp hnone
    omega
  generalize hnext : (none : Option CascadePc) = next at hm
  cases hm with
  | done hdone => exact hdone.elim unknown id
  | unfilled hentry hclosing => exact absurd hs (not_or.mpr ⟨hentry, hclosing⟩)
  | lost pc hnone => exact unknown hnone
  | raised orders now hbooked => exact ht.filled s hbooked
  | rebooked orders now r hr => exact (fullyFilled_set hr rfl s).mpr (.inl rfl)
  | booked orders now r hr hfree =>
    obtain ⟨_, hfull, _⟩ := advances_book now hr (by rfl : (r.completed orders now).state = _) hfree
    dsimp only
    rw [hfull]
    exact (fullyFilled_set hr rfl s).mpr (.inl rfl)
  | nothing => exact hholds.2
  | close => exact hholds.2.1
  | _ => cases hnext

theorem CascadeMove.filledOrDue (hm : CascadeMove w s pc w' next) (h : FilledOrDue w)
    (ht : TradesConsistent w.db) (hholds : pc.Holds w.db s)
    (hres : Resumed w.tasks tasks s pc next) : FilledOrDue { w' with tasks := tasks } := by
  intro s' hs'
  have hs : EntryFilled w.db s' ∨ ClosingFilled w.db s' := by
    simpa only [EntryFilled, ClosingFilled, hm.sameOrders] using hs'
  rcases h s' hs with hfull | ⟨pc', hpc'⟩
  · exact .inl (hm.filled s' hfull)
  · by_cases heq : (s', pc') = (s, pc)
    · obtain ⟨rfl, rfl⟩ := Prod.mk.inj heq
      cases next with
      | none => exact .inl (hm.ends_filled ht hholds hs)
      | some pc'' => exact .inr ⟨pc'', hres.goes pc'' rfl⟩
    · exact .inr ⟨pc', hres.keep _ hpc' heq⟩

end Cascades

structure CommissionInvariant (κ : String → ℚ) (w : ReportWorld) : Prop where
  folded : FoldedTables κ w.reported w.world.db
  due : CascadesDue w.world
  costs : CostsRead w.world
  filled : FilledOrDue w.world

section Runs
variable {κ : String → ℚ} {w : ReportWorld}

theorem FoldedTables.congr {reported : List (ℕ × String)} {db db' : Db}
    (h : FoldedTables κ reported db) (horders : db'.orders = db.orders)
    (hfills : db'.fills = db.fills) : FoldedTables κ reported db' := by
  have hnone : db'.orders = db.orders ++ [] := by rw [horders, List.append_nil]
  refine ⟨h.wellFormed.append hnone hfills, hfills ▸ h.fills, ?_⟩
  intro i o ho
  rw [horders] at ho
  rw [Db.fillsOf_congr hfills]
  exact h.orders i o ho

theorem CascadeMove.sameFills {w w' : CascadeWorld} {s : ℕ} {pc : CascadePc}
    {next : Option CascadePc} (hm : CascadeMove w s pc w' next) : w'.db.fills = w.db.fills := by
  cases hm with
  | booked => exact bookPosition_fills ..
  | _ => rfl

theorem CommissionInvariant.book {e : Event} (h : CommissionInvariant κ w)
    (hd : Delivers κ w (.book e)) (hk : CostsKnown w (.book e)) :
    CommissionInvariant κ (reportWorldStep w (.book e)) := by
  obtain ⟨he, hr⟩ := hd
  refine ⟨h.folded.step hr, h.due.book he, ?_, h.filled.book h.due.tables he⟩
  refine h.costs.book h.due.tables h.due.holds he ?_
  intro s hcounted hs
  refine step_costs he h.folded hr ?_ hs
  by_cases hleg : ∃ o ∈ w.world.db.orders, o.structureId = s
  · obtain ⟨o, ho, rfl⟩ := hleg
    exact hk o ho hcounted
  · have none {i : ℕ} {o : StructureOrder} (ho : o ∈ w.world.db.orders[i]?)
        (hsid : o.structureId = s) : False := hleg ⟨o, List.mem_of_getElem? ho, hsid⟩
    cases e with
    | execution => exact fun o ho hsid => (none ho hsid).elim
    | commissionReport => exact fun o ho hsid => (none ho hsid).elim
    | _ => trivial

/-- A step of a cascade. -/
theorem CommissionInvariant.move {w' : CascadeWorld} {s : ℕ} {pc : CascadePc}
    {next : Option CascadePc} {tasks : List (ℕ × CascadePc)} (h : CommissionInvariant κ w)
    (hm : CascadeMove w.world s pc w' next) (hpc : (s, pc) ∈ w.world.tasks)
    (hres : Resumed w.world.tasks tasks s pc next) :
    CommissionInvariant κ ⟨{ w' with tasks := tasks }, w.reported⟩ where
  folded := h.folded.congr hm.sameOrders hm.sameFills
  due := hm.due h.due hpc hres
  costs := hm.costsRead h.costs hpc hres
  filled := hm.filledOrDue h.filled h.due.tables (h.due.holds s pc hpc) hres

theorem reportWorldStep_invariant (h : CommissionInvariant κ w) {e : CascadeEvent}
    (hd : Delivers κ w e) (hk : CostsKnown w e) : CommissionInvariant κ (reportWorldStep w e) := by
  cases e with
  | book e => exact h.book hd hk
  | raiseAlert p rule =>
    have hreported : w.reported ++ (CascadeEvent.raiseAlert p rule).reports = w.reported :=
      List.append_nil _
    rw [reportWorldStep, hreported]
    refine ⟨h.folded.congr rfl rfl, h.due.raiseAlert rule hd, ?_, h.filled⟩
    exact ⟨h.costs.read, h.costs.structures, h.costs.positions⟩
  | run k hedgeCost now =>
    have hreported : w.reported ++ (CascadeEvent.run k hedgeCost now).reports = w.reported :=
      List.append_nil _
    rw [reportWorldStep, hreported]
    simp only [cascadeWorldStep]
    split
    · exact h
    · next s pc hk =>
      have hm := cascadeStep_move hedgeCost now w.world s pc
      have htasks := cascadeStep_tasks hedgeCost now w.world s pc
      have hpc := List.mem_of_getElem? hk
      split
      · next w' pc' heq =>
        rw [heq] at hm htasks
        rw [htasks]
        exact h.move hm hpc (resumed_set hk)
      · next w' heq =>
        rw [heq] at hm htasks
        rw [htasks]
        exact h.move hm hpc (resumed_erase hk)
  | crash => exact hd.elim

theorem commissionInvariant_empty : CommissionInvariant κ ReportWorld.empty where
  folded := by
    refine ⟨wellFormed_empty, ?_, ?_⟩
    · intro f hf
      cases hf
    · intro i o ho
      cases ho
  due := cascadeInvariant_empty.toCascadesDue
  costs := by
    refine ⟨?_, ?_, ?_⟩
    · intro s pc hpc
      cases hpc
    · intro s r hr
      cases hr
    · intro p hp
      cases hp
  filled s hs := by
    rcases hs with ⟨⟨o, ho, _⟩, _⟩ | ⟨⟨o, ho, _⟩, _⟩ <;> cases ho

/-- In every run that tells what a structure costs before its cascade reads it, every commission
is in every total once all is processed. -/
theorem commissions_reach_totals
    (hrun : Run reportWorldStep (fun w e => Delivers κ w e ∧ CostsKnown w e) .empty w)
    (hdone : AllProcessed w) : CommissionsAddUp κ w.world.db := by
  have h := hrun.invariant (I := CommissionInvariant κ)
    (fun _ _ hinv hg => reportWorldStep_invariant hinv hg.1 hg.2) commissionInvariant_empty
  have hfilled (s : ℕ) (hs : EntryFilled w.world.db s ∨ ClosingFilled w.world.db s) :
      w.world.db.fullyFilled s := by
    refine (h.filled s hs).resolve_right ?_
    simp [hdone.idle]
  refine ⟨?_, fun i o ho => (h.folded.orders i o ho).commission, hfilled, ?_, h.costs.structures,
    h.costs.positions⟩
  · intro f hf x hid
    have hsound := h.folded.fills f hf
    have hreported := hdone.reported f hf
    simp only [StructureFill.Sound, ExecId.IsReported, hid] at hsound hreported
    exact hsound.2 hreported
  · intro s hs
    obtain ⟨o, ho, hrole⟩ := hs.1
    exact h.due.tables.booked s (hfilled s (.inl hs)) ⟨o, ho, hrole⟩

end Runs

section Decide
variable (κ : String → ℚ) (reported : List (ℕ × String)) (db : Db) (w : ReportWorld)

instance : ∀ e, Decidable (ReportsOnce κ reported e)
  | .execution orderId fill _ => inferInstanceAs (Decidable (0 < fill.shares ∧
      ((orderId, fill.execId) ∈ reported → fill.commission = some (κ fill.execId))))
  | .commissionReport _ execId commission _ =>
    inferInstanceAs (Decidable (commission = some (κ execId)))
  | .submitPreview .. | .createUnwind .. | .stampLive .. | .stampPlacement .. | .orderStatus ..
  | .comboStatus .. | .completeStructure .. | .reconcile _ | .reap .. | .reconnect ..
  | .syncPositions _ | .closeRequest .. | .closeAnswer .. | .cancelTrade .. | .positionClose .. =>
    .isTrue trivial

instance : ∀ e, Decidable (Delivers κ w e)
  | .book e => inferInstanceAs (Decidable (Trades w.world.db e ∧ ReportsOnce κ w.reported e))
  | .raiseAlert p _ => inferInstanceAs (Decidable (p < w.world.db.bookedPositions.length))
  | .run .. => .isTrue trivial
  | .crash => .isFalse not_false

instance (w : CascadeWorld) (s : ℕ) : Decidable (Counted w s) :=
  inferInstanceAs (Decidable (_ ∨ _))

instance (s : ℕ) : ∀ e, Decidable (KeepsCosts db s e)
  | .execution i fill _ => inferInstanceAs (Decidable (∀ o ∈ db.orders[i]?, o.structureId = s →
      db.Booked (.ib fill.execId)))
  | .commissionReport i x c _ => inferInstanceAs (Decidable (∀ o ∈ db.orders[i]?,
      o.structureId = s → ∀ f ∈ db.fillsOf i, f.ibExecutionId = .ib x →
        f.commissionUsd = c.getD 0))
  | .submitPreview .. | .createUnwind .. | .stampLive .. | .stampPlacement .. | .orderStatus ..
  | .comboStatus .. | .completeStructure .. | .reconcile _ | .reap .. | .reconnect ..
  | .syncPositions _ | .closeRequest .. | .closeAnswer .. | .cancelTrade .. | .positionClose .. =>
    .isTrue trivial

instance : ∀ e, Decidable (CostsKnown w e)
  | .book e => inferInstanceAs (Decidable (∀ o ∈ w.world.db.orders,
      Counted w.world o.structureId → KeepsCosts w.world.db o.structureId e))
  | .raiseAlert .. | .run .. | .crash => .isTrue trivial

instance (orderId : ℕ) : ∀ id : ExecId, Decidable (id.IsReported reported orderId)
  | .ib x => inferInstanceAs (Decidable ((orderId, x) ∈ reported))
  | .combo _ _ => .isTrue trivial

end Decide

/-- A spread of two calls: one commission is reported after its fill, the other is on the fill by
the time its report is handled, and that is after the cascade. -/
def reportedSpread : List CascadeEvent :=
  [.book (.submitPreview [callLeg .buy 10, callLeg .sell 10] 0),
    .book (.execution 0 (execution "1" "BOT" 10 none) 1), .run 0 0 1, .run 0 0 1,
    .book (.commissionReport 0 "1" (some (5 / 2)) (some "USD")),
    .book (.execution 1 (execution "2" "SLD" 10 (some (5 / 2))) 1)] ++
  List.replicate 4 (.run 0 0 2) ++
  [.book (.commissionReport 1 "2" (some (5 / 2)) (some "USD"))]

theorem commissions_reach_totals_reportedSpread :
    CommissionsAddUp (fun _ => 5 / 2) (reportedSpread.foldl reportWorldStep .empty).world.db := by
  apply commissions_reach_totals (Run.of_foldl reportedSpread (by decide +kernel))
  exact ⟨by decide +kernel, by decide +kernel⟩

/-- A call whose commission is reported after its structure has completed. -/
def lateReport : List CascadeEvent :=
  [.book (.submitPreview [callLeg .buy 10] 0),
    .book (.execution 0 (execution "1" "BOT" 10 none) 1)] ++
  List.replicate 4 (.run 0 0 1) ++
  [.book (.commissionReport 0 "1" (some (5 / 2)) (some "USD"))]

theorem late_commission_lost : ¬ ∀ κ w, Run reportWorldStep (Delivers κ) .empty w →
    AllProcessed w → CommissionsAddUp κ w.world.db := by
  intro h
  have hadd := h (fun _ => 5 / 2) (lateReport.foldl reportWorldStep .empty)
    (Run.of_foldl lateReport (by decide +kernel)) ⟨by decide +kernel, by decide +kernel⟩
  have hstructure := (hadd.structures 0 _ rfl (by decide +kernel)).commission
  revert hstructure
  decide +kernel

end FxVol
