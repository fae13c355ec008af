import FxVol.TableGrowth
import FxVol.KeyedLog

/-!
# The fill path does not depend on the order of deliveries

Executions of one order, delivered live or replayed, in any order and any number of times.
The fill table is a log keyed by execution id, and everything else a delivery writes is a
fold of the fills of the order, so the outcome is a function of the set of executions.
-/
namespace FxVol

open KeyedLog

/-- Deliveries of executions to one order, each processed at an instant of its own. -/
def deliverAll (db : Db) (i : ℕ) (ds : List (IbFill × Instant)) : Db :=
  ds.foldl (fun db d => deliverFill db i d.1 d.2) db

def StructureOrder.fillFacts (o : StructureOrder) : ℕ × Option ℚ × ℚ × OrderState :=
  (o.qtyFilled, o.avgFillPrice, o.totalCommissionUsd, o.state)

def OrderAggregate.facts (agg : OrderAggregate) : ℕ × Option ℚ × ℚ × OrderState :=
  (agg.qtyFilled, agg.avgFillPrice, agg.totalCommissionUsd,
    if agg.fullyFilled then .filled else .partiallyFilled)

/-- The flag the last fold of an order's fills gives. -/
def fullyFilledFlag (db : Db) (i : ℕ) : Option Bool :=
  (db.orders[i]?).map fun o => (recomputeAggregates db i o).fullyFilled

/-- Two databases agree on everything the fill path of order `i` computes. -/
structure SameFillOutcome (i : ℕ) (db db' : Db) : Prop where
  fills : db.fills.Perm db'.fills
  order : (db.orders[i]?).map (·.fillFacts) = (db'.orders[i]?).map (·.fillFacts)
  flag : fullyFilledFlag db i = fullyFilledFlag db' i
  leg : foldOf db i = foldOf db' i

theorem SameFillOutcome.refl (i : ℕ) (db : Db) : SameFillOutcome i db db :=
  ⟨.refl _, rfl, rfl, rfl⟩

section Log
variable {db : Db} {i : ℕ} {fill : IbFill} {now : Instant} {ds : List (IbFill × Instant)}

theorem deliverFill_length (db : Db) (i : ℕ) (fill : IbFill) (now : Instant) :
    (deliverFill db i fill now).orders.length = db.orders.length := by
  rcases deliverFill_cases db i fill now with h | ⟨o, _, _, h⟩
  · rw [h]
  · rw [h, bookFill_orders, List.length_set]

/-- A delivery records its fill row in the log of the table. -/
theorem deliverFill_fills (hi : i < db.orders.length) : (deliverFill db i fill now).fills =
    record (·.ibExecutionId) db.fills (fillRow i fill) := by
  by_cases hb : db.Booked (.ib fill.execId)
  · have hseen : (fillRow i fill).ibExecutionId ∈ db.fills.map (·.ibExecutionId) := hb
    rw [deliverFill_booked hb, record_seen hseen]
  · have hnew : (fillRow i fill).ibExecutionId ∉ db.fills.map (·.ibExecutionId) := hb
    rw [deliverFill_new (List.getElem?_eq_getElem hi) hb, bookFill_fills, record_new hnew]

theorem deliverAll_fills (hi : i < db.orders.length) : (deliverAll db i ds).fills =
    recordAll (·.ibExecutionId) db.fills (ds.map fun d => fillRow i d.1) := by
  induction ds generalizing db with
  | nil => rfl
  | cons d ds ih =>
    have hi' : i < (deliverFill db i d.1 d.2).orders.length := by
      rw [deliverFill_length]
      exact hi
    have htail := ih hi'
    rw [deliverFill_fills hi] at htail
    exact htail

theorem deliverAll_missing (ho : db.orders[i]? = none) : deliverAll db i ds = db := by
  induction ds with
  | nil => rfl
  | cons d ds ih =>
    have hcons : deliverAll db i (d :: ds) = deliverAll (deliverFill db i d.1 d.2) i ds := rfl
    rw [hcons, deliverFill_missing ho, ih]

theorem deliverAll_booked (h : ∀ d ∈ ds, db.Booked (.ib d.1.execId)) : deliverAll db i ds = db := by
  induction ds with
  | nil => rfl
  | cons d ds ih =>
    have hcons : deliverAll db i (d :: ds) = deliverAll (deliverFill db i d.1 d.2) i ds := rfl
    rw [hcons, deliverFill_booked (h d List.mem_cons_self)]
    exact ih fun d hd => h d (List.mem_cons_of_mem _ hd)

end Log

/-- Order `i`, of this leg, and its position are what the fold of its fills says. -/
structure Settled (db : Db) (i : ℕ) (qty : ℕ) (side : Side) (preview : Option ℚ) : Prop where
  order : ∃ o, db.orders[i]? = some o ∧ o.qty = qty ∧ o.side = side ∧ o.previewPrice = preview ∧
    o.fillFacts = (updateOrderAggregates (db.fillsOf i) qty side preview).facts
  leg : foldOf db i = some ((foldFills (db.fillsOf i)).openQty, (foldFills (db.fillsOf i)).avgPrice)

section Settling
variable {db db' : Db} {i : ℕ} {o : StructureOrder} {fill : IbFill} {now : Instant}
  {ds : List (IbFill × Instant)} {qty : ℕ} {side : Side} {preview : Option ℚ}

theorem booked_preview {agg : OrderAggregate} :
    (o.booked fill agg now).previewPrice = o.previewPrice := by
  unfold StructureOrder.booked StructureOrder.afterFill
  split_ifs <;> rfl

theorem booked_fillFacts {agg : OrderAggregate} : (o.booked fill agg now).fillFacts = agg.facts := by
  have hstate : (o.booked fill agg now).state =
      if agg.fullyFilled then .filled else .partiallyFilled := booked_state
  have hcolumns : (o.booked fill agg now).avgFillPrice = agg.avgFillPrice ∧
      (o.booked fill agg now).totalCommissionUsd = agg.totalCommissionUsd := by
    unfold StructureOrder.booked StructureOrder.afterFill
    split_ifs <;> exact ⟨rfl, rfl⟩
  simp only [StructureOrder.fillFacts, OrderAggregate.facts, booked_qtyFilled, hstate, hcolumns]

theorem foldOf_bookFill : foldOf (bookFill db i o fill now) i =
    some ((foldFills ((bookFill db i o fill now).fillsOf i)).openQty,
      (foldFills ((bookFill db i o fill now).fillsOf i)).avgPrice) := by
  have hfills : (bookFill db i o fill now).fillsOf i =
      (db.addFill (fillRow i fill)).fillsOf i := Db.fillsOf_congr bookFill_fills i
  rw [hfills]
  apply foldOf_releaseReservation
  exact foldOf_rebuildLeg_self

/-- Booking an execution settles its order. -/
theorem settled_bookFill (ho : db.orders[i]? = some o) (hq : o.qty = qty) (hs : o.side = side)
    (hp : o.previewPrice = preview) : Settled (bookFill db i o fill now) i qty side preview := by
  have hleg : (o.booked fill (aggregatesWith db i o fill) now).leg = o.leg := booked_leg
  simp only [StructureOrder.leg, Prod.mk.injEq] at hleg
  have hfills : (bookFill db i o fill now).fillsOf i = db.fillsOf i ++ [fillRow i fill] := by
    have hadd : (bookFill db i o fill now).fillsOf i =
        (db.addFill (fillRow i fill)).fillsOf i := Db.fillsOf_congr bookFill_fills i
    exact hadd.trans (Db.addFill_fillsOf_self db _ rfl)
  refine ⟨⟨_, ?_, hleg.2.2.2.1.trans hq, hleg.2.2.1.trans hs, booked_preview.trans hp, ?_⟩,
    foldOf_bookFill⟩
  · rw [bookFill_orders, setOrder_row _ ho, if_pos rfl]
  · rw [booked_fillFacts, hfills, aggregatesWith, hq, hs, hp]

theorem Settled.deliver (h : Settled db i qty side preview) :
    Settled (deliverFill db i fill now) i qty side preview := by
  rcases deliverFill_cases db i fill now with hdb | ⟨o, ho, _, hdb⟩
  · rwa [hdb]
  · obtain ⟨o₁, ho₁, hq, hs, hp, _⟩ := h.order
    obtain rfl : o₁ = o := Option.some.inj (ho₁.symm.trans ho)
    rw [hdb]
    exact settled_bookFill ho hq hs hp

theorem Settled.deliverAll (h : Settled db i qty side preview) :
    Settled (deliverAll db i ds) i qty side preview := by
  induction ds generalizing db with
  | nil => exact h
  | cons d ds ih => exact ih h.deliver

/-- Deliveries that bring anything new settle the order. -/
theorem settled_deliverAll (ho : db.orders[i]? = some o)
    (hnew : ∃ d ∈ ds, ¬ db.Booked (.ib d.1.execId)) :
    Settled (FxVol.deliverAll db i ds) i o.qty o.side o.previewPrice := by
  induction ds with
  | nil =>
    obtain ⟨d, hd, _⟩ := hnew
    cases hd
  | cons d ds ih =>
    have hcons : FxVol.deliverAll db i (d :: ds) =
        FxVol.deliverAll (deliverFill db i d.1 d.2) i ds := rfl
    rw [hcons]
    by_cases hb : db.Booked (.ib d.1.execId)
    · rw [deliverFill_booked hb]
      apply ih
      obtain ⟨d', hd', hnew'⟩ := hnew
      rcases List.mem_cons.mp hd' with rfl | hd'
      · exact absurd hb hnew'
      · exact ⟨d', hd', hnew'⟩
    · rw [deliverFill_new ho hb]
      exact (settled_bookFill ho rfl rfl rfl).deliverAll

theorem Settled.same (h : Settled db i qty side preview) (h' : Settled db' i qty side preview)
    (hp : db.fills.Perm db'.fills) : SameFillOutcome i db db' := by
  have hfills : (db.fillsOf i).Perm (db'.fillsOf i) := hp.filter _
  obtain ⟨o, ho, hq, hs, hv, hfacts⟩ := h.order
  obtain ⟨o', ho', hq', hs', hv', hfacts'⟩ := h'.order
  have hagg := updateOrderAggregates_perm qty side preview hfills
  refine ⟨hp, ?_, ?_, ?_⟩
  · rw [ho, ho', Option.map_some, Option.map_some, hfacts, hfacts', hagg]
  · simp only [fullyFilledFlag, recomputeAggregates, ho, ho', Option.map_some, hq, hs, hv, hq', hs',
      hv', hagg]
  · rw [h.leg, h'.leg, foldFills_perm hfills]

end Settling

theorem coherent_fillRows {ds : List (IbFill × Instant)} (i : ℕ)
    (hcontent : ∀ d ∈ ds, ∀ d' ∈ ds, d.1.execId = d'.1.execId → d.1 = d'.1) :
    Coherent (·.ibExecutionId) (ds.map fun d => fillRow i d.1) := by
  intro x hx y hy hkey
  obtain ⟨d, hd, rfl⟩ := List.mem_map.mp hx
  obtain ⟨d', hd', rfl⟩ := List.mem_map.mp hy
  have hid : d.1.execId = d'.1.execId := ExecId.ib.inj hkey
  rw [hcontent d hd d' hd' hid]

/-- Two lists of deliveries of the same executions have the same outcome, and a further
delivery of any of them changes nothing at all. -/
theorem deliveries_order_independent {db : Db} (h : Reachable db) (i : ℕ)
    (ds ds' : List (IbFill × Instant))
    (hcontent : ∀ d ∈ ds, ∀ d' ∈ ds, d.1.execId = d'.1.execId → d.1 = d'.1)
    (hset : ∀ fill, fill ∈ ds.map (·.1) ↔ fill ∈ ds'.map (·.1)) :
    SameFillOutcome i (deliverAll db i ds) (deliverAll db i ds') ∧
      ∀ d ∈ ds, ∀ now, deliverFill (deliverAll db i ds) i d.1 now = deliverAll db i ds := by
  cases ho : db.orders[i]? with
  | none =>
    rw [deliverAll_missing ho, deliverAll_missing ho]
    exact ⟨.refl i db, fun d _ now => deliverFill_missing ho⟩
  | some o =>
    have hi : i < db.orders.length := (List.getElem?_eq_some_iff.mp ho).1
    constructor
    · by_cases hall : ∀ d ∈ ds, db.Booked (.ib d.1.execId)
      · have hall' : ∀ d ∈ ds', db.Booked (.ib d.1.execId) := by
          intro d hd
          obtain ⟨d₀, hd₀, heq⟩ := List.mem_map.mp ((hset d.1).mpr (List.mem_map_of_mem hd))
          rw [← heq]
          exact hall d₀ hd₀
        rw [deliverAll_booked hall, deliverAll_booked hall']
        exact .refl i db
      · push Not at hall
        have hnew' : ∃ d ∈ ds', ¬ db.Booked (.ib d.1.execId) := by
          obtain ⟨d, hd, hnew⟩ := hall
          obtain ⟨d₀, hd₀, heq⟩ := List.mem_map.mp ((hset d.1).mp (List.mem_map_of_mem hd))
          exact ⟨d₀, hd₀, heq ▸ hnew⟩
        apply (settled_deliverAll ho hall).same (settled_deliverAll ho hnew')
        rw [deliverAll_fills hi, deliverAll_fills hi]
        apply recordAll_perm h.wellFormed.fillsOk.unique (coherent_fillRows i hcontent)
        intro row
        have hrows : ∀ l : List (IbFill × Instant),
            (l.map fun d => fillRow i d.1) = (l.map (·.1)).map (fillRow i) := by
          intro l
          rw [List.map_map]
          rfl
        rw [hrows, hrows, List.mem_map, List.mem_map]
        simp only [hset]
    · intro d hd now
      apply deliverFill_booked
      have hkey : ExecId.ib d.1.execId ∈ (ds.map fun d => fillRow i d.1).map (·.ibExecutionId) :=
        List.mem_map_of_mem (List.mem_map_of_mem hd)
      rw [Db.Booked, deliverAll_fills hi]
      exact (key_mem_recordAll _ _ _ _).mpr (.inr hkey)

def fourThenSix : List (IbFill × Instant) :=
  [(execution "a" "BOT" 4 none, 1), (execution "b" "BOT" 6 (some 5), 2),
    (execution "a" "BOT" 4 none, 3)]

def sixThenFour : List (IbFill × Instant) :=
  [(execution "b" "BOT" 6 (some 5), 1), (execution "a" "BOT" 4 none, 2)]

theorem deliveries_order_independent_fourSix :
    SameFillOutcome 0
      (deliverAll ([Event.submitPreview [callLeg .buy 10] 0].foldl step Db.empty) 0 fourThenSix)
      (deliverAll ([Event.submitPreview [callLeg .buy 10] 0].foldl step Db.empty) 0 sixThenFour) :=
  have hset (fill : IbFill) : fill ∈ fourThenSix.map (·.1) ↔ fill ∈ sixThenFour.map (·.1) := by
    simp only [fourThenSix, sixThenFour, List.map_cons, List.map_nil, List.mem_cons,
      List.not_mem_nil, or_false]
    tauto
  (deliveries_order_independent (reachable_events [.submitPreview [callLeg .buy 10] 0]) 0
    fourThenSix sixThenFour (by decide +kernel) hset).1

end FxVol
