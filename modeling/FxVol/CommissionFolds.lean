import FxVol.BookConsistency
import Mathlib.Algebra.Order.BigOperators.Group.List

/-!
# Commissions and slippage of an order

The totals an order keeps of its fills, whatever wrote them: each is a sum over the fill rows.
Executions and commission reports fold them again; a combo booked whole adds a fill that costs
nothing.
-/
namespace FxVol

/-- What IB reports for an execution is on its fill row once the report has been handled; a
synthetic fill carries no commission. -/
def StructureFill.Sound (κ : String → ℚ) (reported : List (ℕ × String)) (f : StructureFill) : Prop :=
  match f.ibExecutionId with
  | .ib x => 0 < f.qtyFilled ∧ ((f.orderId, x) ∈ reported → f.commissionUsd = κ x)
  | .combo _ _ => f.commissionUsd = 0

def reportsIn : Event → List (ℕ × String)
  | .commissionReport orderId execId _ _ => [(orderId, execId)]
  | _ => []

/-- IB reports one commission for an execution, and `fill.commissionReport` has it by the time the
report is handled; executions have a quantity. -/
def ReportsOnce (κ : String → ℚ) (reported : List (ℕ × String)) : Event → Prop
  | .execution orderId fill _ => 0 < fill.shares ∧
      ((orderId, fill.execId) ∈ reported → fill.commission = some (κ fill.execId))
  | .commissionReport _ execId commission _ => commission = some (κ execId)
  | _ => True

inductive FillChange (db : Db) : Event → StructureFill → Prop
  | old {e : Event} {f : StructureFill} (hf : f ∈ db.fills) (he : reportsIn e = []) :
      FillChange db e f
  | reported {f : StructureFill} (i : ℕ) (x : String) (c : Option ℚ) (cur cur' : Option String)
      (hf : f ∈ db.fills) :
      FillChange db (.commissionReport i x c cur) (f.reported i x (c.getD 0) cur')
  | booked (i : ℕ) (fill : IbFill) (now : Instant) :
      FillChange db (.execution i fill now) (fillRow i fill)
  | combo {i : ℕ} {o : StructureOrder} {ids : List ℕ} (perm : String) (status : IbStatus)
      (reason : Option String) (now : Instant) :
      FillChange db (.comboStatus perm ids status reason now) (comboFillRow perm now i o)

section Fills
variable {db : Db} {e : Event} {f : StructureFill}

open KeyedPasses

theorem comboStatus_fill {perm : String} {ids : List ℕ} {status : IbStatus}
    {reason : Option String} {now : Instant}
    (hf : f ∈ (onComboStatus db perm ids status reason now).1.fills) :
    f ∈ db.fills ∨ ∃ i o, f = comboFillRow perm now i o := by
  rcases onComboStatus_cases db perm ids status reason now with h | ⟨_, hok⟩ | h
  · rw [h] at hf
    exact .inl hf
  · revert hf
    apply (passes_foldlM _ hok).invariant
      (I := fun s => f ∈ s.fills → f ∈ db.fills ∨ ∃ i o, f = comboFillRow perm now i o)
    · intro k _ s t hs hk hf
      rcases bookComboLeg_cases hk with rfl | ⟨o, s₁, _, _, ⟨_, rfl⟩ | ⟨_, rfl⟩, rfl⟩
      · exact hs hf
      · rw [bookComboRow_fills] at hf
        exact hs hf
      · rw [bookComboRow_fills, Db.addFill_fills] at hf
        rcases List.mem_append.mp hf with hold | hnew
        · exact hs hold
        · exact .inr ⟨k, o, List.mem_singleton.mp hnew⟩
    · exact .inl
  · rw [h, comboCancel_fills] at hf
    exact .inl hf

/-- A report leaves the other rows alone, and its own where it was not there yet. -/
theorem commissionReport_fill {i : ℕ} {x : String} {c : Option ℚ} {cur : Option String}
    (hf : f ∈ (onCommissionReport db i x c cur).fills) :
    ∃ f₀ ∈ db.fills, ∃ cur', f = f₀.reported i x (c.getD 0) cur' := by
  by_cases hfill : db.fills.any (·.isExecution i x)
  swap
  · rw [onCommissionReport_missing db i x cur hfill] at hf
    have hnot : ¬ f.isExecution i x := fun h => hfill (List.any_eq_true.mpr ⟨f, hf, h⟩)
    exact ⟨f, hf, none, by simp [StructureFill.reported, hnot]⟩
  · simp only [onCommissionReport, hfill, if_true, Db.updateOrder_fills, reportFill_fills] at hf
    obtain ⟨f₀, hf₀, rfl⟩ := List.mem_map.mp hf
    exact ⟨f₀, hf₀, _, rfl⟩

theorem step_fill (he : f ∈ (step db e).fills) : FillChange db e f := by
  cases e with
  | submitPreview | stampLive | stampPlacement | orderStatus | syncPositions => exact .old he rfl
  | createUnwind sid idx leg now => exact .old (createUnwind_fills db now sid idx leg ▸ he) rfl
  | comboStatus perm ids status reason now =>
    rcases comboStatus_fill he with hold | ⟨i, o, rfl⟩
    · exact .old hold rfl
    · exact .combo perm status reason now
  | execution i fill now =>
    simp only [step] at he
    rcases deliverFill_cases db i fill now with hdb | ⟨o, _, _, hdb⟩
    · exact .old (hdb ▸ he) rfl
    · rw [hdb, bookFill_fills] at he
      rcases List.mem_append.mp he with hold | hnew
      · exact .old hold rfl
      · rw [List.mem_singleton.mp hnew]
        exact .booked i fill now
  | commissionReport i x c cur =>
    obtain ⟨f₀, hf₀, cur', rfl⟩ := commissionReport_fill he
    exact .reported i x c cur cur' hf₀
  | completeStructure sid now =>
    exact .old ((maybeCompleteStructure_frame db sid now).2.1 ▸ he) rfl
  | reconcile now => exact .old (reconcile_fills db now ▸ he) rfl
  | reap trades tau now => exact .old (reap_fills db trades tau now ▸ he) rfl
  | reconnect trades now => exact .old (reconnect_fills db trades now ▸ he) rfl
  | closeRequest pos qty lp target rth now =>
    exact .old (closeRequest_fills db now pos qty lp target rth ▸ he) rfl
  | closeAnswer j outcome now => exact .old (closeAnswer_fills db j outcome now ▸ he) rfl
  | cancelTrade tradeId ids now => exact .old (cancelTrade_fills db tradeId ids now ▸ he) rfl
  | positionClose positionId alert now =>
    exact .old (positionClose_fills db now positionId alert ▸ he) rfl

theorem FillChange.sound {κ : String → ℚ} {reported : List (ℕ × String)}
    (h : FillChange db e f) (hr : ReportsOnce κ reported e)
    (hall : ∀ f ∈ db.fills, f.Sound κ reported) : f.Sound κ (reported ++ reportsIn e) := by
  cases h with
  | old hf he =>
    rw [he, List.append_nil]
    exact hall f hf
  | @reported f i x c cur cur' hf =>
    have hc : c = some (κ x) := hr
    have hold := hall f hf
    simp only [StructureFill.Sound, reported_ibExecutionId, reported_qtyFilled, reported_orderId,
      reported_commissionUsd] at hold ⊢
    cases hid : f.ibExecutionId with
    | ib y =>
      simp only [hid] at hold ⊢
      refine ⟨hold.1, ?_⟩
      intro hmem
      split_ifs with hexec
      · have hxy : f.ibExecutionId = .ib x := (of_decide_eq_true hexec).2
        obtain rfl := ExecId.ib.inj (hid.symm.trans hxy)
        rw [hc, Option.getD_some]
      · rcases List.mem_append.mp hmem with hbefore | hnow
        · exact hold.2 hbefore
        · obtain ⟨hi, rfl⟩ := Prod.mk.inj (List.mem_singleton.mp hnow)
          exact absurd (decide_eq_true ⟨hi, hid⟩) hexec
    | combo perm k =>
      have hexec : f.isExecution i x = false := by simp [StructureFill.isExecution, hid]
      simp only [hid, hexec] at hold ⊢
      exact hold
  | booked i fill now =>
    refine ⟨hr.1, ?_⟩
    intro hmem
    have hbefore : (i, fill.execId) ∈ reported := by simpa [reportsIn, fillRow] using hmem
    simp [fillRow, hr.2 hbefore]
  | combo => rfl

end Fills

def slippageOf (fills : List StructureFill) (side : Side) : Option ℚ → ℚ
  | none => 0
  | some preview =>
    if preview ≤ 0 then 0
    else (fills.map fun f =>
      (f.qtyFilled : ℚ) * computeSlippagePerContract preview f.fillPrice side).sum

/-- The totals on an order row are sums over its fills. -/
structure StructureOrder.FoldsCosts (o : StructureOrder) (fills : List StructureFill) : Prop where
  commission : o.totalCommissionUsd = (fills.map (·.commissionUsd)).sum
  slippage : o.totalSlippageUsd.getD 0 = slippageOf fills o.side o.previewPrice

section Totals
variable (fills : List StructureFill) (qty : ℕ) (side : Side)

theorem slippage_sum (preview : ℚ) : (fills.map fun f =>
      (f.qtyFilled : ℚ) * computeSlippagePerContract preview f.fillPrice side).sum =
    match side with
    | .buy => notional fills - preview * (fills.map (·.qtyFilled)).sum
    | .sell => preview * (fills.map (·.qtyFilled)).sum - notional fills := by
  induction fills with
  | nil => cases side <;> simp [notional]
  | cons f fills ih =>
    rw [List.map_cons, List.sum_cons, ih]
    cases side with
    | buy =>
      simp only [computeSlippagePerContract, notional, List.map_cons, List.sum_cons, Nat.cast_add]
      ring
    | sell =>
      simp only [computeSlippagePerContract, notional, List.map_cons, List.sum_cons, Nat.cast_add]
      ring

theorem slippage_aggregates (preview : Option ℚ) :
    (updateOrderAggregates fills qty side preview).totalSlippageUsd.getD 0 =
      slippageOf fills side preview := by
  cases preview with
  | none =>
    simp only [updateOrderAggregates, Option.bind_none]
    split_ifs <;> rfl
  | some p =>
    by_cases hp : p ≤ 0
    · simp only [updateOrderAggregates, slippageOf, hp, if_true, Option.bind_some]
      split_ifs <;> rfl
    · simp only [updateOrderAggregates, slippageOf, hp, if_false, Option.bind_some]
      split_ifs with hq
      · have hnone : ∀ f ∈ fills, f.qtyFilled = 0 := by
          intro f hf
          exact List.sum_eq_zero_iff.mp hq _ (List.mem_map_of_mem hf)
        symm
        apply List.sum_eq_zero
        intro x hx
        obtain ⟨f, hf, rfl⟩ := List.mem_map.mp hx
        rw [hnone f hf, Nat.cast_zero, zero_mul]
      · have hne : (((fills.map (·.qtyFilled)).sum : ℕ) : ℚ) ≠ 0 := Nat.cast_ne_zero.mpr hq
        simp only [Option.map_some, Option.getD_some, slippage_sum]
        cases side with
        | buy =>
          simp only [computeSlippagePerContract]
          field_simp
        | sell =>
          simp only [computeSlippagePerContract]
          field_simp

theorem commission_aggregates (preview : Option ℚ)
    (h : ∀ f ∈ fills, f.qtyFilled = 0 → f.commissionUsd = 0) :
    (updateOrderAggregates fills qty side preview).totalCommissionUsd =
      (fills.map (·.commissionUsd)).sum := by
  simp only [updateOrderAggregates]
  split_ifs with hq
  · symm
    apply List.sum_eq_zero
    intro x hx
    obtain ⟨f, hf, rfl⟩ := List.mem_map.mp hx
    exact h f hf (List.sum_eq_zero_iff.mp hq _ (List.mem_map_of_mem hf))
  · rfl

end Totals

def StructureOrder.priced (o : StructureOrder) : ℚ × Option ℚ × Option ℚ :=
  (o.totalCommissionUsd, o.totalSlippageUsd, o.previewPrice)

/-- How a row's totals and fills can change: not at all, by a synthetic fill alone, by an execution
or by a commission report. -/
inductive CostChange (db : Db) (i : ℕ) (o : StructureOrder) :
    Event → StructureOrder → List StructureFill → Prop
  | kept {e : Event} {o' : StructureOrder} (h : o'.priced = o.priced) :
      CostChange db i o e o' (db.fillsOf i)
  | synthetic {e : Event} {o' : StructureOrder} (perm : String) (now : Instant)
      (h : o'.priced = o.priced) : CostChange db i o e o' (comboFills perm now i o (db.fillsOf i))
  | booked {fill : IbFill} (now : Instant) (hnew : ¬ db.Booked (.ib fill.execId)) :
      CostChange db i o (.execution i fill now) (o.booked fill (aggregatesWith db i o fill) now)
        (db.fillsOf i ++ [fillRow i fill])
  | reported (x : String) (c : Option ℚ) (cur cur' : Option String) :
      CostChange db i o (.commissionReport i x c cur)
        (o.withAggregates (recomputeAggregates (db.reportFill i x (c.getD 0) cur') i o))
        ((db.fillsOf i).map fun f => f.reported i x (c.getD 0) cur')

section Rows
variable {db : Db} {i : ℕ} {o o' : StructureOrder} {e : Event} {fills : List StructureFill}

theorem onStatus_priced (o : StructureOrder) (status : IbStatus) (reason : Option String)
    (now : Instant) : (o.onStatus status reason now).priced = o.priced := by
  unfold StructureOrder.onStatus
  dsimp only
  split
  case h_7 => split_ifs <;> rfl
  all_goals rfl

theorem onComboCancel_priced (o : StructureOrder) (status : IbStatus) (reason : Option String)
    (now : Instant) : (o.onComboCancel status reason now).priced = o.priced := by
  unfold StructureOrder.onComboCancel
  split <;> rfl

theorem booked_priced (o : StructureOrder) (fill : IbFill) (agg : OrderAggregate) (now : Instant) :
    (o.booked fill agg now).priced =
      (agg.totalCommissionUsd, agg.totalSlippageUsd, o.previewPrice) := by
  unfold StructureOrder.booked StructureOrder.afterFill
  split_ifs <;> rfl

theorem RowChange.costs (h : RowChange db i o e o' fills) : CostChange db i o e o' fills := by
  cases h with
  | same | stampedLive | stamped | repaired | mirrored | adopted | rewired | cancelled =>
    exact .kept rfl
  | onStatus status reason now => exact .kept (onStatus_priced o status reason now)
  | comboCancelled perm status reason now => exact .kept (onComboCancel_priced o status reason now)
  | comboBooked perm reason now => exact .synthetic perm now rfl
  | booked now hnew => exact .booked now hnew
  | reported x c cur cur' => exact .reported x c cur cur'
  | expired trades tau now o₁ h₁ =>
    rcases h₁ with rfl | ⟨t, _, rfl⟩ <;> exact .kept rfl
  | answered outcome now =>
    apply CostChange.kept
    cases outcome <;> rfl

/-- A synthetic fill is priced at the preview and carries no commission. -/
theorem FoldsCosts_comboFills {perm : String} {now : Instant} (h : o.FoldsCosts fills) :
    o.FoldsCosts (comboFills perm now i o fills) := by
  unfold comboFills
  split_ifs
  · exact h
  · refine ⟨?_, ?_⟩
    · simp [h.commission, comboFillRow]
    · rw [h.slippage]
      cases hp : o.previewPrice with
      | none => rfl
      | some p =>
        simp only [slippageOf, List.map_append, List.sum_append, List.map_singleton,
          List.sum_singleton, comboFillRow, hp, Option.getD_some]
        cases o.side <;> simp [computeSlippagePerContract]

theorem StructureOrder.FoldsCosts.of_priced (h : o.FoldsCosts fills) (hp : o'.priced = o.priced)
    (hs : o'.side = o.side) : o'.FoldsCosts fills := by
  simp only [StructureOrder.priced, Prod.mk.injEq] at hp
  refine ⟨hp.1.trans h.commission, ?_⟩
  rw [hp.2.1, hp.2.2, hs]
  exact h.slippage

/-- A row whose totals are the aggregates of its fills folds them. -/
theorem foldsCosts_aggregates (hall : ∀ f ∈ fills, f.qtyFilled = 0 → f.commissionUsd = 0)
    (hp : o'.priced = ((updateOrderAggregates fills o.qty o.side o.previewPrice).totalCommissionUsd,
      (updateOrderAggregates fills o.qty o.side o.previewPrice).totalSlippageUsd, o.previewPrice))
    (hs : o'.side = o.side) : o'.FoldsCosts fills := by
  simp only [StructureOrder.priced, Prod.mk.injEq] at hp
  refine ⟨hp.1.trans (commission_aggregates fills _ _ _ hall), ?_⟩
  rw [hp.2.1, hp.2.2, hs]
  exact slippage_aggregates fills _ _ _

/-- A leg's totals stay sums over its fills, whatever the event. -/
theorem RowChange.foldsCosts (hchange : RowChange db i o e o' fills) (h : o.FoldsCosts (db.fillsOf i))
    (hall : ∀ f ∈ fills, f.qtyFilled = 0 → f.commissionUsd = 0) : o'.FoldsCosts fills := by
  have hs := leg_side hchange.leg
  cases hchange.costs with
  | kept hp => exact h.of_priced hp hs
  | synthetic perm now hp => exact (FoldsCosts_comboFills h).of_priced hp hs
  | booked now hnew => exact foldsCosts_aggregates hall (booked_priced ..) hs
  | reported x c cur cur' =>
    refine foldsCosts_aggregates (o := o) hall ?_ hs
    rw [← reportFill_fillsOf]
    rfl

end Rows

/-- The role of a leg, its commission, and its slippage at the notional of its contract. -/
def StructureOrder.cost (o : StructureOrder) : OrderRole × ℚ × ℚ :=
  (o.orderRole, o.totalCommissionUsd, o.totalSlippageUsd.getD 0 * o.multiplier)

def costsOf (orders : List StructureOrder) : ℚ × ℚ := (totalSlippage orders, totalCommission orders)

section Costs
variable {db : Db} {i : ℕ} {o o' : StructureOrder} {e : Event} {fills : List StructureFill}

theorem cost_congr (hleg : o'.leg = o.leg) (hc : o'.totalCommissionUsd = o.totalCommissionUsd)
    (hs : o'.totalSlippageUsd.getD 0 = o.totalSlippageUsd.getD 0) : o'.cost = o.cost := by
  have hcontract := leg_contract hleg
  simp only [StructureOrder.contract, Prod.mk.injEq] at hcontract
  simp only [StructureOrder.cost, StructureOrder.multiplier, leg_orderRole hleg, hc, hs,
    hcontract.1, hcontract.2.1]

theorem reported_commissions {x : String} {c : ℚ} {cur : Option String}
    (hsame : ∀ f ∈ fills, f.ibExecutionId = .ib x → f.commissionUsd = c) :
    ((fills.map fun f => f.reported i x c cur).map (·.commissionUsd)) =
      fills.map (·.commissionUsd) := by
  rw [List.map_map]
  apply List.map_congr_left
  intro f hf
  simp only [Function.comp_apply, reported_commissionUsd]
  split_ifs with hexec
  · exact (hsame f hf (of_decide_eq_true hexec).2).symm
  · rfl

theorem reported_slippage {x : String} {c : ℚ} {cur : Option String} (side : Side)
    (preview : Option ℚ) : slippageOf (fills.map fun f => f.reported i x c cur) side preview =
      slippageOf fills side preview := by
  cases preview with
  | none => rfl
  | some p => simp only [slippageOf, List.map_map, Function.comp_def, reported_qtyFilled,
      reported_fillPrice]

/-- Only a new execution of a leg, or a report that says something else than its fill row, changes
what the leg costs. -/
theorem RowChange.cost (hchange : RowChange db i o e o' fills) (h : o.FoldsCosts (db.fillsOf i))
    (h' : o'.FoldsCosts fills)
    (hexecution : ∀ fill now, e = .execution i fill now → db.Booked (.ib fill.execId))
    (hreport : ∀ x c cur, e = .commissionReport i x c cur → ∀ f ∈ db.fillsOf i,
      f.ibExecutionId = .ib x → f.commissionUsd = c.getD 0) : o'.cost = o.cost := by
  have hleg := hchange.leg
  cases hchange.costs with
  | kept hp | synthetic perm now hp =>
    simp only [StructureOrder.priced, Prod.mk.injEq] at hp
    exact cost_congr hleg hp.1 (by rw [hp.2.1])
  | @booked fill now hnew => exact absurd (hexecution fill now rfl) hnew
  | reported x c cur cur' =>
    apply cost_congr hleg
    · rw [h'.commission, reported_commissions (hreport x c cur rfl), h.commission]
    · rw [h'.slippage, reported_slippage, h.slippage]
      rfl

/-- Legs of the same costs come to the same. -/
theorem costs_congr {orders orders' : List StructureOrder}
    (h : orders'.map (·.cost) = orders.map (·.cost)) :
    costsOf (primaryOrders orders') = costsOf (primaryOrders orders) := by
  have hclosing : (orders'.all fun o => o.orderRole = .closing) =
      orders.all fun o => o.orderRole = .closing := by
    have hall := congrArg (fun l => l.all fun c => c.1 = .closing) h
    simpa [List.all_map, Function.comp_def, StructureOrder.cost] using hall
  have hprimary : (primaryOrders orders').map (·.cost) = (primaryOrders orders).map (·.cost) := by
    have hfilter (role : OrderRole) := congrArg (List.filter fun c => c.1 = role) h
    simp only [List.filter_map] at hfilter
    simp only [primaryOrders, hclosing]
    exact hfilter _
  have hcommission := congrArg (fun l => (l.map (·.2.1)).sum) hprimary
  have hslippage := congrArg (fun l => (l.map (·.2.2)).sum) hprimary
  simp only [List.map_map, Function.comp_def, StructureOrder.cost] at hcommission hslippage
  exact Prod.ext hslippage hcommission

end Costs

end FxVol
