import FxVol.TableGrowth

/-!
# The order book agrees with its fills

Every order row counts exactly what its fills record, a filled order has fills for its whole
quantity, and a leg with fills has their signed fold as its position.  Executions, commission
reports and the position projection keep this always.  The booking of a filled combo and the
two passes of the reconciler write quantities of their own; `KeepsBook` says when these are
the recorded ones.
-/
namespace FxVol

open GuardedRuns KeyedPasses

structure RowConsistent (db : Db) (i : ℕ) (o : StructureOrder) : Prop where
  qtyFilled : o.qtyFilled = db.recorded i
  filled : o.state = .filled → o.qty ≤ db.recorded i

/-- The projection of a leg with fills is the fold of exactly these. -/
def FoldsOk (db : Db) : Prop := ∀ i, db.fillsOf i ≠ [] →
  foldOf db i = some ((foldFills (db.fillsOf i)).openQty, (foldFills (db.fillsOf i)).avgPrice)

structure Db.Consistent (db : Db) : Prop where
  rows : ∀ i o, db.orders[i]? = some o → RowConsistent db i o
  folds : FoldsOk db

/-- A combo booked whole finds each leg it still has to book with no fills but a synthetic one.
The reconciler finds no stuck order with more recorded than its quantity, and no mirror
position for one whose fills prove nothing. -/
def KeepsBook (db : Db) : Event → Prop
  | .comboStatus perm ids .filled _ _ => ∀ i ∈ ids, ∀ o ∈ db.orders[i]?, o.state ≠ .filled →
      db.recorded i = if .combo perm i ∈ (db.fillsOf i).map (·.ibExecutionId) then o.qty else 0
  | .reconcile _ => ∀ i ∈ stuckIds db, ∀ o ∈ db.orders[i]?,
      ((bookVerdict db i).isSome → db.recorded i ≤ o.qty) ∧
      ((bookVerdict db i).isNone → ∀ pos ∈ mirrorOf db o.structureId, legMatchesPosition o pos →
        db.recorded i = o.qty)
  | _ => True

def KeepsRow (db : Db) (i : ℕ) (o : StructureOrder) : Event → Prop
  | .comboStatus perm ids .filled _ _ => i ∈ ids → o.state ≠ .filled →
      db.recorded i = if .combo perm i ∈ (db.fillsOf i).map (·.ibExecutionId) then o.qty else 0
  | .reconcile _ => o.state.isStuck →
      ((bookVerdict db i).isSome → db.recorded i ≤ o.qty) ∧
      ((bookVerdict db i).isNone → ∀ pos ∈ mirrorOf db o.structureId, legMatchesPosition o pos →
        db.recorded i = o.qty)
  | _ => True

section Rows
variable {db db' : Db} {i : ℕ} {o o' : StructureOrder} {e : Event} {fills : List StructureFill}

theorem stateFromRecordedFills_filled {recorded qty : ℕ} {s : OrderState}
    (h : stateFromRecordedFills recorded qty s = some .filled) : qty ≤ recorded := by
  unfold stateFromRecordedFills at h
  split_ifs at h with h₀ h₁
  · exact h₁.1
  · cases h

theorem comboFills_sum {perm : String} {now : Instant} :
    ((comboFills perm now i o (db.fillsOf i)).map (·.qtyFilled)).sum =
      if .combo perm i ∈ (db.fillsOf i).map (·.ibExecutionId) then db.recorded i
      else db.recorded i + o.qty := by
  unfold comboFills
  split_ifs
  · rfl
  · simp [Db.recorded, comboFillRow]

/-- A row that keeps its leg and quantity and does not become filled stays consistent. -/
theorem RowConsistent.keep (hc : RowConsistent db i o) (hleg : o'.leg = o.leg)
    (hq : o'.qtyFilled = o.qtyFilled) (hs : o'.state = .filled → o.state = .filled) :
    RowConsistent db i o' := by
  refine ⟨hq.trans hc.qtyFilled, ?_⟩
  intro hf
  rw [leg_qty hleg]
  exact hc.filled (hs hf)

theorem KeepsBook.row (hg : KeepsBook db e) (ho : db.orders[i]? = some o) : KeepsRow db i o e := by
  unfold KeepsRow
  split
  · exact fun hmem hopen => hg i hmem o ho hopen
  · exact fun hstuck => hg i ((mem_stuckIds ho).mpr hstuck) o ho
  · trivial

/-- A guarded change leaves a row consistent with the fills it leaves. -/
theorem RowChange.consistent (h : RowChange db i o e o' fills) (ho : db.orders[i]? = some o)
    (hc : RowConsistent db i o) (hg : KeepsRow db i o e) (hfills : db'.fillsOf i = fills) :
    RowConsistent db' i o' := by
  have hleg := h.leg
  have hrec : db'.recorded i = (fills.map (·.qtyFilled)).sum := by rw [Db.recorded, hfills]
  -- the changes that leave the fills alone keep the row by `RowConsistent.keep`
  have same : db'.recorded i = db.recorded i → RowConsistent db i o' → RowConsistent db' i o' := by
    intro heq hrow
    exact ⟨heq ▸ hrow.qtyFilled, heq ▸ hrow.filled⟩
  cases h with
  | same => exact same hrec hc
  | stampedLive | stamped | cancelled =>
    exact same hrec (hc.keep hleg rfl (fun hf => by cases hf))
  | onStatus status reason now =>
    apply same hrec (hc.keep hleg (onStatus_leg status reason).2 ?_)
    intro hf
    rcases onStatus_state o now status reason with hsame | hnew
    · exact hsame ▸ hf
    · rw [hf] at hnew
      rcases (nextState_newState hnew).2 with h | h | h <;> simp at h
  | comboCancelled perm status reason now =>
    apply same hrec (hc.keep hleg (onComboCancel_qtyFilled o now status reason) ?_)
    intro hf
    rcases onComboCancel_state o now status reason with hsame | ⟨_, hdead | hdead⟩
    · exact hsame ▸ hf
    · rw [hf] at hdead
      cases hdead
    · rw [hf] at hdead
      cases hdead
  | comboBooked perm reason now hmem hopen =>
    have hguard := hg hmem hopen
    have hsum : db'.recorded i = o.qty := by
      rw [hrec, comboFills_sum, hguard]
      split_ifs <;> simp
    exact ⟨hsum.symm, fun _ => hsum.ge⟩
  | @booked fill now hnew =>
    have hsum : db'.recorded i = (aggregatesWith db i o fill).qtyFilled := by
      rw [hrec, aggregatesWith_qtyFilled]
      simp [Db.recorded, fillRow]
    refine ⟨booked_qtyFilled.trans hsum.symm, ?_⟩
    intro hf
    rw [booked_state] at hf
    split_ifs at hf with hfull
    rw [hsum, leg_qty booked_leg, aggregatesWith_qtyFilled]
    exact (aggregatesWith_fullyFilled.mp hfull).2
  | reported x c cur cur' =>
    have hsum : db'.recorded i = db.recorded i := by
      rw [hrec, List.map_map]
      simp [Db.recorded, Function.comp_def]
    refine same hsum ⟨?_, hc.filled⟩
    rw [withAggregates_qtyFilled, recomputeAggregates, updateOrderAggregates_qtyFilled]
    exact reportFill_recorded db i i x (c.getD 0) cur'
  | @repaired new now hstuck hnew =>
    have hguard := hg hstuck
    rw [bookVerdict_of_row ho, hnew] at hguard
    have hle := hguard.1 rfl
    refine same hrec ⟨?_, ?_⟩
    · rw [repaired_qtyFilled]
      omega
    · intro hf
      rw [repaired_state] at hf
      subst hf
      exact stateFromRecordedFills_filled hnew
  | @mirrored pos now hstuck hnone hpos hmatch =>
    have hguard := hg hstuck
    rw [bookVerdict_of_row ho, hnone] at hguard
    have hqty := hguard.2 rfl pos hpos hmatch
    exact same hrec ⟨hqty.symm, fun _ => hqty.ge⟩
  | adopted trades t tau now =>
    apply same hrec (hc.keep hleg rfl ?_)
    intro hf
    rw [adopted_state] at hf
    split_ifs at hf
    exact hf
  | expired trades tau now o₁ h₁ =>
    refine same hrec (hc.keep hleg ?_ (fun hf => by cases hf))
    rcases h₁ with rfl | ⟨t, _, rfl⟩ <;> rfl
  | rewired trades t now =>
    apply same hrec (hc.keep hleg rfl ?_)
    intro hf
    rw [rewired_state] at hf
    split_ifs at hf
    exact hf
  | answered outcome now =>
    refine same hrec (hc.keep hleg (answered_qtyFilled o now outcome) ?_)
    intro hf
    cases outcome <;> cases hf

end Rows

/-- A relation between the fills of a leg and its projection that every writer keeps: it holds
of the fold itself and of a row created with the column defaults, and it looks at side,
quantity and price of the fills only. -/
structure ProjectionRule (P : List StructureFill → Option (ℤ × Option ℚ) → Prop) : Prop where
  rebuilt : ∀ fills, P fills (some ((foldFills fills).openQty, (foldFills fills).avgPrice))
  created : ∀ fills, P fills none → P fills (some (0, none))
  reported : ∀ fills x (g : StructureFill → StructureFill), (∀ f, (g f).side = f.side) →
    (∀ f, (g f).qtyFilled = f.qtyFilled) → (∀ f, (g f).fillPrice = f.fillPrice) →
    P fills x → P (fills.map g) x

def Projected (P : List StructureFill → Option (ℤ × Option ℚ) → Prop) (db : Db) : Prop :=
  ∀ i, P (db.fillsOf i) (foldOf db i)

section Folds
variable {P : List StructureFill → Option (ℤ × Option ℚ) → Prop} {db db' : Db} {i : ℕ}

theorem Projected.congr (h : Projected P db) (hf : db'.fills = db.fills)
    (hl : db'.legPositions = db.legPositions) : Projected P db' := by
  intro i
  rw [Db.fillsOf_congr hf, foldOf, hl]
  exact h i

/-- Rebuilding a leg makes good whatever happened to its fills. -/
theorem Projected.rebuild (hP : ProjectionRule P)
    (h : ∀ j, j ≠ i → P (db.fillsOf j) (foldOf db j)) : Projected P (rebuildLeg db i) := by
  intro j
  by_cases hj : j = i
  · subst hj
    rw [foldOf_rebuildLeg_self]
    exact hP.rebuilt _
  · rw [foldOf_rebuildLeg_ne hj]
    exact h j hj

theorem Projected.recompute (hP : ProjectionRule P) (h : Projected P db) :
    Projected P (recomputeReservation db i) := by
  intro j
  rcases foldOf_recomputeReservation db i j with hsame | ⟨hnone, hnew⟩
  · rw [hsame]
    exact h j
  · rw [hnew]
    exact hP.created _ (hnone ▸ h j)

theorem Projected.release (hP : ProjectionRule P) (h : Projected P db) (o : StructureOrder) :
    Projected P (releaseReservation db o) := by
  unfold releaseReservation
  split
  · exact h.recompute hP
  · exact h

/-- An added fill leaves the other legs as they are. -/
theorem Projected.added (h : Projected P db) {row : StructureFill} (hrow : row.orderId = i) (j : ℕ)
    (hj : j ≠ i) : P ((db.addFill row).fillsOf j) (foldOf (db.addFill row) j) := by
  have hj' : row.orderId ≠ j := fun heq => hj (heq.symm.trans hrow)
  rw [Db.addFill_fillsOf_ne db row j hj']
  exact h j

variable (hP : ProjectionRule P)
include hP

theorem projected_bookFill (h : Projected P db) (o : StructureOrder) (fill : IbFill) (now : Instant) :
    Projected P (bookFill db i o fill now) := by
  apply Projected.release hP
  apply Projected.rebuild hP
  intro j hj
  exact h.added rfl j hj

theorem projected_bookComboLeg (h : Projected P db) {perm : String} {now : Instant}
    (hok : bookComboLeg perm now db i = .ok db') : Projected P db' := by
  rcases bookComboLeg_cases hok with rfl | ⟨o, db₁, _, _, ⟨_, rfl⟩ | ⟨_, rfl⟩, rfl⟩
  · exact h
  · apply Projected.release hP
    apply Projected.rebuild hP
    intro j _
    exact h j
  · apply Projected.release hP
    apply Projected.rebuild hP
    intro j hj
    exact h.added rfl j hj

theorem projected_report (h : Projected P db) {x : String} {c : ℚ} {cur : Option String} :
    Projected P (db.reportFill i x c cur) := by
  intro j
  rw [reportFill_fillsOf]
  exact hP.reported _ _ _ (fun f => reported_side _ _ _ _ f)
    (fun f => reported_qtyFilled _ _ _ _ f) (fun f => reported_fillPrice _ _ _ _ f) (h j)

theorem projected_reconcile (h : Projected P db) (now : Instant) :
    Projected P (reconcileStuckOrders db now).1 := by
  have h₁ : Projected P ((stuckIds db).foldl (bookPass now) db) := by
    apply (passes_foldl (bookPass now) (stuckIds db) db).invariant (I := Projected P) ?_ h
    rintro k _ s t hs rfl
    rcases bookPass_cases now s k with hdb | ⟨o, new, _, _, hdb⟩
    · rw [hdb]
      exact hs
    · rw [hdb]
      apply Projected.rebuild hP
      intro j _
      exact hs j
  apply (passes_foldl (mirrorPass now) _ _).invariant (I := fun s => Projected P s.1) ?_ h₁
  rintro k _ s t hs rfl
  obtain ⟨_, hf, hl⟩ := mirrorPass_frame now s k
  exact hs.congr hf hl

theorem projected_reap (h : Projected P db) (trades : List IbTrade) (tau : ℤ) (now : Instant) :
    Projected P (reapStaleOrders db trades tau now) := by
  have h₁ : Projected P ((List.range db.orders.length).foldl (adoptOrphan trades now) db) := by
    apply (passes_foldl _ _ db).invariant (I := Projected P) ?_ h
    rintro k _ s t hs rfl
    rcases adoptOrphan_cases trades now s k with hdb | ⟨o, t, _, _, hdb⟩
    · rw [hdb]
      exact hs
    · rw [hdb]
      exact hs.congr rfl rfl
  have h₂ := (passes_foldl (reapOrder (liveIbOrderKeys trades) tau now) (staleIds
    ((List.range db.orders.length).foldl (adoptOrphan trades now) db) (now - tau)) (_, [])).invariant
    (I := fun s => Projected P s.1) ?_ h₁
  · apply (passes_foldl (terminaliseStructure now) _ _).invariant (I := Projected P) ?_ h₂
    rintro k _ s t hs rfl
    exact hs.congr (terminaliseStructure_fills now s k) (terminaliseStructure_legPositions now s k)
  · rintro k _ s t hs rfl
    rcases reapOrder_cases (liveIbOrderKeys trades) tau now s k with hdb | ⟨o, _, _, hdb⟩
    · rw [hdb]
      exact hs
    · rw [hdb]
      have hset : Projected P (s.1.setOrder k (o.expiredAt now)) := hs.congr rfl rfl
      exact hset.release hP _

theorem projected_comboStatus (h : Projected P db) (perm : String) (ids : List ℕ) (status : IbStatus)
    (reason : Option String) (now : Instant) :
    Projected P (onComboStatus db perm ids status reason now).1 := by
  rcases onComboStatus_cases db perm ids status reason now with hdb | ⟨_, hok⟩ | hdb
  · rw [hdb]
    exact h
  · apply (passes_foldlM _ hok).invariant (I := Projected P) ?_ h
    intro k _ s t hs hk
    exact projected_bookComboLeg hP hs hk
  · rw [hdb]
    apply (passes_foldl _ ids db).invariant (I := Projected P) ?_ h
    rintro k _ s t hs rfl
    exact hs.congr rfl rfl

theorem projected_positionClose (h : Projected P db) (positionId : ℕ) (alert : Option ℕ)
    (now : Instant) : Projected P (step db (.positionClose positionId alert now)) := by
  rcases positionClose_cases db positionId alert now with hdb | ⟨pos, legs, _, _, _, hdb⟩
  · rw [hdb]
    exact h
  · rw [hdb]
    have h₂ := (passes_foldl recomputeReservation ((positionCloseOrders db.structures.length
      (entryOrders db pos.structureId) legs now).filterMap (·.closesOrderId))
      { db.addStructure (TradeStructure.new now) with
        orders := db.orders ++ positionCloseOrders db.structures.length
          (entryOrders db pos.structureId) legs now }).invariant (I := Projected P) ?_ ?_
    · exact h₂.congr rfl rfl
    · rintro k _ s t hs rfl
      exact hs.recompute hP
    · exact h.congr rfl rfl

/-- No transaction breaks the relation between a leg and its projection. -/
theorem step_projected (h : Projected P db) (e : Event) : Projected P (step db e) := by
  cases e with
  | submitPreview | stampLive | stampPlacement | orderStatus | syncPositions =>
    exact h.congr rfl rfl
  | createUnwind sid idx leg now =>
    simp only [step, Db.insertOrder]
    split_ifs <;> exact h.congr rfl rfl
  | comboStatus perm ids status reason now => exact projected_comboStatus hP h perm ids status reason now
  | execution j fill now =>
    simp only [step]
    rcases deliverFill_cases db j fill now with hdb | ⟨o, _, _, hdb⟩
    · rw [hdb]
      exact h
    · rw [hdb]
      exact projected_bookFill hP h o fill now
  | commissionReport j x c cur =>
    simp only [step]
    rcases onCommissionReport_cases db j x cur c with hdb | ⟨cur', hdb⟩
    · rw [hdb]
      exact h
    · rw [hdb]
      exact (projected_report hP h).congr rfl rfl
  | completeStructure sid now =>
    obtain ⟨_, hf, hl⟩ := maybeCompleteStructure_frame db sid now
    exact h.congr hf hl
  | reconcile now => exact projected_reconcile hP h now
  | reap trades tau now => exact projected_reap hP h trades tau now
  | reconnect trades now =>
    apply (passes_foldl (attachOptionHandler trades now) (List.range db.orders.length)
      db).invariant (I := Projected P) ?_ h
    rintro k _ s t hs rfl
    rcases attachOptionHandler_cases trades now s k with hdb | ⟨o, t, _, _, hdb⟩
    · rw [hdb]
      exact hs
    · rw [hdb]
      exact hs.congr rfl rfl
  | closeRequest pos qty lp target rth now =>
    rcases closeRequest_cases db pos qty lp target rth now with hdb | ⟨price, _, _, hdb⟩
    · rw [hdb]
      exact h
    · rw [hdb]
      have hadd : Projected P ((db.addStructure (TradeStructure.new now)).addOrder (closingOrder pos qty
        db.structures.length price (closeTarget db pos target) now)) := h.congr rfl rfl
      exact hadd.release hP _
  | closeAnswer j outcome now =>
    refine h.congr (closeAnswer_fills db j outcome now) ?_
    simp only [step, closeAnswer]
    split
    · rfl
    · split <;> rfl
  | cancelTrade tradeId ids now =>
    have hcancel : Projected P (ids.foldl (cancelOrder now) db) := by
      apply (passes_foldl (cancelOrder now) ids db).invariant (I := Projected P) ?_ h
      rintro k _ s t hs rfl
      exact hs.congr rfl rfl
    exact hcancel.congr (terminaliseStructure_fills now _ tradeId)
      (terminaliseStructure_legPositions now _ tradeId)
  | positionClose positionId alert now => exact projected_positionClose hP h positionId alert now

omit hP

theorem projectionRule_foldsOk : ProjectionRule fun fills x => fills ≠ [] →
    x = some ((foldFills fills).openQty, (foldFills fills).avgPrice) where
  rebuilt fills _ := rfl
  created fills h hne := absurd (h hne) nofun
  reported fills x g hs hq hp h hne := by
    rw [foldFills_map _ _ hs hq hp]
    exact h fun hnil => hne (by rw [hnil]; rfl)

/-- No transaction leaves a leg with fills at anything but their fold. -/
theorem step_foldsOk (e : Event) (h : FoldsOk db) : FoldsOk (step db e) :=
  step_projected projectionRule_foldsOk h e

theorem FoldsOk.congr (h : FoldsOk db) (hf : db'.fills = db.fills)
    (hl : db'.legPositions = db.legPositions) : FoldsOk db' :=
  Projected.congr (P := fun fills x => fills ≠ [] →
    x = some ((foldFills fills).openQty, (foldFills fills).avgPrice)) h hf hl

/-- The projection is the fold of the fills, or the leg has neither. -/
def ExactProjection (fills : List StructureFill) (x : Option (ℤ × Option ℚ)) : Prop :=
  x = some ((foldFills fills).openQty, (foldFills fills).avgPrice) ∨ fills = [] ∧ x = none

theorem projectionRule_exact : ProjectionRule ExactProjection where
  rebuilt fills := .inl rfl
  created fills h := by
    rcases h with h | ⟨rfl, _⟩
    · cases h
    · exact .inl rfl
  reported fills x g hs hq hp h := by
    rcases h with h | ⟨rfl, hnone⟩
    · rw [ExactProjection, foldFills_map _ _ hs hq hp]
      exact .inl h
    · exact .inr ⟨rfl, hnone⟩

/-- The open quantity of every leg is the signed sum of its fills. -/
theorem Reachable.openQty (h : Reachable db) (i : ℕ) :
    ((db.legPositions i).map (·.openQty)).getD 0 =
      ((db.fillsOf i).map fun f => signed f.side f.qtyFilled).sum := by
  have hinv := Run.invariant (I := Projected ExactProjection)
    (fun _ e hs _ => step_projected projectionRule_exact hs e) h (fun _ => .inr ⟨rfl, rfl⟩)
  have hfold : (foldOf db i).map (·.1) = (db.legPositions i).map (·.openQty) := by
    simp [foldOf, Option.map_map, Function.comp_def]
  rw [← hfold]
  rcases hinv i with hsome | ⟨hnil, hnone⟩
  · rw [hsome]
    simp
  · rw [hnone, hnil]
    rfl

end Folds

section Runs
variable {db : Db} {e : Event}

/-- A row inserted by a transaction has no fills. -/
theorem step_newRow (hw : db.WellFormed) {i : ℕ} (hi : db.orders.length ≤ i) :
    (step db e).fillsOf i = [] := by
  apply List.filter_eq_nil_iff.mpr
  intro f hf
  have hlt := (step_fillsOk e hw.fillsOk).known f hf
  simp only [decide_eq_true_eq]
  omega

theorem step_rowConsistent (hw : db.WellFormed) (i : ℕ)
    (hold : ∀ o, db.orders[i]? = some o → RowConsistent db i o ∧ KeepsRow db i o e)
    (o' : StructureOrder) (ho' : (step db e).orders[i]? = some o') :
    RowConsistent (step db e) i o' := by
  rcases step_row_cases ho' with ⟨o, ho, hchange⟩ | ⟨hi, hfresh⟩
  · exact hchange.consistent ho (hold _ ho).1 (hold _ ho).2 rfl
  · have hrec : (step db e).recorded i = 0 := by rw [Db.recorded, step_newRow hw hi]; rfl
    refine ⟨hfresh.unfilled.trans hrec.symm, ?_⟩
    intro hf
    rw [hfresh.pending] at hf
    cases hf

theorem step_consistent (hw : db.WellFormed) (h : db.Consistent) (hg : KeepsBook db e) :
    (step db e).Consistent where
  rows i := step_rowConsistent hw i fun o ho => ⟨h.rows i o ho, hg.row ho⟩
  folds := step_foldsOk e h.folds

theorem consistent_empty : Db.empty.Consistent where
  rows := by simp [Db.empty]
  folds i hne := absurd rfl hne

/-- The book is consistent in every database that guarded transactions reach. -/
theorem book_consistency (hrun : Run step KeepsBook Db.empty db) : db.Consistent := by
  have hboth := hrun.invariant (I := fun s => s.WellFormed ∧ s.Consistent)
    (fun s e hs he => ⟨step_wellFormed e hs.1, step_consistent hs.1 hs.2 he⟩)
    ⟨wellFormed_empty, consistent_empty⟩
  exact hboth.2

instance (db : Db) : ∀ e, Decidable (KeepsBook db e)
  | .comboStatus perm ids .filled _ _ => inferInstanceAs (Decidable (∀ i ∈ ids,
      ∀ o ∈ db.orders[i]?, o.state ≠ .filled → db.recorded i =
        if .combo perm i ∈ (db.fillsOf i).map (·.ibExecutionId) then o.qty else 0))
  | .reconcile _ => inferInstanceAs (Decidable (∀ i ∈ stuckIds db, ∀ o ∈ db.orders[i]?,
      ((bookVerdict db i).isSome → db.recorded i ≤ o.qty) ∧
      ((bookVerdict db i).isNone → ∀ pos ∈ mirrorOf db o.structureId, legMatchesPosition o pos →
        db.recorded i = o.qty)))
  | .comboStatus _ _ .pendingSubmit _ _ | .comboStatus _ _ .apiPending _ _
  | .comboStatus _ _ .preSubmitted _ _ | .comboStatus _ _ .submitted _ _
  | .comboStatus _ _ .pendingCancel _ _ | .comboStatus _ _ .cancelled _ _
  | .comboStatus _ _ .apiCancelled _ _ | .comboStatus _ _ .inactive _ _
  | .comboStatus _ _ (.other _) _ _ | .submitPreview .. | .createUnwind .. | .stampLive ..
  | .stampPlacement .. | .orderStatus .. | .execution .. | .commissionReport ..
  | .completeStructure .. | .reap .. | .reconnect .. | .syncPositions .. | .closeRequest ..
  | .closeAnswer .. | .cancelTrade .. | .positionClose .. => .isTrue trivial

/-- Two legs of one combo: the first fills by executions, the second by the combo status. -/
def bookedCombo : List Event :=
  [.submitPreview [callLeg .buy 10, callLeg .sell 10] 0,
    .execution 0 (execution "a" "BOT" 4 none) 1, .execution 0 (execution "b" "BOT" 6 none) 2,
    .commissionReport 0 "a" (some (5 / 2)) (some "USD"),
    .comboStatus "900" [0, 1] .filled none 3, .reconcile 4]

theorem book_consistency_bookedCombo : (bookedCombo.foldl step Db.empty).Consistent :=
  book_consistency (Run.of_foldl bookedCombo (by decide +kernel))

/-- A combo that fills after a partial execution of a leg: the row counts ten contracts, its
fills record thirteen. -/
def partlyBookedCombo : List Event :=
  [.submitPreview [callLeg .buy 10, callLeg .sell 10] 0,
    .execution 0 (execution "a" "BOT" 3 none) 1, .comboStatus "900" [0, 1] .filled none 2]

theorem combo_booking_inconsistent : ¬ ∀ db, Reachable db → db.Consistent := by
  intro h
  have hq := ((h _ (reachable_events partlyBookedCombo)).rows 0 _ rfl).qtyFilled
  revert hq
  decide +kernel

end Runs

end FxVol
