import FxVol.RollbackRuns

/-!
# What a rollback leaves uncovered

A rollback that ends without raising has placed one unwind for every leg it planned.  A leg it
does not plan keeps what cover it had: one cancelled, rejected or expired with a part executed,
one whose unwind was never placed or failed.
-/
namespace FxVol

open GuardedRuns TableTotals

def World.atIb (w : World) (i : ℕ) : Bool := w.sent.any (·.covers (.order i))

def workingAtIb (w : World) (j : ℕ) (u : StructureOrder) : ℕ :=
  if w.atIb j then workingRest w.db j u else 0

def workingAtIbQty (w : World) (s l : ℕ) : ℕ :=
  total (fun j u => if isUnwindOf s l u then workingAtIb w j u else 0) w.db.orders

/-- What entry order `i` of the leg executed is what its unwinds executed or work on at IB. -/
def World.Covered (w : World) (s l i : ℕ) : Prop :=
  w.db.recorded i = unwoundQty w.db s l + workingAtIbQty w s l

/-- Every entry leg of the structure with something executed is covered. -/
def World.NoNakedLeg (w : World) (s : ℕ) : Prop :=
  ∀ (l i : ℕ) (o : StructureOrder), w.db.orders[i]? = some o → isEntryOf s l o →
    0 < w.db.recorded i → w.Covered s l i

def Unwindless (db : Db) (s l : ℕ) : Prop :=
  ∀ (j : ℕ) (u : StructureOrder), db.orders[j]? = some u → ¬ isUnwindOf s l u

/-- Every entry leg with something executed is one that a rollback unwinds and that has no unwind
yet, or is covered already. -/
def World.Coverable (w : World) (s : ℕ) : Prop :=
  ∀ (l i : ℕ) (o : StructureOrder), w.db.orders[i]? = some o → isEntryOf s l o →
    0 < w.db.recorded i →
      (o.state ∈ [OrderState.partiallyFilled, .filled] ∧ Unwindless w.db s l) ∨ w.Covered s l i

/-- Meanwhile IB executes only unwinds of the structure that it works, within their quantity, and
ends none of them. -/
def Quiet (w : World) (s : ℕ) : Event → Prop
  | .execution j fill now => FitsUnwinds w.db (.execution j fill now) ∧
      (¬ w.db.Booked (.ib fill.execId) → ∀ o ∈ w.db.orders[j]?, o.structureId = s →
        o.orderRole = .unwind ∧ o.state.isTerminal = false ∧ w.atIb j)
  | .orderStatus j status reason now => ∀ o ∈ w.db.orders[j]?, o.structureId = s →
      o.orderRole = .unwind →
        (o.onStatus status reason now).state.isTerminal = o.state.isTerminal
  | _ => False

/-- The leg at hand has a positive price. -/
def RollbackPc.Priced : RollbackPc → Prop
  | .unwinding _ ((_, some entry) :: _) =>
    0 < (orPrice entry.previewPrice entry.limitPrice).getD 0
  | _ => True

/-- From this point on the rollback of `s` runs to its end without raising: IB qualifies every
contract, every leg has a price, and quiet events come in between. -/
inductive Finishes (s : ℕ) : World → RollbackPc → World → Prop
  | done (w : World) (startedAt : Option Instant) :
      Finishes s w (.unwinding startedAt []) (w.startRollback s startedAt)
  | step {w w₁ w' : World} {pc pc₁ : RollbackPc} (a : Answer) (hq : ∀ i, (a.qualify i).found)
      (hpriced : pc.Priced) (hstep : rollbackStep a w s pc = (w₁, some pc₁))
      (hrest : Finishes s w₁ pc₁ w') : Finishes s w pc w'
  | book {w w' : World} {pc : RollbackPc} (e : Event) (hquiet : Quiet w s e)
      (hrest : Finishes s { w with db := step w.db e } pc w') : Finishes s w pc w'

/-- `run_rollback` on a structure, from its plan to its end. -/
inductive RollsBackTo (s : ℕ) (w : World) : World → Prop
  | noop (a : Answer) (hc : a.connected) (hs : w.db.structures[s]? ≠ none)
      (hplan : (rollbackPlan w.db s).isNoop) : RollsBackTo s w (w.startRollback s (some a.now))
  | plans {w' : World} (a : Answer) {pc : RollbackPc}
      (hstep : rollbackStep a w s .start = (w, some pc)) (hrest : Finishes s w pc w') :
      RollsBackTo s w w'

def RollbackPc.rest : RollbackPc → List (UnwindAction × Option StructureOrder)
  | .start => []
  | .unwinding _ rest | .qualifying _ rest | .placing _ _ rest => rest

def RollbackPc.current : RollbackPc → Option ℕ
  | .qualifying i _ | .placing i _ _ => some i
  | .start | .unwinding _ _ => none

section Frames
variable {w w₁ : World} {s l i : ℕ}

/-- What one row adds to the cover of a leg. -/
def coverOf (w : World) (s l : ℕ) (j : ℕ) (u : StructureOrder) : ℕ :=
  if isUnwindOf s l u then w.db.recorded j + workingAtIb w j u else 0

theorem covered_iff : w.Covered s l i ↔
    w.db.recorded i = total (coverOf w s l) w.db.orders := by
  have hsum : (coverOf w s l) = fun j u =>
      (if isUnwindOf s l u then w.db.recorded j else 0) +
        (if isUnwindOf s l u then workingAtIb w j u else 0) := by
    funext j u
    rw [coverOf]
    split_ifs <;> rfl
  rw [World.Covered, hsum, total_add, unwoundQty, workingAtIbQty]

/-- The cover of a leg is the same where its rows are covered the same, and new rows are not of
it. -/
theorem covered_congr (hrec : w₁.db.recorded i = w.db.recorded i)
    (hlen : w.db.orders.length ≤ w₁.db.orders.length)
    (hold : ∀ (j : ℕ) (u : StructureOrder), w.db.orders[j]? = some u →
      ∃ u', w₁.db.orders[j]? = some u' ∧ coverOf w₁ s l j u' = coverOf w s l j u)
    (hnew : ∀ (j : ℕ) (u : StructureOrder), w.db.orders.length ≤ j →
      w₁.db.orders[j]? = some u → ¬ isUnwindOf s l u) :
    w₁.Covered s l i ↔ w.Covered s l i := by
  have hle : total (coverOf w₁ s l) w₁.db.orders ≤ total (coverOf w s l) w.db.orders := by
    apply total_le hlen
    · intro j u hu
      obtain ⟨u', hu', heq⟩ := hold j u hu
      exact ⟨u', hu', heq.le⟩
    · intro j u hj hu
      rw [coverOf, if_neg (hnew j u hj hu)]
  have hge : total (coverOf w s l) w.db.orders ≤ total (coverOf w₁ s l) w₁.db.orders := by
    apply total_grows hlen
    · intro j u hu
      obtain ⟨u', hu', heq⟩ := hold j u hu
      exact ⟨u', hu', heq.ge⟩
    · exact fun _ _ _ _ => Nat.zero_le _
  rw [covered_iff, covered_iff, hrec, le_antisymm hle hge]

theorem not_isUnwindOf_congr {u u' : StructureOrder} (h : u'.slot = u.slot)
    (hu : ¬ isUnwindOf s l u) : ¬ isUnwindOf s l u' := by
  rw [isUnwindOf_iff] at hu ⊢
  rwa [h]

/-- A write to a row that is no unwind of the leg. -/
theorem covered_update (w : World) (j : ℕ) {g : StructureOrder → StructureOrder}
    (hg : ∀ o, (g o).slot = o.slot) (hj : ∀ u ∈ w.db.orders[j]?, ¬ isUnwindOf s l u) :
    World.Covered { w with db := w.db.updateOrder j g } s l i ↔ w.Covered s l i := by
  refine covered_congr rfl (List.length_modify ..).ge ?_ ?_
  · intro k u hu
    refine ⟨_, updateOrder_row g hu, ?_⟩
    split_ifs with hk
    · subst hk
      rw [coverOf, coverOf, if_neg (hj u hu), if_neg (not_isUnwindOf_congr (hg u) (hj u hu))]
    · rfl
  · intro k u hk hu
    have hlt := (List.getElem?_eq_some_iff.mp hu).1
    rw [Db.updateOrder, List.length_modify] at hlt
    omega

/-- A new row that is no unwind of the leg. -/
theorem covered_addOrder (w : World) {o : StructureOrder} (ho : ¬ isUnwindOf s l o)
    (startedAt : Option Instant) (s' : ℕ) :
    (World.startRollback { w with db := w.db.addOrder o } s' startedAt).Covered s l i ↔
      w.Covered s l i := by
  apply covered_congr
  · rfl
  · simp [World.startRollback, Db.addOrder]
  · intro k u hu
    have hk := (List.getElem?_eq_some_iff.mp hu).1
    refine ⟨u, ?_, rfl⟩
    simp only [World.startRollback, Db.addOrder]
    rw [List.getElem?_append_left hk, hu]
  · intro k u hk hu
    simp only [World.startRollback, Db.addOrder] at hu
    rw [List.getElem?_append_right hk] at hu
    rwa [List.mem_singleton.mp (List.mem_of_getElem? hu)]

/-- An order at IB for no unwind of the leg. -/
theorem covered_send (w : World) {x : IbPlacement} (hx : ∀ (j : ℕ) (u : StructureOrder),
    w.db.orders[j]? = some u → isUnwindOf s l u → x.covers (.order j) = false) :
    (w.send x).Covered s l i ↔ w.Covered s l i := by
  refine covered_congr rfl le_rfl ?_ ?_
  · intro j u hu
    refine ⟨u, hu, ?_⟩
    unfold coverOf
    split_ifs with hunwind
    · have hat : (w.send x).atIb j = w.atIb j := by
        simp [World.atIb, World.send, hx j u hu hunwind]
      rw [workingAtIb, workingAtIb, hat]
      rfl
    · rfl
  · intro j u hj hu
    have hlt := (List.getElem?_eq_some_iff.mp hu).1
    exact absurd hlt (not_lt.mpr hj)

end Frames

/-- What a step that goes on does. -/
inductive RollbackMove (w : World) (s : ℕ) : RollbackPc → World → RollbackPc → Prop
  | skip (startedAt : Option Instant) (u : UnwindAction)
      (rest : List (UnwindAction × Option StructureOrder)) :
      RollbackMove w s (.unwinding startedAt ((u, none) :: rest)) w (.unwinding startedAt rest)
  | insert (startedAt : Option Instant) (u : UnwindAction) (entry : StructureOrder)
      (rest : List (UnwindAction × Option StructureOrder)) (limit : ℚ) (now : Instant) (db : Db)
      (hok : w.db.insertOrder (unwindOrder s entry u limit now) = .ok db) :
      RollbackMove w s (.unwinding startedAt ((u, some entry) :: rest))
        (World.startRollback { w with db := db } s startedAt)
        (.qualifying w.db.orders.length rest)
  | qualified (j : ℕ) (rest : List (UnwindAction × Option StructureOrder)) :
      RollbackMove w s (.qualifying j rest) w (.placing j .start rest)
  | claim (j : ℕ) (rest : List (UnwindAction × Option StructureOrder)) (now : Instant) :
      RollbackMove w s (.placing j .start rest) (w.setClaim (some now) (.row (.order j)))
        (.placing j .claimed rest)
  | lost (j : ℕ) (rest : List (UnwindAction × Option StructureOrder))
      (htaken : w.claimable (.row (.order j)) = false) :
      RollbackMove w s (.placing j .start rest) w (.unwinding none rest)
  | send (j : ℕ) (rest : List (UnwindAction × Option StructureOrder)) (ids : IbIds) :
      RollbackMove w s (.placing j .claimed rest) (w.send (w.rowPlacement (.order j)))
        (.placing j (.sent ids) rest)
  | refused (j : ℕ) (rest : List (UnwindAction × Option StructureOrder)) :
      RollbackMove w s (.placing j .claimed rest) w (.placing j .releasing rest)
  | stamp (j : ℕ) (rest : List (UnwindAction × Option StructureOrder)) (ids : IbIds)
      (now : Instant) :
      RollbackMove w s (.placing j (.sent ids) rest) (w.stamp ids now (.order j))
        (.unwinding none rest)

section Moves
variable {w w₁ : World} {s l i : ℕ} {pc pc₁ : RollbackPc} {a : Answer}

theorem rollbackStep_move (hq : ∀ i, (a.qualify i).found) (hpriced : pc.Priced)
    (hne : pc ≠ .start) (hstep : rollbackStep a w s pc = (w₁, some pc₁)) :
    RollbackMove w s pc w₁ pc₁ := by
  match pc with
  | .start => exact absurd rfl hne
  | .unwinding startedAt [] => simp [rollbackStep] at hstep
  | .unwinding startedAt ((u, none) :: rest) =>
    simp only [rollbackStep, Prod.mk.injEq, Option.some.injEq] at hstep
    obtain ⟨rfl, rfl⟩ := hstep
    exact .skip startedAt u rest
  | .unwinding startedAt ((u, some entry) :: rest) =>
    have hlimit : 0 < (orPrice entry.previewPrice entry.limitPrice).getD 0 := hpriced
    simp only [rollbackStep, if_neg (not_le.mpr hlimit)] at hstep
    split at hstep
    · simp at hstep
    · next db hok =>
      simp only [Prod.mk.injEq, Option.some.injEq] at hstep
      obtain ⟨rfl, rfl⟩ := hstep
      exact .insert startedAt u entry rest _ _ db hok
  | .qualifying j rest =>
    simp only [rollbackStep, hq, if_true] at hstep
    split_ifs at hstep
    · simp only [Prod.mk.injEq, Option.some.injEq] at hstep
      obtain ⟨rfl, rfl⟩ := hstep
      exact .qualified j rest
    · simp at hstep
  | .placing j .start rest =>
    simp only [rollbackStep, placeStep] at hstep
    split_ifs at hstep with hfree
    · simp only [Prod.mk.injEq, Option.some.injEq] at hstep
      obtain ⟨rfl, rfl⟩ := hstep
      exact .claim j rest a.now
    · simp only [Prod.mk.injEq, Option.some.injEq] at hstep
      obtain ⟨rfl, rfl⟩ := hstep
      exact .lost j rest (Bool.eq_false_of_not_eq_true hfree)
  | .placing j .claimed rest =>
    simp only [rollbackStep, placeStep] at hstep
    cases hplaced : a.placed with
    | none =>
      simp only [hplaced, Prod.mk.injEq, Option.some.injEq] at hstep
      obtain ⟨rfl, rfl⟩ := hstep
      exact .refused j rest
    | some ids =>
      simp only [hplaced, Prod.mk.injEq, Option.some.injEq] at hstep
      obtain ⟨rfl, rfl⟩ := hstep
      exact .send j rest ids
  | .placing j .releasing rest => simp [rollbackStep, placeStep] at hstep
  | .placing j (.sent ids) rest =>
    simp only [rollbackStep, placeStep, Prod.mk.injEq, Option.some.injEq] at hstep
    obtain ⟨rfl, rfl⟩ := hstep
    exact .stamp j rest ids a.now

theorem RollbackMove.ne_start (h : RollbackMove w s pc w₁ pc₁) : pc₁ ≠ .start := by
  cases h <;> exact RollbackPc.noConfusion

/-- No row goes away, and nothing is recorded. -/
theorem RollbackMove.keeps (h : RollbackMove w s pc w₁ pc₁) :
    (∀ (j : ℕ) (u : StructureOrder), w.db.orders[j]? = some u →
      ∃ u', w₁.db.orders[j]? = some u' ∧ u'.slot = u.slot) ∧
    ∀ j, w₁.db.recorded j = w.db.recorded j := by
  have same : ∀ (j : ℕ) (u : StructureOrder), w.db.orders[j]? = some u →
      ∃ u', w.db.orders[j]? = some u' ∧ u'.slot = u.slot := fun j u hu => ⟨u, hu, rfl⟩
  have update (j : ℕ) (g : StructureOrder → StructureOrder) (hg : ∀ o, (g o).slot = o.slot) :
      ∀ (k : ℕ) (u : StructureOrder), w.db.orders[k]? = some u →
        ∃ u', (w.db.updateOrder j g).orders[k]? = some u' ∧ u'.slot = u.slot := by
    intro k u hu
    refine ⟨_, updateOrder_row g hu, ?_⟩
    split_ifs
    · exact hg u
    · rfl
  cases h with
  | skip | qualified | lost | send | refused => exact ⟨same, fun _ => rfl⟩
  | insert startedAt u entry rest limit now db hok =>
    obtain ⟨rfl, _⟩ := insertOrder_free hok
    refine ⟨?_, fun _ => rfl⟩
    intro j o ho
    have hj := (List.getElem?_eq_some_iff.mp ho).1
    refine ⟨o, ?_, rfl⟩
    simp only [World.startRollback, Db.addOrder]
    rw [List.getElem?_append_left hj, ho]
  | claim j rest now => exact ⟨update j _ fun _ => rfl, fun _ => rfl⟩
  | stamp j rest ids now => exact ⟨update j _ fun _ => rfl, fun _ => rfl⟩

/-- A move that is not about a leg leaves its cover, and goes on not being about it. -/
theorem RollbackMove.settled (h : RollbackMove w s pc w₁ pc₁)
    (hrest : ∀ p ∈ pc.rest, p.1.legIdx ≠ l)
    (hcurrent : ∀ j ∈ pc.current, ∀ u ∈ w.db.orders[j]?, ¬ isUnwindOf s l u) :
    (w₁.Covered s l i ↔ w.Covered s l i) ∧ (∀ p ∈ pc₁.rest, p.1.legIdx ≠ l) ∧
      ∀ j ∈ pc₁.current, ∀ u ∈ w₁.db.orders[j]?, ¬ isUnwindOf s l u := by
  have other {j : ℕ} {g : StructureOrder → StructureOrder} (hg : ∀ o, (g o).slot = o.slot)
      (hj : ∀ u ∈ w.db.orders[j]?, ¬ isUnwindOf s l u) :
      ∀ u ∈ (w.db.updateOrder j g).orders[j]?, ¬ isUnwindOf s l u := by
    intro u hu
    rw [Option.mem_def, Db.updateOrder_getElem?_self] at hu
    obtain ⟨u₀, hu₀, rfl⟩ := Option.map_eq_some_iff.mp hu
    exact not_isUnwindOf_congr (hg u₀) (hj u₀ hu₀)
  cases h with
  | skip startedAt u rest => exact ⟨Iff.rfl, fun p hp => hrest p (List.mem_cons_of_mem _ hp), fun _ hj => absurd hj (Option.not_mem_none _)⟩
  | insert startedAt u entry rest limit now db hok =>
    obtain ⟨rfl, _⟩ := insertOrder_free hok
    have hleg : u.legIdx ≠ l := hrest _ List.mem_cons_self
    have hnew : ¬ isUnwindOf s l (unwindOrder s entry u limit now) := by
      simp [isUnwindOf, unwindOrder, StructureOrder.new, hleg]
    refine ⟨covered_addOrder w hnew startedAt s,
      fun p hp => hrest p (List.mem_cons_of_mem _ hp), ?_⟩
    intro j hj u' hu'
    obtain rfl := Option.some.inj hj
    simp only [World.startRollback, Db.addOrder, List.getElem?_concat_length, Option.mem_def,
      Option.some.injEq] at hu'
    exact hu' ▸ hnew
  | qualified j rest => exact ⟨Iff.rfl, hrest, hcurrent⟩
  | claim j rest now =>
    have hj := hcurrent j rfl
    have hg : ∀ o : StructureOrder, StructureOrder.slot { o with submitClaimedAt := some now } =
        o.slot := fun _ => rfl
    exact ⟨covered_update w j hg hj, hrest, fun k hk => Option.some.inj hk ▸ other hg hj⟩
  | lost j rest => exact ⟨Iff.rfl, hrest, fun _ hj => absurd hj (Option.not_mem_none _)⟩
  | send j rest ids =>
    refine ⟨covered_send w ?_, hrest, hcurrent⟩
    intro k u hu hunwind
    have hne : j ≠ k := by
      rintro rfl
      exact hcurrent j rfl u hu hunwind
    simp [World.rowPlacement, IbPlacement.covers, hne]
  | refused j rest => exact ⟨Iff.rfl, hrest, hcurrent⟩
  | stamp j rest ids now =>
    have hj := hcurrent j rfl
    have hg : ∀ o : StructureOrder, (o.stamped ids.orderId ids.permId now).slot = o.slot :=
      fun _ => rfl
    exact ⟨covered_update w j hg hj, hrest, fun _ hj => absurd hj (Option.not_mem_none _)⟩

end Moves

section Quiet
variable {w : World} {s l i j : ℕ} {e : Event} {o u : StructureOrder}

theorem Quiet.inserts (hq : Quiet w s e) : e.inserts = false := by
  cases e with
  | execution | orderStatus => rfl
  | _ => exact hq.elim

theorem Quiet.invariant (hq : Quiet w s e) (h : RollbackInvariant w) :
    RollbackInvariant { w with db := step w.db e } := by
  cases e with
  | execution j fill now => exact h.book trivial hq.1
  | orderStatus j status reason now => exact h.book trivial trivial
  | _ => exact hq.elim

/-- A quiet event leaves the fills of a row of the structure and ends no unwind of it, or it
executes one of them that works at IB. -/
theorem Quiet.change {fills : List StructureFill} {u' : StructureOrder} (hq : Quiet w s e)
    (hu : w.db.orders[j]? = some u) (h : RowChange w.db j u e u' fills)
    (hsid : u.structureId = s) :
    fills = w.db.fillsOf j ∧
        (u.orderRole = .unwind → u'.state.isTerminal = u.state.isTerminal) ∨
      u.orderRole = .unwind ∧ u.state.isTerminal = false ∧ w.atIb j ∧
        u'.state.isFailed = false := by
  cases h with
  | same => exact .inl ⟨rfl, fun _ => rfl⟩
  | onStatus status reason now => exact .inl ⟨rfl, fun hrole => hq u hu hsid hrole⟩
  | booked now hnew =>
    obtain ⟨hrole, hopen, hat⟩ := hq.2 hnew u hu hsid
    refine .inr ⟨hrole, hopen, hat, ?_⟩
    rw [booked_state]
    split_ifs <;> rfl
  | _ => exact hq.elim

theorem Quiet.ibOrderId {fills : List StructureFill} {u' : StructureOrder} (hq : Quiet w s e)
    (h : RowChange w.db j u e u' fills) : u'.ibOrderId = u.ibOrderId := by
  cases h with
  | same => rfl
  | onStatus status reason now =>
    unfold StructureOrder.onStatus
    dsimp only
    split <;> try rfl
    split_ifs <;> rfl
  | booked =>
    unfold StructureOrder.booked StructureOrder.afterFill
    split_ifs <;> rfl
  | _ => exact hq.elim

/-- No entry leg of the structure executes. -/
theorem Quiet.entry (hq : Quiet w s e) (ho : w.db.orders[i]? = some o) (hentry : isEntryOf s l o) :
    (step w.db e).recorded i = w.db.recorded i := by
  obtain ⟨o', _, hchange⟩ := step_row e ho
  have hslot := isEntryOf_iff.mp hentry
  simp only [StructureOrder.slot, Prod.mk.injEq] at hslot
  obtain ⟨hsid, _, hrole⟩ := hslot
  rcases hq.change ho hchange hsid with ⟨hfills, _⟩ | ⟨hunwind, _⟩
  · rw [Db.recorded, hfills, Db.recorded]
  · rw [hrole] at hunwind
    cases hunwind

/-- An unwind that executes moves from working to executed. -/
theorem Quiet.cover (hq : Quiet w s e) (h : RollbackInvariant w) (hu : w.db.orders[j]? = some u) :
    ∃ u', (step w.db e).orders[j]? = some u' ∧
      coverOf { w with db := step w.db e } s l j u' = coverOf w s l j u := by
  obtain ⟨u', hu', hchange⟩ := step_row e hu
  refine ⟨u', hu', ?_⟩
  have hslot := hchange.slot
  unfold coverOf
  by_cases hunwind : isUnwindOf s l u
  · have hunwind' : isUnwindOf s l u' := by
      rw [isUnwindOf_iff] at hunwind ⊢
      rwa [hslot]
    rw [if_pos hunwind, if_pos hunwind']
    have hslot₀ := isUnwindOf_iff.mp hunwind
    simp only [StructureOrder.slot, Prod.mk.injEq] at hslot₀
    obtain ⟨hsid, _, hrole⟩ := hslot₀
    have hat : World.atIb { w with db := step w.db e } j = w.atIb j := rfl
    rw [workingAtIb, workingAtIb, hat]
    rcases hq.change hu hchange hsid with ⟨hfills, hterminal⟩ | ⟨_, hopen, hplaced, hlive⟩
    · have hrec : (step w.db e).recorded j = w.db.recorded j := by
        rw [Db.recorded, hfills, Db.recorded]
      have hrest : workingRest (step w.db e) j u' = workingRest w.db j u := by
        rw [workingRest, workingRest, hterminal hrole, hrec, leg_qty hchange.leg]
      rw [hrec, hrest]
    · have hinv := hq.invariant h
      have hrole' : u'.orderRole = .unwind := (leg_orderRole hchange.leg).trans hrole
      have hnow := hinv.unwind_claims hu' (hinv.unwinds j u' hu' hrole').1
      have hbefore := h.unwind_claims hu (h.unwinds j u hu hrole).1
      have hopen' : u.state.isFailed = false := by
        cases hstate : u.state <;> simp_all [OrderState.isTerminal, OrderState.isFailed]
      rw [if_pos hplaced, if_pos hplaced]
      simp only [hlive, hopen', Bool.false_eq_true, if_false] at hnow hbefore
      rw [hbefore, ← leg_qty hchange.leg]
      exact hnow
  · rw [if_neg hunwind, if_neg (not_isUnwindOf_congr hslot hunwind)]

theorem Quiet.covered (hq : Quiet w s e) (h : RollbackInvariant w)
    (ho : w.db.orders[i]? = some o) (hentry : isEntryOf s l o) :
    World.Covered { w with db := step w.db e } s l i ↔ w.Covered s l i := by
  have hlen : (step w.db e).orders.length = w.db.orders.length := step_length hq.inserts
  refine covered_congr (hq.entry ho hentry) hlen.ge (fun j u hu => hq.cover h hu) ?_
  intro j u hj hu
  have hlt := (List.getElem?_eq_some_iff.mp hu).1
  exact absurd (hlen ▸ hlt) (not_lt.mpr hj)

end Quiet

/-- The unwind under way is the leg's, for all the leg executed, and can still be placed. -/
def CurrentOf (w : World) (s l q : ℕ) : RollbackPc → Prop
  | .qualifying j _ | .placing j .start _ => ∃ u, w.db.orders[j]? = some u ∧ isUnwindOf s l u ∧
      u.qty = q ∧ u.submitClaimedAt = none ∧ u.ibOrderId = none
  | .placing j .claimed _ | .placing j .releasing _ =>
    ∃ u, w.db.orders[j]? = some u ∧ isUnwindOf s l u ∧ u.qty = q
  | .placing j (.sent _) _ =>
    w.atIb j ∧ ∃ u, w.db.orders[j]? = some u ∧ isUnwindOf s l u ∧ u.qty = q
  | .start | .unwinding _ _ => False

section Finish
variable {w w₁ w' : World} {s l i q : ℕ} {pc pc₁ : RollbackPc} {o : StructureOrder}

/-- The entry leg of which the rest of the rollback is watched. -/
structure Watched (w : World) (s l i q : ℕ) : Prop where
  invariant : RollbackInvariant w
  entry : ∃ o, w.db.orders[i]? = some o ∧ isEntryOf s l o
  recorded : w.db.recorded i = q

theorem Watched.move (h : Watched w s l i q) (hp : pc.PlansHeld w.db s)
    {a : Answer} (hstep : rollbackStep a w s pc = (w₁, some pc₁))
    (hmove : RollbackMove w s pc w₁ pc₁) : Watched w₁ s l i q ∧ pc₁.PlansHeld w₁.db s := by
  obtain ⟨hrows, hrec⟩ := hmove.keeps
  obtain ⟨hinv, hnext⟩ := rollbackStep_invariant h.invariant a hp
  rw [hstep] at hinv hnext
  obtain ⟨o, ho, hentry⟩ := h.entry
  obtain ⟨o', ho', hslot⟩ := hrows i o ho
  refine ⟨⟨hinv, ⟨o', ho', ?_⟩, (hrec i).trans h.recorded⟩, hnext⟩
  rw [isEntryOf_iff] at hentry ⊢
  exact hslot.trans hentry

theorem Watched.quiet (h : Watched w s l i q) (hp : pc.PlansHeld w.db s) {e : Event}
    (hq : Quiet w s e) : Watched { w with db := step w.db e } s l i q ∧
      pc.PlansHeld (step w.db e) s := by
  obtain ⟨o, ho, hentry⟩ := h.entry
  obtain ⟨o', ho', hchange⟩ := step_row e ho
  refine ⟨⟨hq.invariant h.invariant, ⟨o', ho', ?_⟩, (hq.entry ho hentry).trans h.recorded⟩,
    RollbackPc.PlansHeld.mono hp (step_keepsSlots w.db e)⟩
  rw [isEntryOf_iff] at hentry ⊢
  exact hchange.slot.trans hentry

/-- A leg the rest of the rollback is not about keeps its cover. -/
theorem Finishes.settled (hf : Finishes s w pc w') (h : Watched w s l i q)
    (hp : pc.PlansHeld w.db s) (hne : pc ≠ .start) (hrest : ∀ p ∈ pc.rest, p.1.legIdx ≠ l)
    (hcurrent : ∀ j ∈ pc.current, ∀ u ∈ w.db.orders[j]?, ¬ isUnwindOf s l u) :
    w'.Covered s l i ↔ w.Covered s l i := by
  induction hf with
  | done w startedAt => exact Iff.rfl
  | step a hq hpriced hstep _ ih =>
    have hmove := rollbackStep_move hq hpriced hne hstep
    obtain ⟨hcov, hrest₁, hcurrent₁⟩ := hmove.settled (i := i) hrest hcurrent
    obtain ⟨hwatched, hnext⟩ := h.move hp hstep hmove
    exact (ih hwatched hnext hmove.ne_start hrest₁ hcurrent₁).trans hcov
  | @book w w' pc e hquiet _ ih =>
    obtain ⟨o, ho, hentry⟩ := h.entry
    obtain ⟨hwatched, hnext⟩ := h.quiet hp hquiet
    have hcov := hquiet.covered h.invariant ho hentry
    refine (ih hwatched hnext hne hrest ?_).trans hcov
    intro j hj u hu
    have hlt := (List.getElem?_eq_some_iff.mp hu).1
    rw [step_length hquiet.inserts] at hlt
    obtain ⟨u', hu', hchange⟩ := step_row e (List.getElem?_eq_getElem hlt)
    obtain rfl := Option.some.inj (hu'.symm.trans hu)
    exact not_isUnwindOf_congr hchange.slot (hcurrent j hj _ (List.getElem?_eq_getElem hlt))

/-- A placement that IB refused raises. -/
theorem Finishes.not_releasing {j : ℕ} {rest : List (UnwindAction × Option StructureOrder)} :
    ¬ Finishes s w (.placing j .releasing rest) w' := by
  intro hf
  generalize hpc : RollbackPc.placing j .releasing rest = pc at hf
  induction hf with
  | done => cases hpc
  | step a hq hpriced hstep _ _ =>
    subst hpc
    simp [rollbackStep, placeStep] at hstep
  | book e hquiet _ ih => exact ih hpc

theorem Quiet.current {e : Event} (hq : Quiet w s e) (h : CurrentOf w s l q pc) :
    CurrentOf { w with db := step w.db e } s l q pc := by
  have keep {j : ℕ} (hrow : ∃ u, w.db.orders[j]? = some u ∧ isUnwindOf s l u ∧ u.qty = q) :
      ∃ u, (step w.db e).orders[j]? = some u ∧ isUnwindOf s l u ∧ u.qty = q := by
    obtain ⟨u, hu, hunwind, hqty⟩ := hrow
    obtain ⟨u', hu', hchange⟩ := step_row e hu
    refine ⟨u', hu', ?_, (leg_qty hchange.leg).trans hqty⟩
    rw [isUnwindOf_iff] at hunwind ⊢
    exact hchange.slot.trans hunwind
  have fresh {j : ℕ} (hrow : ∃ u, w.db.orders[j]? = some u ∧ isUnwindOf s l u ∧ u.qty = q ∧
      u.submitClaimedAt = none ∧ u.ibOrderId = none) :
      ∃ u, (step w.db e).orders[j]? = some u ∧ isUnwindOf s l u ∧ u.qty = q ∧
        u.submitClaimedAt = none ∧ u.ibOrderId = none := by
    obtain ⟨u, hu, hunwind, hqty, hclaim, hid⟩ := hrow
    obtain ⟨u', hu', hchange⟩ := step_row e hu
    refine ⟨u', hu', ?_, (leg_qty hchange.leg).trans hqty, hchange.submitClaimedAt.trans hclaim,
      (hq.ibOrderId hchange).trans hid⟩
    rw [isUnwindOf_iff] at hunwind ⊢
    exact hchange.slot.trans hunwind
  match pc with
  | .start | .unwinding _ _ => exact h.elim
  | .qualifying j rest => exact fresh h
  | .placing j .start rest => exact fresh h
  | .placing j .claimed rest => exact keep h
  | .placing j .releasing rest => exact keep h
  | .placing j (.sent ids) rest => exact ⟨h.1, keep h.2⟩

/-- A leg whose unwind is stamped, for all it executed, is covered. -/
theorem stamped_covers {j : ℕ} {ids : IbIds} {now : Instant} {u : StructureOrder}
    (h : Watched (w.stamp ids now (.order j)) s l i q) (hat : w.atIb j)
    (hu : w.db.orders[j]? = some u) (hunwind : isUnwindOf s l u) (hqty : u.qty = q) :
    (w.stamp ids now (.order j)).Covered s l i := by
  have hu₁ : (w.stamp ids now (.order j)).db.orders[j]? =
      some (u.stamped ids.orderId ids.permId now) := by
    simp only [World.stamp, stampPlacement, Db.updateOrder_getElem?_self, hu, Option.map_some]
  have hrole : u.orderRole = .unwind := congrArg (fun x => x.2.2) (isUnwindOf_iff.mp hunwind)
  have hclaims := h.invariant.unwind_claims hu₁ (h.invariant.unwinds j _ hu₁ hrole).1
  have hat₁ : (w.stamp ids now (.order j)).atIb j := hat
  have htotal : total (coverOf (w.stamp ids now (.order j)) s l) _ = _ :=
    h.invariant.unwind_total (s := s) (l := l) hu₁ hunwind
      fun k u => (w.stamp ids now (.order j)).db.recorded k +
        workingAtIb (w.stamp ids now (.order j)) k u
  rw [covered_iff, h.recorded, htotal, workingAtIb, if_pos hat₁, hclaims, ← hqty]
  rfl

/-- The unwind under way is placed, and covers its leg. -/
theorem Finishes.current (hf : Finishes s w pc w') (h : Watched w s l i q)
    (hp : pc.PlansHeld w.db s) (hrest : ∀ p ∈ pc.rest, p.1.legIdx ≠ l)
    (hcurrent : CurrentOf w s l q pc) : w'.Covered s l i := by
  induction hf with
  | done => exact hcurrent.elim
  | @step w w₁ w' pc pc₁ a hq hpriced hstep hfin ih =>
    have hne : pc ≠ .start := by
      rintro rfl
      exact hcurrent.elim
    have hmove := rollbackStep_move hq hpriced hne hstep
    obtain ⟨hwatched, hnext⟩ := h.move hp hstep hmove
    cases hmove with
    | skip | insert => exact hcurrent.elim
    | qualified => exact ih hwatched hnext hrest hcurrent
    | claim j rest now =>
      obtain ⟨u, hu, hunwind, hqty, _⟩ := hcurrent
      refine ih hwatched hnext hrest ⟨{ u with submitClaimedAt := some now }, ?_, hunwind, hqty⟩
      simp only [World.setClaim, Db.updateOrder_getElem?_self, hu, Option.map_some]
    | lost j rest htaken =>
      obtain ⟨u, hu, _, _, hclaim, hid⟩ := hcurrent
      simp [World.claimable, hu, hclaim, hid] at htaken
    | send j rest ids =>
      refine ih hwatched hnext hrest ⟨?_, hcurrent⟩
      simp [World.atIb, World.send, World.rowPlacement, IbPlacement.covers]
    | refused => exact absurd hfin Finishes.not_releasing
    | stamp j rest ids now =>
      obtain ⟨hat, u, hu, hunwind, hqty⟩ := hcurrent
      have hcov : (w.stamp ids now (.order j)).Covered s l i :=
        stamped_covers hwatched hat hu hunwind hqty
      exact (Finishes.settled hfin hwatched hnext RollbackPc.noConfusion hrest fun _ hj => absurd hj (Option.not_mem_none _)).mpr hcov
  | book e hquiet _ ih =>
    obtain ⟨hwatched, hnext⟩ := h.quiet hp hquiet
    exact ih hwatched hnext hrest (hquiet.current hcurrent)

/-- A leg that is still to be unwound has no unwind yet, and is covered in the end if all it
executed is to be unwound. -/
theorem Finishes.planned (hf : Finishes s w pc w') (h : Watched w s l i q)
    (hp : pc.PlansHeld w.db s) (hne : pc ≠ .start) (hplan : ∃ p ∈ pc.rest, p.1.legIdx = l)
    (hall : ∀ p ∈ pc.rest, p.1.legIdx = l → p.2.isSome) :
    Unwindless w.db s l ∧
      ((∀ p ∈ pc.rest, p.1.legIdx = l → p.1.qty = q) → w'.Covered s l i) := by
  have back {w w₁ : World} (hrows : ∀ (j : ℕ) (u : StructureOrder), w.db.orders[j]? = some u →
      ∃ u', w₁.db.orders[j]? = some u' ∧ u'.slot = u.slot) (hno : Unwindless w₁.db s l) :
      Unwindless w.db s l := by
    intro j u hu hunwind
    obtain ⟨u', hu', hslot⟩ := hrows j u hu
    rw [isUnwindOf_iff] at hunwind
    exact hno j u' hu' (isUnwindOf_iff.mpr (hslot.trans hunwind))
  induction hf with
  | done =>
    obtain ⟨p, hmem, _⟩ := hplan
    cases hmem
  | @step w w₁ w' pc pc₁ a hq hpriced hstep hfin ih =>
    have hmove := rollbackStep_move hq hpriced hne hstep
    obtain ⟨hwatched, hnext⟩ := h.move hp hstep hmove
    have later (hplan₁ : ∃ p ∈ pc₁.rest, p.1.legIdx = l) (hsub : ∀ p ∈ pc₁.rest, p ∈ pc.rest) :
        Unwindless w.db s l ∧
          ((∀ p ∈ pc.rest, p.1.legIdx = l → p.1.qty = q) → w'.Covered s l i) := by
      obtain ⟨hno, hcov⟩ := ih hwatched hnext hmove.ne_start hplan₁ fun p hp => hall p (hsub p hp)
      exact ⟨back hmove.keeps.1 hno, fun hqty => hcov fun p hp => hqty p (hsub p hp)⟩
    cases hmove with
    | skip startedAt u rest =>
      have hu : u.legIdx ≠ l := by
        intro hl
        have hsome := hall _ List.mem_cons_self hl
        cases hsome
      obtain ⟨p, hmem, hl⟩ := hplan
      rcases List.mem_cons.mp hmem with rfl | hmem
      · exact absurd hl hu
      · exact later ⟨p, hmem, hl⟩ fun p hp => List.mem_cons_of_mem _ hp
    | insert startedAt u entry rest limit now db hok =>
      obtain ⟨rfl, hfree⟩ := insertOrder_free hok
      by_cases hu : u.legIdx = l
      · -- the unwind of the leg itself; a second one in the plan could not be inserted
        have hnew : isUnwindOf s l (unwindOrder s entry u limit now) := by
          simp [isUnwindOf, unwindOrder, StructureOrder.new, hu]
        have hrow : (w.db.addOrder (unwindOrder s entry u limit now)).orders[w.db.orders.length]? =
            some (unwindOrder s entry u limit now) := by
          simp [Db.addOrder]
        refine ⟨?_, ?_⟩
        · intro j u' hu' hunwind
          exact hfree u' (List.mem_of_getElem? hu')
            ((isUnwindOf_iff.mp hunwind).trans (isUnwindOf_iff.mp hnew).symm)
        · intro hqty
          by_cases hmore : ∃ p ∈ rest, p.1.legIdx = l
          · have hno := (ih hwatched hnext RollbackPc.noConfusion hmore
              fun p hp => hall p (List.mem_cons_of_mem _ hp)).1
            exact absurd hnew (hno _ _ hrow)
          · push Not at hmore
            exact Finishes.current hfin hwatched hnext hmore
              ⟨_, hrow, hnew, hqty _ List.mem_cons_self hu, rfl, rfl⟩
      · obtain ⟨p, hmem, hl⟩ := hplan
        rcases List.mem_cons.mp hmem with rfl | hmem
        · exact absurd hl hu
        · exact later ⟨p, hmem, hl⟩ fun p hp => List.mem_cons_of_mem _ hp
    | qualified | claim | lost | send | refused | stamp => exact later hplan fun p hp => hp
  | @book w w' pc e hquiet _ ih =>
    obtain ⟨hwatched, hnext⟩ := h.quiet hp hquiet
    obtain ⟨hno, hcov⟩ := ih hwatched hnext hne hplan hall
    have hrows := step_keepsSlots w.db e
    refine ⟨?_, hcov⟩
    intro j u hu hunwind
    obtain ⟨u', hu', hslot, _⟩ := hrows j u hu
    rw [isUnwindOf_iff] at hunwind
    exact hno j u' hu' (isUnwindOf_iff.mpr (hslot.trans hunwind))

end Finish

/-- The entry legs of the structure are the same, with the same executed. -/
structure SameEntries (s : ℕ) (w w₁ : World) : Prop where
  legs : ∀ l i : ℕ, (∃ o ∈ w₁.db.orders[i]?, isEntryOf s l o) ↔
    ∃ o ∈ w.db.orders[i]?, isEntryOf s l o
  recorded : ∀ l i : ℕ, (∃ o ∈ w.db.orders[i]?, isEntryOf s l o) →
    w₁.db.recorded i = w.db.recorded i

section Entries
variable {w w₁ w' : World} {s : ℕ} {pc pc₁ : RollbackPc}

theorem SameEntries.trans {w₂ : World} (h : SameEntries s w w₁) (h' : SameEntries s w₁ w₂) :
    SameEntries s w w₂ := by
  refine ⟨fun l i => (h'.legs l i).trans (h.legs l i), ?_⟩
  intro l i hentry
  exact (h'.recorded l i ((h.legs l i).mpr hentry)).trans (h.recorded l i hentry)

/-- Rows keep their slots, and new ones are no entry legs. -/
theorem SameEntries.of_rows (hrows : ∀ (j : ℕ) (u : StructureOrder), w.db.orders[j]? = some u →
      ∃ u', w₁.db.orders[j]? = some u' ∧ u'.slot = u.slot)
    (hnew : ∀ (j : ℕ) (u : StructureOrder), w.db.orders.length ≤ j → w₁.db.orders[j]? = some u →
      u.orderRole ≠ .entry)
    (hrec : ∀ (l i : ℕ) (o : StructureOrder), w.db.orders[i]? = some o → isEntryOf s l o →
      w₁.db.recorded i = w.db.recorded i) : SameEntries s w w₁ := by
  refine ⟨?_, ?_⟩
  · intro l i
    constructor
    · rintro ⟨o', ho', hentry⟩
      by_cases hi : i < w.db.orders.length
      · have ho := List.getElem?_eq_getElem hi
        obtain ⟨o'', ho'', hslot⟩ := hrows i _ ho
        obtain rfl := Option.some.inj (ho''.symm.trans ho')
        exact ⟨_, ho, isEntryOf_iff.mpr (hslot.symm.trans (isEntryOf_iff.mp hentry))⟩
      · have hrole : o'.orderRole = .entry := congrArg (fun x => x.2.2) (isEntryOf_iff.mp hentry)
        exact absurd hrole (hnew i o' (by omega) ho')
    · rintro ⟨o, ho, hentry⟩
      obtain ⟨o', ho', hslot⟩ := hrows i o ho
      exact ⟨o', ho', isEntryOf_iff.mpr (hslot.trans (isEntryOf_iff.mp hentry))⟩
  · rintro l i ⟨o, ho, hentry⟩
    exact hrec l i o ho hentry

theorem RollbackMove.sameEntries (h : RollbackMove w s pc w₁ pc₁) : SameEntries s w w₁ := by
  obtain ⟨hrows, hrec⟩ := h.keeps
  refine .of_rows hrows ?_ fun l i o ho hentry => hrec i
  intro j u hj hu
  have hlt := (List.getElem?_eq_some_iff.mp hu).1
  cases h with
  | insert startedAt u' entry rest limit now db hok =>
    obtain ⟨rfl, _⟩ := insertOrder_free hok
    simp only [World.startRollback, Db.addOrder] at hu
    rw [List.getElem?_append_right hj] at hu
    rw [List.mem_singleton.mp (List.mem_of_getElem? hu)]
    simp [unwindOrder, StructureOrder.new]
  | skip | qualified | lost | send | refused => exact absurd hlt (not_lt.mpr hj)
  | claim | stamp =>
    simp only [World.setClaim, World.stamp, stampPlacement, Db.updateOrder, List.length_modify]
      at hlt
    exact absurd hlt (not_lt.mpr hj)

theorem Quiet.sameEntries {e : Event} (hq : Quiet w s e) :
    SameEntries s w { w with db := step w.db e } := by
  have hlen : (step w.db e).orders.length = w.db.orders.length := step_length hq.inserts
  refine .of_rows ?_ ?_ fun l i o ho hentry => hq.entry ho hentry
  · intro j u hu
    obtain ⟨u', hu', hslot, _⟩ := step_keepsSlots w.db e j u hu
    exact ⟨u', hu', hslot⟩
  · intro j u hj hu
    have hlt := (List.getElem?_eq_some_iff.mp hu).1
    exact absurd (hlen ▸ hlt) (not_lt.mpr hj)

theorem Finishes.sameEntries (hf : Finishes s w pc w') (hne : pc ≠ .start) :
    SameEntries s w w' := by
  induction hf with
  | done => exact ⟨fun _ _ => Iff.rfl, fun _ _ _ => rfl⟩
  | step a hq hpriced hstep _ ih =>
    have hmove := rollbackStep_move hq hpriced hne hstep
    exact hmove.sameEntries.trans (ih hmove.ne_start)
  | book e hquiet _ ih => exact hquiet.sameEntries.trans (ih hne)

end Entries

section Cover
variable {w w' : World} {s l i : ℕ} {o : StructureOrder}

theorem coveredQty_unwindless {db : Db} (hno : Unwindless db s l) :
    coveredQty (unwindRows db s) l = 0 := by
  rw [coveredQty_eq]
  exact selected_none hno

/-- The plan has every leg that is unwound and has no unwind yet. -/
theorem plan_has (ho : w.db.orders[i]? = some o) (hentry : isEntryOf s l o)
    (hstate : o.state ∈ [OrderState.partiallyFilled, .filled]) (hno : Unwindless w.db s l)
    (hpos : 0 < o.qtyFilled) : ∃ u ∈ (rollbackPlan w.db s).unwinds, u.legIdx = l := by
  have hslot := isEntryOf_iff.mp hentry
  simp only [StructureOrder.slot, Prod.mk.injEq] at hslot
  obtain ⟨hsid, hidx, hrole⟩ := hslot
  have hcovered : coveredQty (unwindRows w.db s) o.legIdx = 0 := by
    rw [hidx]
    exact coveredQty_unwindless hno
  have hunwind : unwindOf (unwindRows w.db s) o =
      some ⟨o.legIdx, o.side.opposite, o.qtyFilled⟩ := by
    simp only [unwindOf, hcovered, Nat.sub_zero]
    rw [if_pos ⟨hpos, hstate⟩, if_pos hpos]
  refine ⟨_, List.mem_filterMap.mpr ⟨o, ?_, hunwind⟩, hidx⟩
  exact List.mem_filter.mpr ⟨mem_rows.mpr ⟨i, ho, hsid⟩, decide_eq_true hrole⟩

/-- The plan has legs that are unwound only, with all that is filled where there is no unwind
yet. -/
theorem plan_all (h : RollbackInvariant w) (ho : w.db.orders[i]? = some o)
    (hentry : isEntryOf s l o) {u : UnwindAction} (hu : u ∈ (rollbackPlan w.db s).unwinds)
    (hl : u.legIdx = l) : o.state ∈ [OrderState.partiallyFilled, .filled] ∧
      (Unwindless w.db s l → u.qty = o.qtyFilled) := by
  obtain ⟨o', ho', hunwind⟩ := List.mem_filterMap.mp hu
  obtain ⟨hrow, hrole⟩ := List.mem_filter.mp ho'
  obtain ⟨j, hj, hsid⟩ := mem_rows.mp hrow
  have hidx : o'.legIdx = l := (unwindOf_legIdx hunwind).symm.trans hl
  have hentry' : isEntryOf s l o' := by
    simp only [isEntryOf, hsid, of_decide_eq_true hrole, hidx, and_self, decide_true]
  obtain rfl := h.entry_unique ho hentry hj hentry'
  obtain rfl := Option.some.inj (ho.symm.trans hj)
  have hsome : unwindOf (unwindRows w.db s) o = some u := hunwind
  have hstate : o.state ∈ [OrderState.partiallyFilled, .filled] := by
    unfold unwindOf at hunwind
    split_ifs at hunwind with hfilled
    exact hfilled.2
  refine ⟨hstate, ?_⟩
  intro hno
  have hqty := unwindOf_qty (unwindRows w.db s) o
  rw [hsome, if_pos hstate, hidx, coveredQty_unwindless hno] at hqty
  exact hqty

/-- A planned leg has its entry row. -/
theorem plan_entry {db : Db} {u : UnwindAction} (hu : u ∈ (rollbackPlan db s).unwinds) :
    (entryOfLeg db s u.legIdx).isSome := by
  obtain ⟨o, ho, hunwind⟩ := List.mem_filterMap.mp hu
  obtain ⟨hrow, hrole⟩ := List.mem_filter.mp ho
  obtain ⟨p, hp, rfl⟩ := List.mem_map.mp hrow
  have hidx := unwindOf_legIdx hunwind
  rw [entryOfLeg, List.getLast?_isSome]
  apply List.ne_nil_of_mem (a := p.1)
  apply List.mem_map_of_mem
  exact List.mem_filter.mpr ⟨hp, decide_eq_true ⟨of_decide_eq_true hrole, hidx.symm⟩⟩

theorem rollbackStep_start {a : Answer} {w₁ : World} {pc : RollbackPc}
    (hstep : rollbackStep a w s .start = (w₁, some pc)) :
    pc = .unwinding (some a.now)
      ((rollbackPlan w.db s).unwinds.map fun u => (u, entryOfLeg w.db s u.legIdx)) := by
  simp only [rollbackStep] at hstep
  split_ifs at hstep
  · cases hstep
  · cases hstep
  · exact (Option.some.inj (congrArg Prod.snd hstep)).symm

theorem RollsBackTo.sameEntries (hto : RollsBackTo s w w') : SameEntries s w w' := by
  cases hto with
  | noop => exact ⟨fun _ _ => Iff.rfl, fun _ _ _ => rfl⟩
  | plans a hstep hrest =>
    obtain rfl := rollbackStep_start hstep
    exact hrest.sameEntries RollbackPc.noConfusion

/-- An entry leg is covered in the end exactly when the rollback unwinds it afresh or it was
covered before. -/
theorem RollsBackTo.covered_iff (hto : RollsBackTo s w w') (h : RollbackInvariant w)
    (ho : w.db.orders[i]? = some o) (hentry : isEntryOf s l o) (hpos : 0 < w.db.recorded i) :
    w'.Covered s l i ↔
      (o.state ∈ [OrderState.partiallyFilled, .filled] ∧ Unwindless w.db s l) ∨
        w.Covered s l i := by
  have hfilled : o.qtyFilled = w.db.recorded i := (h.consistent.rows i o ho).qtyFilled
  rw [← hfilled] at hpos
  cases hto with
  | noop a hc hs hplan =>
    constructor
    · exact .inr
    · rintro (⟨hstate, hno⟩ | hcov)
      · obtain ⟨u, hu, _⟩ := plan_has ho hentry hstate hno hpos
        rw [(of_decide_eq_true hplan).2] at hu
        cases hu
      · exact hcov
  | plans a hstep hrest =>
    have hplans : RollbackPc.start.PlansHeld w.db s := trivial
    have hheld := (rollbackStep_invariant h a hplans).2
    rw [hstep] at hheld
    obtain rfl := rollbackStep_start hstep
    have hwatched : Watched w s l i o.qtyFilled := ⟨h, ⟨o, ho, hentry⟩, hfilled.symm⟩
    by_cases hplan : ∃ u ∈ (rollbackPlan w.db s).unwinds, u.legIdx = l
    · obtain ⟨u, hu, hl⟩ := hplan
      obtain ⟨hno, hcov⟩ := hrest.planned hwatched hheld RollbackPc.noConfusion
        ⟨_, List.mem_map_of_mem hu, hl⟩ (by
          intro p hp _
          obtain ⟨u', hu', rfl⟩ := List.mem_map.mp hp
          exact plan_entry hu')
      refine iff_of_true (hcov ?_) (.inl ⟨(plan_all h ho hentry hu hl).1, hno⟩)
      intro p hp hl'
      obtain ⟨u', hu', rfl⟩ := List.mem_map.mp hp
      exact (plan_all h ho hentry hu' hl').2 hno
    · push Not at hplan
      rw [hrest.settled hwatched hheld RollbackPc.noConfusion ?_ nofun]
      · constructor
        · exact .inr
        · rintro (⟨hstate, hno⟩ | hcov)
          · obtain ⟨u, hu, hl⟩ := plan_has ho hentry hstate hno hpos
            exact absurd hl (hplan u hu)
          · exact hcov
      · intro p hp
        obtain ⟨u, hu, rfl⟩ := List.mem_map.mp hp
        exact hplan u hu

/-- In every run, from any state of the book, a rollback that completes leaves every entry leg with
something executed covered exactly when each of them is one it unwinds afresh or was covered
before. -/
theorem rollback_covers_iff {cfg : SubmitConfig}
    (hrun : Run (worldStep cfg) RollsBack World.empty w) (hto : RollsBackTo s w w') :
    w'.NoNakedLeg s ↔ w.Coverable s := by
  have h := hrun.invariant (fun _ _ hinv hg => worldStep_rollbackInvariant cfg hinv hg)
    rollbackInvariant_empty
  have hsame := hto.sameEntries
  constructor
  · intro hcov l i o ho hentry hpos
    obtain ⟨o', ho', hentry'⟩ := (hsame.legs l i).mpr ⟨o, ho, hentry⟩
    have hrec := hsame.recorded l i ⟨o, ho, hentry⟩
    exact (hto.covered_iff h ho hentry hpos).mp (hcov l i o' ho' hentry' (hrec ▸ hpos))
  · intro hcov l i o' ho' hentry' hpos
    obtain ⟨o, ho, hentry⟩ := (hsame.legs l i).mp ⟨o', ho', hentry'⟩
    have hrec := hsame.recorded l i ⟨o, ho, hentry⟩
    rw [hrec] at hpos
    exact (hto.covered_iff h ho hentry hpos).mpr (hcov l i o ho hentry hpos)

end Cover

/-- A leg of ten executes four; the rollback that follows unwinds it, unless the leg was
cancelled. -/
instance (pc : RollbackPc) : Decidable pc.Priced :=
  match pc with
  | .unwinding _ ((_, some entry) :: _) =>
    inferInstanceAs (Decidable (0 < (orPrice entry.previewPrice entry.limitPrice).getD 0))
  | .start | .unwinding _ [] | .unwinding _ ((_, none) :: _) | .qualifying .. | .placing .. =>
    .isTrue trivial

/-- The steps of a rollback that IB answers alike, up to its end. -/
def rollsOut (a : Answer) (s : ℕ) : ℕ → World → RollbackPc → Option World
  | _, w, .unwinding startedAt [] => some (w.startRollback s startedAt)
  | 0, _, _ => none
  | n + 1, w, pc =>
    match rollbackStep a w s pc with
    | (_, none) => none
    | (w₁, some pc₁) => if pc.Priced then rollsOut a s n w₁ pc₁ else none

theorem Finishes.of_rollsOut {a : Answer} (hq : ∀ i, (a.qualify i).found) {s n : ℕ}
    {w w' : World} {pc : RollbackPc} (h : rollsOut a s n w pc = some w') : Finishes s w pc w' := by
  fun_induction rollsOut a s n w pc with
  | case1 => exact Option.some.inj h ▸ .done _ _
  | case2 | case3 => cases h
  | case4 n w pc _ w₁ pc₁ hstep hpriced ih => exact .step a hq hpriced hstep (ih h)
  | case5 => cases h

theorem RollsBackTo.of_rollsOut {a : Answer} (hq : ∀ i, (a.qualify i).found) {s n : ℕ}
    {w w' : World} (h : rollsOut a s n w .start = some w') : RollsBackTo s w w' := by
  cases n with
  | zero => simp [rollsOut] at h
  | succ n =>
    rcases hstep : rollbackStep a w s .start with ⟨w₁, _ | pc⟩
    · simp [rollsOut, hstep] at h
    · have hw : w₁ = w := by
        simp only [rollbackStep] at hstep
        split_ifs at hstep <;> cases hstep
        rfl
      subst hw
      simp only [rollsOut, hstep, RollbackPc.Priced] at h
      exact .plans a hstep (.of_rollsOut hq h)

def partlyBought : List WorldEvent :=
  [.book (.submitPreview [callLeg .buy 10] 0), .book (.stampLive 0 (some 11) none none 1),
    .book (.execution 0 (execution "1" "BOT" 4 (some 0)) 2)]

theorem rollback_covers_iff_partlyBought : ∃ w', RollsBackTo 0
      (partlyBought.foldl (worldStep ⟨["EUR"], 1 / 2⟩) .empty) w' ∧
    (w'.NoNakedLeg 0 ↔ (partlyBought.foldl (worldStep ⟨["EUR"], 1 / 2⟩) .empty).Coverable 0) := by
  have hends : (rollsOut (answer 3 (some ⟨some 12, none⟩)) 0 7
      (partlyBought.foldl (worldStep ⟨["EUR"], 1 / 2⟩) .empty) .start).isSome := by
    decide +kernel
  have hto := RollsBackTo.of_rollsOut (fun _ => rfl) (Option.some_get hends).symm
  exact ⟨_, hto, rollback_covers_iff (Run.of_foldl partlyBought (by decide +kernel)) hto⟩

/-- Cancelled with four executed, the leg is not one that a rollback unwinds. -/
def partlyCancelled : List WorldEvent :=
  partlyBought ++ [.book (.orderStatus 0 .cancelled none 3)]

theorem cancelled_entry_uncovered : ¬ ∀ (cfg : SubmitConfig) (w w' : World) (s : ℕ),
    Run (worldStep cfg) RollsBack World.empty w → RollsBackTo s w w' → w'.NoNakedLeg s := by
  intro h
  have hto : RollsBackTo 0 (partlyCancelled.foldl (worldStep ⟨["EUR"], 1 / 2⟩) .empty) _ :=
    .noop (answer 3 none) rfl (by decide +kernel) (by decide +kernel)
  have hcov := h _ _ _ 0 (Run.of_foldl partlyCancelled (by decide +kernel)) hto 0 0
  have hnaked : ¬ World.Covered ((partlyCancelled.foldl (worldStep ⟨["EUR"], 1 / 2⟩)
      .empty).startRollback 0 (some 3)) 0 0 0 := by
    unfold World.Covered
    decide +kernel
  exact hnaked (hcov _ (Option.some_get (by decide +kernel)).symm (by decide +kernel)
    (by decide +kernel))

end FxVol
