import FxVol.CompletionOnce
import FxVol.OrderSlots

/-!
# Structures follow their orders

Once all its orders are terminal a structure is `fully_filled`, `fully_failed` or `partial_fail`,
as `plan_structure_terminal_state` says of their states.  The cascade of the last fill, the
reaper and the trade cancel write that state; an order status, a combo status or the refusal of a
dispatch that ends the last order does not.
-/
namespace FxVol

open GuardedRuns KeyedPasses

def statesOf (db : Db) (s : ℕ) : List OrderState := (db.ordersOf s).map (·.1.state)

def plannedState (db : Db) (s : ℕ) : Option StructureState :=
  planStructureTerminalState (statesOf db s)

/-- `submit_structure_live` where the placement of an order fails. -/
def failSubmission (db : Db) (s : ℕ) (now : Instant) : Db :=
  match db.structures[s]? with
  | none => db
  | some r => db.setStructure s { r with state := .partialFail, stateUpdatedAt := now }

inductive OutcomeEvent
  | cascade (e : CascadeEvent)
  | submissionFailed (structureId : ℕ) (now : Instant)

def outcomeStep (w : CascadeWorld) : OutcomeEvent → CascadeWorld
  | .cascade e => cascadeWorldStep w e
  | .submissionFailed s now => { w with db := failSubmission w.db s now }

/-- A structure whose orders are all terminal, and that no cascade is under way for, is in the
state they plan. -/
def FollowsOrders (w : CascadeWorld) : Prop :=
  ∀ (s : ℕ) (r : TradeStructure) (new : StructureState), w.db.structures[s]? = some r →
    plannedState w.db s = some new → (∀ pc, (s, pc) ∉ w.tasks) → r.state = new

def structureState (db : Db) (s : ℕ) : Option StructureState := (db.structures[s]?).map (·.state)

/-- The transaction ends no structure that has a failed order, unless the structure is already in
the state that is planned. -/
def EndsNoFailure (db db' : Db) : Prop :=
  ∀ o ∈ db'.orders, plannedState db' o.structureId ∈
    [none, some .fullyFilled, plannedState db o.structureId, structureState db o.structureId]

def EndsPropagated (db : Db) : Event → Prop
  | .reap .. => True
  | .cancelTrade tradeId ids _ => ∀ i ∈ ids, ∀ o ∈ db.orders[i]?, o.structureId = tradeId
  | .createUnwind s _ _ _ => ∃ o ∈ db.orders, o.structureId = s ∧ o.orderRole = .entry
  | .closeAnswer i outcome now => outcome.state = .rejected → ∀ o ∈ db.orders[i]?,
      plannedState (closeAnswer db i outcome now) o.structureId ∈ [none, some .partialFail]
  | e => Trades db e ∧ EndsNoFailure db (step db e)

/-- The next step of the cascade writes `fully_filled`. -/
def CascadePc.commits : CascadePc → Bool
  | .booking .. | .completing .. => true
  | _ => false

def OutcomePropagated (w : CascadeWorld) : OutcomeEvent → Prop
  | .cascade (.book e) => EndsPropagated w.db e
  | .cascade (.raiseAlert ..) => True
  | .cascade (.run k _ _) => ∀ task ∈ w.tasks[k]?, task.2.commits →
      plannedState w.db task.1 ∈ [none, some .fullyFilled]
  | .cascade .crash => ∀ task ∈ w.tasks,
      plannedState w.db task.1 ∈ [none, structureState w.db task.1]
  | .submissionFailed s _ => plannedState w.db s ∈ [none, some .partialFail]

theorem planStructureTerminalState_congr {l l' : List OrderState} (h : ∀ x, x ∈ l ↔ x ∈ l') :
    planStructureTerminalState l = planStructureTerminalState l' := by
  have hall (p : OrderState → Bool) : l.all p = l'.all p := by
    rw [Bool.eq_iff_iff, List.all_eq_true, List.all_eq_true]
    exact forall_congr' fun x => by rw [h x]
  have hnil : l = [] ↔ l' = [] := by
    rw [List.eq_nil_iff_forall_not_mem, List.eq_nil_iff_forall_not_mem]
    exact forall_congr' fun x => by rw [h x]
  simp only [planStructureTerminalState, hall, hnil]

section Plans
variable {db db' : Db} {s : ℕ} {new : StructureState} {e : Event}

theorem mem_statesOf {x : OrderState} :
    x ∈ statesOf db s ↔ ∃ o ∈ db.orders, o.structureId = s ∧ o.state = x := by
  have hrows : statesOf db s = ((db.ordersOf s).map (·.1)).map (·.state) := by
    rw [statesOf, List.map_map]
    rfl
  rw [hrows, Db.ordersOf_rows]
  simp [and_assoc]

theorem planned_some (h : plannedState db s = some new) :
    (∃ o ∈ db.orders, o.structureId = s) ∧
      ∀ o ∈ db.orders, o.structureId = s → o.state.isTerminal := by
  unfold plannedState planStructureTerminalState at h
  split_ifs at h with hnot
  all_goals
    rw [not_or, not_not] at hnot
    obtain ⟨hne, hall⟩ := hnot
    refine ⟨?_, fun o ho hsid => List.all_eq_true.mp hall _ (mem_statesOf.mpr ⟨o, ho, hsid, rfl⟩)⟩
    obtain ⟨x, hx⟩ := List.exists_mem_of_ne_nil _ hne
    obtain ⟨o, ho, hsid, _⟩ := mem_statesOf.mp hx
    exact ⟨o, ho, hsid⟩

theorem planned_filled : plannedState db s = some .fullyFilled ↔
    (∃ o ∈ db.orders, o.structureId = s) ∧
      ∀ o ∈ db.orders, o.structureId = s → o.state = .filled := by
  constructor
  · intro h
    refine ⟨(planned_some h).1, ?_⟩
    unfold plannedState planStructureTerminalState at h
    split_ifs at h with hnot hfilled
    · intro o ho hsid
      have hone := List.all_eq_true.mp hfilled _ (mem_statesOf.mpr ⟨o, ho, hsid, rfl⟩)
      exact of_decide_eq_true hone
    · cases h
    · cases h
  · rintro ⟨⟨o, ho, hsid⟩, hall⟩
    have hmem : o.state ∈ statesOf db s := mem_statesOf.mpr ⟨o, ho, hsid, rfl⟩
    have hfilled : ∀ x ∈ statesOf db s, x = .filled := by
      intro x hx
      obtain ⟨o, ho, hsid, rfl⟩ := mem_statesOf.mp hx
      exact hall o ho hsid
    rw [plannedState, planStructureTerminalState, if_neg, if_pos]
    · exact List.all_eq_true.mpr fun x hx => decide_eq_true (hfilled x hx)
    · rw [not_or, not_not]
      refine ⟨List.ne_nil_of_mem hmem, List.all_eq_true.mpr fun x hx => ?_⟩
      rw [hfilled x hx]
      rfl

theorem plannedState_congr (h : db'.orders = db.orders) (s : ℕ) :
    plannedState db' s = plannedState db s := by
  rw [plannedState, statesOf, Db.ordersOf, h]
  rfl

/-- Orders of a structure that a transaction leaves terminal as they were plan what they did. -/
theorem planned_kept (hrows : ∀ (i : ℕ) (o o' : StructureOrder), db.orders[i]? = some o →
      (step db e).orders[i]? = some o' → o.structureId = s → o'.state.isTerminal →
        o'.state = o.state)
    (h : plannedState (step db e) s = some new) : plannedState db s = some new := by
  rw [← h]
  obtain ⟨_, hterminal⟩ := planned_some h
  apply planStructureTerminalState_congr
  intro x
  rw [mem_statesOf, mem_statesOf]
  constructor
  · rintro ⟨o, ho, hsid, rfl⟩
    obtain ⟨i, hi⟩ := List.mem_iff_getElem?.mp ho
    obtain ⟨o', ho', hchange⟩ := step_row e hi
    have hmem := List.mem_of_getElem? ho'
    have hsid' : o'.structureId = s := (leg_structureId hchange.leg).trans hsid
    exact ⟨o', hmem, hsid', hrows i o o' hi ho' hsid (hterminal o' hmem hsid')⟩
  · rintro ⟨o', ho', hsid', rfl⟩
    obtain ⟨i, hi⟩ := List.mem_iff_getElem?.mp ho'
    have hterm := hterminal o' ho' hsid'
    rcases step_row_cases hi with ⟨o, ho, hchange⟩ | ⟨-, hfresh⟩
    · have hsid := (leg_structureId hchange.leg).symm.trans hsid'
      exact ⟨o, List.mem_of_getElem? ho, hsid, (hrows i _ _ ho hi hsid hterm).symm⟩
    · rw [hfresh.pending] at hterm
      cases hterm

end Plans

/-- The structure is in the state its orders plan. -/
def AsPlanned (db : Db) (s : ℕ) : Prop :=
  ∀ (r : TradeStructure) (new : StructureState), db.structures[s]? = some r →
    plannedState db s = some new → r.state = new

/-- The structure is in the state its orders plan, or both are as before. -/
def Settles (db db' : Db) (s : ℕ) : Prop :=
  AsPlanned db' s ∨ db'.structures[s]? = db.structures[s]? ∧
    ∀ new, plannedState db' s = some new → plannedState db s = some new

section Terminalise
variable (db : Db) (now : Instant) (s : ℕ)

theorem terminaliseStructure_asPlanned : AsPlanned (terminaliseStructure now db s) s := by
  intro r new hr hplan
  rw [plannedState_congr (terminaliseStructure_orders now db s)] at hplan
  have hplan' : planStructureTerminalState ((db.ordersOf s).map (·.1.state)) = some new := hplan
  unfold terminaliseStructure at hr
  rw [hplan'] at hr
  cases hrow : db.structures[s]? with
  | none =>
    simp only [hrow] at hr
    cases hr
  | some r₀ =>
    simp only [hrow] at hr
    have hlt := (List.getElem?_eq_some_iff.mp hrow).1
    split_ifs at hr with hsame
    · rw [hrow, Option.some.injEq] at hr
      rw [← hr, hsame]
    · simp only [Db.setStructure, List.getElem?_set_self hlt, Option.some.injEq] at hr
      rw [← hr]

theorem terminaliseStructure_ne {s' : ℕ} (hne : s' ≠ s) :
    (terminaliseStructure now db s).structures[s']? = db.structures[s']? := by
  unfold terminaliseStructure
  split
  · split_ifs
    · rfl
    · exact List.getElem?_set_ne hne.symm
  · rfl

variable {db now s}

theorem terminalised_asPlanned {sids : List ℕ} (hs : s ∈ sids) :
    AsPlanned (sids.foldl (terminaliseStructure now) db) s := by
  apply (passes_foldl (terminaliseStructure now) sids db).established (Q := (AsPlanned · s)) hs
  · rintro db _ rfl
    exact terminaliseStructure_asPlanned db now s
  · rintro k db _ hdb rfl
    by_cases heq : s = k
    · subst heq
      exact terminaliseStructure_asPlanned db now s
    · intro r new hr hplan
      rw [terminaliseStructure_ne db now k heq] at hr
      rw [plannedState_congr (terminaliseStructure_orders now db k)] at hplan
      exact hdb r new hr hplan

theorem terminalised_notMem {sids : List ℕ} (hs : s ∉ sids) :
    (sids.foldl (terminaliseStructure now) db).structures[s]? = db.structures[s]? := by
  have hlocal : Local (fun (db : Db) s => db.structures[s]?)
      fun db k db' => db' = terminaliseStructure now db k := by
    rintro db k _ rfl j hj
    exact terminaliseStructure_ne db now k hj
  exact (passes_foldl (terminaliseStructure now) sids db).view_notMem hlocal hs

variable (db now) in
/-- An order that the reaper ends is one of a structure it then settles. -/
theorem reap_ends (trades : List IbTrade) (tau : ℤ) : ∃ (db₂ : Db) (sids : List ℕ),
    reapStaleOrders db trades tau now = sids.foldl (terminaliseStructure now) db₂ ∧
      db₂.tradeTables = db.tradeTables ∧
      ∀ (i : ℕ) (o o' : StructureOrder), db.orders[i]? = some o → db₂.orders[i]? = some o' →
        o.structureId ∉ sids → o'.state.isTerminal → o'.state = o.state := by
  refine ⟨_, _, rfl, reapOrders_tradeTables db trades tau now, ?_⟩
  intro i o o' ho ho' hsid hterminal
  obtain ⟨o₁, ho₁, h₁⟩ := adoptOrphans_row trades now _ List.nodup_range ho
  obtain ⟨o₂, ho₂, h₂⟩ := reapOrders_row (liveIbOrderKeys trades) tau now _ []
    (Db.orderIds_nodup _ _) ho₁
  obtain rfl : o₂ = o' := Option.some.inj (ho₂.symm.trans ho')
  have hsame : o₁.structureId = o.structureId := by
    rcases h₁ with rfl | ⟨t, _, rfl⟩ <;> rfl
  rcases h₂ with rfl | ⟨hstale, _, rfl⟩
  · rcases h₁ with rfl | ⟨t, _, rfl⟩
    · rfl
    · simp only [StructureOrder.adopted] at hterminal ⊢
      split_ifs at hterminal ⊢
      · cases hterminal
      · rfl
  · refine absurd ?_ hsid
    rw [List.mem_dedup, List.mem_filterMap]
    refine ⟨i, List.mem_filter.mpr ⟨hstale, ?_⟩, ?_⟩
    · rw [ho']
      rfl
    · rw [ho', Option.map_some, ← hsame]
      rfl

theorem reap_settles (trades : List IbTrade) (tau : ℤ) :
    Settles db (step db (.reap trades tau now)) s := by
  obtain ⟨db₂, sids, hreap, htables, hrows⟩ := reap_ends db now trades tau
  have horders : (step db (.reap trades tau now)).orders = db₂.orders := by
    rw [step, hreap, terminaliseStructures_orders]
  by_cases hs : s ∈ sids
  · left
    rw [step, hreap]
    exact terminalised_asPlanned hs
  · right
    constructor
    · rw [step, hreap, terminalised_notMem hs,
        show db₂.structures = db.structures from congrArg Prod.fst htables]
    · intro new
      apply planned_kept
      intro i o o' ho ho' hsid hterminal
      rw [horders] at ho'
      exact hrows i o o' ho ho' (hsid ▸ hs) hterminal

theorem cancelTrade_settles {tradeId : ℕ} {ids : List ℕ}
    (hids : ∀ i ∈ ids, ∀ o ∈ db.orders[i]?, o.structureId = tradeId) :
    Settles db (step db (.cancelTrade tradeId ids now)) s := by
  by_cases hs : s = tradeId
  · subst hs
    exact .inl (terminaliseStructure_asPlanned _ now s)
  · right
    constructor
    · have hframe := foldl_frame Db.structures (cancelOrder now) (fun _ _ => rfl) ids db
      rw [step, cancelTrade, terminaliseStructure_ne _ now _ hs, hframe]
    · intro new
      apply planned_kept
      intro i o o' ho ho' hsid _
      have hchange := step_change ho ho'
      generalize (step db (.cancelTrade tradeId ids now)).fillsOf i = fills at hchange
      cases hchange with
      | same => rfl
      | cancelled tradeId now hmem => exact absurd (hsid.symm.trans (hids i hmem o ho)) hs

end Terminalise

section Transactions
variable {db : Db} {s : ℕ} {r : TradeStructure} {new : StructureState} {e : Event}

/-- A refused dispatch fails the structure of its order. -/
theorem closeAnswer_structure {i : ℕ} {o : StructureOrder} (ho : db.orders[i]? = some o)
    (outcome : DispatchOutcome) (now : Instant) (s : ℕ) :
    (closeAnswer db i outcome now).structures[s]? =
      if outcome.state = .rejected ∧ s = o.structureId then
        (db.structures[s]?).map fun r => { r with state := .partialFail }
      else db.structures[s]? := by
  have refused : (match db.structures[o.structureId]? with
      | some r => (db.setOrder i (o.answered now outcome)).setStructure o.structureId
          { r with state := .partialFail }
      | none => db.setOrder i (o.answered now outcome)).structures[s]? =
        if s = o.structureId then
          (db.structures[s]?).map fun r => { r with state := .partialFail }
        else db.structures[s]? := by
    split_ifs with hs
    · subst hs
      cases hrow : db.structures[o.structureId]? with
      | none => simp [hrow]
      | some r => simp [Db.setStructure, (List.getElem?_eq_some_iff.mp hrow).1]
    · cases hrow : db.structures[o.structureId]? with
      | none => rfl
      | some r => exact List.getElem?_set_ne (Ne.symm hs)
  cases outcome with
  | unknown | accepted => simp [closeAnswer, ho, DispatchOutcome.state]
  | notSent | refused =>
    simp only [DispatchOutcome.state, true_and]
    rw [← refused]
    cases hrow : db.structures[o.structureId]? <;> simp only [closeAnswer, ho, hrow]

theorem closeAnswer_settles {i : ℕ} {outcome : DispatchOutcome} {now : Instant}
    (hends : EndsPropagated db (.closeAnswer i outcome now)) :
    Settles db (step db (.closeAnswer i outcome now)) s := by
  cases ho : db.orders[i]? with
  | none =>
    have hsame : step db (.closeAnswer i outcome now) = db := by rw [step, closeAnswer, ho]
    rw [hsame]
    exact .inr ⟨rfl, fun _ => id⟩
  | some o =>
    have hrow := closeAnswer_structure ho outcome now s
    split_ifs at hrow with hfail
    · obtain ⟨hrejected, rfl⟩ := hfail
      left
      intro r new hr hplan
      have hplans := hends hrejected o ho
      rw [step] at hr hplan
      rw [hplan] at hplans
      rw [hrow] at hr
      obtain ⟨r₀, _, rfl⟩ := Option.map_eq_some_iff.mp hr
      obtain rfl : new = .partialFail := by simpa using hplans
      rfl
    · refine .inr ⟨hrow, fun new => planned_kept ?_⟩
      intro j o₁ o' ho₁ ho' hsid hterminal
      have hchange := step_change ho₁ ho'
      generalize (step db (.closeAnswer i outcome now)).fillsOf j = fills at hchange
      cases hchange with
      | same => rfl
      | answered =>
        obtain rfl : o = o₁ := Option.some.inj (ho.symm.trans ho₁)
        rw [answered_state] at hterminal
        cases outcome with
        | unknown | accepted => cases hterminal
        | notSent | refused => exact absurd ⟨rfl, hsid.symm⟩ hfail

theorem createUnwind_settles (sid idx : ℕ) (leg : LegSpec) (now : Instant) :
    Settles db (step db (.createUnwind sid idx leg now)) s := by
  refine .inr ⟨?_, fun new => planned_kept ?_⟩
  · simp only [step, Db.insertOrder]
    split_ifs <;> rfl
  · intro i o o' ho ho' _ _
    have hchange := step_change ho ho'
    generalize (step db (.createUnwind sid idx leg now)).fillsOf i = fills at hchange
    cases hchange
    rfl

/-- The structures that were there stay as they are. -/
theorem step_oldStructure (he : Trades db e) (hs : s < db.structures.length) :
    (step db e).structures[s]? = db.structures[s]? := by
  rcases step_trades he with h | ⟨r, _, h⟩ | ⟨positionId, pos, legs, alert, now, _, _, h⟩
  · rw [show (step db e).structures = db.structures from congrArg Prod.fst h]
  · rw [show (step db e).structures = db.structures ++ [r] from congrArg Prod.fst h]
    exact List.getElem?_append_left hs
  · rw [h, persistPositionClose_structures]
    exact List.getElem?_append_left hs

/-- Where a transaction ends a structure, the state is the planned one, or both are as before, or
the cascade is called. -/
theorem trades_settles (he : Trades db e) (hends : EndsNoFailure db (step db e))
    (hk : ∀ o ∈ db.orders, o.structureId < db.structures.length)
    (hr : (step db e).structures[s]? = some r) (hplan : plannedState (step db e) s = some new) :
    r.state = new ∨ (db.structures[s]? = some r ∧ plannedState db s = some new) ∨
      (new = .fullyFilled ∧ s ∈ cascadesOf db e) := by
  have known (hs : plannedState db s = some new) :
      db.structures[s]? = some r ∧ plannedState db s = some new := by
    obtain ⟨⟨o, ho, hsid⟩, _⟩ := planned_some hs
    rw [← step_oldStructure he (hsid ▸ hk o ho)]
    exact ⟨hr, hs⟩
  obtain ⟨⟨o', ho', hsid⟩, _⟩ := planned_some hplan
  have hone := hends o' ho'
  rw [hsid, hplan] at hone
  simp only [List.mem_cons, List.not_mem_nil, or_false, reduceCtorEq, false_or,
    Option.some.injEq] at hone
  rcases hone with rfl | hplan' | hstate
  · obtain ⟨_, hall⟩ := planned_filled.mp hplan
    have hlt : s < db.structures.length := hsid ▸ filled_known hk ho' (hall o' ho' hsid)
    obtain ⟨i, o, ho, _, hsid', _⟩ := step_oldRow he ho' (hsid ▸ hlt)
    rcases filled_or_called he (p := fun _ => True) (fun o ho hsid _ => hall o ho hsid) with
      hold | hcalled
    · refine .inr (.inl (known (planned_filled.mpr ⟨?_, fun o ho hsid => hold o ho hsid trivial⟩)))
      exact ⟨o, List.mem_of_getElem? ho, hsid'.symm.trans hsid⟩
    · exact .inr (.inr ⟨rfl, hcalled⟩)
  · exact .inr (.inl (known hplan'.symm))
  · obtain ⟨r₀, hr₀, hstate⟩ := Option.map_eq_some_iff.mp hstate.symm
    have hlt := (List.getElem?_eq_some_iff.mp hr₀).1
    rw [step_oldStructure he hlt, hr₀, Option.some.injEq] at hr
    exact .inl (hr ▸ hstate)

end Transactions

/-- The cascade writes `fully_filled` once every order of the structure is filled. -/
def CascadePc.WillFill (db : Db) (s : ℕ) : CascadePc → Prop
  | .called | .checked | .counting .. | .completing .. => True
  | .booking _ _ existing => existing ∨ ¬ db.isBooked s
  | .finalising | .closing .. => False

/-- Orders are of known structures, which have entry orders or closing orders only. -/
structure RolesKnown (db : Db) : Prop where
  known : ∀ o ∈ db.orders, o.structureId < db.structures.length
  roles : ∀ o ∈ db.orders, ClosingOnly db o.structureId ∨
    ∃ o' ∈ db.orders, o'.structureId = o.structureId ∧ o'.orderRole = .entry

/-- The structure is in the planned state, or a cascade brings it there. -/
def OutcomeDue (w : CascadeWorld) (s : ℕ) (r : TradeStructure) (new : StructureState) : Prop :=
  r.state = new ∨ new = .fullyFilled ∧ ∃ pc, (s, pc) ∈ w.tasks ∧ pc.WillFill w.db s

structure OutcomeInvariant (w : CascadeWorld) : Prop where
  tables : RolesKnown w.db
  due : ∀ (s : ℕ) (r : TradeStructure) (new : StructureState), w.db.structures[s]? = some r →
    plannedState w.db s = some new → OutcomeDue w s r new

section Invariant
variable {w w' : CascadeWorld} {db db' : Db} {s : ℕ} {e : Event} {pc : CascadePc}
  {next : Option CascadePc} {tasks : List (ℕ × CascadePc)}

theorem createUnwind_new {sid idx i : ℕ} {leg : LegSpec} {now : Instant} {o : StructureOrder}
    (hi : db.orders.length ≤ i)
    (ho : (step db (.createUnwind sid idx leg now)).orders[i]? = some o) : o.structureId = sid := by
  have hlt := (List.getElem?_eq_some_iff.mp ho).1
  simp only [step] at ho hlt
  cases hok : db.insertOrder (leg.order sid idx .unwind now) with
  | error err =>
    simp only [hok] at hlt
    omega
  | ok db' =>
    obtain ⟨rfl, _⟩ := insertOrder_free hok
    simp only [hok, Db.addOrder] at ho
    rw [List.getElem?_append_right hi] at ho
    obtain rfl := List.mem_singleton.mp (List.mem_of_getElem? ho)
    rfl

/-- A row of the new table is an old one, or new and of a structure that is known then. -/
theorem step_structureKnown (he : EndsPropagated db e)
    (hk : ∀ o ∈ db.orders, o.structureId < db.structures.length) {o' : StructureOrder}
    (ho' : o' ∈ (step db e).orders) : o'.structureId < (step db e).structures.length := by
  have hle := step_structures_le db e
  obtain ⟨i, hi⟩ := List.mem_iff_getElem?.mp ho'
  rcases step_row_cases hi with ⟨o, ho, hchange⟩ | ⟨hnew, -⟩
  · rw [leg_structureId hchange.leg]
    exact (hk o (List.mem_of_getElem? ho)).trans_le hle
  · have hlen := (List.getElem?_eq_some_iff.mp hi).1
    cases hins : e.inserts with
    | false =>
      rw [step_length hins] at hlen
      omega
    | true =>
      cases e with
      | createUnwind sid idx leg now =>
        obtain ⟨o, ho, hsid, _⟩ := he
        have hnew : o'.structureId = sid := createUnwind_new (by omega) hi
        have hown := hk o ho
        omega
      | submitPreview | closeRequest | positionClose =>
        obtain ⟨hsid, hgrow⟩ := step_newStructure he.1 (by omega) hi
        omega
      | _ => cases hins

theorem RolesKnown.step (h : RolesKnown db) (he : EndsPropagated db e) :
    RolesKnown (FxVol.step db e) := by
  refine ⟨fun o' ho' => step_structureKnown he h.known ho', ?_⟩
  intro o' ho'
  by_cases hentry : ∃ o₁ ∈ (FxVol.step db e).orders, o₁.structureId = o'.structureId ∧
      o₁.orderRole = .entry
  · exact .inr hentry
  -- no entry order now, so none before, and what is new is a closing order
  have hnone {o : StructureOrder} (ho : o ∈ db.orders) (hsid : o.structureId = o'.structureId) :
      o.orderRole ≠ .entry := by
    intro hrole
    obtain ⟨o₁, ho₁, hsid₁, hrole₁⟩ := step_keptRow e ho
    exact hentry ⟨o₁, ho₁, hsid₁.trans hsid, hrole₁.trans hrole⟩
  left
  intro o₁ ho₁ hsid₁
  obtain ⟨i, hi⟩ := List.mem_iff_getElem?.mp ho₁
  by_cases hlt : i < db.orders.length
  · have ho := List.getElem?_eq_getElem hlt
    obtain ⟨o₂, ho₂, hchange⟩ := step_row e ho
    obtain rfl : o₂ = o₁ := Option.some.inj (ho₂.symm.trans hi)
    have hmem := List.mem_of_getElem? ho
    have hsid := (leg_structureId hchange.leg).symm.trans hsid₁
    rw [leg_orderRole hchange.leg]
    rcases h.roles _ hmem with honly | ⟨o₃, ho₃, hsid₃, hrole₃⟩
    · exact honly _ hmem rfl
    · exact absurd hrole₃ (hnone ho₃ (hsid₃.trans hsid))
  · obtain ⟨htakes, hunwind⟩ := step_takesSlot (by omega) hi
    cases htakes with
    | closing hrole => exact hrole
    | entry hrole => exact absurd ⟨o₁, ho₁, hsid₁, hrole⟩ hentry
    | unwind hrole hkey =>
      obtain ⟨sid, idx, leg, now, rfl⟩ := hunwind hrole
      obtain ⟨o, ho, hsid, hentry'⟩ := he
      have hnew : o₁.structureId = sid := createUnwind_new (by omega) hi
      exact absurd hentry' (hnone ho (hsid.trans (hnew.symm.trans hsid₁)))

theorem step_bookedPositions (he : EndsPropagated db e) (s : ℕ) :
    (step db e).isBooked s ↔ db.isBooked s := by
  have same (h : (step db e).bookedPositions = db.bookedPositions) :
      (step db e).isBooked s ↔ db.isBooked s := by
    rw [Db.isBooked, h]
    rfl
  have terminalise (now : Instant) (sids : List ℕ) (db : Db) :
      (sids.foldl (terminaliseStructure now) db).bookedPositions = db.bookedPositions := by
    refine foldl_frame Db.bookedPositions (terminaliseStructure now) ?_ sids db
    intro db s
    unfold terminaliseStructure
    split
    · split_ifs <;> rfl
    · rfl
  cases e with
  | completeStructure => exact he.1.elim
  | reap trades tau now =>
    obtain ⟨db₂, sids, hreap, htables, _⟩ := reap_ends db now trades tau
    apply same
    rw [step, hreap, terminalise now sids db₂]
    exact congrArg (·.2.1) htables
  | cancelTrade tradeId ids now =>
    apply same
    have hone := terminalise now [tradeId] (ids.foldl (cancelOrder now) db)
    have hframe := foldl_frame Db.bookedPositions (cancelOrder now) (fun _ _ => rfl) ids db
    exact hone.trans hframe
  | createUnwind sid idx leg now =>
    apply same
    simp only [step, Db.insertOrder]
    split_ifs <;> rfl
  | closeAnswer i outcome now =>
    apply same
    simp only [step, closeAnswer]
    split
    · rfl
    · split <;> rfl
  | _ => exact (step_tradeFrame he.1).isBooked s

/-- What was due before a transaction is due after it. -/
theorem OutcomeDue.book {r : TradeStructure} {new : StructureState} (h : OutcomeDue w s r new)
    (he : EndsPropagated w.db e) : OutcomeDue (cascadeWorldStep w (.book e)) s r new := by
  refine h.imp id ?_
  rintro ⟨hnew, pc, hpc, hfill⟩
  refine ⟨hnew, pc, List.mem_append_left _ hpc, ?_⟩
  cases pc with
  | booking => exact hfill.imp id (mt (step_bookedPositions he s).mp)
  | _ => exact hfill

theorem OutcomeInvariant.book (h : OutcomeInvariant w) (he : EndsPropagated w.db e) :
    OutcomeInvariant (cascadeWorldStep w (.book e)) := by
  refine ⟨h.tables.step he, ?_⟩
  intro s r new hr hplan
  have settles (hs : Settles w.db (step w.db e) s) :
      OutcomeDue (cascadeWorldStep w (.book e)) s r new := by
    rcases hs with hs | ⟨hrow, hkept⟩
    · exact .inl (hs r new hr hplan)
    · exact (h.due s r new (hrow.symm.trans hr) (hkept new hplan)).book he
  have called (htrades : Trades w.db e ∧ EndsNoFailure w.db (step w.db e)) :
      OutcomeDue (cascadeWorldStep w (.book e)) s r new := by
    rcases trades_settles htrades.1 htrades.2 h.tables.known hr hplan with
      hstate | ⟨hr₀, hplan₀⟩ | ⟨hnew, hcalled⟩
    · exact .inl hstate
    · exact (h.due s r new hr₀ hplan₀).book he
    · refine .inr ⟨hnew, .called, ?_, trivial⟩
      exact List.mem_append_right _ (List.mem_map.mpr ⟨s, hcalled, rfl⟩)
  cases e with
  | reap trades tau now => exact settles (reap_settles trades tau)
  | cancelTrade tradeId ids now => exact settles (cancelTrade_settles he)
  | createUnwind sid idx leg now => exact settles (createUnwind_settles sid idx leg now)
  | closeAnswer i outcome now => exact settles (closeAnswer_settles he)
  | _ => exact called he

/-- Filled orders let no cascade end early. -/
theorem planned_not_unfilled (ht : RolesKnown db) (h : plannedState db s = some .fullyFilled) :
    EntryFilled db s ∨ ClosingFilled db s := by
  obtain ⟨⟨o, ho, rfl⟩, hall⟩ := planned_filled.mp h
  rcases ht.roles o ho with honly | ⟨o', ho', hsid, hrole⟩
  · exact .inr ⟨⟨o, ho, rfl⟩, fun o₁ ho₁ hsid₁ => ⟨honly o₁ ho₁ hsid₁, hall o₁ ho₁ hsid₁⟩⟩
  · exact .inl ⟨⟨o', ho', hsid, hrole⟩, fun o₁ ho₁ hsid₁ _ => hall o₁ ho₁ hsid₁⟩

/-- One cascade goes on or ends: the other structures are left alone. -/
theorem OutcomeInvariant.advance (h : OutcomeInvariant w) (hr : Resumed w.tasks tasks s pc next)
    (horders : w'.db.orders = w.db.orders)
    (hlen : w'.db.structures.length = w.db.structures.length)
    (hother : ∀ s', s' ≠ s → w'.db.structures[s']? = w.db.structures[s']? ∧
      (w'.db.isBooked s' ↔ w.db.isBooked s'))
    (hself : ∀ r new, w'.db.structures[s]? = some r → plannedState w.db s = some new →
      OutcomeDue { w' with tasks := tasks } s r new) :
    OutcomeInvariant { w' with tasks := tasks } := by
  refine ⟨⟨?_, ?_⟩, ?_⟩
  · intro o ho
    have hmem : o ∈ w.db.orders := horders ▸ ho
    exact (h.tables.known o hmem).trans_eq hlen.symm
  · intro o ho
    have hroles := h.tables.roles o (horders ▸ ho)
    unfold ClosingOnly at hroles ⊢
    rwa [← horders] at hroles
  · intro s' r new hrow hplan
    rw [plannedState_congr horders] at hplan
    by_cases heq : s' = s
    · subst heq
      exact hself r new hrow hplan
    · obtain ⟨hsame, hbooked⟩ := hother s' heq
      refine (h.due s' r new (hsame.symm.trans hrow) hplan).imp id ?_
      rintro ⟨hnew, pc', hpc', hfill⟩
      refine ⟨hnew, pc', hr.keep _ hpc' fun heq' => heq (congrArg Prod.fst heq'), ?_⟩
      cases pc' with
      | booking => exact hfill.imp id (mt hbooked.mp)
      | _ => exact hfill

/-- A cascade that writes nothing of its structure: it goes on where it was to fill it, unless the
structure is filled. -/
theorem OutcomeInvariant.reads (h : OutcomeInvariant w) (hr : Resumed w.tasks tasks s pc next)
    (horders : w'.db.orders = w.db.orders) (hstructures : w'.db.structures = w.db.structures)
    (hbooked : ∀ s, w'.db.isBooked s ↔ w.db.isBooked s)
    (hnext : pc.WillFill w.db s → plannedState w.db s = some .fullyFilled →
      (∀ r, w.db.structures[s]? = some r → r.state = .fullyFilled) ∨
        ∃ pc' ∈ next, pc'.WillFill w.db s) : OutcomeInvariant { w' with tasks := tasks } := by
  have same {pc' : CascadePc} (hfill : pc'.WillFill w.db s) : pc'.WillFill w'.db s := by
    cases pc' with
    | booking => exact hfill.imp id (mt (hbooked s).mp)
    | _ => exact hfill
  refine h.advance hr horders (by rw [hstructures]) ?_ ?_
  · exact fun s' _ => ⟨by rw [hstructures], hbooked s'⟩
  · intro r new hrow hplan
    rw [hstructures] at hrow
    rcases h.due s r new hrow hplan with hstate | ⟨rfl, pc', hpc', hfill⟩
    · exact .inl hstate
    · by_cases heq : pc' = pc
      · subst heq
        rcases hnext hfill hplan with hfull | ⟨pc'', hmem, hfill'⟩
        · exact .inl (hfull r hrow)
        · exact .inr ⟨rfl, pc'', hr.goes pc'' hmem, same hfill'⟩
      · exact .inr ⟨rfl, pc', hr.keep _ hpc' fun heq' => heq (congrArg Prod.snd heq'), same hfill⟩

/-- The commit of a cascade. -/
theorem OutcomeInvariant.fills (h : OutcomeInvariant w) (hr : Resumed w.tasks tasks s pc next)
    {r : TradeStructure} (r' : TradeStructure) (hrow : w.db.structures[s]? = some r) (hfull : r'.state = .fullyFilled)
    (horders : w'.db.orders = w.db.orders)
    (hstructures : w'.db.structures = w.db.structures.set s r')
    (hbooked : ∀ s', s' ≠ s → (w'.db.isBooked s' ↔ w.db.isBooked s'))
    (hplans : plannedState w.db s ∈ [none, some .fullyFilled]) :
    OutcomeInvariant { w' with tasks := tasks } := by
  have hlt := (List.getElem?_eq_some_iff.mp hrow).1
  refine h.advance hr horders (by rw [hstructures, List.length_set]) ?_ ?_
  · intro s' hne
    rw [hstructures]
    exact ⟨List.getElem?_set_ne hne.symm, hbooked s' hne⟩
  · intro r₁ new hrow₁ hplan
    rw [hstructures, List.getElem?_set_self hlt, Option.some.injEq] at hrow₁
    rw [hplan] at hplans
    left
    obtain rfl : new = .fullyFilled := by simpa using hplans
    rw [← hrow₁, hfull]

/-- A counted position is booked. -/
theorem cascadeStep_booking {hedgeCost : ℚ} {now now' : Instant} {orders : List StructureOrder}
    {existing : Bool} (h : (cascadeStep hedgeCost now w s pc).2 =
      some (.booking orders now' existing)) : existing ∨ ¬ w.db.isBooked s := by
  have hm := cascadeStep_move hedgeCost now w s pc
  rw [h] at hm
  generalize (cascadeStep hedgeCost now w s pc).1 = w' at hm
  cases pc with
  | counting orders' at_ =>
    simp only [cascadeStep, Option.some.injEq, CascadePc.booking.injEq] at h
    obtain ⟨_, _, rfl⟩ := h
    rw [isBooked_iff]
    exact Decidable.em _
  | _ => cases hm

theorem CascadeMove.outcome (hm : CascadeMove w s pc w' next) (h : OutcomeInvariant w)
    (hr : Resumed w.tasks tasks s pc next)
    (hcommits : pc.commits → plannedState w.db s ∈ [none, some .fullyFilled])
    (hcounted : ∀ orders now existing, next = some (.booking orders now existing) →
      existing ∨ ¬ w.db.isBooked s) : OutcomeInvariant { w' with tasks := tasks } := by
  cases hm with
  | done hdone =>
    refine h.reads hr rfl rfl (fun _ => Iff.rfl) fun _ _ => .inl fun r hrow => ?_
    rcases hdone with hnone | hfull
    · rw [hnone] at hrow
      cases hrow
    · simpa [Db.fullyFilled, hrow] using hfull
  | check | count | complete =>
    exact h.reads hr rfl rfl (fun _ => Iff.rfl) fun _ _ => .inr ⟨_, rfl, trivial⟩
  | unfilled hentry hclosing =>
    refine h.reads hr rfl rfl (fun _ => Iff.rfl) fun _ hplan => ?_
    rcases planned_not_unfilled h.tables hplan with hfilled | hfilled
    · exact absurd hfilled hentry
    · exact absurd hfilled hclosing
  | counted orders now existing =>
    exact h.reads hr rfl rfl (fun _ => Iff.rfl) fun _ _ =>
      .inr ⟨_, rfl, hcounted orders now existing rfl⟩
  | lost pc hnone =>
    refine h.reads hr rfl rfl (fun _ => Iff.rfl) fun _ _ => .inl fun r hrow => ?_
    rw [hnone] at hrow
    cases hrow
  | raised orders now hbooked =>
    refine h.reads hr rfl rfl (fun _ => Iff.rfl) fun hfill _ => ?_
    rcases hfill with hfalse | hfree
    · cases hfalse
    · exact absurd hbooked hfree
  | rebooked orders now r hrow =>
    exact h.fills hr (r.completed orders now) hrow rfl rfl rfl (fun _ _ => Iff.rfl)
      (hcommits rfl)
  | completed orders now r hrow =>
    exact h.fills hr (r.completed orders now) hrow rfl rfl rfl (fun _ _ => Iff.rfl)
      (hcommits rfl)
  | booked orders now r hrow hfree =>
    refine h.fills hr (r.completed orders now) hrow rfl (by simp) (by simp; rfl) ?_
      (hcommits rfl)
    intro s' hne
    exact (isBooked_book hfree s').trans (or_iff_left hne)
  | nothing | found => exact h.reads hr rfl rfl (fun _ => Iff.rfl) fun hfill => hfill.elim
  | close k p stamp =>
    refine h.reads hr rfl rfl (fun s' => ?_) fun hfill => hfill.elim
    rw [Db.isBooked, close_booked]
    rfl

theorem OutcomeInvariant.submissionFailed (h : OutcomeInvariant w) {now : Instant}
    (hplans : plannedState w.db s ∈ [none, some .partialFail]) :
    OutcomeInvariant { w with db := failSubmission w.db s now } := by
  unfold failSubmission
  split
  · exact h
  · next r₀ hrow₀ =>
    refine ⟨⟨?_, h.tables.roles⟩, ?_⟩
    · intro o ho
      exact (h.tables.known o ho).trans_eq (List.length_set ..).symm
    · intro s' r new hrow hplan
      by_cases heq : s' = s
      · subst heq
        have hlt := (List.getElem?_eq_some_iff.mp hrow₀).1
        simp only [Db.setStructure, List.getElem?_set_self hlt, Option.some.injEq] at hrow
        rw [show plannedState w.db s' = some new from hplan] at hplans
        obtain rfl : new = .partialFail := by simpa using hplans
        exact .inl (congrArg TradeStructure.state hrow.symm)
      · have hold := (List.getElem?_set_ne (Ne.symm heq)).symm.trans hrow
        refine (h.due s' r new hold hplan).imp id ?_
        rintro ⟨hnew, pc, hpc, hfill⟩
        refine ⟨hnew, pc, hpc, ?_⟩
        cases pc <;> exact hfill

theorem outcomeStep_invariant (h : OutcomeInvariant w) {e : OutcomeEvent}
    (hg : OutcomePropagated w e) : OutcomeInvariant (outcomeStep w e) := by
  cases e with
  | submissionFailed s now => exact h.submissionFailed hg
  | cascade e =>
    cases e with
    | book e => exact h.book hg
    | raiseAlert p rule =>
      refine ⟨⟨h.tables.known, h.tables.roles⟩, fun s r new hrow hplan =>
        (h.due s r new hrow hplan).imp id ?_⟩
      rintro ⟨hnew, pc, hpc, hfill⟩
      refine ⟨hnew, pc, hpc, ?_⟩
      cases pc <;> exact hfill
    | crash =>
      refine ⟨h.tables, ?_⟩
      intro s r new (hrow : w.db.structures[s]? = some r) hplan
      rcases h.due s r new hrow hplan with hstate | ⟨_, pc, hpc, _⟩
      · exact .inl hstate
      · have hsettled := hg _ hpc
        dsimp only at hsettled
        rw [show plannedState w.db s = some new from hplan, structureState, hrow] at hsettled
        have hsame : new = r.state := by simpa using hsettled
        exact .inl hsame.symm
    | run k hedgeCost now =>
      simp only [outcomeStep, cascadeWorldStep]
      split
      · exact h
      · next s pc hk =>
        have hm := cascadeStep_move hedgeCost now w s pc
        have htasks := cascadeStep_tasks hedgeCost now w s pc
        have hcounted : ∀ orders now' existing, (cascadeStep hedgeCost now w s pc).2 =
            some (.booking orders now' existing) → existing ∨ ¬ w.db.isBooked s :=
          fun _ _ _ => cascadeStep_booking
        split
        · next w' pc' heq =>
          rw [heq] at hm htasks hcounted
          rw [htasks]
          exact hm.outcome h (resumed_set hk) (hg _ hk) hcounted
        · next w' heq =>
          rw [heq] at hm htasks hcounted
          rw [htasks]
          exact hm.outcome h (resumed_erase hk) (hg _ hk) hcounted

theorem outcomeInvariant_empty : OutcomeInvariant CascadeWorld.empty where
  tables := by constructor <;> simp [CascadeWorld.empty, Db.empty]
  due s r new hrow := by simp [CascadeWorld.empty, Db.empty] at hrow

theorem OutcomeInvariant.follows (h : OutcomeInvariant w) : FollowsOrders w := by
  intro s r new hrow hplan hidle
  rcases h.due s r new hrow hplan with hstate | ⟨_, pc, hpc, _⟩
  · exact hstate
  · exact absurd hpc (hidle pc)

end Invariant

section Decide
variable (db db' : Db) (w : CascadeWorld)

instance : Decidable (EndsNoFailure db db') := inferInstanceAs (Decidable (∀ o ∈ db'.orders, _))

instance (e : Event) : Decidable (Trades db e ∧ EndsNoFailure db (step db e)) :=
  inferInstanceAs (Decidable (_ ∧ _))

instance : ∀ e, Decidable (EndsPropagated db e)
  | .reap .. => .isTrue trivial
  | .cancelTrade _ ids _ => inferInstanceAs (Decidable (∀ i ∈ ids, ∀ o ∈ db.orders[i]?, _ = _))
  | .createUnwind .. => inferInstanceAs (Decidable (∃ o ∈ db.orders, _ ∧ _))
  | .closeAnswer i _ _ => inferInstanceAs (Decidable (_ → ∀ o ∈ db.orders[i]?, _))
  | .submitPreview .. | .stampLive .. | .stampPlacement .. | .orderStatus .. | .comboStatus ..
  | .execution .. | .commissionReport .. | .completeStructure .. | .reconcile .. | .reconnect ..
  | .syncPositions .. | .closeRequest .. | .positionClose .. =>
    inferInstanceAs (Decidable (Trades db _ ∧ EndsNoFailure db (step db _)))

instance : ∀ e, Decidable (OutcomePropagated w e)
  | .cascade (.book e) => inferInstanceAs (Decidable (EndsPropagated w.db e))
  | .cascade (.raiseAlert ..) => .isTrue trivial
  | .cascade (.run k _ _) => inferInstanceAs (Decidable (∀ task ∈ w.tasks[k]?, _ → _))
  | .cascade .crash => inferInstanceAs (Decidable (∀ task ∈ w.tasks, _ ∈ [_, _]))
  | .submissionFailed .. => inferInstanceAs (Decidable (_ ∈ [_, _]))

end Decide

/-- Where only the reaper and the trade cancel end structures that have failed orders, a structure
whose orders are all terminal is in the state they plan once its cascades have run. -/
theorem structures_follow_orders (w : CascadeWorld)
    (h : Run outcomeStep OutcomePropagated .empty w) : FollowsOrders w :=
  (h.invariant (I := OutcomeInvariant) (fun _ _ hI hg => outcomeStep_invariant hI hg)
    outcomeInvariant_empty).follows

/-- A spread is filled, a call is cancelled by the operator and a call is reaped. -/
def endedTrades : List CascadeEvent :=
  [.book (.submitPreview [callLeg .buy 10, callLeg .sell 10] 0),
    .book (.execution 0 (execution "1" "BOT" 10 (some 0)) 1),
    .book (.execution 1 (execution "2" "SLD" 10 (some 0)) 1)] ++
  List.replicate 5 (.run 0 0 2) ++
  [.book (.submitPreview [callLeg .buy 10] 3), .book (.stampLive 2 (some 7) none none 3),
    .book (.cancelTrade 1 [2] 4), .book (.submitPreview [callLeg .buy 10] 5),
    .book (.stampLive 3 (some 8) none none 5), .book (.reap [] 10 100)]

theorem structures_follow_orders_endedTrades :
    FollowsOrders ((endedTrades.map .cascade).foldl outcomeStep .empty) ∧
      ((endedTrades.map .cascade).foldl outcomeStep .empty).tasks = [] ∧
      ((endedTrades.map .cascade).foldl outcomeStep .empty).db.structures.map (·.state) =
        [.fullyFilled, .fullyFailed, .fullyFailed] :=
  ⟨structures_follow_orders _ (Run.of_foldl (endedTrades.map OutcomeEvent.cascade) (by decide +kernel)),
    by decide +kernel, by decide +kernel⟩

/-- IB cancels the only order of a structure. -/
def cancelledCall : List OutcomeEvent :=
  [.cascade (.book (.submitPreview [callLeg .buy 10] 0)),
    .cascade (.book (.stampLive 0 (some 7) none none 1)),
    .cascade (.book (.orderStatus 0 .cancelled none 2))]

/-- The structure of a cancelled order stays `submitted`. -/
theorem cancelled_order_leaves_submitted :
    (cancelledCall.foldl outcomeStep .empty).tasks = [] ∧
      structureState (cancelledCall.foldl outcomeStep .empty).db 0 = some .submitted ∧
      ¬ FollowsOrders (cancelledCall.foldl outcomeStep .empty) := by
  refine ⟨by decide +kernel, by decide +kernel, ?_⟩
  intro h
  have hrow : (cancelledCall.foldl outcomeStep .empty).db.structures[0]? =
      some (TradeStructure.new 0) := by decide +kernel
  have hfailed := h 0 _ .fullyFailed hrow (by decide +kernel) (by
    rw [show (cancelledCall.foldl outcomeStep .empty).tasks = [] by decide +kernel]
    exact nofun)
  cases hfailed

end FxVol
