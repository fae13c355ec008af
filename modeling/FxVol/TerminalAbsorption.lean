import FxVol.TableGrowth
import Mathlib.Algebra.Order.BigOperators.Group.List

/-!
# Terminal order rows

A terminal row keeps its state, except that it may become `filled` once its recorded fills
reach its quantity.  The status and reconciliation paths guarantee this by themselves.  The
execution handler, the two placement stamps, the answer of a close and the trade cancel do
not look at the state they overwrite; `KeepsTerminal` says when they do no harm, and it is
exactly when one transaction keeps the property.
-/
namespace FxVol

open GuardedRuns

/-- Terminal rows of `db` keep their state in `db'`, or are filled by what is recorded. -/
def Absorbed (db db' : Db) : Prop :=
  ∀ i o, db.orders[i]? = some o → o.state.isTerminal →
    ∃ o', db'.orders[i]? = some o' ∧
      (o'.state = o.state ∨ o'.state = .filled ∧ o'.qty ≤ db'.recorded i)

/-- The writers that overwrite a state they have not read find no terminal row, or one to
which they do nothing: a late execution fills it up, an answer or a cancel repeats its
state. -/
def KeepsTerminal (db : Db) : Event → Prop
  | .stampLive i _ _ _ _ | .stampPlacement i _ _ _ =>
    ∀ o ∈ db.orders[i]?, o.state.isTerminal = false
  | .execution i fill _ => ∀ o ∈ db.orders[i]?, o.state.isTerminal →
      ¬ db.Booked (.ib fill.execId) →
      0 < db.recorded i + fill.shares ∧ o.qty ≤ db.recorded i + fill.shares
  | .closeAnswer i outcome _ => ∀ o ∈ db.orders[i]?, o.state.isTerminal → o.state = outcome.state
  | .cancelTrade _ ids _ => ∀ i ∈ ids, ∀ o ∈ db.orders[i]?, o.state.isTerminal →
      o.state = .cancelled
  | _ => True

section Relation
variable {db db' db'' : Db}

theorem Absorbed.refl (db : Db) : Absorbed db db := fun _ o ho _ => ⟨o, ho, .inl rfl⟩

theorem Absorbed.trans (h : Absorbed db db') (h' : Absorbed db' db'') (he : Evolves db' db'') :
    Absorbed db db'' := by
  intro i o ho hterm
  obtain ⟨o', ho', hstate | ⟨hfilled, hqty⟩⟩ := h i o ho hterm
  · have hterm' : o'.state.isTerminal := by rw [hstate]; exact hterm
    obtain ⟨o'', ho'', hstate' | hfilled'⟩ := h' i o' ho' hterm'
    · exact ⟨o'', ho'', .inl (hstate'.trans hstate)⟩
    · exact ⟨o'', ho'', .inr hfilled'⟩
  · have hterm' : o'.state.isTerminal := by rw [hfilled]; rfl
    obtain ⟨o'', ho'', hchange⟩ := h' i o' ho' hterm'
    obtain ⟨o₂, ho₂, hleg, hle⟩ := he i o' ho'
    obtain rfl : o₂ = o'' := Option.some.inj (ho₂.symm.trans ho'')
    have hfilled' : o₂.state = .filled := by
      rcases hchange with hsame | hfill
      · exact hsame.trans hfilled
      · exact hfill.1
    refine ⟨o₂, ho₂, .inr ⟨hfilled', ?_⟩⟩
    rw [leg_qty hleg]
    exact hqty.trans hle

end Relation

section OneStep
variable {db : Db} {i : ℕ} {o o' : StructureOrder} {e : Event} {fills : List StructureFill}

theorem comboFills_whole {perm : String} {now : Instant}
    (hw : ∀ f ∈ db.fillsOf i, ∀ p j, f.ibExecutionId = .combo p j → j = i ∧ f.qtyFilled = o.qty) :
    o.qty ≤ ((comboFills perm now i o (db.fillsOf i)).map (·.qtyFilled)).sum := by
  unfold comboFills
  split_ifs with hseen
  · obtain ⟨f, hf, hid⟩ := List.mem_map.mp hseen
    have hq : f.qtyFilled = o.qty := (hw f hf perm i hid).2
    rw [← hq]
    exact List.single_le_sum (by simp) _ (List.mem_map_of_mem hf)
  · simp [comboFillRow]

/-- A guarded transaction does to a terminal row only what the property allows. -/
theorem RowChange.absorbed (h : RowChange db i o e o' fills) (ho : db.orders[i]? = some o)
    (hw : db.WellFormed) (hg : KeepsTerminal db e) (hterm : o.state.isTerminal) :
    o'.state = o.state ∨ o'.state = .filled ∧ o'.qty ≤ (fills.map (·.qtyFilled)).sum := by
  have notStuck : ¬ o.state.isStuck := by
    intro hstuck
    rw [OrderState.isTerminal_of_isStuck hstuck] at hterm
    cases hterm
  have notPending : o.state ≠ .pending := by
    intro hp
    rw [hp] at hterm
    cases hterm
  cases h with
  | same => exact .inl rfl
  | stampedLive | stamped =>
    rw [hg o ho] at hterm
    cases hterm
  | onStatus status reason now =>
    rcases onStatus_state o now status reason with hsame | hnew
    · exact .inl hsame
    · rw [nextState_terminal hterm] at hnew
      cases hnew
  | comboCancelled perm status reason now =>
    rw [onComboCancel_terminal o now status reason hterm]
    exact .inl rfl
  | comboBooked perm reason now => exact .inr ⟨rfl, comboFills_whole (hw.whole i o ho)⟩
  | booked now hnew =>
    have hfull := aggregatesWith_fullyFilled.mpr (hg o ho hterm hnew)
    refine .inr ⟨?_, ?_⟩
    · rw [booked_state, if_pos hfull]
    · rw [leg_qty booked_leg]
      simpa [Db.recorded, fillRow] using (hg o ho hterm hnew).2
  | reported => exact .inl rfl
  | repaired now hstuck => exact absurd hstuck notStuck
  | mirrored now hstuck => exact absurd hstuck notStuck
  | adopted trades t tau now => exact .inl (by rw [adopted_state, if_neg notPending])
  | expired trades tau now o₁ h₁ hstuck =>
    rcases h₁ with rfl | ⟨t, _, rfl⟩
    · exact absurd hstuck notStuck
    · rw [adopted_state, if_neg notPending] at hstuck
      exact absurd hstuck notStuck
  | rewired trades t now hworking =>
    rw [OrderState.isNonTerminal_eq, hterm] at hworking
    cases hworking
  | answered outcome now => exact .inl (by rw [answered_state, hg o ho hterm])
  | cancelled tradeId now hmem => exact .inl (hg i hmem o ho hterm).symm

theorem step_absorbed (hw : db.WellFormed) (hg : KeepsTerminal db e) : Absorbed db (step db e) := by
  intro i o ho hterm
  obtain ⟨o', ho', hchange⟩ := step_row e ho
  exact ⟨o', ho', hchange.absorbed ho hw hg hterm⟩

end OneStep

instance (db : Db) : ∀ e, Decidable (KeepsTerminal db e)
  | .stampLive i _ _ _ _ | .stampPlacement i _ _ _ =>
    inferInstanceAs (Decidable (∀ o ∈ db.orders[i]?, o.state.isTerminal = false))
  | .execution i fill _ => inferInstanceAs (Decidable (∀ o ∈ db.orders[i]?, o.state.isTerminal →
      ¬ db.Booked (.ib fill.execId) →
      0 < db.recorded i + fill.shares ∧ o.qty ≤ db.recorded i + fill.shares))
  | .closeAnswer i outcome _ => inferInstanceAs (Decidable
      (∀ o ∈ db.orders[i]?, o.state.isTerminal → o.state = outcome.state))
  | .cancelTrade _ ids _ => inferInstanceAs (Decidable
      (∀ i ∈ ids, ∀ o ∈ db.orders[i]?, o.state.isTerminal → o.state = .cancelled))
  | .submitPreview .. | .createUnwind .. | .orderStatus .. | .comboStatus ..
  | .commissionReport .. | .completeStructure .. | .reconcile .. | .reap .. | .reconnect ..
  | .syncPositions .. | .closeRequest .. | .positionClose .. => .isTrue trivial

/-- One leg of ten contracts, placed and then cancelled by IB. -/
def cancelledLeg : List Event :=
  [.submitPreview [callLeg .buy 10] 0, .stampLive 0 (some 7) (some 70) none 1,
    .orderStatus 0 .cancelled none 2]

section Exact
variable {db : Db} {i : ℕ} {o : StructureOrder}

/-- A row overwritten with a state that is neither its own nor `filled` is not absorbed. -/
theorem not_absorbed {db' : Db} {o' : StructureOrder} (ho : db.orders[i]? = some o)
    (hterm : o.state.isTerminal) (ho' : db'.orders[i]? = some o') (hne : o'.state ≠ o.state)
    (hfilled : o'.state ≠ .filled) : ¬ Absorbed db db' := by
  intro h
  obtain ⟨o₁, ho₁, hsame | hfill⟩ := h i o ho hterm
  · obtain rfl : o₁ = o' := Option.some.inj (ho₁.symm.trans ho')
    exact hne hsame
  · obtain rfl : o₁ = o' := Option.some.inj (ho₁.symm.trans ho')
    exact hfilled hfill.1

theorem updateOrder_not_absorbed {g : StructureOrder → StructureOrder}
    (ho : db.orders[i]? = some o) (hg : (g o).state = .submitted)
    (h : Absorbed db (db.updateOrder i g)) : o.state.isTerminal = false := by
  by_contra hterm
  rw [Bool.not_eq_false] at hterm
  have ho' : (db.updateOrder i g).orders[i]? = some (g o) := by
    rw [updateOrder_row g ho, if_pos rfl]
  refine not_absorbed ho hterm ho' ?_ ?_ h
  · intro hsame
    rw [← hsame, hg] at hterm
    cases hterm
  · rw [hg]
    decide

/-- One transaction keeps the terminal rows exactly when it meets the guard. -/
theorem step_absorbed_iff (hw : db.WellFormed) (e : Event) :
    Absorbed db (step db e) ↔ KeepsTerminal db e := by
  refine ⟨?_, step_absorbed hw⟩
  intro h
  cases e with
  | stampLive i a b lp now => exact fun o ho => updateOrder_not_absorbed ho rfl h
  | stampPlacement i a b now => exact fun o ho => updateOrder_not_absorbed ho rfl h
  | execution i fill now =>
    intro o ho hterm hnew
    rw [← aggregatesWith_fullyFilled (o := o)]
    by_contra hfull
    have ho' : (step db (.execution i fill now)).orders[i]? =
        some (o.booked fill (aggregatesWith db i o fill) now) := by
      simp only [step]
      rw [deliverFill_new ho hnew, bookFill_orders, setOrder_row _ ho, if_pos rfl]
    have hstate : (o.booked fill (aggregatesWith db i o fill) now).state = .partiallyFilled := by
      rw [booked_state, if_neg hfull]
    refine not_absorbed ho hterm ho' ?_ ?_ h
    · intro hsame
      rw [← hsame, hstate] at hterm
      cases hterm
    · rw [hstate]
      decide
  | closeAnswer i outcome now =>
    intro o ho hterm
    by_contra hne
    have ho' : (step db (.closeAnswer i outcome now)).orders[i]? =
        some (o.answered now outcome) := by
      simp only [step]
      rw [closeAnswer_orders, updateOrder_row _ ho, if_pos rfl]
    refine not_absorbed ho hterm ho' ?_ ?_ h
    · rw [answered_state]
      exact Ne.symm hne
    · rw [answered_state]
      cases outcome <;> simp [DispatchOutcome.state]
  | cancelTrade tradeId ids now =>
    intro i hmem o ho hterm
    by_contra hne
    have ho' : (step db (.cancelTrade tradeId ids now)).orders[i]? =
        some (o.cancelledAt now) := by
      have hrow := updateOrders_row (fun o => o.cancelledAt now) (fun _ => rfl) ids ho
      simp only [step]
      rw [cancelTrade, terminaliseStructure_orders]
      rw [if_pos hmem] at hrow
      exact hrow
    refine not_absorbed ho hterm ho' (Ne.symm hne) ?_ h
    rw [cancelledAt_state]
    decide
  | _ => trivial

end Exact

end FxVol
