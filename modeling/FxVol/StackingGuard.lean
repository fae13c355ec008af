import FxVol.TradeCloses

/-!
# The stacking guard

Before it sends a close, `close_one_open_position` adds up the closing orders in flight on the contract and refuses a
close that would go beyond the open quantity.  It tells the contract by the expiry, and by the strike where there is
one.  The two legs of a straddle share both, and whatever expires with a future counts against it.
-/
namespace FxVol.StackingGuard

open GuardedRuns TableTotals

/-- What a closing order has still in flight -/
def inflightRemaining (o : StructureOrder) (now : Instant) : ℕ :=
  closeInflightRemaining o.qty o.qtyFilled o.submittedAt o.stateUpdatedAt now inflightCloseWindow

def sameInstrument (pos : OpenPosition) (o : StructureOrder) : Bool :=
  o.contractSymbol = (contractFieldsFromSymbol pos.localSymbol).1 ∧
    o.contractType = (contractFieldsFromSymbol pos.localSymbol).2.1

/-- A working closing order on the position's own IB contract, on the side that closes it -/
def closesContract (pos : OpenPosition) (o : StructureOrder) : Bool :=
  o.orderRole = .closing ∧ o.side = pos.side.opposite ∧ o.state ∈ [OrderState.pending, .submitted, .partiallyFilled] ∧
    o.contractExpiry = pos.expiry ∧ sameInstrument pos o = true ∧
    ((contractFieldsFromSymbol pos.localSymbol).2.2 = none ∨
      o.contractStrike = (contractFieldsFromSymbol pos.localSymbol).2.2)

def closingOnContract (db : Db) (pos : OpenPosition) (now : Instant) : ℕ :=
  ((db.orders.filter (closesContract pos)).map fun o => inflightRemaining o now).sum

structure LegClose where
  pos : OpenPosition
  qty : ℕ
  limitPrice : Option ℚ
  entryOrderId : Option ℕ
  rth : Bool
  now : Instant

def LegClose.send (r : LegClose) (db : Db) : Except HttpError (Db × ℕ) :=
  closeOneOpenPosition db r.pos r.qty r.limitPrice r.entryOrderId r.rth r.now

/-- The guard counts the contract's own closes, and with none of these a close is not refused with 409. -/
structure CountsOwn (db : Db) (r : LegClose) : Prop where
  counts : alreadyClosing db r.pos r.now = closingOnContract db r.pos r.now
  admits : closingOnContract db r.pos r.now = 0 → ∀ e, r.send db = .error e → e.status ≠ 409

/-- Whatever is in flight with the side, the expiry and the strike that the guard looks at is of the same symbol and
right. -/
def OwnOnly (db : Db) (pos : OpenPosition) (now : Instant) : Prop :=
  ∀ o ∈ db.orders, stackingCandidate pos o = true → 0 < inflightRemaining o now → sameInstrument pos o = true

instance (db : Db) (pos : OpenPosition) (now : Instant) : Decidable (OwnOnly db pos now) :=
  inferInstanceAs (Decidable (∀ _ ∈ _, _))

def nextLeg (w : TradeCloseWorld) : TradeCloseEvent → Option LegClose
  | .closeNext k rth now =>
    w.calls[k]?.bind fun call => call.items.head?.map fun it =>
      ⟨it.pos, it.qty, call.limitPrice, some it.entryOrderId, rth, now⟩
  | _ => none

def LegCounts (w : TradeCloseWorld) (e : TradeCloseEvent) : Prop := ∀ r ∈ nextLeg w e, CountsOwn w.db r

def Meets (w : TradeCloseWorld) (e : TradeCloseEvent) : Prop := ∀ r ∈ nextLeg w e, OwnOnly w.db r.pos r.now

/-- The strike the guard looks at is the one a close of the position is recorded under. -/
theorem contractFields_strike (localSymbol : String) :
    (contractFieldsFromSymbol localSymbol).2.2 = (parseLocalSymbol localSymbol).bind (·.strike) := by
  rw [contractFieldsFromSymbol]
  cases hspec : parseLocalSymbol localSymbol with
  | none => rfl
  | some spec =>
    cases hinstrument : spec.instrumentType with
    | option =>
      dsimp only
      rw [hinstrument]
      rfl
    | future =>
      dsimp only
      rw [hinstrument]
      exact (future_spec hspec hinstrument).1.symm

/-- The guard's orders are those on the contract and those that only look like it. -/
theorem closesContract_eq (pos : OpenPosition) :
    closesContract pos = fun o => stackingCandidate pos o && sameInstrument pos o := by
  funext o
  rw [Bool.eq_iff_iff, closesContract, contractFields_strike, Bool.and_eq_true, stackingCandidate]
  simp only [decide_eq_true_eq]
  tauto

theorem counts_iff (db : Db) (pos : OpenPosition) (now : Instant) :
    alreadyClosing db pos now = closingOnContract db pos now ↔ OwnOnly db pos now := by
  rw [closingOnContract, closesContract_eq]
  exact sum_part_eq_iff

/-- With nothing counted, only a quantity beyond the open one is refused, and not with 409. -/
theorem send_error {db : Db} {r : LegClose} (hnone : alreadyClosing db r.pos r.now = 0) {e : HttpError}
    (h : r.send db = .error e) : e.status ≠ 409 := by
  rw [LegClose.send, closeOneOpenPosition] at h
  dsimp only at h
  split_ifs at h with hzero hover hstacked
  · obtain rfl := Except.error.inj h
    exact (by decide : 400 ≠ 409)
  · obtain rfl := Except.error.inj h
    exact (by decide : 400 ≠ 409)
  · omega
  · cases hprice : closePrice r.pos r.limitPrice r.rth with
    | ok price =>
      rw [hprice] at h
      cases h
    | error e' =>
      rw [hprice] at h
      obtain rfl := Except.error.inj h
      unfold closePrice at hprice
      dsimp only at hprice
      split at hprice
      · cases hprice
      · split_ifs at hprice
      · split_ifs at hprice
        obtain rfl := Except.error.inj hprice
        exact (by decide : 400 ≠ 409)

theorem countsOwn_iff (db : Db) (r : LegClose) : CountsOwn db r ↔ OwnOnly db r.pos r.now := by
  constructor
  · exact fun h => (counts_iff db r.pos r.now).mp h.counts
  · intro h
    have hcounts := (counts_iff db r.pos r.now).mpr h
    exact ⟨hcounts, fun hnone e he => send_error (hcounts.trans hnone) he⟩

/-- The guard of every close counts its own contract just when nothing else in flight looks like it, and so do those of
the legs of trade-level closes all along a run, from any tables. -/
theorem guard_counts_iff (w : TradeCloseWorld) (events : List TradeCloseEvent) :
    (∀ db r, CountsOwn db r ↔ OwnOnly db r.pos r.now) ∧
      ((∀ past e, past ++ [e] <+: events → LegCounts (past.foldl tradeCloseStep w) e) ↔
        Guarded tradeCloseStep Meets w events) := by
  refine ⟨countsOwn_iff, ?_⟩
  apply guarded_iff_steps (I := fun _ => True)
  · exact fun _ _ _ _ => trivial
  · intro w e _
    exact forall₂_congr fun r _ => countsOwn_iff w.db r
  · trivial

def putLeg : LegSpec := { callLeg .buy 10 with contractType := .put }

def putExecution : IbFill := { execution "b" "BOT" 10 none with localSymbol := some "EUUU6 P1150" }

def putPosition : OpenPosition := { callPosition .buy 10 with id := 2, localSymbol := "EUUU6 P1150" }

/-- A straddle of ten is filled, and the close of its trade has sent the call's. -/
def callClosed : List TradeCloseEvent :=
  [.book (.submitPreview [callLeg .buy 10, putLeg] 0), .book (.execution 0 (execution "a" "BOT" 10 none) 1),
    .book (.execution 1 putExecution 1), .book (.syncPositions [callPosition .buy 10, putPosition]),
    .planTrade 0 none, .closeNext 0 true 2]

def refusedWith (db : Db) (r : LegClose) : Option ℕ :=
  match r.send db with
  | .ok _ => none
  | .error e => some e.status

/-- The put's close is refused for the call's, with no put closing. -/
theorem not_guard_counts : ¬ ∀ w events past e, past ++ [e] <+: events → LegCounts (past.foldl tradeCloseStep w) e := by
  intro h
  have hleg : ∃ r ∈ nextLeg (callClosed.foldl tradeCloseStep .empty) (.closeNext 0 true 2),
      closingOnContract (callClosed.foldl tradeCloseStep .empty).db r.pos r.now = 0 ∧
        refusedWith (callClosed.foldl tradeCloseStep .empty).db r = some 409 := by decide +kernel
  obtain ⟨r, hr, hown, hrefused⟩ := hleg
  have hcounts := h .empty (callClosed ++ [.closeNext 0 true 2]) callClosed _ (List.prefix_refl _) r hr
  rw [refusedWith] at hrefused
  split at hrefused
  · cases hrefused
  · rename_i e he
    exact hcounts.admits hown e he (Option.some.inj hrefused)

end FxVol.StackingGuard
