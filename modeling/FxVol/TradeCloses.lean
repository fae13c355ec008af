import FxVol.BookConsistency
import FxVol.TableTotals

/-!
# Trade-level close

`close_trade` plans from the entry legs of a trade and the netted IB mirror, then closes one
planned leg after the other.  The side comes from the mirror row, each leg is capped on its
own, and what was sent for a leg before is not subtracted.  The trade closes exactly its own
lots in the runs where these three do no harm.
-/
namespace FxVol

open GuardedRuns KeyedPasses TableTotals

/-- An entry leg as `plan_trade_close` gets it. -/
structure EntryLeg where
  orderId : ℕ
  ibLocalSymbol : Option String
  qtyFilled : ℕ
  deriving DecidableEq

/-- One leg to close: which position, how much, for which entry order. -/
structure PlannedClose where
  pos : OpenPosition
  qty : ℕ
  entryOrderId : ℕ
  deriving DecidableEq

structure SkippedLeg where
  entryOrderId : ℕ
  reason : String
  deriving DecidableEq

/-- One leg of `plan_trade_close`, against the mirror rows by symbol. -/
def planLeg (posBySymbol : String → Option OpenPosition) (leg : EntryLeg) :
    SkippedLeg ⊕ PlannedClose :=
  match leg.ibLocalSymbol.bind nonEmpty with
  | none => .inl ⟨leg.orderId, "leg has no IB contract (unfilled)"⟩
  | some sym =>
    match posBySymbol sym with
    | none => .inl ⟨leg.orderId, "no live mirror position for " ++ sym⟩
    | some pos =>
      if min leg.qtyFilled pos.quantity = 0 then
        .inl ⟨leg.orderId, "zero qty (already closed?)"⟩
      else .inr ⟨pos, min leg.qtyFilled pos.quantity, leg.orderId⟩

def planTradeClose (entryLegs : List EntryLeg) (posBySymbol : String → Option OpenPosition) :
    List PlannedClose × List SkippedLeg :=
  (entryLegs.filterMap fun leg => (planLeg posBySymbol leg).getRight?,
    entryLegs.filterMap fun leg => (planLeg posBySymbol leg).getLeft?)

/-- The filled entry legs of a trade, in `leg_idx` order. -/
def filledEntryLegs (db : Db) (tradeId : ℕ) : List EntryLeg :=
  ((entryOrders db tradeId).filter fun p => 0 < p.1.qtyFilled).map fun p =>
    ⟨p.2, p.1.ibLocalSymbol, p.1.qtyFilled⟩

/-- `pos_by_symbol`: the first mirror row of each contract. -/
def posBySymbol (db : Db) (sym : String) : Option OpenPosition :=
  if sym = "" then none else db.openPositions.find? fun p => p.localSymbol = sym

structure SentClose where
  entryOrderId : ℕ
  side : Side
  qty : ℕ
  deriving DecidableEq

/-- A `close_trade` call with the legs it has still to close. -/
structure TradeCloseCall where
  items : List PlannedClose
  limitPrice : Option ℚ

structure TradeCloseWorld where
  db : Db
  calls : List TradeCloseCall
  planned : List (List PlannedClose)
  sent : List SentClose

def TradeCloseWorld.empty : TradeCloseWorld := ⟨Db.empty, [], [], []⟩

inductive TradeCloseEvent
  | book (e : Event)
  | planTrade (tradeId : ℕ) (limitPrice : Option ℚ)
  | closeNext (k : ℕ) (rth : Bool) (now : Instant)

/-- `close_one_open_position` for one planned leg; an `HTTPException` sends nothing. -/
def closePlanned (w : TradeCloseWorld) (it : PlannedClose) (limitPrice : Option ℚ) (rth : Bool)
    (now : Instant) : TradeCloseWorld :=
  match closeOneOpenPosition w.db it.pos it.qty limitPrice (some it.entryOrderId) rth now with
  | .error _ => w
  | .ok (db', _) =>
    { w with db := db', sent := w.sent ++ [⟨it.entryOrderId, it.pos.side.opposite, it.qty⟩] }

def tradeCloseStep (w : TradeCloseWorld) : TradeCloseEvent → TradeCloseWorld
  | .book e => { w with db := step w.db e }
  | .planTrade tradeId limitPrice =>
    let plan := (planTradeClose (filledEntryLegs w.db tradeId) (posBySymbol w.db)).1
    { w with calls := w.calls ++ [⟨plan, limitPrice⟩], planned := w.planned ++ [plan] }
  | .closeNext k rth now =>
    match w.calls[k]? with
    | none | some ⟨[], _⟩ => w
    | some ⟨it :: items, limitPrice⟩ =>
      closePlanned { w with calls := w.calls.set k ⟨items, limitPrice⟩ } it limitPrice rth now

def sentFor (w : TradeCloseWorld) (e : ℕ) : ℕ :=
  ((w.sent.filter fun s => s.entryOrderId = e).map (·.qty)).sum

/-- What a plan closes of one contract. -/
def plannedOn (plan : List PlannedClose) (sym : String) : ℕ :=
  ((plan.filter fun it => it.pos.localSymbol = sym).map (·.qty)).sum

structure ClosesOwnLots (w : TradeCloseWorld) : Prop where
  side : ∀ s ∈ w.sent, ∀ o ∈ w.db.orders[s.entryOrderId]?, s.side ≠ o.side
  planned : ∀ plan ∈ w.planned, ∀ it ∈ plan, plannedOn plan it.pos.localSymbol ≤ it.pos.quantity
  sent : ∀ e, ∀ o ∈ w.db.orders[e]?, sentFor w e ≤ o.qtyFilled

/-- The leg is planned, and on this contract. -/
def plansOn (posBySymbol : String → Option OpenPosition) (sym : String) (leg : EntryLeg) : Bool :=
  ((planLeg posBySymbol leg).getRight?).any fun it => it.pos.localSymbol = sym

/-- Where several legs are planned on one contract, their filled quantities together are at
most what the mirror shows. -/
def SharesFit (legs : List EntryLeg) (posBySymbol : String → Option OpenPosition) : Prop :=
  ∀ leg ∈ legs, ∀ it ∈ (planLeg posBySymbol leg).getRight?,
    (legs.filter (plansOn posBySymbol it.pos.localSymbol)).length ≤ 1 ∨
    ((legs.filter (plansOn posBySymbol it.pos.localSymbol)).map (·.qtyFilled)).sum ≤
      it.pos.quantity

instance (legs : List EntryLeg) (posBySymbol : String → Option OpenPosition) :
    Decidable (SharesFit legs posBySymbol) :=
  inferInstanceAs (Decidable (∀ leg ∈ legs, ∀ it ∈ (planLeg posBySymbol leg).getRight?, _ ∨ _))

section Plans
variable {bySymbol : String → Option OpenPosition} {legs : List EntryLeg} {leg : EntryLeg}
  {it : PlannedClose}

/-- Capping positive amounts at a bound keeps their sum within it just when there is at most
one of them or they fit by themselves. -/
theorem sum_min_le_iff {qs : List ℕ} {m : ℕ} (hpos : ∀ q ∈ qs, 0 < min q m) :
    (qs.map fun q => min q m).sum ≤ m ↔ qs.length ≤ 1 ∨ qs.sum ≤ m := by
  constructor
  · intro hle
    by_cases hone : qs.length ≤ 1
    · exact .inl hone
    · right
      have hbelow : ∀ p ∈ qs, min p m = p := by
        intro p hp
        have hsplit := List.sum_map_erase (fun q => min q m) hp
        have hne : qs.erase p ≠ [] := by
          intro hnil
          have hlen := List.length_erase_of_mem hp
          rw [hnil, List.length_nil] at hlen
          omega
        obtain ⟨q, hq⟩ := List.exists_mem_of_ne_nil _ hne
        have hother := List.single_le_sum (fun n _ => Nat.zero_le n) _
          (List.mem_map_of_mem (f := fun q => min q m) hq)
        have hqpos := hpos q (List.mem_of_mem_erase hq)
        omega
      have hsame : (qs.map fun q => min q m) = qs := by
        conv_rhs => rw [← List.map_id qs]
        exact List.map_congr_left hbelow
      rwa [hsame] at hle
  · rintro (hone | hsum)
    · match qs with
      | [] => simp
      | [q] => simp
      | q :: q' :: qs => simp at hone
    · refine le_trans ?_ hsum
      have hpoint : (qs.map fun q => min q m).sum ≤ (qs.map id).sum :=
        List.sum_le_sum fun q _ => min_le_left q m
      simpa using hpoint

/-- A leg is capped at what it filled and at what the mirror shows. -/
theorem planLeg_planned (h : planLeg bySymbol leg = .inr it) :
    it.qty = min leg.qtyFilled it.pos.quantity ∧ 0 < it.qty ∧ it.entryOrderId = leg.orderId ∧
      ∃ sym, bySymbol sym = some it.pos := by
  unfold planLeg at h
  split at h
  · cases h
  · next sym hsym =>
    split at h
    · cases h
    · next pos hpos =>
      split_ifs at h with hzero
      obtain rfl := Sum.inr.inj h
      exact ⟨rfl, Nat.pos_of_ne_zero hzero, rfl, sym, hpos⟩

theorem posBySymbol_symbol {db : Db} {sym : String} {pos : OpenPosition}
    (h : posBySymbol db sym = some pos) : pos.localSymbol = sym := by
  unfold posBySymbol at h
  split_ifs at h
  simpa using List.find?_some h

/-- On one contract, a plan closes the capped quantities of the legs planned there. -/
theorem plannedOn_plan {sym : String} {m : ℕ}
    (hcap : ∀ leg it, planLeg bySymbol leg = .inr it → it.pos.localSymbol = sym →
      it.pos.quantity = m) (legs : List EntryLeg) :
    plannedOn (planTradeClose legs bySymbol).1 sym =
      ((legs.filter (plansOn bySymbol sym)).map fun leg => min leg.qtyFilled m).sum := by
  induction legs with
  | nil => rfl
  | cons leg legs ih =>
    unfold plannedOn planTradeClose at ih ⊢
    cases hplan : planLeg bySymbol leg with
    | inl skipped => simpa [hplan, plansOn] using ih
    | inr it =>
      obtain ⟨hqty, _⟩ := planLeg_planned hplan
      by_cases hsym : it.pos.localSymbol = sym
      · have hm := hcap leg it hplan hsym
        simp [hplan, plansOn, hsym, hqty, hm] at ih ⊢
        exact ih
      · simpa [hplan, plansOn, hsym] using ih

/-- The quantities planned on a contract fit the mirror exactly when the shares do. -/
theorem planned_fits_iff (hbysym : ∀ sym pos, bySymbol sym = some pos → pos.localSymbol = sym) :
    (∀ it ∈ (planTradeClose legs bySymbol).1,
      plannedOn (planTradeClose legs bySymbol).1 it.pos.localSymbol ≤ it.pos.quantity) ↔
      SharesFit legs bySymbol := by
  have hone : ∀ leg it, planLeg bySymbol leg = .inr it →
      (plannedOn (planTradeClose legs bySymbol).1 it.pos.localSymbol ≤ it.pos.quantity ↔
        (legs.filter (plansOn bySymbol it.pos.localSymbol)).length ≤ 1 ∨
        ((legs.filter (plansOn bySymbol it.pos.localSymbol)).map (·.qtyFilled)).sum ≤
          it.pos.quantity) := by
    intro leg it hplan
    obtain ⟨_, _, _, sym, hpos⟩ := planLeg_planned hplan
    -- all legs planned on this contract meet the same mirror row
    have hcap : ∀ leg' it', planLeg bySymbol leg' = .inr it' →
        it'.pos.localSymbol = it.pos.localSymbol → it'.pos.quantity = it.pos.quantity := by
      intro leg' it' hplan' hsym
      obtain ⟨_, _, _, sym', hpos'⟩ := planLeg_planned hplan'
      rw [hbysym sym it.pos hpos, hbysym sym' it'.pos hpos'] at hsym
      rw [hsym, hpos] at hpos'
      rw [Option.some.inj hpos']
    rw [plannedOn_plan hcap, ← List.length_map (fun leg => leg.qtyFilled), ← sum_min_le_iff,
      List.map_map]
    · rfl
    · intro q hq
      obtain ⟨leg', hleg', rfl⟩ := List.mem_map.mp hq
      have hon := (List.mem_filter.mp hleg').2
      unfold plansOn at hon
      cases hplan' : planLeg bySymbol leg' with
      | inl skipped =>
        rw [hplan'] at hon
        cases hon
      | inr it' =>
        rw [hplan'] at hon
        have hsym : it'.pos.localSymbol = it.pos.localSymbol := of_decide_eq_true hon
        obtain ⟨hqty, hpositive, _⟩ := planLeg_planned hplan'
        rw [← hcap leg' it' hplan' hsym, ← hqty]
        exact hpositive
  constructor
  · intro h leg hleg it hit
    have hplan : planLeg bySymbol leg = .inr it := Sum.getRight?_eq_some_iff.mp hit
    apply (hone leg it hplan).mp
    exact h it (List.mem_filterMap.mpr ⟨leg, hleg, hit⟩)
  · intro h it hit
    obtain ⟨leg, hleg, hit'⟩ := List.mem_filterMap.mp hit
    have hplan : planLeg bySymbol leg = .inr it := Sum.getRight?_eq_some_iff.mp hit'
    exact (hone leg it hplan).mpr (h leg hleg it hit')

end Plans

/-- The book keeps counting its fills and the planned shares fit.  A leg that passes the checks of its close is on the
side of the mirror row, and nothing was sent for it before, or no more than leaves what the row showed. -/
def KeepsLots (w : TradeCloseWorld) : TradeCloseEvent → Prop
  | .book e => KeepsBook w.db e
  | .planTrade tradeId _ => SharesFit (filledEntryLegs w.db tradeId) (posBySymbol w.db)
  | .closeNext k _ now => ∀ call ∈ w.calls[k]?, ∀ it ∈ call.items.head?,
      alreadyClosing w.db it.pos now + it.qty ≤ it.pos.quantity →
      ∀ o ∈ w.db.orders[it.entryOrderId]?,
        it.pos.side = o.side ∧
          (sentFor w it.entryOrderId = 0 ∨ sentFor w it.entryOrderId + it.pos.quantity ≤ o.qtyFilled)

instance (w : TradeCloseWorld) : ∀ e, Decidable (KeepsLots w e)
  | .book e => inferInstanceAs (Decidable (KeepsBook w.db e))
  | .planTrade tradeId _ => inferInstanceAs (Decidable
      (SharesFit (filledEntryLegs w.db tradeId) (posBySymbol w.db)))
  | .closeNext k _ now => inferInstanceAs (Decidable (∀ call ∈ w.calls[k]?,
      ∀ it ∈ call.items.head?, alreadyClosing w.db it.pos now + it.qty ≤ it.pos.quantity →
      ∀ o ∈ w.db.orders[it.entryOrderId]?, it.pos.side = o.side ∧ (_ ∨ _)))

/-- A planned close is of a known leg, and of no more than the leg has filled and the mirror row showed. -/
structure PlannedClose.Capped (db : Db) (it : PlannedClose) : Prop where
  known : it.entryOrderId < db.orders.length
  mirror : it.qty ≤ it.pos.quantity
  filled : ∀ o ∈ db.orders[it.entryOrderId]?, it.qty ≤ o.qtyFilled

structure LotsInvariant (w : TradeCloseWorld) : Prop where
  wellFormed : w.db.WellFormed
  consistent : w.db.Consistent
  items : ∀ call ∈ w.calls, ∀ it ∈ call.items, it.Capped w.db
  known : ∀ s ∈ w.sent, s.entryOrderId < w.db.orders.length
  lots : ClosesOwnLots w

section Runs
variable {w : TradeCloseWorld}

/-- A transaction of the book that keeps counting its fills takes none away from an order. -/
theorem qtyFilled_grows (h : LotsInvariant w) {e : Event} (hg : KeepsBook w.db e) {i : ℕ} {o o' : StructureOrder}
    (ho : w.db.orders[i]? = some o) (ho' : (step w.db e).orders[i]? = some o') : o.qtyFilled ≤ o'.qtyFilled := by
  obtain ⟨o'', ho'', -, hle⟩ := step_evolves w.db e _ _ ho
  obtain rfl : o'' = o' := Option.some.inj (ho''.symm.trans ho')
  have hc := step_consistent h.wellFormed h.consistent hg
  rw [(h.consistent.rows i o ho).qtyFilled, (hc.rows i o'' ho').qtyFilled]
  exact hle

/-- It keeps the lots. -/
theorem LotsInvariant.book (h : LotsInvariant w) {e : Event} (hg : KeepsBook w.db e) :
    LotsInvariant { w with db := step w.db e } := by
  have hlen := step_length_le w.db e
  refine ⟨step_wellFormed e h.wellFormed, step_consistent h.wellFormed h.consistent hg, ?_, ?_, ?_, h.lots.planned, ?_⟩
  · intro call hcall it hit
    obtain ⟨hknown, hmirror, hfilled⟩ := h.items call hcall it hit
    refine ⟨hknown.trans_le hlen, hmirror, fun o' ho' => ?_⟩
    have ho := List.getElem?_eq_getElem hknown
    exact (hfilled _ ho).trans (qtyFilled_grows h hg ho ho')
  · intro s hs
    exact (h.known s hs).trans_le hlen
  · intro s hs o' ho'
    have ho := List.getElem?_eq_getElem (h.known s hs)
    obtain ⟨o'', ho'', hleg, _⟩ := step_evolves w.db e _ _ ho
    obtain rfl : o'' = o' := Option.some.inj (ho''.symm.trans ho')
    rw [leg_side hleg]
    exact h.lots.side s hs _ ho
  · intro i o' ho'
    by_cases hi : i < w.db.orders.length
    · have ho := List.getElem?_eq_getElem hi
      exact (h.lots.sent i _ ho).trans (qtyFilled_grows h hg ho ho')
    · have hnone : sentFor w i = 0 := by
        rw [sentFor, List.filter_eq_nil_iff.mpr]
        · rfl
        · intro s hs
          have hlt := h.known s hs
          simp only [decide_eq_true_eq]
          omega
      exact hnone.le.trans (Nat.zero_le _)

theorem filledEntryLegs_row {db : Db} {tradeId : ℕ} {leg : EntryLeg} (h : leg ∈ filledEntryLegs db tradeId) :
    ∃ o, db.orders[leg.orderId]? = some o ∧ leg.qtyFilled = o.qtyFilled := by
  obtain ⟨p, hp, rfl⟩ := List.mem_map.mp h
  have hmem := List.mem_of_mem_filter (List.mem_of_mem_filter (List.mem_of_mem_filter hp))
  exact ⟨p.1, List.mem_zipIdx_iff_getElem?.mp hmem, rfl⟩

theorem planTradeClose_capped {db : Db} {tradeId : ℕ} {bySymbol : String → Option OpenPosition} {it : PlannedClose}
    (h : it ∈ (planTradeClose (filledEntryLegs db tradeId) bySymbol).1) : it.Capped db := by
  obtain ⟨leg, hleg, hplan⟩ := List.mem_filterMap.mp h
  obtain ⟨hqty, -, hid, -⟩ := planLeg_planned (Sum.getRight?_eq_some_iff.mp hplan)
  obtain ⟨o, ho, hfilled⟩ := filledEntryLegs_row hleg
  rw [← hid] at ho
  refine ⟨(List.getElem?_eq_some_iff.mp ho).1, hqty.trans_le (min_le_right _ _), fun o' ho' => ?_⟩
  obtain rfl : o = o' := Option.some.inj (ho.symm.trans ho')
  exact (hqty.trans_le (min_le_left _ _)).trans_eq hfilled

/-- One more close sent, of a capped quantity, for a leg on the mirror's side -/
theorem LotsInvariant.close (h : LotsInvariant w) {it : PlannedClose} (hcapped : it.Capped w.db) (lp : Option ℚ)
    (rth : Bool) (now : Instant)
    (hg : alreadyClosing w.db it.pos now + it.qty ≤ it.pos.quantity → ∀ o ∈ w.db.orders[it.entryOrderId]?,
      it.pos.side = o.side ∧
        (sentFor w it.entryOrderId = 0 ∨ sentFor w it.entryOrderId + it.pos.quantity ≤ o.qtyFilled)) :
    LotsInvariant (closePlanned w it lp rth now) := by
  cases hok : closeOneOpenPosition w.db it.pos it.qty lp (some it.entryOrderId) rth now with
  | error e =>
    rw [closePlanned, hok]
    exact h
  | ok r =>
    obtain ⟨db', k⟩ := r
    obtain ⟨_, hpasses, _⟩ := closeOneOpenPosition_ok hok
    have hdb' : db' = step w.db (.closeRequest it.pos it.qty lp (some it.entryOrderId) rth now) := by
      simp only [step, hok]
    have hkeeps : KeepsBook w.db (.closeRequest it.pos it.qty lp (some it.entryOrderId) rth now) :=
      trivial
    have hbook := h.book hkeeps
    obtain ⟨o, ho⟩ : ∃ o, w.db.orders[it.entryOrderId]? = some o := ⟨_, List.getElem?_eq_getElem hcapped.known⟩
    obtain ⟨hside, honce⟩ := hg hpasses _ ho
    -- the cap of the plan: all that the leg filled the first time, what the mirror row showed after that
    have hroom : sentFor w it.entryOrderId + it.qty ≤ o.qtyFilled := by
      rcases honce with hfirst | hmirror
      · rw [hfirst, zero_add]
        exact hcapped.filled _ ho
      · exact (Nat.add_le_add_left hcapped.mirror _).trans hmirror
    obtain ⟨o', ho', hleg, -⟩ := step_evolves w.db
      (.closeRequest it.pos it.qty lp (some it.entryOrderId) rth now) _ _ ho
    have hgrows := qtyFilled_grows h hkeeps ho ho'
    rw [← hdb'] at ho' hbook
    rw [closePlanned, hok]
    refine ⟨hbook.wellFormed, hbook.consistent, hbook.items, ?_, ?_, h.lots.planned, ?_⟩
    · intro s hs
      rcases List.mem_append.mp hs with hold | hnew
      · exact hbook.known s hold
      · rw [List.mem_singleton.mp hnew]
        exact (List.getElem?_eq_some_iff.mp ho').1
    · intro s hs o'' ho''
      rcases List.mem_append.mp hs with hold | hnew
      · exact hbook.lots.side s hold o'' ho''
      · rw [List.mem_singleton.mp hnew] at ho'' ⊢
        obtain rfl : o' = o'' := Option.some.inj (ho'.symm.trans ho'')
        rw [leg_side hleg, ← hside]
        exact Side.opposite_ne it.pos.side
    · intro i o'' ho''
      have hbefore := hbook.lots.sent i o'' ho''
      simp only [sentFor, List.filter_append, List.map_append, List.sum_append] at hbefore ⊢
      by_cases hi : it.entryOrderId = i
      · subst hi
        obtain rfl : o' = o'' := Option.some.inj (ho'.symm.trans ho'')
        simp only [sentFor] at hroom
        simp only [decide_true, List.filter_cons_of_pos, List.filter_nil, List.map_cons,
          List.map_nil, List.sum_cons, List.sum_nil]
        omega
      · simpa [hi] using hbefore

theorem tradeCloseStep_lots (h : LotsInvariant w) {ev : TradeCloseEvent} (hg : KeepsLots w ev) :
    LotsInvariant (tradeCloseStep w ev) := by
  cases ev with
  | book e => exact h.book hg
  | planTrade tradeId lp =>
    have hbysym : ∀ sym pos, posBySymbol w.db sym = some pos → pos.localSymbol = sym :=
      fun _ _ hpos => posBySymbol_symbol hpos
    refine ⟨h.wellFormed, h.consistent, ?_, h.known, h.lots.side, ?_, h.lots.sent⟩
    · intro call hcall it hit
      rcases List.mem_append.mp hcall with hold | hnew
      · exact h.items call hold it hit
      · rw [List.mem_singleton.mp hnew] at hit
        exact planTradeClose_capped hit
    · intro plan hplan
      rcases List.mem_append.mp hplan with hold | hnew
      · exact h.lots.planned plan hold
      · rw [List.mem_singleton.mp hnew]
        exact (planned_fits_iff hbysym).mpr hg
  | closeNext k rth now =>
    simp only [tradeCloseStep]
    cases hk : w.calls[k]? with
    | none => exact h
    | some call =>
      obtain ⟨items, lp⟩ := call
      cases items with
      | nil => exact h
      | cons it items =>
        have hitems := h.items _ (List.mem_of_getElem? hk)
        have hrest : LotsInvariant { w with calls := w.calls.set k ⟨items, lp⟩ } := by
          refine ⟨h.wellFormed, h.consistent, ?_, h.known, h.lots.side, h.lots.planned, h.lots.sent⟩
          intro call hcall it' hit'
          rcases List.mem_or_eq_of_mem_set hcall with hold | rfl
          · exact h.items call hold it' hit'
          · exact hitems it' (List.mem_cons_of_mem _ hit')
        exact hrest.close (hitems it List.mem_cons_self) lp rth now (hg _ hk it rfl)

theorem lotsInvariant_empty : LotsInvariant TradeCloseWorld.empty where
  wellFormed := wellFormed_empty
  consistent := consistent_empty
  items call hcall := by cases hcall
  known s hs := by cases hs
  lots := by
    refine ⟨?_, ?_, ?_⟩
    · intro s hs
      cases hs
    · intro plan hplan
      cases hplan
    · intro e o ho
      simp [TradeCloseWorld.empty, Db.empty] at ho

/-- In every run that keeps the lots, trade closes act on the trade's own lots. -/
theorem trade_closes_own_lots (hrun : Run tradeCloseStep KeepsLots TradeCloseWorld.empty w) :
    ClosesOwnLots w := by
  have hall := hrun.invariant (fun _ _ hs hg => tradeCloseStep_lots hs hg) lotsInvariant_empty
  exact hall.lots

/-- A leg of ten is closed by its trade while a sibling holds ten of the same contract. -/
def closedOwnLots : List TradeCloseEvent :=
  [.book (.submitPreview [callLeg .buy 10] 0), .book (.submitPreview [callLeg .buy 10] 0),
    .book (.execution 0 (execution "a" "BOT" 10 none) 1),
    .book (.execution 1 (execution "b" "BOT" 10 none) 1),
    .book (.syncPositions [callPosition .buy 20]), .planTrade 0 none, .closeNext 0 true 2,
    .book (.execution 2 (execution "c" "SLD" 10 none) 3)]

theorem trade_closes_own_lots_closedOwnLots :
    ClosesOwnLots (closedOwnLots.foldl tradeCloseStep TradeCloseWorld.empty) :=
  trade_closes_own_lots (Run.of_foldl closedOwnLots (by decide +kernel))

/-- The signed quantity all executions have left on a contract. -/
def netOn (db : Db) (sym : String) : ℤ :=
  total (fun i o => if o.ibLocalSymbol = some sym then (foldFills (db.fillsOf i)).openQty else 0)
    db.orders

/-- The mirror shows one row for each contract held, with its net side and quantity. -/
def MirrorConsistent (db : Db) : Prop :=
  (db.openPositions.map (·.localSymbol)).Nodup ∧
  (∀ p ∈ db.openPositions, 0 < p.quantity ∧ signed p.side p.quantity = netOn db p.localSymbol) ∧
  ∀ o ∈ db.orders, ∀ sym ∈ o.ibLocalSymbol, netOn db sym ≠ 0 →
    ∃ p ∈ db.openPositions, p.localSymbol = sym

instance (db : Db) : Decidable (MirrorConsistent db) := inferInstanceAs (Decidable (_ ∧ _ ∧ _))

def OnConsistentMirror (w : TradeCloseWorld) : TradeCloseEvent → Prop
  | .planTrade _ _ => MirrorConsistent w.db
  | _ => True

instance (w : TradeCloseWorld) : ∀ e, Decidable (OnConsistentMirror w e)
  | .planTrade _ _ => inferInstanceAs (Decidable (MirrorConsistent w.db))
  | .book _ | .closeNext .. => .isTrue trivial

/-- A sibling that is short more of the contract turns the mirror over: the close of the long
leg buys. -/
def closedAgainstSibling : List TradeCloseEvent :=
  [.book (.submitPreview [callLeg .buy 10] 0), .book (.submitPreview [callLeg .sell 15] 0),
    .book (.execution 0 (execution "a" "BOT" 10 none) 1),
    .book (.execution 1 (execution "b" "SLD" 15 none) 1),
    .book (.syncPositions [callPosition .sell 5]), .planTrade 0 none, .closeNext 0 true 2]

theorem close_on_entry_side :
    ¬ ∀ w, Run tradeCloseStep OnConsistentMirror TradeCloseWorld.empty w → ClosesOwnLots w := by
  intro h
  have hlots := h _ (Run.of_foldl closedAgainstSibling (by decide +kernel))
  have hside := hlots.side
  revert hside
  decide +kernel

end Runs

end FxVol
