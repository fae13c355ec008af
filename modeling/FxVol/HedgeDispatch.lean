import FxVol.HedgeConvergence
import FxVol.KeyedPasses

/-!
# The dispatch of a hedge

The monitor posts the id of a new hedge and nothing else; the execution engine builds a future from what it was posted
(`submit_hedge_order`), asks IB to qualify it, and places the hedge on the contract that IB returns.
-/
namespace FxVol.HedgeDispatch

open PositionPricing (Market)

structure Contract where
  symbol : String
  secType : String
  exchange : String
  currency : String
  lastTradeDateOrContractMonth : String
  deriving DecidableEq

/-- What is left blank fits any contract, and a month any date in it. -/
def Contract.Fits (given listed : Contract) : Prop :=
  given.symbol = listed.symbol ∧ given.secType = listed.secType ∧ given.exchange = listed.exchange ∧
    given.currency = listed.currency ∧
    given.lastTradeDateOrContractMonth.toList.isPrefixOf listed.lastTradeDateOrContractMonth.toList = true

instance (given listed : Contract) : Decidable (given.Fits listed) := inferInstanceAs (Decidable (_ ∧ _))

structure Ticker where
  bid : Option ℚ
  ask : Option ℚ
  deriving DecidableEq

/-- IB as a request finds it; `ticker` is none where `reqMktData` raises, and `raises` is of `placeOrder`. -/
structure Gateway where
  connected : Bool
  listed : List Contract
  ticker : Contract → Option Ticker
  raises : Bool
  orderId : ℕ → ℕ

/-- `qualifyContractsAsync` of one contract: it returns a contract when one listed contract fits, and nothing when none
or several do. -/
def Gateway.qualify (gw : Gateway) (given : Contract) : List Contract :=
  match gw.listed.filter fun c => given.Fits c with
  | [contract] => [contract]
  | _ => []

structure HedgeAtIb where
  hedgeId : ℕ
  contract : Contract
  side : Side
  qty : ℕ
  limitPrice : ℚ
  orderRef : String
  deriving DecidableEq

structure Desk where
  hedges : List PositionHedge
  orders : List HedgeAtIb

def Desk.write (d : Desk) (id : ℕ) (f : PositionHedge → PositionHedge) : Desk := { d with hedges := d.hedges.modify id f }

inductive SubmitError
  | notConnected | notFound | notQualified | noLimitPrice | alreadyClaimed | placeOrderRaised
  deriving DecidableEq

structure HedgeOrderBody where
  hedgeOrderId : ℕ
  frontMonthExpiry : Option String
  limitPrice : Option ℚ

/-- The EUR future that the engine asks for, of any month unless one is posted -/
def hedgeContract (frontMonthExpiry : Option String) : Contract where
  symbol := "EUR"
  secType := "FUT"
  exchange := "CME"
  currency := "USD"
  lastTradeDateOrContractMonth := frontMonthExpiry.getD ""

def limitOf (limitPrice : Option ℚ) (side : Side) (ticker : Option Ticker) : Option ℚ :=
  limitPrice.or <| ticker.bind fun t => (if side = .buy then t.ask else t.bid).filter fun quote => 0 < quote

def failRow (h : PositionHedge) : PositionHedge := { h with state := .failed }

section Submit
variable (gw : Gateway) (now : Instant)

def placeWithClaim (d : Desk) (id : ℕ) (hedge : PositionHedge) (contract : Contract) (lmt : ℚ) :
    Desk × Except SubmitError HedgeState :=
  if hedge.submitClaimedAt = none ∧ hedge.ibOrderId = none then
    let claimed := d.write id fun h => { h with submitClaimedAt := some now }
    if gw.raises then (claimed.write id fun h => { h with submitClaimedAt := none }, .error .placeOrderRaised)
    else
      let order : HedgeAtIb := ⟨id, contract, hedge.side, hedge.hedgeQty, lmt, "fxvol:hedge:" ++ toString id⟩
      let stamped := claimed.write id fun h =>
        { h with ibOrderId := some (gw.orderId id), submittedAt := some now, state := .submitted }
      ({ stamped with orders := stamped.orders ++ [order] }, .ok .submitted)
  else (d, .error .alreadyClaimed)

def submitHedgeOrder (d : Desk) (body : HedgeOrderBody) : Desk × Except SubmitError HedgeState :=
  let id := body.hedgeOrderId
  if gw.connected = false then (d, .error .notConnected)
  else match d.hedges[id]? with
    | none => (d, .error .notFound)
    | some hedge =>
      if hedge.state ≠ .pending then (d, .ok hedge.state)
      else match gw.qualify (hedgeContract body.frontMonthExpiry) with
        | [] => (d.write id failRow, .error .notQualified)
        | contract :: _ =>
          match limitOf body.limitPrice hedge.side (gw.ticker contract) with
          | none => (d.write id failRow, .error .noLimitPrice)
          | some lmt =>
            if lmt ≤ 0 then (d.write id failRow, .error .noLimitPrice)
            else placeWithClaim gw now d id hedge contract lmt

/-- `_dispatch_pending_hedges`: whatever the answer, the next id is posted. -/
def dispatchPendingHedges (d : Desk) (ids : List ℕ) : Desk :=
  ids.foldl (fun d id => (submitHedgeOrder gw now d ⟨id, none, none⟩).1) d

end Submit

/-- The hedge table in a cycle, and `_pending_hedge_ids` -/
structure Monitoring where
  hedges : List PositionHedge
  pendingHedgeIds : List ℕ

/-- A visit of `_monitor_one` to a position -/
structure Visit where
  tables : Db
  positionId : ℕ
  market : Market
  now : Instant

def visit (cfg : HedgeConfig) (executeHedge : Bool) (m : Monitoring) (v : Visit) : Monitoring :=
  let hedges := monitorOne cfg m.hedges v.tables v.positionId v.market v.now
  let created := List.range' m.hedges.length (hedges.length - m.hedges.length)
  ⟨hedges, if executeHedge then m.pendingHedgeIds ++ created else m.pendingHedgeIds⟩

def runCycle (cfg : HedgeConfig) (executeHedge : Bool) (hedges : List PositionHedge) (visits : List Visit) : Monitoring :=
  visits.foldl (visit cfg executeHedge) ⟨hedges, []⟩

/-- One order is at IB for the hedge, on a listed EUR future, with its side and quantity, and its row has not failed. -/
structure Reached (gw : Gateway) (d : Desk) (id : ℕ) (row : PositionHedge) : Prop where
  order : ∃ o, d.orders.filter (fun o => o.hedgeId = id) = [o] ∧ o.side = row.side ∧ o.qty = row.hedgeQty ∧
    o.contract ∈ gw.listed ∧ (hedgeContract none).Fits o.contract
  row : ∃ h ∈ d.hedges[id]?, h.state ≠ .failed

/-- Every listed future has a bid and an ask. -/
def Gateway.Quoted (gw : Gateway) : Prop :=
  ∀ c ∈ gw.listed, ∃ t, gw.ticker c = some t ∧ (∃ bid ∈ t.bid, 0 < bid) ∧ ∃ ask ∈ t.ask, 0 < ask

/-- A row that waits for its first submission -/
structure Fresh (h : PositionHedge) : Prop where
  state : h.state = .pending
  claim : h.submitClaimedAt = none
  ids : h.ibOrderId = none

theorem monitorOne_fresh (cfg : HedgeConfig) (hedges : List PositionHedge) (v : Visit) :
    monitorOne cfg hedges v.tables v.positionId v.market v.now = hedges ∨
      ∃ row, Fresh row ∧ monitorOne cfg hedges v.tables v.positionId v.market v.now = hedges ++ [row] := by
  rw [monitorOne]
  split_ifs with hopen
  · split
    · exact Or.inr ⟨_, ⟨rfl, rfl, rfl⟩, rfl⟩
    · exact Or.inl rfl
  · exact Or.inl rfl

/-- A cycle that started on `n` rows has added fresh ones, and is to dispatch these. -/
structure Created (n : ℕ) (m : Monitoring) : Prop where
  old : n ≤ m.hedges.length
  ids : m.pendingHedgeIds = List.range' n (m.hedges.length - n)
  fresh : ∀ id row, n ≤ id → m.hedges[id]? = some row → Fresh row

theorem created_start (hedges : List PositionHedge) : Created hedges.length ⟨hedges, []⟩ where
  old := le_refl _
  ids := by simp
  fresh id row hid hrow := by
    rw [List.getElem?_eq_none hid] at hrow
    cases hrow

theorem Created.visit {n : ℕ} {m : Monitoring} (h : Created n m) (cfg : HedgeConfig) (v : Visit) :
    Created n (visit cfg true m v) := by
  rcases monitorOne_fresh cfg m.hedges v with hsame | ⟨row, hrow, hadd⟩
  · have hvisit : HedgeDispatch.visit cfg true m v = m := by
      simp [HedgeDispatch.visit, hsame]
    rw [hvisit]
    exact h
  · have hvisit : HedgeDispatch.visit cfg true m v = ⟨m.hedges ++ [row], m.pendingHedgeIds ++ [m.hedges.length]⟩ := by
      simp [HedgeDispatch.visit, hadd]
    rw [hvisit]
    have hold := h.old
    constructor
    · rw [List.length_append]
      omega
    · have hlast : m.hedges.length = n + (m.hedges.length - n) := by omega
      have hlength : (m.hedges ++ [row]).length - n = (m.hedges.length - n) + 1 := by
        rw [List.length_append, List.length_singleton]
        omega
      rw [hlength, h.ids, List.range'_concat, one_mul, ← hlast]
    · intro id r hid hr
      rw [List.getElem?_append] at hr
      split_ifs at hr with hlt
      · exact h.fresh id r hid hr
      · rw [List.mem_singleton.mp (List.mem_of_getElem? hr)]
        exact hrow

theorem runCycle_created (cfg : HedgeConfig) (hedges : List PositionHedge) (visits : List Visit) :
    Created hedges.length (runCycle cfg true hedges visits) := by
  have hpasses := KeyedPasses.passes_foldl (visit cfg true) visits ⟨hedges, []⟩
  apply hpasses.invariant (I := Created hedges.length) _ (created_start hedges)
  rintro v - m _ hm rfl
  exact hm.visit cfg v

def Desk.view (d : Desk) (id : ℕ) : Option PositionHedge × List HedgeAtIb :=
  (d.hedges[id]?, d.orders.filter fun o => o.hedgeId = id)

theorem view_write (d : Desk) (id : ℕ) (f : PositionHedge → PositionHedge) :
    (d.write id f).view id = ((d.hedges[id]?).map f, d.orders.filter fun o => o.hedgeId = id) := by
  simp [Desk.view, Desk.write]

theorem view_write_other (d : Desk) {id j : ℕ} (h : j ≠ id) (f : PositionHedge → PositionHedge) :
    (d.write id f).view j = d.view j := by
  simp [Desk.view, Desk.write, Ne.symm h]

section Submission
variable (gw : Gateway) (now : Instant)

theorem placeWithClaim_other (d : Desk) {id j : ℕ} (h : j ≠ id) (hedge : PositionHedge) (contract : Contract) (lmt : ℚ) :
    (placeWithClaim gw now d id hedge contract lmt).1.view j = d.view j := by
  rw [placeWithClaim]
  split_ifs with hclaim hraises
  · rw [view_write_other _ h, view_write_other _ h]
  · simp [Desk.view, Desk.write, Ne.symm h]
  · rfl

/-- A submission leaves the other hedges alone. -/
theorem submit_other (d : Desk) (body : HedgeOrderBody) {j : ℕ} (h : j ≠ body.hedgeOrderId) :
    (submitHedgeOrder gw now d body).1.view j = d.view j := by
  simp only [submitHedgeOrder]
  split_ifs with hconnected
  · rfl
  · split
    · rfl
    · split_ifs with hstate
      · rfl
      · split
        · exact view_write_other d h _
        · split
          · exact view_write_other d h _
          · split_ifs with hlmt
            · exact view_write_other d h _
            · exact placeWithClaim_other gw now d h _ _ _

variable {gw}

theorem qualify_eq (gw : Gateway) (given : Contract) :
    (∃ c, gw.listed.filter (fun c => given.Fits c) = [c] ∧ gw.qualify given = [c]) ∨
      (gw.listed.filter fun c => given.Fits c).length ≠ 1 ∧ gw.qualify given = [] := by
  rw [Gateway.qualify]
  split
  · rename_i c hc
    exact Or.inl ⟨c, hc, rfl⟩
  · rename_i hmany
    refine Or.inr ⟨fun hone => ?_, rfl⟩
    obtain ⟨c, hc⟩ := List.length_eq_one_iff.mp hone
    exact hmany c hc

/-- A quoted future has a positive limit for either side. -/
theorem limitOf_quoted (hquoted : gw.Quoted) {c : Contract} (hc : c ∈ gw.listed) (side : Side) :
    ∃ lmt, limitOf none side (gw.ticker c) = some lmt ∧ 0 < lmt := by
  obtain ⟨t, ht, ⟨bid, hbid, hbidPos⟩, ask, hask, haskPos⟩ := hquoted c hc
  cases side with
  | buy => exact ⟨ask, by simp [limitOf, ht, Option.mem_def.mp hask, haskPos], haskPos⟩
  | sell => exact ⟨bid, by simp [limitOf, ht, Option.mem_def.mp hbid, hbidPos], hbidPos⟩

/-- A fresh row is failed where no single future fits, and else placed. -/
theorem submit_fresh (hconnected : gw.connected = true) (hraises : gw.raises = false) (hquoted : gw.Quoted) {d : Desk}
    {id : ℕ} {row : PositionHedge} (hrow : d.hedges[id]? = some row) (hfresh : Fresh row) :
    let view := (submitHedgeOrder gw now d ⟨id, none, none⟩).1.view id
    let fitting := gw.listed.filter fun c => (hedgeContract none).Fits c
    (fitting.length ≠ 1 ∧ view = (some (failRow row), d.orders.filter fun o => o.hedgeId = id)) ∨
    ∃ c lmt, fitting = [c] ∧ view = (some { row with
        submitClaimedAt := some now, ibOrderId := some (gw.orderId id), submittedAt := some now, state := .submitted },
      (d.orders.filter fun o => o.hedgeId = id) ++
        [⟨id, c, row.side, row.hedgeQty, lmt, "fxvol:hedge:" ++ toString id⟩]) := by
  rcases qualify_eq gw (hedgeContract none) with ⟨c, hc, hqualified⟩ | ⟨hmany, hqualified⟩
  · have hlisted : c ∈ gw.listed := List.mem_of_mem_filter (hc ▸ List.mem_singleton_self c)
    obtain ⟨lmt, hlmt, hpos⟩ := limitOf_quoted hquoted hlisted row.side
    refine Or.inr ⟨c, lmt, hc, ?_⟩
    simp only [submitHedgeOrder, hconnected, hrow, hfresh.state, hqualified, hlmt, not_le.mpr hpos, placeWithClaim,
      hfresh.claim, hfresh.ids, hraises]
    simp [Desk.view, Desk.write, hrow]
  · refine Or.inl ⟨hmany, ?_⟩
    simp only [submitHedgeOrder, hconnected, hrow, hfresh.state, hqualified]
    simp [Desk.view, Desk.write, hrow]

end Submission

/-- Where IB is connected and quotes its futures, each hedge that a cycle creates reaches IB just where one EUR future
is listed. -/
theorem dispatched_iff (gw : Gateway) (hconnected : gw.connected = true) (hraises : gw.raises = false)
    (hquoted : gw.Quoted) (cfg : HedgeConfig) (hedges : List PositionHedge) (orders : List HedgeAtIb)
    (horders : ∀ o ∈ orders, o.hedgeId < hedges.length) (visits : List Visit) (now : Instant) :
    let m := runCycle cfg true hedges visits
    ∀ id row, hedges.length ≤ id → m.hedges[id]? = some row →
      (Reached gw (dispatchPendingHedges gw now ⟨m.hedges, orders⟩ m.pendingHedgeIds) id row ↔
        (gw.listed.filter fun c => (hedgeContract none).Fits c).length = 1) := by
  intro m id row hid hrow
  obtain ⟨hold, hids, hfresh⟩ := runCycle_created cfg hedges visits
  have hmem : id ∈ m.pendingHedgeIds := by
    have hlt : id < (runCycle cfg true hedges visits).hedges.length := (List.getElem?_eq_some_iff.mp hrow).1
    rw [hids, List.mem_range'_1]
    omega
  have hnodup : m.pendingHedgeIds.Nodup := by
    rw [hids]
    exact List.nodup_range'
  have hlocal : KeyedPasses.Local Desk.view fun d id d' => d' = (submitHedgeOrder gw now d ⟨id, none, none⟩).1 := by
    rintro d k - rfl j hj
    exact submit_other gw now d _ hj
  -- the pass of the hedge, in a state that has its row and no order of it yet
  obtain ⟨d, -, -, rfl, hbefore, hafter⟩ := (KeyedPasses.passes_foldl
    (fun d id => (submitHedgeOrder gw now d ⟨id, none, none⟩).1) m.pendingHedgeIds ⟨m.hedges, orders⟩).view_mem
      hlocal hnodup (I := fun _ => True) (fun _ _ _ _ _ => trivial) trivial hmem
  have hnone : orders.filter (fun o => o.hedgeId = id) = [] := by
    rw [List.filter_eq_nil_iff]
    intro o ho
    have := horders o ho
    simp only [decide_eq_true_eq]
    omega
  have hd : d.hedges[id]? = some row ∧ d.orders.filter (fun o => o.hedgeId = id) = [] := by
    rw [Desk.view, Desk.view, Prod.mk.injEq] at hbefore
    exact ⟨hbefore.1.trans hrow, hbefore.2.trans hnone⟩
  have hone := submit_fresh now hconnected hraises hquoted hd.1 (hfresh id row hid hrow)
  dsimp only at hone
  rw [hd.2, ← hafter, Desk.view] at hone
  change Reached gw (List.foldl _ _ _) id row ↔ _
  rcases hone with ⟨hmany, hview⟩ | ⟨c, lmt, hc, hview⟩
  · obtain ⟨hrows, horders⟩ := Prod.mk.inj hview
    refine iff_of_false ?_ hmany
    rintro ⟨⟨o, ho, -⟩, -⟩
    rw [horders] at ho
    cases ho
  · obtain ⟨hrows, horders⟩ := Prod.mk.inj hview
    have hmem : c ∈ gw.listed.filter fun c => (hedgeContract none).Fits c := by
      rw [hc]
      exact List.mem_singleton_self c
    obtain ⟨hlisted, hfits⟩ := List.mem_filter.mp hmem
    exact iff_of_true ⟨⟨_, horders, rfl, rfl, hlisted, of_decide_eq_true hfits⟩, ⟨_, hrows, by simp⟩⟩ (by rw [hc]; rfl)

def eurFuture (lastTradeDate : String) : Contract := ⟨"EUR", "FUT", "CME", "USD", lastTradeDate⟩

/-- IB with these futures, each quoted a tenth of a cent wide -/
def quoting (listed : List Contract) : Gateway :=
  ⟨true, listed, fun _ => some ⟨some (1084 / 1000), some (1085 / 1000)⟩, false, fun id => id⟩

theorem quoting_quoted (listed : List Contract) : (quoting listed).Quoted :=
  fun _ _ => ⟨_, rfl, ⟨_, rfl, by norm_num⟩, ⟨_, rfl, by norm_num⟩⟩

def hedgedCycle : Monitoring := runCycle .defaults true [] [⟨fourCalls, 0, halfDelta, 0⟩]

theorem dispatched_iff_june : ∃ row, hedgedCycle.hedges[0]? = some row ∧
    Reached (quoting [eurFuture "20260615"])
      (dispatchPendingHedges (quoting [eurFuture "20260615"]) 1 ⟨hedgedCycle.hedges, []⟩ hedgedCycle.pendingHedgeIds)
      0 row := by
  obtain ⟨row, hrow⟩ := Option.isSome_iff_exists.mp (show (hedgedCycle.hedges[0]?).isSome = true by decide +kernel)
  exact ⟨row, hrow, (dispatched_iff _ rfl rfl (quoting_quoted _) .defaults [] [] (by simp) [⟨fourCalls, 0, halfDelta, 0⟩]
    1 0 row (Nat.zero_le 0) hrow).mpr (by decide)⟩

/-- With June and September listed IB qualifies no future, and the hedge has failed for good. -/
theorem not_dispatched : ¬ ∀ (gw : Gateway) (visits : List Visit) (now : Instant),
    gw.connected = true → gw.raises = false → gw.Quoted →
      let m := runCycle .defaults true [] visits
      ∀ id row, m.hedges[id]? = some row →
        Reached gw (dispatchPendingHedges gw now ⟨m.hedges, []⟩ m.pendingHedgeIds) id row := by
  intro h
  obtain ⟨row, hrow⟩ := Option.isSome_iff_exists.mp (show (hedgedCycle.hedges[0]?).isSome = true by decide +kernel)
  have hreached := h (quoting [eurFuture "20260615", eurFuture "20260914"]) [⟨fourCalls, 0, halfDelta, 0⟩] 1 rfl rfl
    (quoting_quoted _) 0 row hrow
  have hnone := hreached.row
  revert hnone
  decide +kernel

end FxVol.HedgeDispatch
