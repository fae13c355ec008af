import FxVol.OrderEvents
import Mathlib.Data.List.Sort

/-!
# What a live submit checks before it places

The legs `submit_structure_live` selects, the contract checks of both paths, and the gate on
symbols and prices.  What IB answers to a qualification or a quote request is an argument.
-/
namespace FxVol

inductive LiveSubmitError
  | missingExpiry (orderId : ℕ)
  | missingStrike (orderId : ℕ)
  | missingLimitPrice (orderId : ℕ)
  | notQualified (orderId : ℕ)
  | badCombo
  | symbolNotAllowed (symbol : String)
  | priceCollar (legIdx : ℕ) (limit reference : ℚ)
  | badOrder (orderId : ℕ)
  deriving DecidableEq

/-- `ALLOWED_SYMBOLS` and `LIVE_SUBMIT_COLLAR_PCT` -/
structure SubmitConfig where
  allowedSymbols : List String
  collarPct : ℚ

/-- The entry legs never placed, in `leg_idx` order. -/
def eligibleLegs (db : Db) (structureId : ℕ) : List (StructureOrder × ℕ) :=
  ((db.ordersOf structureId).filter fun p =>
      p.1.orderRole = .entry ∧ p.1.state = .pending ∧ p.1.ibOrderId = none).insertionSort
    fun p q => p.1.legIdx ≤ q.1.legIdx

def canUseCombo (legs : List StructureOrder) : Bool :=
  match legs with
  | first :: second :: rest => (second :: rest).all fun leg =>
      leg.contractExpiry = first.contractExpiry ∧ leg.contractSymbol = first.contractSymbol ∧
        leg.contractExchange = first.contractExchange ∧
        leg.contractCurrency = first.contractCurrency
  | _ => false

/-- What IB answers when a contract is qualified: with the exchange of the leg and, for a
future on CME that was not found, with `GLOBEX`.  A raised request counts as not found. -/
structure QualifyAnswer where
  found : Bool
  foundOnGlobex : Bool
  deriving DecidableEq

def StructureOrder.qualifies (o : StructureOrder) (answer : QualifyAnswer) : Bool :=
  answer.found ∨
    o.contractType = .future ∧ o.contractExchange = "CME" ∧ answer.foundOnGlobex

/-- The checks of one leg of a BAG. -/
def prepareComboLeg (o : StructureOrder) (orderId : ℕ) (answer : QualifyAnswer) :
    Except LiveSubmitError Unit :=
  if o.contractExpiry = none ∨ o.contractStrike = none then .error (.missingExpiry orderId)
  else if answer.found then .ok () else .error (.notQualified orderId)

/-- The checks before a BAG is placed; `build_combo` refuses an empty leg. -/
def prepareCombo (legs : List (StructureOrder × ℕ)) (qualify : ℕ → QualifyAnswer) :
    Except LiveSubmitError Unit := do
  for p in legs do prepareComboLeg p.1 p.2 (qualify p.2)
  if legs.any fun p => p.1.qty = 0 then .error .badCombo else .ok ()

/-- Phase 1 for one leg: the contract is built and qualified, nothing is sent. -/
def prepareLeg (o : StructureOrder) (orderId : ℕ) (answer : QualifyAnswer) :
    Except LiveSubmitError Unit :=
  if o.contractExpiry = none then .error (.missingExpiry orderId)
  else if o.contractType ≠ .future ∧ o.contractStrike = none then .error (.missingStrike orderId)
  else if o.orderType ≠ .mkt ∧ o.limitPrice = none then .error (.missingLimitPrice orderId)
  else if o.qualifies answer then .ok () else .error (.notQualified orderId)

def prepareLegs (legs : List (StructureOrder × ℕ)) (qualify : ℕ → QualifyAnswer) :
    Except LiveSubmitError Unit := do
  for p in legs do prepareLeg p.1 p.2 (qualify p.2)

/-- A quote with its positive sides only, as `_num` leaves them. -/
structure Quote where
  bid : Option ℚ
  ask : Option ℚ
  mkt : Option ℚ
  deriving DecidableEq

def marketableFromQuote (side : Side) (q : Quote) (fallback : ℚ) : ℚ :=
  match side with
  | .buy =>
    match q.ask.or q.mkt with
    | some ref => pyRound (⌈ref / optTick⌉ * optTick) 6
    | none => fallback
  | .sell =>
    match q.bid.or q.mkt with
    | none => fallback
    | some ref =>
      let lp := ⌊ref / optTick⌋ * optTick
      if 0 < lp then pyRound lp 6 else fallback

def collarOk (limit reference pct : ℚ) : Bool :=
  0 < reference ∧ 0 < limit ∧ |limit - reference| ≤ pct * reference

/-- `x or y`: a price of zero counts as absent. -/
def orPrice (x y : Option ℚ) : Option ℚ := (x.filter (· ≠ 0)).or y

/-- The gate of one leg; the limit it will be placed at, none for a market order. -/
def gateLeg (cfg : SubmitConfig) (o : StructureOrder) (q : Quote) :
    Except LiveSubmitError (Option ℚ) :=
  let sym := (if o.contractSymbol = "" then "EUR" else o.contractSymbol).toUpper
  if sym ∉ cfg.allowedSymbols then .error (.symbolNotAllowed sym)
  else if o.orderType = .mkt then .ok none
  else
    let lp := marketableFromQuote o.side q (o.limitPrice.getD 0)
    let ref := (orPrice o.previewPrice o.limitPrice).getD 0
    if collarOk lp ref cfg.collarPct then .ok (some lp) else .error (.priceCollar o.legIdx lp ref)

structure PreparedLeg where
  order : StructureOrder
  orderId : ℕ
  limit : Option ℚ
  deriving DecidableEq

def gateLegs (cfg : SubmitConfig) (quote : ℕ → Quote) :
    List (StructureOrder × ℕ) → Except LiveSubmitError (List PreparedLeg)
  | [] => .ok []
  | p :: legs =>
    match gateLeg cfg p.1 (quote p.2) with
    | .error e => .error e
    | .ok limit =>
      match gateLegs cfg quote legs with
      | .error e => .error e
      | .ok prepared => .ok (⟨p.1, p.2, limit⟩ :: prepared)

/-- `build_order_kwargs` refuses an empty quantity or a limit that is not positive. -/
def PreparedLeg.orderOk (leg : PreparedLeg) : Bool :=
  match leg.limit with
  | none => true
  | some lp => 0 < leg.order.qty ∧ 0 < lp

section Facts
variable {db : Db} {structureId : ℕ} {p : StructureOrder × ℕ}

theorem mem_eligibleLegs : p ∈ eligibleLegs db structureId ↔ db.orders[p.2]? = some p.1 ∧
    p.1.structureId = structureId ∧ p.1.orderRole = .entry ∧ p.1.state = .pending ∧
    p.1.ibOrderId = none := by
  simp only [eligibleLegs, List.mem_insertionSort, Db.ordersOf, List.mem_filter,
    decide_eq_true_eq, List.mem_zipIdx_iff_getElem?, and_assoc]

/-- A leg is selected once. -/
theorem eligibleLegs_nodup (db : Db) (structureId : ℕ) :
    ((eligibleLegs db structureId).map (·.2)).Nodup := by
  have hperm := (List.perm_insertionSort (fun p q : StructureOrder × ℕ => p.1.legIdx ≤ q.1.legIdx)
    ((db.ordersOf structureId).filter fun p =>
      p.1.orderRole = .entry ∧ p.1.state = .pending ∧ p.1.ibOrderId = none)).map (·.2)
  apply hperm.symm.nodup
  exact ((List.filter_sublist.trans List.filter_sublist).map _).nodup db.keys_nodup

/-- The gate changes neither the legs nor their order. -/
theorem gateLegs_ids {cfg : SubmitConfig} {legs : List (StructureOrder × ℕ)} {quote : ℕ → Quote}
    {prepared : List PreparedLeg} (h : gateLegs cfg quote legs = .ok prepared) :
    prepared.map (·.orderId) = legs.map (·.2) := by
  induction legs generalizing prepared with
  | nil =>
    obtain rfl := Except.ok.inj h
    rfl
  | cons p legs ih =>
    cases hleg : gateLeg cfg p.1 (quote p.2) with
    | error e => simp [gateLegs, hleg] at h
    | ok limit =>
      cases hrest : gateLegs cfg quote legs with
      | error e => simp [gateLegs, hleg, hrest] at h
      | ok rest =>
        simp only [gateLegs, hleg, hrest, Except.ok.injEq] at h
        rw [← h, List.map_cons, List.map_cons, ih hrest]

end Facts

end FxVol
