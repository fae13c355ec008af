import FxVol.OrderEvents
import Mathlib.Algebra.Order.BigOperators.Group.List

/-!
# Booked positions against the positions of the broker

A placed leg is qualified by the contract `build_contract_kwargs` asks for, and its first fill
records the symbol IB gave it.  The reconciliation looks the leg up under a third name, the
symbol rebuilt from its contract fields, and closes a booked position when it finds nothing
there.
-/
namespace FxVol

open DecimalRounding

/-- `f"{n:0{width}d}"` -/
def zeroPadded (width n : ℕ) : String :=
  String.ofList (List.replicate (width - (toString n).length) '0') ++ toString n

def nextQuarterlyYyyymm (d : Date) : String :=
  match [3, 6, 9, 12].find? fun qm => d.month ≤ qm with
  | some qm => zeroPadded 4 d.year ++ zeroPadded 2 qm
  | none => zeroPadded 4 (d.year + 1) ++ "03"

def optionYyyymm (d : Date) : String := zeroPadded 4 d.year ++ zeroPadded 2 d.month

def fopStrikeIncrement : ℚ := 5 / 1000

/-- `_snap_fop_strike`, each operation rounded by `fl` -/
def snapFopStrike (fl : ℚ → ℚ) (strike : ℚ) : ℚ :=
  fl (roundHalfEven (fl (fl strike / fl fopStrikeIncrement)) * fl fopStrikeIncrement)

-- the tie goes up: the double quotient is the next even integer and a half
example : pyRound (snapFopStrike toDouble (11725 / 10000)) 4 = 1175 / 1000 := by decide +kernel

structure ContractKwargs where
  symbol : String
  secType : String
  exchange : String
  currency : String
  lastTradeDateOrContractMonth : String
  strike : Option ℚ
  right : Option String
  tradingClass : String
  deriving DecidableEq

/-- `build_contract_kwargs` for a leg, with strikes computed in the arithmetic of `fl`; it raises
without an expiry, and on an option without a strike. -/
def buildContractKwargsIn (fl : ℚ → ℚ) (o : StructureOrder) : Option ContractKwargs :=
  match o.contractExpiry with
  | none => none
  | some expiry =>
    if o.contractType = .future then
      some
        { symbol := o.contractSymbol
          secType := "FUT"
          exchange := o.contractExchange
          currency := o.contractCurrency
          lastTradeDateOrContractMonth := nextQuarterlyYyyymm expiry
          strike := none
          right := none
          tradingClass := "" }
    else match o.contractStrike with
      | none => none
      | some strike =>
        some
          { symbol := o.contractSymbol
            secType := "FOP"
            exchange := o.contractExchange
            currency := o.contractCurrency
            lastTradeDateOrContractMonth := optionYyyymm expiry
            strike := some (pyRound (snapFopStrike fl strike) 4)
            right := some (if o.contractType = .call then "C" else "P")
            tradingClass := if o.contractSymbol = "EUR" then "EUU" else "" }

def buildContractKwargs (o : StructureOrder) : Option ContractKwargs := buildContractKwargsIn toDouble o

/-- `build_ib_local_symbol`, in the arithmetic of `fl` -/
def buildIbLocalSymbol (fl : ℚ → ℚ) (contractType : ContractType) (expiry : Option Date) (strike : Option ℚ)
    (symbol : String) : Option String :=
  match expiry with
  | none => none
  | some d =>
    match futMonthLetters[d.month - 1]? with
    | none => none
    | some letter =>
      let code := letter.toString ++ toString (d.year % 10)
      match contractType, strike with
      | .future, _ => some ((if symbol = "M6E" then "M6E" else "6E") ++ code)
      | _, none => none
      | right, some strike =>
        if strike = 0 then none
        else some ("EUU" ++ code ++ " " ++ (if right = .call then "C" else "P") ++
          zeroPadded 4 ⌊fl (fl strike * 1000)⌋₊)

example : buildIbLocalSymbol toDouble .call (some ⟨2026, 10, 15⟩) (some (1005 / 1000)) "EUR" =
    some "EUUV6 C1004" := by decide +kernel

def StructureOrder.ibKeyIn (fl : ℚ → ℚ) (o : StructureOrder) : Option String :=
  buildIbLocalSymbol fl o.contractType o.contractExpiry o.contractStrike o.contractSymbol

/-- `_structure_order_to_ib_key` -/
def StructureOrder.ibKey (o : StructureOrder) : Option String := o.ibKeyIn toDouble

/-- One entry of `list_positions`. -/
structure IbPosition where
  symbol : String
  secType : String
  expiry : Option String
  strike : Option ℚ
  right : Option String
  localSymbol : String
  position : ℚ
  deriving DecidableEq

/-- `ib_qty_by_key`: whole contracts held under a symbol, long or short. -/
def ibQtyByKey (positions : List IbPosition) (key : String) : ℕ :=
  ((positions.filter fun p => p.localSymbol = key ∧ key ≠ "").map fun p => ⌊|p.position|⌋₊).sum

/-- What a pass writes on a booked position it reconciled. -/
structure IbReconciliation where
  ibReconciledAt : Instant
  ibQtyTotal : ℕ
  ibQtyDiff : ℤ
  closeReason : Option String
  deriving DecidableEq

def entryLegs (db : Db) (pos : BookedPosition) : List StructureOrder :=
  (entryOrders db pos.structureId).map (·.1)

def ibQtyTotal (db : Db) (positions : List IbPosition) (pos : BookedPosition) : ℕ :=
  ((entryLegs db pos).map fun o => o.ibKey.elim 0 (ibQtyByKey positions)).sum

def hour : ℤ := 3600 * 1000000

/-- One booked position of `reconcile_trade_positions`; `reporting` is whether IB streams the
account, `autoclose` is `_AUTOCLOSE_STALE`. -/
def reconcileTradePosition (db : Db) (positions : List IbPosition) (reporting autoclose : Bool)
    (now : Instant) (pos : BookedPosition) : BookedPosition × Option IbReconciliation :=
  let legs := entryLegs db pos
  if pos.state ≠ .open ∨ legs = [] then (pos, none)
  else
    let bookedQtyTotal := (legs.map fun o => if o.qtyFilled = 0 then o.qty else o.qtyFilled).sum
    let total := ibQtyTotal db positions pos
    let stale : Bool := total = 0 ∧ pos.openedAt < now - hour ∧ autoclose ∧ reporting
    (if stale then { pos with state := .closed } else pos,
      some
        { ibReconciledAt := now
          ibQtyTotal := total
          ibQtyDiff := bookedQtyTotal - total
          closeReason := if stale then some "reconciled_flat_at_ib" else none })

/-- `reconcile_trade_positions` on a connected executor. -/
def reconcileTradePositions (db : Db) (positions : List IbPosition) (reporting autoclose : Bool)
    (now : Instant) : Db :=
  { db with
    bookedPositions := db.bookedPositions.map fun pos =>
      (reconcileTradePosition db positions reporting autoclose now pos).1 }

/-- The row is the contract these arguments ask for: IB completes the month to a date. -/
def IbPosition.Matches (p : IbPosition) (kwargs : ContractKwargs) : Prop :=
  p.symbol = kwargs.symbol ∧ p.secType = kwargs.secType ∧
    (∃ expiry ∈ p.expiry, kwargs.lastTradeDateOrContractMonth.toList <+: expiry.toList) ∧
    (∀ strike ∈ kwargs.strike, p.strike = some strike) ∧
    ∀ right ∈ kwargs.right, p.right = some right

/-- The row is the contract a leg was filled on: the recorded one, else the one that was asked
for. -/
def IbPosition.IsContractOf (p : IbPosition) (o : StructureOrder) : Prop :=
  match o.ibLocalSymbol with
  | some sym => p.localSymbol = sym
  | none => ∃ kwargs ∈ buildContractKwargs o, p.Matches kwargs

/-- IB holds a contract that an entry leg of the position was filled on. -/
def HeldAtIb (db : Db) (positions : List IbPosition) (pos : BookedPosition) : Prop :=
  ∃ o ∈ entryLegs db pos, 0 < o.qtyFilled ∧ ∃ p ∈ positions, p.position ≠ 0 ∧ p.IsContractOf o

/-- IB holds a whole contract under the key of one of the entry legs. -/
def FoundByKey (db : Db) (positions : List IbPosition) (pos : BookedPosition) : Prop :=
  ∃ o ∈ entryLegs db pos, ∃ key ∈ o.ibKey, 0 < ibQtyByKey positions key

section Reconciliation
variable {db : Db} {positions : List IbPosition} {reporting autoclose : Bool} {now : Instant}
  {pos : BookedPosition} {k : ℕ}

theorem ibQtyTotal_eq_zero : ibQtyTotal db positions pos = 0 ↔ ¬ FoundByKey db positions pos := by
  unfold ibQtyTotal FoundByKey
  rw [List.sum_eq_zero_iff]
  constructor
  · rintro hzero ⟨o, ho, key, hkey, hpos⟩
    have hnone := hzero _ (List.mem_map_of_mem ho)
    rw [Option.mem_def.mp hkey, Option.elim_some] at hnone
    omega
  · intro hnone n hn
    obtain ⟨o, ho, rfl⟩ := List.mem_map.mp hn
    cases hkey : o.ibKey with
    | none => rfl
    | some key =>
      by_contra hpos
      exact hnone ⟨o, ho, key, hkey, Nat.pos_of_ne_zero hpos⟩

/-- An open position is closed when it is older than an hour and no key of its legs finds
anything at a reporting IB. -/
theorem reconcileTradePosition_closed_iff (hopen : pos.state = .open) :
    (reconcileTradePosition db positions reporting autoclose now pos).1.state = .closed ↔
      entryLegs db pos ≠ [] ∧ ¬ FoundByKey db positions pos ∧ pos.openedAt < now - hour ∧
        autoclose = true ∧ reporting = true := by
  rw [← ibQtyTotal_eq_zero]
  unfold reconcileTradePosition
  by_cases hlegs : entryLegs db pos = []
  · simp [hlegs, hopen]
  · simp only [hopen, hlegs, ne_eq, not_true_eq_false, or_self, if_false, not_false_eq_true,
      true_and]
    split_ifs with hstale
    · exact iff_of_true rfl (by simpa using hstale)
    · refine iff_of_false ?_ (by simpa using hstale)
      rw [hopen]
      decide

/-- A pass over a reporting account closes an open position only when IB holds none of its
contracts exactly where a key finds what IB holds, or the position is not to be closed yet. -/
theorem closed_when_flat_iff (hpos : db.bookedPositions[k]? = some pos) (hopen : pos.state = .open)
    (hreporting : reporting = true) :
    (∀ pos' ∈ (reconcileTradePositions db positions reporting autoclose now).bookedPositions[k]?,
        pos'.state = .closed → ¬ HeldAtIb db positions pos) ↔
      (HeldAtIb db positions pos → FoundByKey db positions pos ∨ now - hour ≤ pos.openedAt ∨
        autoclose = false) := by
  have hrow : (reconcileTradePositions db positions reporting autoclose now).bookedPositions[k]? =
      some (reconcileTradePosition db positions reporting autoclose now pos).1 := by
    simp [reconcileTradePositions, hpos]
  have hclosed : (reconcileTradePosition db positions reporting autoclose now pos).1.state =
      .closed ↔ _ := reconcileTradePosition_closed_iff hopen
  constructor
  · intro hflat hheld
    by_contra hmissed
    obtain ⟨hnot, hyoung⟩ := not_or.mp hmissed
    obtain ⟨hold, hauto⟩ := not_or.mp hyoung
    have hlegs : entryLegs db pos ≠ [] := by
      obtain ⟨o, ho, _⟩ := hheld
      exact List.ne_nil_of_mem ho
    refine hflat _ hrow (hclosed.mpr ⟨hlegs, hnot, not_le.mp hold, ?_, hreporting⟩) hheld
    simpa using hauto
  · intro hfound pos' hpos' hstate hheld
    obtain rfl := Option.some.inj (hrow.symm.trans hpos')
    obtain ⟨_, hnot, hold, hauto, _⟩ := hclosed.mp hstate
    rcases hfound hheld with h | h | h
    · exact hnot h
    · exact absurd hold (not_lt.mpr h)
    · rw [hauto] at h
      cases h

/-- A future whose preview expires in October trades the December contract. -/
def octoberFuture : LegSpec where
  contractSymbol := "EUR"
  contractType := .future
  contractExpiry := some ⟨2026, 10, 15⟩
  contractStrike := none
  side := .buy
  qty := 2
  orderType := .lmt
  limitPrice := some (11 / 10)
  previewIvPct := none
  previewPrice := none

def bookedFuture : Db :=
  [Event.submitPreview [octoberFuture] 0,
    .execution 0 { execution "a" "BOT" 2 none with localSymbol := some "6EZ6" } 1,
    .completeStructure 0 2].foldl step Db.empty

def decemberFuture (position : ℚ) : IbPosition :=
  ⟨"EUR", "FUT", some "20261214", none, none, "6EZ6", position⟩

theorem closed_when_flat_iff_bookedFuture :
    (∀ pos' ∈ (reconcileTradePositions bookedFuture [decemberFuture 0] true true
        (2 * hour)).bookedPositions[0]?,
        pos'.state = .closed → ¬ HeldAtIb bookedFuture [decemberFuture 0] ⟨0, 2, 0, 0, .open⟩) ↔
      (HeldAtIb bookedFuture [decemberFuture 0] ⟨0, 2, 0, 0, .open⟩ →
        FoundByKey bookedFuture [decemberFuture 0] ⟨0, 2, 0, 0, .open⟩ ∨ 2 * hour - hour ≤ 2 ∨
          true = false) :=
  closed_when_flat_iff (by decide +kernel) rfl rfl

/-- The rebuilt key names the month of the preview, not the quarterly contract held. -/
theorem closed_while_held : ¬ ∀ (db : Db) (positions : List IbPosition) (autoclose : Bool)
    (now : Instant) (k : ℕ) (pos pos' : BookedPosition), db.bookedPositions[k]? = some pos →
    pos.state = .open →
    (reconcileTradePositions db positions true autoclose now).bookedPositions[k]? = some pos' →
    pos'.state = .closed → ¬ HeldAtIb db positions pos := by
  intro h
  refine h bookedFuture [decemberFuture 2] true (2 * hour) 0 ⟨0, 2, 0, 0, .open⟩
    ⟨0, 2, 0, 0, .closed⟩ (by decide +kernel) rfl (by decide +kernel) rfl ?_
  refine ⟨bookedFuture.orders.get ⟨0, by decide +kernel⟩, by decide +kernel, by decide +kernel,
    _, List.mem_cons_self, by decide +kernel, ?_⟩
  have hsym : (bookedFuture.orders.get ⟨0, by decide +kernel⟩).ibLocalSymbol = some "6EZ6" := by
    decide +kernel
  rw [IbPosition.IsContractOf, hsym]
  rfl

end Reconciliation

end FxVol
