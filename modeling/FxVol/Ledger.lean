import FxVol.TradeTables
import Mathlib.Algebra.BigOperators.Group.Finset.Piecewise
import Mathlib.Algebra.Order.Field.Rat
import Mathlib.Data.List.MinMax
import Mathlib.Tactic.FieldSimp
import Mathlib.Tactic.Linarith
import Mathlib.Tactic.Positivity
import Mathlib.Tactic.Ring

/-!
# The position ledger

Positions and realised P&L folded from the fills, one average-cost position for each
contract.  The fold loses no money: what it has realised and what it marks to market add up
to the cash of the fills and the value of what is still held.
-/
namespace FxVol.Ledger

/-- One execution, consumed in the order it happened. -/
structure LedgerFill where
  contract : String
  side : Side
  qty : ℚ
  price : ℚ
  commission : ℚ
  multiplier : ℚ
  deriving DecidableEq

/-- Folded state for one contract. -/
structure ContractLedger where
  contract : String
  netQty : ℚ
  avgCost : ℚ
  realizedPnl : ℚ
  commission : ℚ
  multiplier : ℚ
  deriving DecidableEq

def ContractLedger.new (contract : String) (multiplier : ℚ) : ContractLedger :=
  ⟨contract, 0, 0, 0, 0, multiplier⟩

/-- `signed` -/
def LedgerFill.signedQty (f : LedgerFill) : ℚ :=
  match f.side with
  | .buy => f.qty
  | .sell => -f.qty

def apply (led : ContractLedger) (f : LedgerFill) : ContractLedger :=
  let signed := f.signedQty
  let old := led.netQty
  let led := { led with
    commission := led.commission + f.commission
    realizedPnl := led.realizedPnl - f.commission
    multiplier := f.multiplier }
  -- adding to (or opening) the position
  if old = 0 ∨ (0 < old ↔ 0 < signed) then
    { led with
      avgCost := (led.avgCost * |old| + f.price * f.qty) / (|old| + f.qty)
      netQty := old + signed }
  else
    let closeQty := min f.qty |old|
    let net := old + signed
    { led with
      realizedPnl := led.realizedPnl +
        (if 0 < old then (f.price - led.avgCost) * closeQty * f.multiplier
          else (led.avgCost - f.price) * closeQty * f.multiplier)
      netQty := net
      avgCost :=
        if net = 0 then 0
        else if ¬ (0 < net ↔ 0 < old) then f.price
        else led.avgCost }

/-- One fill of `fold_fills`, on the ledgers by contract. -/
def applyTo (out : String → Option ContractLedger) (f : LedgerFill) :
    String → Option ContractLedger :=
  let led := (out f.contract).getD (ContractLedger.new f.contract f.multiplier)
  Function.update out f.contract (some (apply led f))

def foldFills (fills : List LedgerFill) : String → Option ContractLedger :=
  fills.foldl applyTo fun _ => none

def unrealizedPnl (led : ContractLedger) (mark : Option ℚ) : Option ℚ :=
  if led.netQty = 0 then some 0
  else mark.map fun mark => (mark - led.avgCost) * led.netQty * led.multiplier

/-- `totals.realized_pnl` of the ledger endpoint, before it is rounded. -/
def realizedTotal (fills : List LedgerFill) : ℚ :=
  ∑ contract ∈ (fills.map (·.contract)).toFinset,
    ((foldFills fills contract).map (·.realizedPnl)).getD 0

def fillsOn (contract : String) (fills : List LedgerFill) : List LedgerFill :=
  fills.filter fun f => f.contract = contract

def OneMultiplier (fills : List LedgerFill) : Prop :=
  ∀ f ∈ fills, ∀ g ∈ fills, f.contract = g.contract → f.multiplier = g.multiplier

def netQtyOf (fills : List LedgerFill) : ℚ := (fills.map (·.signedQty)).sum

def LedgerFill.cash (f : LedgerFill) : ℚ := -(f.signedQty * f.price * f.multiplier)

def cashOf (fills : List LedgerFill) : ℚ := (fills.map (·.cash)).sum

def commissionOf (fills : List LedgerFill) : ℚ := (fills.map (·.commission)).sum

/-- The fill takes a position off zero or through it. -/
def Opens (net : ℚ) (f : LedgerFill) : Prop := net = 0 ∨ net * (net + f.signedQty) < 0

instance (net : ℚ) (f : LedgerFill) : Decidable (Opens net f) :=
  inferInstanceAs (Decidable (_ ∨ _))

/-- The fills since the position last left or crossed zero, that fill included. -/
def sinceOpened (fills : List LedgerFill) : List LedgerFill :=
  (fills.foldl (fun (p : ℚ × List LedgerFill) f =>
    (p.1 + f.signedQty, if Opens p.1 f then [f] else p.2 ++ [f])) (0, [])).2

/-- The ledger of a contract against the fills on it. -/
structure Conserves (fills : List LedgerFill) (led : ContractLedger) : Prop where
  netQty : led.netQty = netQtyOf fills
  worth : ∀ mark, ∃ unrealized, unrealizedPnl led (some mark) = some unrealized ∧
    led.realizedPnl + unrealized =
      cashOf fills - commissionOf fills + led.netQty * mark * led.multiplier
  flat : (∀ f ∈ fills, 0 < f.price) → (led.avgCost = 0 ↔ led.netQty = 0)
  avgCost : led.netQty ≠ 0 → ∃ lo hi,
    ((sinceOpened fills).map (·.price)).min? = some lo ∧
    ((sinceOpened fills).map (·.price)).max? = some hi ∧ lo ≤ led.avgCost ∧ led.avgCost ≤ hi

section Apply
variable {led : ContractLedger} {f : LedgerFill}

@[simp] theorem apply_multiplier : (apply led f).multiplier = f.multiplier := by
  unfold apply
  dsimp only
  split_ifs <;> rfl

@[simp] theorem apply_netQty : (apply led f).netQty = led.netQty + f.signedQty := by
  unfold apply
  dsimp only
  split_ifs <;> rfl

theorem signedQty_abs (hq : 0 < f.qty) : |f.signedQty| = f.qty := by
  unfold LedgerFill.signedQty
  cases f.side with
  | buy => exact abs_of_pos hq
  | sell => rw [abs_neg, abs_of_pos hq]

theorem signedQty_ne_zero (hq : 0 < f.qty) : f.signedQty ≠ 0 := by
  rw [← abs_pos, signedQty_abs hq]
  exact hq

/-- Opening or adding: the average cost rolls, nothing is realised. -/
theorem apply_adds (hq : 0 < f.qty) (hs : 0 ≤ led.netQty * f.signedQty) :
    (apply led f).realizedPnl = led.realizedPnl - f.commission ∧
    (apply led f).avgCost =
      (led.avgCost * |led.netQty| + f.price * f.qty) / (|led.netQty| + f.qty) := by
  have hbranch : led.netQty = 0 ∨ (0 < led.netQty ↔ 0 < f.signedQty) := by
    rcases lt_trichotomy led.netQty 0 with hneg | hzero | hpos
    · right
      have hle : f.signedQty ≤ 0 := nonpos_of_mul_nonneg_right hs hneg
      constructor
      · intro h
        linarith
      · intro h
        linarith
    · exact .inl hzero
    · right
      have hle : 0 ≤ f.signedQty := nonneg_of_mul_nonneg_right hs hpos
      have hlt : 0 < f.signedQty := lt_of_le_of_ne hle (signedQty_ne_zero hq).symm
      exact ⟨fun _ => hlt, fun _ => hpos⟩
  unfold apply
  dsimp only
  rw [if_pos hbranch]
  exact ⟨rfl, rfl⟩

theorem signedQty_of_pos (hs : 0 < f.signedQty) (hq : 0 < f.qty) : f.signedQty = f.qty := by
  rw [← abs_of_pos hs, signedQty_abs hq]

theorem signedQty_of_neg (hs : f.signedQty < 0) (hq : 0 < f.qty) : f.signedQty = -f.qty := by
  rw [← signedQty_abs hq, abs_of_neg hs, neg_neg]

/-- A fill against the position realises the closed quantity. -/
theorem apply_closes (hs : led.netQty * f.signedQty < 0) :
    (apply led f).realizedPnl = led.realizedPnl - f.commission +
      (if 0 < led.netQty then (f.price - led.avgCost) * min f.qty |led.netQty| * f.multiplier
        else (led.avgCost - f.price) * min f.qty |led.netQty| * f.multiplier) ∧
    (apply led f).avgCost =
      if led.netQty + f.signedQty = 0 then 0
      else if ¬ (0 < led.netQty + f.signedQty ↔ 0 < led.netQty) then f.price
      else led.avgCost := by
  have hbranch : ¬ (led.netQty = 0 ∨ (0 < led.netQty ↔ 0 < f.signedQty)) := by
    rintro (hzero | hsame)
    · rw [hzero, zero_mul] at hs
      exact lt_irrefl _ hs
    · rcases mul_neg_iff.mp hs with ⟨hpos, hneg⟩ | ⟨hneg, hpos⟩
      · exact lt_asymm hneg (hsame.mp hpos)
      · exact lt_asymm hneg (hsame.mpr hpos)
  unfold apply
  dsimp only
  rw [if_neg hbranch]
  exact ⟨rfl, rfl⟩

/-- Reducing or closing: the whole fill is realised against the average cost. -/
theorem apply_reduces (hq : 0 < f.qty) (hs : led.netQty * f.signedQty < 0)
    (hle : f.qty ≤ |led.netQty|) :
    (apply led f).realizedPnl =
      led.realizedPnl - f.commission + (led.avgCost - f.price) * f.signedQty * f.multiplier ∧
    (apply led f).avgCost = if led.netQty + f.signedQty = 0 then 0 else led.avgCost := by
  obtain ⟨hpnl, havg⟩ := apply_closes hs
  rw [min_eq_left hle] at hpnl
  rcases mul_neg_iff.mp hs with ⟨hpos, hneg⟩ | ⟨hneg, hpos⟩
  · rw [if_pos hpos] at hpnl
    rw [abs_of_pos hpos] at hle
    have hsigned := signedQty_of_neg hneg hq
    constructor
    · rw [hpnl, hsigned]
      ring
    · rw [havg]
      split_ifs with hzero hcross
      · rfl
      · rfl
      · refine absurd ⟨fun _ => hpos, fun _ => lt_of_le_of_ne ?_ (Ne.symm hzero)⟩ hcross
        linarith
  · rw [if_neg (not_lt.mpr hneg.le)] at hpnl
    rw [abs_of_neg hneg] at hle
    have hsigned := signedQty_of_pos hpos hq
    constructor
    · rw [hpnl, hsigned]
    · rw [havg]
      split_ifs with hzero hcross
      · rfl
      · rfl
      · refine absurd ⟨fun h => absurd h ?_, fun h => absurd h ?_⟩ hcross
        · linarith
        · linarith

/-- Crossing zero: the old position is realised, the rest is a fresh one at the fill price. -/
theorem apply_flips (hq : 0 < f.qty) (hs : led.netQty * f.signedQty < 0)
    (hlt : |led.netQty| < f.qty) :
    (apply led f).realizedPnl =
      led.realizedPnl - f.commission + (f.price - led.avgCost) * led.netQty * f.multiplier ∧
    (apply led f).avgCost = f.price := by
  obtain ⟨hpnl, havg⟩ := apply_closes hs
  rw [min_eq_right hlt.le] at hpnl
  rcases mul_neg_iff.mp hs with ⟨hpos, hneg⟩ | ⟨hneg, hpos⟩
  · rw [if_pos hpos, abs_of_pos hpos] at hpnl
    rw [abs_of_pos hpos] at hlt
    have hsigned := signedQty_of_neg hneg hq
    refine ⟨hpnl, ?_⟩
    rw [havg, if_neg (by linarith), if_pos]
    intro hsame
    linarith [hsame.mpr hpos]
  · rw [if_neg (not_lt.mpr hneg.le), abs_of_neg hneg] at hpnl
    rw [abs_of_neg hneg] at hlt
    have hsigned := signedQty_of_pos hpos hq
    constructor
    · rw [hpnl]
      ring
    · rw [havg, if_neg (by linarith), if_pos]
      intro hsame
      linarith [hsame.mp (by linarith)]

/-- What a fill realises and what it adds to the position at cost is the cash it brings in. -/
theorem apply_cash (hq : 0 < f.qty) :
    (apply led f).realizedPnl - (apply led f).netQty * (apply led f).avgCost * f.multiplier =
      led.realizedPnl - led.netQty * led.avgCost * f.multiplier + f.cash - f.commission := by
  rw [apply_netQty, LedgerFill.cash]
  rcases le_or_gt 0 (led.netQty * f.signedQty) with hs | hs
  · obtain ⟨hpnl, havg⟩ := apply_adds hq hs
    have hsum : 0 < |led.netQty| + f.qty := by positivity
    have hcost : (led.netQty + f.signedQty) * (apply led f).avgCost =
        led.netQty * led.avgCost + f.signedQty * f.price := by
      rw [havg, ← mul_div_assoc, div_eq_iff hsum.ne', ← signedQty_abs hq]
      rcases mul_nonneg_iff.mp hs with ⟨hold, hsigned⟩ | ⟨hold, hsigned⟩
      · rw [abs_of_nonneg hold, abs_of_nonneg hsigned]
        ring
      · rw [abs_of_nonpos hold, abs_of_nonpos hsigned]
        ring
    rw [hpnl, hcost]
    ring
  · rcases le_or_gt f.qty |led.netQty| with hle | hlt
    · obtain ⟨hpnl, havg⟩ := apply_reduces hq hs hle
      have hcost : (led.netQty + f.signedQty) * (apply led f).avgCost =
          (led.netQty + f.signedQty) * led.avgCost := by
        rw [havg]
        split_ifs with hzero
        · rw [hzero, zero_mul, zero_mul]
        · rfl
      rw [hpnl, hcost]
      ring
    · obtain ⟨hpnl, havg⟩ := apply_flips hq hs hlt
      rw [hpnl, havg]
      ring

/-- A flat position has no cost. -/
theorem apply_flat (hq : 0 < f.qty) (hzero : (apply led f).netQty = 0) :
    (apply led f).avgCost = 0 := by
  rw [apply_netQty] at hzero
  have hopposite : led.netQty * f.signedQty < 0 := by
    have hsquare := mul_self_pos.mpr (signedQty_ne_zero hq)
    rw [eq_neg_of_add_eq_zero_left hzero]
    linarith
  have hle : f.qty ≤ |led.netQty| := by
    rw [eq_neg_of_add_eq_zero_left hzero, abs_neg, signedQty_abs hq]
  rw [(apply_reduces hq hopposite hle).2, if_pos hzero]

/-- The new average cost is between the fill price and, unless the fill opens the position,
the old average. -/
theorem apply_avgCost_mem (hq : 0 < f.qty) {lo hi : ℚ} (hf : f.price ∈ Set.Icc lo hi)
    (hled : ¬ Opens led.netQty f → led.avgCost ∈ Set.Icc lo hi)
    (hopen : (apply led f).netQty ≠ 0) : (apply led f).avgCost ∈ Set.Icc lo hi := by
  rw [apply_netQty] at hopen
  rcases le_or_gt 0 (led.netQty * f.signedQty) with hs | hs
  · rw [(apply_adds hq hs).2]
    rcases eq_or_ne led.netQty 0 with hzero | hne
    · rwa [hzero, abs_zero, mul_zero, zero_add, zero_add, mul_div_cancel_right₀ _ hq.ne']
    · have hkeeps : ¬ Opens led.netQty f := by
        rintro (hzero | hcross)
        · exact hne hzero
        · have hsquare := mul_self_pos.mpr hne
          linarith
      obtain ⟨hlo, hhi⟩ := hled hkeeps
      have hold := abs_pos.mpr hne
      -- a weighted mean of two numbers of the interval
      constructor
      · rw [le_div_iff₀ (by positivity)]
        have h₁ := mul_le_mul_of_nonneg_right hlo hold.le
        have h₂ := mul_le_mul_of_nonneg_right hf.1 hq.le
        linarith
      · rw [div_le_iff₀ (by positivity)]
        have h₁ := mul_le_mul_of_nonneg_right hhi hold.le
        have h₂ := mul_le_mul_of_nonneg_right hf.2 hq.le
        linarith
  · rcases le_or_gt f.qty |led.netQty| with hle | hlt
    · rw [(apply_reduces hq hs hle).2, if_neg hopen]
      apply hled
      rintro (hzero | hcross)
      · rw [hzero, zero_mul] at hs
        exact lt_irrefl _ hs
      · rcases mul_neg_iff.mp hs with ⟨hpos, hneg⟩ | ⟨hneg, hpos⟩
        · rw [abs_of_pos hpos] at hle
          have hsigned := signedQty_of_neg hneg hq
          nlinarith
        · rw [abs_of_neg hneg] at hle
          have hsigned := signedQty_of_pos hpos hq
          nlinarith
    · rwa [(apply_flips hq hs hlt).2]

end Apply

section Folds
variable {fills fills' : List LedgerFill} {f : LedgerFill} {contract : String}

theorem fillsOn_append : fillsOn contract (fills ++ fills') =
    fillsOn contract fills ++ fillsOn contract fills' := List.filter_append ..

/-- The ledger of a contract is the fold of the fills on it. -/
theorem foldFills_eq (fills : List LedgerFill) (contract : String) :
    foldFills fills contract = (fillsOn contract fills).head?.map fun f =>
      (fillsOn contract fills).foldl apply (.new contract f.multiplier) := by
  induction fills using List.reverseRecOn with
  | nil => rfl
  | append_singleton fills f ih =>
    have hsnoc : foldFills (fills ++ [f]) = applyTo (foldFills fills) f := List.foldl_concat ..
    rw [hsnoc, applyTo, fillsOn_append]
    by_cases hc : f.contract = contract
    · subst hc
      have hon : fillsOn f.contract [f] = [f] := List.filter_cons_of_pos (by simp)
      rw [Function.update_self, ih, hon]
      cases hfills : fillsOn f.contract fills with
      | nil => rfl
      | cons g gs => simp
    · have hon : fillsOn contract [f] = [] := List.filter_cons_of_neg (by simpa using hc)
      rw [Function.update_of_ne (Ne.symm hc), ih, hon, List.append_nil]

/-- The contracts with a ledger are those with a fill. -/
theorem foldFills_isSome :
    (∃ led, foldFills fills contract = some led) ↔ ∃ f ∈ fills, f.contract = contract := by
  rw [← Option.isSome_iff_exists, foldFills_eq, Option.isSome_map, List.isSome_head?, fillsOn, ne_eq,
    List.filter_eq_nil_iff]
  simp

/-- Only the order of the fills on each contract matters. -/
theorem foldFills_congr (h : ∀ contract, fillsOn contract fills = fillsOn contract fills') :
    foldFills fills = foldFills fills' := by
  funext contract
  rw [foldFills_eq, foldFills_eq, h]

@[simp] theorem netQtyOf_append : netQtyOf (fills ++ [f]) = netQtyOf fills + f.signedQty := by
  simp [netQtyOf]

@[simp] theorem cashOf_append : cashOf (fills ++ [f]) = cashOf fills + f.cash := by
  simp [cashOf]

@[simp] theorem commissionOf_append :
    commissionOf (fills ++ [f]) = commissionOf fills + f.commission := by
  simp [commissionOf]

theorem sinceOpened_append : sinceOpened (fills ++ [f]) =
    if Opens (netQtyOf fills) f then [f] else sinceOpened fills ++ [f] := by
  have hnet : ∀ fills : List LedgerFill, (fills.foldl
      (fun (p : ℚ × List LedgerFill) f =>
        (p.1 + f.signedQty, if Opens p.1 f then [f] else p.2 ++ [f])) (0, [])).1 =
      netQtyOf fills := by
    intro fills
    induction fills using List.reverseRecOn with
    | nil => rfl
    | append_singleton fills f ih =>
      rw [List.foldl_concat, netQtyOf_append, ← ih]
  rw [sinceOpened, List.foldl_concat]
  dsimp only
  rw [hnet, sinceOpened]

theorem mem_sinceOpened (h : f ∈ sinceOpened fills) : f ∈ fills := by
  induction fills using List.reverseRecOn with
  | nil => exact h
  | append_singleton fills g ih =>
    rw [sinceOpened_append] at h
    split_ifs at h with hopens
    · exact List.mem_append_right _ h
    · rcases List.mem_append.mp h with hold | hnew
      · exact List.mem_append_left _ (ih hold)
      · exact List.mem_append_right _ hnew

/-- The ledger after the fills of one contract, whose multiplier is `m`. -/
structure Folded (m : ℚ) (fills : List LedgerFill) (led : ContractLedger) : Prop where
  netQty : led.netQty = netQtyOf fills
  multiplier : led.multiplier = m
  cash : led.realizedPnl - led.netQty * led.avgCost * m = cashOf fills - commissionOf fills
  flat : led.netQty = 0 → led.avgCost = 0
  opened : led.netQty ≠ 0 → sinceOpened fills ≠ []
  avgCost : ∀ lo hi, (∀ f ∈ sinceOpened fills, f.price ∈ Set.Icc lo hi) → led.netQty ≠ 0 →
    led.avgCost ∈ Set.Icc lo hi

theorem Folded.append {m : ℚ} {led : ContractLedger} (h : Folded m fills led) (hq : 0 < f.qty)
    (hm : f.multiplier = m) : Folded m (fills ++ [f]) (apply led f) := by
  refine ⟨?_, ?_, ?_, apply_flat hq, ?_, ?_⟩
  · rw [apply_netQty, netQtyOf_append, h.netQty]
  · rw [apply_multiplier, hm]
  · have hstep := @apply_cash led f hq
    rw [hm, h.cash] at hstep
    rw [hstep, cashOf_append, commissionOf_append]
    ring
  · intro _
    rw [sinceOpened_append]
    split_ifs
    · exact List.cons_ne_nil _ _
    · exact List.append_ne_nil_of_right_ne_nil _ (List.cons_ne_nil _ _)
  · intro lo hi hprices hopen
    rw [sinceOpened_append, ← h.netQty] at hprices
    split_ifs at hprices with hopens
    · exact apply_avgCost_mem hq (hprices f List.mem_cons_self) (absurd hopens) hopen
    · refine apply_avgCost_mem hq (hprices f (by simp)) ?_ hopen
      intro hkeeps
      refine h.avgCost lo hi ?_ (fun hzero => hkeeps (.inl hzero))
      intro g hg
      exact hprices g (List.mem_append_left _ hg)

theorem folded_foldl {m : ℚ} (hq : ∀ f ∈ fills, 0 < f.qty) (hm : ∀ f ∈ fills, f.multiplier = m) :
    Folded m fills (fills.foldl apply (.new contract m)) := by
  induction fills using List.reverseRecOn with
  | nil =>
    refine ⟨rfl, rfl, ?_, fun _ => rfl, fun hopen => absurd rfl hopen,
      fun _ _ _ hopen => absurd rfl hopen⟩
    simp [ContractLedger.new, cashOf, commissionOf]
  | append_singleton fills f ih =>
    rw [List.foldl_concat]
    have hpast := ih (fun g hg => hq g (List.mem_append_left _ hg))
      (fun g hg => hm g (List.mem_append_left _ hg))
    exact hpast.append (hq f (by simp)) (hm f (by simp))

theorem Folded.between {m : ℚ} {led : ContractLedger} (h : Folded m fills led)
    (hopen : led.netQty ≠ 0) : ∃ lo hi,
      ((sinceOpened fills).map (·.price)).min? = some lo ∧
      ((sinceOpened fills).map (·.price)).max? = some hi ∧ lo ≤ led.avgCost ∧ led.avgCost ≤ hi := by
  have hne : (sinceOpened fills).map (·.price) ≠ [] := mt List.map_eq_nil_iff.mp (h.opened hopen)
  obtain ⟨lo, hlo⟩ := Option.isSome_iff_exists.mp (List.isSome_min?_iff.mpr hne)
  obtain ⟨hi, hhi⟩ := Option.isSome_iff_exists.mp (List.isSome_max?_iff.mpr hne)
  have hleast := (List.min?_eq_some_iff.mp hlo).2
  have hmost := (List.max?_eq_some_iff.mp hhi).2
  obtain ⟨hle, hge⟩ := h.avgCost lo hi (fun f hf =>
    ⟨hleast _ (List.mem_map_of_mem hf), hmost _ (List.mem_map_of_mem hf)⟩) hopen
  exact ⟨lo, hi, hlo, hhi, hle, hge⟩

theorem Folded.conserves {m : ℚ} {led : ContractLedger} (h : Folded m fills led) :
    Conserves fills led := by
  refine ⟨h.netQty, ?_, ?_, h.between⟩
  · intro mark
    have hcash := h.cash
    unfold unrealizedPnl
    split_ifs with hzero
    · refine ⟨0, rfl, ?_⟩
      rw [hzero] at hcash ⊢
      linarith
    · refine ⟨_, rfl, ?_⟩
      rw [← hcash, h.multiplier]
      ring
  · intro hprices
    refine ⟨?_, h.flat⟩
    intro hcost
    by_contra hopen
    -- the average is at least the least price, which is positive
    obtain ⟨lo, hi, hlo, _, hle, _⟩ := h.between hopen
    obtain ⟨f, hf, rfl⟩ := List.mem_map.mp (List.min?_eq_some_iff.mp hlo).1
    have hpos := hprices f (mem_sinceOpened hf)
    rw [hcost] at hle
    exact absurd hle (not_le.mpr hpos)

/-- The ledger of each contract accounts for the fills on it. -/
theorem foldFills_conserves (hq : ∀ f ∈ fills, 0 < f.qty) (hm : OneMultiplier fills)
    {led : ContractLedger} (hled : foldFills fills contract = some led) :
    Conserves (fillsOn contract fills) led := by
  rw [foldFills_eq, Option.map_eq_some_iff] at hled
  obtain ⟨f, hfirst, rfl⟩ := hled
  have hf := List.mem_of_head? hfirst
  refine (folded_foldl ?_ ?_).conserves
  · intro g hg
    exact hq g (List.mem_of_mem_filter hg)
  · intro g hg
    obtain ⟨hfmem, hfc⟩ := List.mem_filter.mp hf
    obtain ⟨hgmem, hgc⟩ := List.mem_filter.mp hg
    exact hm g hgmem f hfmem ((of_decide_eq_true hgc).trans (of_decide_eq_true hfc).symm)

/-- Summing over the fills is summing over the fills of each contract. -/
theorem sum_fillsOn (g : LedgerFill → ℚ) {contracts : Finset String}
    (h : ∀ f ∈ fills, f.contract ∈ contracts) :
    ∑ contract ∈ contracts, ((fillsOn contract fills).map g).sum = (fills.map g).sum := by
  induction fills with
  | nil => simp [fillsOn]
  | cons f fills ih =>
    have hrest := ih fun x hx => h x (List.mem_cons_of_mem _ hx)
    have hsplit : ∀ contract, ((fillsOn contract (f :: fills)).map g).sum =
        (if f.contract = contract then g f else 0) + ((fillsOn contract fills).map g).sum := by
      intro contract
      by_cases hc : f.contract = contract <;> simp [fillsOn, hc]
    simp only [hsplit]
    rw [Finset.sum_add_distrib, hrest, Finset.sum_ite_eq, if_pos (h f List.mem_cons_self),
      List.map_cons, List.sum_cons]

/-- When every contract is flat, all cash is realised. -/
theorem realizedTotal_flat (hq : ∀ f ∈ fills, 0 < f.qty) (hm : OneMultiplier fills)
    (hflat : ∀ f ∈ fills, netQtyOf (fillsOn f.contract fills) = 0) :
    realizedTotal fills = cashOf fills - commissionOf fills := by
  have hall : ∀ f ∈ fills, f.contract ∈ (fills.map (·.contract)).toFinset :=
    fun f hf => List.mem_toFinset.mpr (List.mem_map_of_mem hf)
  rw [cashOf, commissionOf, ← sum_fillsOn _ hall, ← sum_fillsOn _ hall, ← Finset.sum_sub_distrib]
  apply Finset.sum_congr rfl
  intro contract hc
  obtain ⟨f, hf, rfl⟩ := List.mem_map.mp (List.mem_toFinset.mp hc)
  obtain ⟨led, hled⟩ := foldFills_isSome.mpr ⟨f, hf, rfl⟩
  have hconserves := foldFills_conserves hq hm hled
  have hzero : led.netQty = 0 := hconserves.netQty.trans (hflat f hf)
  -- a flat position is worth nothing at any mark
  obtain ⟨unrealized, hun, hworth⟩ := hconserves.worth 0
  rw [unrealizedPnl, if_pos hzero, Option.some.injEq] at hun
  rw [hled, Option.map_some, Option.getD_some]
  rw [← hun, hzero] at hworth
  simpa [cashOf, commissionOf] using hworth

/-- Ledger conservation: every contract with a fill has a ledger, which accounts for all its cash
and all its quantity, and fills on different contracts may be swapped. -/
theorem ledger_conservation (hq : ∀ f ∈ fills, 0 < f.qty) (hm : OneMultiplier fills) :
    (∀ contract, (∃ led, foldFills fills contract = some led) ↔
      ∃ f ∈ fills, f.contract = contract) ∧
    (∀ contract led, foldFills fills contract = some led →
      Conserves (fillsOn contract fills) led) ∧
    ∀ xs ys f g, fills = xs ++ f :: g :: ys → f.contract ≠ g.contract →
      foldFills (xs ++ g :: f :: ys) = foldFills fills := by
  refine ⟨fun _ => foldFills_isSome, ?_, ?_⟩
  · intro contract led hled
    exact foldFills_conserves hq hm hled
  · rintro xs ys f g rfl hne
    apply foldFills_congr
    intro contract
    unfold fillsOn
    rw [List.filter_append, List.filter_append]
    by_cases hf : f.contract = contract
    · subst hf
      simp [Ne.symm hne]
    · rw [List.filter_cons_of_neg (a := f) (by simpa using hf)]
      by_cases hg : g.contract = contract <;> simp [hf, hg]

/-- A long of two is flipped to a short of one, beside a fill on another contract. -/
def flipped : List LedgerFill :=
  [⟨"EUUM6 C1150", .buy, 2, 3, 1, 125000⟩, ⟨"6EM6", .sell, 1, 1, 2, 125000⟩,
    ⟨"EUUM6 C1150", .sell, 3, 4, 1, 125000⟩]

theorem ledger_conservation_flipped :
    (∀ contract, (∃ led, foldFills flipped contract = some led) ↔
      ∃ f ∈ flipped, f.contract = contract) ∧
    (∀ contract led, foldFills flipped contract = some led →
      Conserves (fillsOn contract flipped) led) ∧
    ∀ xs ys f g, flipped = xs ++ f :: g :: ys → f.contract ≠ g.contract →
      foldFills (xs ++ g :: f :: ys) = foldFills flipped :=
  ledger_conservation (by decide +kernel) (by unfold OneMultiplier; decide +kernel)

end Folds

end FxVol.Ledger
