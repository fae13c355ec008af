import FxVol.SubmitGate
import FxVol.FillHandlers
import Mathlib.Algebra.BigOperators.Ring.List
import Mathlib.Algebra.GCDMonoid.Multiset
import Mathlib.Algebra.GCDMonoid.Nat

/-!
# A combo is its legs

`build_combo` reduces the quantities of the legs by their greatest common divisor and prices one unit of the
package, a leg with its ratio and its sign.
-/
namespace FxVol.ComboContracts

open SubmitGate

/-- A leg with its qualified contract, as `build_combo` takes it -/
structure QualifiedLeg where
  conId : ℤ
  side : String
  qty : ℤ
  limitPrice : Option ℚ
  exchange : Option String

structure ComboLeg where
  conId : ℤ
  ratio : ℤ
  action : Side
  exchange : String
  deriving DecidableEq

structure ComboContract where
  symbol : String
  secType : String
  exchange : String
  currency : String
  comboLegs : List ComboLeg
  deriving DecidableEq

/-- The order for a BAG; without `lmtPrice` it goes to the market. -/
structure ComboOrder where
  action : Side
  totalQuantity : ℤ
  lmtPrice : Option ℚ
  deriving DecidableEq

structure Combo where
  contract : ComboContract
  order : ComboOrder
  baseQty : ℤ
  deriving DecidableEq

inductive ComboError
  /-- combo needs at least 2 legs -/
  | tooFewLegs
  /-- all leg quantities must be positive -/
  | badQty
  /-- side must be BUY or SELL -/
  | badSide (side : String)
  deriving DecidableEq

/-- `action` of a leg, whatever the case of its `side` -/
def actionOf (side : String) : Option Side :=
  if side.toUpper = "BUY" then some .buy else if side.toUpper = "SELL" then some .sell else none

/-- `reduce(gcd, qtys)` -/
def reduceGcd : List ℤ → ℤ
  | [] => 0
  | q :: qs => qs.foldl (fun a b => (Int.gcd a b : ℤ)) q

/-- What the loop over the legs has put together -/
structure ComboScan where
  comboLegs : List ComboLeg
  net : ℚ
  havePrices : Bool

def scanLeg (base : ℤ) (exchange : String) (s : ComboScan) (leg : QualifiedLeg) : Except ComboError ComboScan :=
  match actionOf leg.side with
  | none => .error (.badSide leg.side)
  | some action =>
    .ok {
      comboLegs := s.comboLegs ++ [{
        conId := leg.conId
        ratio := leg.qty / base
        action
        exchange := (leg.exchange.bind nonEmpty).getD exchange }]
      net := match leg.limitPrice with
        | none => s.net
        | some lp => s.net + sideSign action * (leg.qty / base : ℤ) * lp
      havePrices := s.havePrices && leg.limitPrice.isSome }

/-- `base` -/
def comboBase (legs : List QualifiedLeg) : ℤ :=
  if reduceGcd (legs.map (·.qty)) ≤ 0 then 1 else reduceGcd (legs.map (·.qty))

def buildCombo (symbol exchange currency : String) (legs : List QualifiedLeg) : Except ComboError Combo :=
  if legs.length < 2 then .error .tooFewLegs
  else if legs.any fun leg => leg.qty ≤ 0 then .error .badQty
  else do
    let s ← legs.foldlM (scanLeg (comboBase legs) exchange) ⟨[], 0, true⟩
    pure {
      contract := { symbol, secType := "BAG", exchange, currency, comboLegs := s.comboLegs }
      order := {
        action := .buy
        totalQuantity := comboBase legs
        lmtPrice := if s.havePrices then some (pyRound s.net 4) else none }
      baseQty := comboBase legs }

/-- Legs that a combo can be built of -/
structure Buildable (legs : List QualifiedLeg) : Prop where
  many : 2 ≤ legs.length
  qty : ∀ leg ∈ legs, 0 < leg.qty
  side : ∀ leg ∈ legs, (actionOf leg.side).isSome

def legValue (leg : QualifiedLeg) : ℚ := ((actionOf leg.side).elim 0 sideSign) * leg.qty * leg.limitPrice.getD 0

/-- The leg of the BAG is the leg of the request, `total` packages together. -/
structure IsLeg (total : ℤ) (leg : QualifiedLeg) (c : ComboLeg) : Prop where
  conId : c.conId = leg.conId
  action : actionOf leg.side = some c.action
  qty : c.ratio * total = leg.qty

structure IsCombo (legs : List QualifiedLeg) (combo : Combo) : Prop where
  isLeg : List.Forall₂ (IsLeg combo.order.totalQuantity) legs combo.contract.comboLegs
  coprime : Multiset.gcd (combo.contract.comboLegs.map (·.ratio) : Multiset ℤ) = 1
  priced : combo.order.lmtPrice.isSome ↔ ∀ leg ∈ legs, leg.limitPrice.isSome
  net : ∀ limit ∈ combo.order.lmtPrice, ∃ net : ℚ, limit = pyRound net 4 ∧
    net * combo.order.totalQuantity = (legs.map legValue).sum

def QualifiedLeg.scaled (k : ℤ) (leg : QualifiedLeg) : QualifiedLeg := { leg with qty := k * leg.qty }

/-- Scaling all quantities by a factor changes the total quantity alone. -/
def ScalesTotalOnly : Prop :=
  ∀ symbol exchange currency legs combo, Buildable legs → buildCombo symbol exchange currency legs = .ok combo →
    ∀ k > 0, ∃ total, buildCombo symbol exchange currency (legs.map (·.scaled k)) =
      .ok { combo with order := { combo.order with totalQuantity := total } }

theorem reduceGcd_eq {qs : List ℤ} (h : ∀ q ∈ qs, 0 ≤ q) : reduceGcd qs = Multiset.gcd (qs : Multiset ℤ) := by
  cases qs with
  | nil => rfl
  | cons q qs =>
    have hfold : Multiset.gcd ((q :: qs : List ℤ) : Multiset ℤ) = (q :: qs).foldl GCDMonoid.gcd 0 :=
      Multiset.coe_fold_l GCDMonoid.gcd 0 (q :: qs)
    have hhead : GCDMonoid.gcd 0 q = q := by
      rw [gcd_zero_left, Int.normalize_of_nonneg (h q List.mem_cons_self)]
    rw [hfold, List.foldl_cons, hhead, reduceGcd]
    simp only [Int.coe_gcd]

section Base
variable {legs : List QualifiedLeg} (h : Buildable legs)
include h

theorem Buildable.qtys : ∀ q ∈ legs.map (·.qty), 0 < q := List.forall_mem_map.mpr h.qty

theorem Buildable.some_qty : ∃ q ∈ legs.map (·.qty), 0 < q := by
  obtain ⟨leg, hleg⟩ := List.exists_mem_of_length_pos (by have := h.many; omega : 0 < legs.length)
  exact ⟨leg.qty, List.mem_map_of_mem hleg, h.qty leg hleg⟩

theorem Buildable.reduceGcd_eq :
    reduceGcd (legs.map (·.qty)) = Multiset.gcd (legs.map (·.qty) : Multiset ℤ) :=
  ComboContracts.reduceGcd_eq fun q hq => (h.qtys q hq).le

theorem Buildable.reduceGcd_pos : 0 < reduceGcd (legs.map (·.qty)) := by
  obtain ⟨q, hq, hpos⟩ := h.some_qty
  have hne : Multiset.gcd (legs.map (·.qty) : Multiset ℤ) ≠ 0 := fun hzero =>
    hpos.ne' (Multiset.gcd_eq_zero_iff _ |>.mp hzero q (by simpa using hq))
  have hnonneg : 0 ≤ Multiset.gcd (legs.map (·.qty) : Multiset ℤ) := by
    rw [← Multiset.normalize_gcd]
    exact Int.nonneg_of_normalize_eq_self (normalize_idem _)
  rw [h.reduceGcd_eq]
  omega

theorem Buildable.comboBase_eq : comboBase legs = Multiset.gcd (legs.map (·.qty) : Multiset ℤ) := by
  rw [comboBase, if_neg (not_le.mpr h.reduceGcd_pos), h.reduceGcd_eq]

/-- The ratio of a leg is exact. -/
theorem Buildable.ratio_mul {leg : QualifiedLeg} (hleg : leg ∈ legs) : leg.qty / comboBase legs * comboBase legs = leg.qty := by
  apply Int.ediv_mul_cancel
  rw [h.comboBase_eq]
  exact Multiset.gcd_dvd (by simpa using ⟨leg, hleg, rfl⟩)

/-- No divisor is left in the ratios. -/
theorem Buildable.gcd_ratios : Multiset.gcd (legs.map fun leg => leg.qty / comboBase legs : Multiset ℤ) = 1 := by
  obtain ⟨q, hq, hpos⟩ := h.some_qty
  apply Multiset.extract_gcd' (legs.map (·.qty) : Multiset ℤ)
  · exact ⟨q, by simpa using hq, hpos.ne'⟩
  · rw [Multiset.map_coe, List.map_map, ← h.comboBase_eq]
    congr 1
    exact List.map_congr_left fun leg hleg => by
      rw [Function.comp_apply, mul_comm, h.ratio_mul hleg]

theorem Buildable.scaled {k : ℤ} (hk : 0 < k) : Buildable (legs.map (·.scaled k)) where
  many := by
    rw [List.length_map]
    exact h.many
  qty := List.forall_mem_map.mpr fun leg hleg => mul_pos hk (h.qty leg hleg)
  side := List.forall_mem_map.mpr h.side

theorem Buildable.comboBase_scaled {k : ℤ} (hk : 0 < k) : comboBase (legs.map (·.scaled k)) = k * comboBase legs := by
  have hqtys : ((legs.map (·.scaled k)).map (·.qty) : Multiset ℤ) = (legs.map (·.qty) : Multiset ℤ).map (k * ·) := by
    rw [Multiset.map_coe, List.map_map, List.map_map]
    rfl
  rw [(h.scaled hk).comboBase_eq, h.comboBase_eq, hqtys, Multiset.gcd_map_mul, Int.normalize_of_nonneg hk.le]

end Base

def comboLeg (base : ℤ) (exchange : String) (leg : QualifiedLeg) : ComboLeg where
  conId := leg.conId
  ratio := leg.qty / base
  action := (actionOf leg.side).getD .buy
  exchange := (leg.exchange.bind nonEmpty).getD exchange

def unitValue (base : ℤ) (leg : QualifiedLeg) : ℚ :=
  ((actionOf leg.side).elim 0 sideSign) * (leg.qty / base : ℤ) * leg.limitPrice.getD 0

theorem scanLeg_eq {base : ℤ} {exchange : String} {s : ComboScan} {leg : QualifiedLeg} (h : (actionOf leg.side).isSome) :
    scanLeg base exchange s leg = .ok ⟨s.comboLegs ++ [comboLeg base exchange leg], s.net + unitValue base leg,
      s.havePrices && leg.limitPrice.isSome⟩ := by
  obtain ⟨action, haction⟩ := Option.isSome_iff_exists.mp h
  cases hlp : leg.limitPrice with
  | none => simp [scanLeg, comboLeg, unitValue, haction, hlp]
  | some lp => simp [scanLeg, comboLeg, unitValue, haction, hlp]

theorem scanLegs_eq {base : ℤ} {exchange : String} {legs : List QualifiedLeg}
    (h : ∀ leg ∈ legs, (actionOf leg.side).isSome) (s : ComboScan) :
    legs.foldlM (scanLeg base exchange) s = .ok ⟨s.comboLegs ++ legs.map (comboLeg base exchange),
      s.net + (legs.map (unitValue base)).sum, s.havePrices && legs.all (·.limitPrice.isSome)⟩ := by
  induction legs generalizing s with
  | nil =>
    simp
    rfl
  | cons leg legs ih =>
    rw [List.forall_mem_cons] at h
    rw [List.foldlM_cons, scanLeg_eq h.1]
    refine (ih h.2 _).trans ?_
    simp [add_assoc, Bool.and_assoc]

def comboOf (symbol exchange currency : String) (legs : List QualifiedLeg) : Combo where
  contract := { symbol, secType := "BAG", exchange, currency, comboLegs := legs.map (comboLeg (comboBase legs) exchange) }
  order := {
    action := .buy
    totalQuantity := comboBase legs
    lmtPrice := if legs.all (·.limitPrice.isSome) then some (pyRound (legs.map (unitValue (comboBase legs))).sum 4) else none }
  baseQty := comboBase legs

theorem Buildable.buildCombo_eq {legs : List QualifiedLeg} (h : Buildable legs) (symbol exchange currency : String) :
    buildCombo symbol exchange currency legs = .ok (comboOf symbol exchange currency legs) := by
  have hqty : ¬ (legs.any fun leg => leg.qty ≤ 0) = true := by
    simpa using h.qty
  rw [buildCombo, if_neg (not_lt.mpr h.many), if_neg hqty, scanLegs_eq h.side]
  simp only [List.nil_append, zero_add, Bool.true_and]
  rfl

section Combo
variable {legs : List QualifiedLeg} (h : Buildable legs) (symbol exchange currency : String)
include h

theorem Buildable.isLeg {leg : QualifiedLeg} (hleg : leg ∈ legs) :
    IsLeg (comboBase legs) leg (comboLeg (comboBase legs) exchange leg) where
  conId := rfl
  action := by
    obtain ⟨action, haction⟩ := Option.isSome_iff_exists.mp (h.side leg hleg)
    rw [comboLeg, haction, Option.getD_some]
  qty := h.ratio_mul hleg

/-- A unit of the package, as often as it is ordered, is the leg. -/
theorem Buildable.unitValue_mul {leg : QualifiedLeg} (hleg : leg ∈ legs) :
    unitValue (comboBase legs) leg * comboBase legs = legValue leg := by
  have hratio : ((leg.qty / comboBase legs : ℤ) : ℚ) * comboBase legs = leg.qty := by
    exact_mod_cast h.ratio_mul hleg
  rw [unitValue, legValue, ← hratio]
  ring

theorem Buildable.net_mul :
    (legs.map (unitValue (comboBase legs))).sum * comboBase legs = (legs.map legValue).sum := by
  rw [← List.sum_map_mul_right]
  congr 1
  exact List.map_congr_left fun leg hleg => h.unitValue_mul hleg

theorem Buildable.isCombo : IsCombo legs (comboOf symbol exchange currency legs) where
  isLeg := by
    rw [comboOf, List.forall₂_map_right_iff, List.forall₂_same]
    exact fun leg hleg => h.isLeg exchange hleg
  coprime := by
    rw [comboOf, List.map_map]
    exact h.gcd_ratios
  priced := by
    rw [comboOf]
    by_cases hpriced : (legs.all (·.limitPrice.isSome)) = true
    · rw [if_pos hpriced]
      exact iff_of_true rfl (List.all_eq_true.mp hpriced)
    · rw [if_neg hpriced]
      exact iff_of_false nofun fun hall => hpriced (List.all_eq_true.mpr hall)
  net := by
    intro limit hlimit
    refine ⟨(legs.map (unitValue (comboBase legs))).sum, ?_, h.net_mul⟩
    rw [comboOf, Option.mem_def] at hlimit
    exact (Option.some.inj (Option.ite_none_right_eq_some.mp hlimit).2).symm

/-- The same package, more of it -/
theorem Buildable.comboOf_scaled {k : ℤ} (hk : 0 < k) : comboOf symbol exchange currency (legs.map (·.scaled k)) =
    { comboOf symbol exchange currency legs with
      order := { (comboOf symbol exchange currency legs).order with totalQuantity := k * comboBase legs }
      baseQty := k * comboBase legs } := by
  have hratio : ∀ leg : QualifiedLeg, k * leg.qty / (k * comboBase legs) = leg.qty / comboBase legs :=
    fun leg => Int.mul_ediv_mul_of_pos _ _ hk
  have hleg : comboLeg (k * comboBase legs) exchange ∘ QualifiedLeg.scaled k = comboLeg (comboBase legs) exchange := by
    funext leg
    simp only [Function.comp_apply, comboLeg, QualifiedLeg.scaled, hratio]
  have hvalue : unitValue (k * comboBase legs) ∘ QualifiedLeg.scaled k = unitValue (comboBase legs) := by
    funext leg
    simp only [Function.comp_apply, unitValue, QualifiedLeg.scaled, hratio]
  have hpriced : ((legs.map (·.scaled k)).all (·.limitPrice.isSome)) = legs.all (·.limitPrice.isSome) := by
    rw [List.all_map]
    rfl
  simp only [comboOf, h.comboBase_scaled hk, List.map_map, hleg, hvalue, hpriced]

end Combo

/-- A combo is its legs, and more of all of them is more of the same package. -/
theorem combo_is_legs (symbol exchange currency : String) (legs : List QualifiedLeg) (h : Buildable legs) :
    ∃ combo, buildCombo symbol exchange currency legs = .ok combo ∧ IsCombo legs combo ∧
      ∀ k > 0, buildCombo symbol exchange currency (legs.map (·.scaled k)) = .ok { combo with
        order := { combo.order with totalQuantity := k * combo.order.totalQuantity }
        baseQty := k * combo.order.totalQuantity } := by
  refine ⟨_, h.buildCombo_eq symbol exchange currency, h.isCombo symbol exchange currency, fun k hk => ?_⟩
  rw [(h.scaled hk).buildCombo_eq, h.comboOf_scaled symbol exchange currency hk]
  rfl

/-- Two calls bought against a put sold -/
def riskReversal : List QualifiedLeg := [⟨111, "buy", 50, some (3 / 250), none⟩, ⟨222, "SELL", 25, some (1 / 250), some "GLOBEX"⟩]

theorem riskReversal_buildable : Buildable riskReversal where
  many := by decide
  qty := by decide
  side := by decide +kernel

theorem combo_is_legs_riskReversal : Buildable riskReversal ∧
    ∃ combo, buildCombo "EUR" "CME" "USD" riskReversal = .ok combo ∧ IsCombo riskReversal combo ∧
      ∀ k > 0, buildCombo "EUR" "CME" "USD" (riskReversal.map (·.scaled k)) = .ok { combo with
        order := { combo.order with totalQuantity := k * combo.order.totalQuantity }
        baseQty := k * combo.order.totalQuantity } :=
  ⟨riskReversal_buildable, combo_is_legs "EUR" "CME" "USD" riskReversal riskReversal_buildable⟩

/-- `base_qty` repeats the total quantity, and grows with it. -/
theorem not_scalesTotalOnly : ¬ ScalesTotalOnly := by
  intro hscales
  obtain ⟨total, htotal⟩ := hscales "EUR" "CME" "USD" riskReversal _ riskReversal_buildable
    (riskReversal_buildable.buildCombo_eq "EUR" "CME" "USD") 2 (by decide)
  rw [(riskReversal_buildable.scaled (k := 2) (by decide)).buildCombo_eq] at htotal
  have hbase : comboBase (riskReversal.map (·.scaled 2)) = comboBase riskReversal :=
    congrArg Combo.baseQty (Except.ok.inj htotal)
  exact absurd hbase (by decide)

def sideText : Side → String
  | .buy => "BUY"
  | .sell => "SELL"

theorem actionOf_sideText (side : Side) : actionOf (sideText side) = some side := by
  cases side with
  | buy => decide +kernel
  | sell => decide +kernel

def qualifiedLeg (conId : StructureOrder → ℤ) (exchange : StructureOrder → Option String) (o : StructureOrder) :
    QualifiedLeg where
  conId := conId o
  side := sideText o.side
  qty := o.qty
  limitPrice := o.limitPrice
  exchange := exchange o

section Structure
variable (conId : StructureOrder → ℤ) (exchange : StructureOrder → Option String) {orders : List StructureOrder}

theorem qualifiedLegs_buildable (hmany : 2 ≤ orders.length) (hqty : ∀ o ∈ orders, o.qty ≠ 0) :
    Buildable (orders.map (qualifiedLeg conId exchange)) where
  many := by
    rw [List.length_map]
    exact hmany
  qty := List.forall_mem_map.mpr fun o ho => by
    have := hqty o ho
    simp only [qualifiedLeg]
    omega
  side := List.forall_mem_map.mpr fun o ho => by
    rw [qualifiedLeg, actionOf_sideText]
    rfl

/-- The divisor of the quantities as `submit_structure_live` has it -/
theorem comboBase_orders (hmany : 2 ≤ orders.length) (hqty : ∀ o ∈ orders, o.qty ≠ 0) :
    comboBase (orders.map (qualifiedLeg conId exchange)) = baseQty orders := by
  have hgcd : ∀ (qs : List ℕ) (q : ℕ), (qs.map Nat.cast).foldl (fun a b : ℤ => (Int.gcd a b : ℤ)) q = qs.foldl Nat.gcd q := by
    intro qs
    induction qs with
    | nil => exact fun q => rfl
    | cons r qs ih => exact fun q => ih (Nat.gcd q r)
  have hbuildable := qualifiedLegs_buildable conId exchange hmany hqty
  rw [comboBase, if_neg (not_le.mpr hbuildable.reduceGcd_pos), List.map_map]
  obtain ⟨o, orders, rfl⟩ : ∃ o os, orders = o :: os := List.exists_cons_of_length_pos (by omega)
  have hqtys : orders.map ((·.qty) ∘ qualifiedLeg conId exchange) = (orders.map (·.qty)).map Nat.cast := by
    rw [List.map_map]
    rfl
  rw [List.map_cons, hqtys, reduceGcd, baseQty, List.map_cons, List.foldl_cons, Nat.gcd_zero_left]
  exact hgcd (orders.map (·.qty)) o.qty

/-- The BAG that a live submit places is the combo of its legs. -/
theorem buildCombo_orders (symbol exch currency : String) (hmany : 2 ≤ orders.length) (hqty : ∀ o ∈ orders, o.qty ≠ 0) :
    ∃ combo, buildCombo symbol exch currency (orders.map (qualifiedLeg conId exchange)) = .ok combo ∧
      combo.order.totalQuantity = baseQty orders ∧ combo.order.lmtPrice = netLimit orders := by
  have hbase := comboBase_orders conId exchange hmany hqty
  have hvalue : unitValue (baseQty orders) ∘ qualifiedLeg conId exchange =
      fun o => sideSign o.side * (o.qty / baseQty orders : ℕ) * o.limitPrice.getD 0 := by
    funext o
    have hratio : ((o.qty : ℤ) / (baseQty orders : ℤ) : ℤ) = (o.qty / baseQty orders : ℕ) := rfl
    simp only [Function.comp_apply, unitValue, qualifiedLeg, actionOf_sideText, hratio]
    rfl
  refine ⟨_, (qualifiedLegs_buildable conId exchange hmany hqty).buildCombo_eq symbol exch currency, hbase, ?_⟩
  simp only [comboOf, netLimit, hbase, List.map_map, hvalue, List.all_map]
  rfl

end Structure

end FxVol.ComboContracts
