import FxVol.Numerals
import FxVol.PositionMarks
import FxVol.Pricers
import FxVol.SmileLookup
import FxVol.TableTotals

/-!
# The two pricers

`core.pricing.bs` marks positions and `core.trade_preview` prices previews.  Their greeks are the same everywhere and
their prices wherever the formula has a value; where it has none, on the expiry day or without volatility, the preview
takes the intrinsic value and the marks take nothing.
-/
namespace FxVol.PricerAgreement

open scoped Numerals
open Pricers

section Prices
variable {𝕜 : Type*} [Field 𝕜] [LinearOrder 𝕜] (N : Numerics 𝕜) (F K T sigma : 𝕜)

/-- The distribution function is that of a symmetric law. -/
def Symmetric : Prop := ∀ x, N.normCdf x + N.normCdf (-x) = 1

/-- What an option pays over its strike, if anything -/
def payoff (right : ContractType) : 𝕜 := if right = .call then F - K else K - F

/-- At one point the pricers give the same values, and put-call parity holds of both. -/
structure OnePricer : Prop where
  price : ∀ right, bsPrice N F K T sigma right = previewBsPrice N F K T sigma right
  delta : ∀ right, bsDelta N F K T sigma right = (bsGreeks N F K T sigma right).delta
  gamma : ∀ right, bsGamma N F K T sigma = (bsGreeks N F K T sigma right).gamma
  vega : ∀ right, bsVega N F K T sigma = (bsGreeks N F K T sigma right).vega
  theta : ∀ right, bsTheta N F K T sigma = (bsGreeks N F K T sigma right).theta / 365
  parity : bsPrice N F K T sigma .call - bsPrice N F K T sigma .put = F - K
  previewParity : previewBsPrice N F K T sigma .call - previewBsPrice N F K T sigma .put = F - K

omit [LinearOrder 𝕜] in
theorem phi_eq (x : 𝕜) : phi N x = N.normPdf x := (N.normPdf_eq x).symm

omit [LinearOrder 𝕜] in
theorem cumulative_eq (x : 𝕜) : cumulative N x = N.normCdf x := (N.normCdf_eq x).symm

/-- The greeks agree on every input. -/
theorem bsGreeks_eq (right : ContractType) :
    (bsGreeks N F K T sigma right).delta = bsDelta N F K T sigma right ∧
      (bsGreeks N F K T sigma right).gamma = bsGamma N F K T sigma ∧
      (bsGreeks N F K T sigma right).vega = bsVega N F K T sigma ∧
      (bsGreeks N F K T sigma right).theta / 365 = bsTheta N F K T sigma := by
  simp only [bsGreeks, bsDelta, bsGamma, bsVega, bsTheta]
  by_cases h : Degenerate F K T sigma
  · simp only [if_pos h, zero_div, and_self]
  · simp only [if_neg h, phi_eq, cumulative_eq, neg_mul, and_self]

variable {F K T sigma}

theorem previewBsPrice_eq (h : ¬ Degenerate F K T sigma) (right : ContractType) :
    previewBsPrice N F K T sigma right = bsPrice N F K T sigma right := by
  rw [previewBsPrice, bsPrice, if_neg h, if_neg h]
  simp only [cumulative_eq]

variable {N}

theorem bsPrice_parity (hN : Symmetric N) (h : ¬ Degenerate F K T sigma) :
    bsPrice N F K T sigma .call - bsPrice N F K T sigma .put = F - K := by
  have h1 := hN (bsD1 N F K T sigma)
  have h2 := hN (bsD2 N F K T sigma)
  rw [bsPrice, bsPrice, if_neg h, if_neg h, if_pos rfl, if_neg (by decide)]
  linear_combination F * h1 - K * h2

theorem previewBsPrice_degenerate (h : Degenerate F K T sigma) (right : ContractType) :
    previewBsPrice N F K T sigma right = max 0 (payoff F K right) := if_pos h

variable [IsStrictOrderedRing 𝕜]

theorem payoff_parity : max 0 (payoff F K .call) - max 0 (payoff F K .put) = F - K := by
  have hneg : payoff F K .put = -payoff F K .call := (neg_sub F K).symm
  rw [hneg, max_comm, max_comm 0, max_zero_sub_max_neg_zero_eq_self]
  rfl

theorem previewBsPrice_parity (hN : Symmetric N) :
    previewBsPrice N F K T sigma .call - previewBsPrice N F K T sigma .put = F - K := by
  by_cases h : Degenerate F K T sigma
  · rw [previewBsPrice_degenerate h, previewBsPrice_degenerate h, payoff_parity]
  · rw [previewBsPrice_eq N h, previewBsPrice_eq N h, bsPrice_parity hN h]

/-- Without a value of the formula the prices agree exactly at the money. -/
theorem price_iff_degenerate (h : Degenerate F K T sigma) :
    (∀ right, bsPrice N F K T sigma right = previewBsPrice N F K T sigma right) ↔ F = K := by
  have hprice (right : ContractType) : bsPrice N F K T sigma right = previewBsPrice N F K T sigma right ↔
      payoff F K right ≤ 0 := by
    rw [bsPrice_degenerate N h, previewBsPrice_degenerate h, eq_comm, max_eq_left_iff]
  simp only [hprice]
  constructor
  · intro hout
    have hcall : F - K ≤ 0 := hout .call
    have hput : K - F ≤ 0 := hout .put
    linarith
  · rintro rfl right
    rw [payoff, sub_self, ite_self]

theorem onePricer_iff (hN : Symmetric N) (hF : 0 < F) (hK : 0 < K) :
    OnePricer N F K T sigma ↔ (0 < T ∧ 0 < sigma) ∨ F = K := by
  have hregular : ¬ Degenerate F K T sigma ↔ 0 < T ∧ 0 < sigma := by
    simp only [Degenerate, not_or, not_le]
    exact ⟨fun h => ⟨h.2.1, h.1⟩, fun h => ⟨h.2, h.1, hF, hK⟩⟩
  have hgreeks := bsGreeks_eq N F K T sigma
  constructor
  · intro h
    by_cases hdegenerate : Degenerate F K T sigma
    · exact .inr ((price_iff_degenerate hdegenerate).mp h.price)
    · exact .inl (hregular.mp hdegenerate)
  · intro h
    have hprice (right : ContractType) : bsPrice N F K T sigma right = previewBsPrice N F K T sigma right := by
      by_cases hdegenerate : Degenerate F K T sigma
      · exact (price_iff_degenerate hdegenerate).mpr (h.resolve_left fun hpos => hregular.mpr hpos hdegenerate) right
      · exact (previewBsPrice_eq N hdegenerate right).symm
    exact {
      price := hprice
      delta := fun right => (hgreeks right).1.symm
      gamma := fun right => (hgreeks right).2.1.symm
      vega := fun right => (hgreeks right).2.2.1.symm
      theta := fun right => (hgreeks right).2.2.2.symm
      parity := by rw [hprice, hprice, previewBsPrice_parity hN]
      previewParity := previewBsPrice_parity hN }

end Prices

/-- A leg as `price_position` takes it -/
structure LegSpec (τ 𝕜 : Type*) where
  contractType : ContractType
  tenor : τ
  strike : 𝕜
  expiry : Date
  side : Side
  qty : ℕ
  fallbackIv : Option 𝕜

/-- What a position is marked with -/
structure Quotes (τ 𝕜 : Type*) where
  surface : Option (SmileLookup.Surface τ 𝕜)
  spot : 𝕜
  now : Instant
  contractMultiplier : 𝕜

structure PositionMark (𝕜 : Type*) where
  markValueUsd : 𝕜
  totalDelta : 𝕜
  totalGammaUsdPerPip2 : 𝕜
  totalVegaUsdPerVolpt : 𝕜
  totalThetaUsdPerDay : 𝕜
  nSurfaceMissing : ℕ

section Marks
variable {τ 𝕜 : Type*} [Field 𝕜]

def sideSign : Side → 𝕜
  | .buy => 1
  | .sell => -1

def LegSpec.qtySigned (leg : LegSpec τ 𝕜) : 𝕜 := sideSign leg.side * leg.qty

def yearsToExpiry (expiry : Date) (now : Instant) : 𝕜 := ((max 0 (expiry.toOrdinal - dateOrdinal now) : ℤ) : 𝕜) / 365

variable [LinearOrder 𝕜] (N : Numerics 𝕜) (invCdf : 𝕜 → 𝕜) (q : Quotes τ 𝕜)

def legIv (leg : LegSpec τ 𝕜) : Option (SmileLookup.IvResult 𝕜) :=
  SmileLookup.ivAtStrike ⟨N.sqrt, N.exp, invCdf⟩ q.surface leg.tenor leg.strike (some q.spot)
    (some (yearsToExpiry leg.expiry q.now))

namespace PositionMark

def zero : PositionMark 𝕜 := ⟨0, 0, 0, 0, 0, 0⟩

def miss (m : PositionMark 𝕜) (n : ℕ) : PositionMark 𝕜 := { m with nSurfaceMissing := m.nSurfaceMissing + n }

def priced (m : PositionMark 𝕜) (leg : LegSpec τ 𝕜) (sigma : 𝕜) : PositionMark 𝕜 :=
  let T := yearsToExpiry leg.expiry q.now
  { m with
    markValueUsd := m.markValueUsd +
      sideSign leg.side * bsPrice N q.spot leg.strike T sigma leg.contractType * leg.qty * q.contractMultiplier
    totalDelta := m.totalDelta + bsDelta N q.spot leg.strike T sigma leg.contractType * leg.qtySigned
    totalGammaUsdPerPip2 := m.totalGammaUsdPerPip2 +
      bsGamma N q.spot leg.strike T sigma * (1 / 10000 * (1 / 10000)) * leg.qtySigned * q.contractMultiplier
    totalVegaUsdPerVolpt := m.totalVegaUsdPerVolpt +
      bsVega N q.spot leg.strike T sigma * (1 / 100) * leg.qtySigned * q.contractMultiplier
    totalThetaUsdPerDay := m.totalThetaUsdPerDay +
      bsTheta N q.spot leg.strike T sigma * leg.qtySigned * q.contractMultiplier }

/-- One leg of `price_position` -/
def addLeg (m : PositionMark 𝕜) (leg : LegSpec τ 𝕜) : PositionMark 𝕜 :=
  match legIv N invCdf q leg, leg.fallbackIv with
  | some res, _ => if res.iv ≤ 0 then m.miss 1 else m.priced N q leg res.iv
  | none, some sigma => if sigma ≤ 0 then m.miss 2 else (m.priced N q leg sigma).miss 1
  | none, none => m.miss 1

end PositionMark

def pricePosition (legs : List (LegSpec τ 𝕜)) : PositionMark 𝕜 := legs.foldl (PositionMark.addLeg N invCdf q) .zero

def previewValue (leg : LegSpec τ 𝕜) (sigma : 𝕜) : 𝕜 :=
  sideSign leg.side * previewBsPrice N q.spot leg.strike (yearsToExpiry leg.expiry q.now) sigma leg.contractType *
    leg.qty * q.contractMultiplier

def legValue (leg : LegSpec τ 𝕜) : 𝕜 := (pricePosition N invCdf q [leg]).markValueUsd

variable {N invCdf q} {leg : LegSpec τ 𝕜} {m : PositionMark 𝕜}

theorem priced_value (sigma : 𝕜) :
    (m.priced N q leg sigma).markValueUsd = m.markValueUsd + (PositionMark.zero.priced N q leg sigma).markValueUsd :=
  congrArg (m.markValueUsd + ·) (zero_add _).symm

theorem addLeg_value : (m.addLeg N invCdf q leg).markValueUsd = m.markValueUsd + legValue N invCdf q leg := by
  simp only [legValue, pricePosition, List.foldl_cons, List.foldl_nil, PositionMark.addLeg]
  cases legIv N invCdf q leg with
  | some res =>
    dsimp only
    split_ifs
    · exact (add_zero _).symm
    · exact priced_value res.iv
  | none =>
    cases leg.fallbackIv with
    | none => exact (add_zero _).symm
    | some sigma =>
      dsimp only
      split_ifs
      · exact (add_zero _).symm
      · exact priced_value sigma

/-- The mark of a position is the sum of the values of its legs. -/
theorem pricePosition_value (legs : List (LegSpec τ 𝕜)) :
    (pricePosition N invCdf q legs).markValueUsd = (legs.map (legValue N invCdf q)).sum := by
  have hsum := TableTotals.foldl_sum legs PositionMark.markValueUsd (f := PositionMark.addLeg N invCdf q)
    (g := legValue N invCdf q) (fun m leg _ => addLeg_value) .zero
  exact hsum.trans (zero_add _)

omit [LinearOrder 𝕜] in
theorem yearsToExpiry_expired (h : leg.expiry.toOrdinal ≤ dateOrdinal q.now) : yearsToExpiry leg.expiry q.now = (0 : 𝕜) := by
  rw [yearsToExpiry, max_eq_left (by omega), Int.cast_zero, zero_div]

/-- From its expiry day on a leg is marked at nothing, whatever it pays. -/
theorem legValue_expired (h : leg.expiry.toOrdinal ≤ dateOrdinal q.now) : legValue N invCdf q leg = 0 := by
  have hprice (sigma : 𝕜) : bsPrice N q.spot leg.strike (yearsToExpiry leg.expiry q.now) sigma leg.contractType = 0 :=
    bsPrice_degenerate N (.inr (.inl (yearsToExpiry_expired h).le))
  have hpriced (sigma : 𝕜) : (PositionMark.zero.priced N q leg sigma).markValueUsd = 0 := by
    simp only [PositionMark.priced, hprice, mul_zero, zero_mul, add_zero, PositionMark.zero]
  simp only [legValue, pricePosition, List.foldl_cons, List.foldl_nil, PositionMark.addLeg]
  cases legIv N invCdf q leg with
  | some res =>
    dsimp only
    split_ifs
    · rfl
    · exact hpriced res.iv
  | none =>
    cases leg.fallbackIv with
    | none => rfl
    | some sigma =>
      dsimp only
      split_ifs
      · rfl
      · exact hpriced sigma

variable [IsStrictOrderedRing 𝕜]

omit [LinearOrder 𝕜] [IsStrictOrderedRing 𝕜] in
theorem sideSign_ne_zero (side : Side) : (sideSign side : 𝕜) ≠ 0 := by
  cases side with
  | buy => exact one_ne_zero
  | sell => exact neg_ne_zero.mpr one_ne_zero

/-- On its expiry day a leg has the value the preview gives it exactly out of the money. -/
theorem expiryValue_iff (hmultiplier : q.contractMultiplier ≠ 0) (h : leg.expiry.toOrdinal ≤ dateOrdinal q.now) (sigma : 𝕜) :
    legValue N invCdf q leg = previewValue N q leg sigma ↔ payoff q.spot leg.strike leg.contractType ≤ 0 ∨ leg.qty = 0 := by
  rw [legValue_expired h, previewValue, previewBsPrice_degenerate (.inr (.inl (yearsToExpiry_expired h).le)), eq_comm]
  simp only [mul_eq_zero, sideSign_ne_zero, hmultiplier, false_or, or_false, max_eq_left_iff, Nat.cast_eq_zero]

end Marks

section Rationals
variable (N : VolSurface.Numerics) (q : PositionMarks.Quotes)

def ofLeg (leg : PositionPricing.LegSpec) : LegSpec TradePreviews.Tenor ℚ :=
  { leg with tenor := PositionMarks.tenorFromExpiry leg.expiry q.now }

def ofQuotes : Quotes TradePreviews.Tenor ℚ := ⟨q.surface.map SmileLookup.ofSurface, q.spot, q.now, eurFopMultiplier⟩

def ofMark (m : PositionMarks.PositionMark) : PositionMark ℚ := { m with }

theorem sideSign_rat (side : Side) : (sideSign side : ℚ) = FxVol.sideSign side := by
  cases side <;> rfl

theorem legIv_rat (leg : PositionPricing.LegSpec) :
    legIv (ofGreeks N.toNumerics) N.invCdf (ofQuotes q) (ofLeg q leg) =
      (PositionMarks.legIv N q leg).map SmileLookup.ofResult :=
  SmileLookup.ivAtStrike_rat N q.surface _ _ _ _

theorem priced_rat (m : PositionMarks.PositionMark) (leg : PositionPricing.LegSpec) (sigma : ℚ) :
    (ofMark m).priced (ofGreeks N.toNumerics) (ofQuotes q) (ofLeg q leg) sigma = ofMark (m.priced N q leg sigma) := by
  have hsign : (ofLeg q leg).qtySigned = leg.qtySigned := congrArg (· * (leg.qty : ℚ)) (sideSign_rat leg.side)
  simp only [PositionMark.priced, hsign, sideSign_rat]
  rfl

theorem addLeg_rat (m : PositionMarks.PositionMark) (leg : PositionPricing.LegSpec) :
    (ofMark m).addLeg (ofGreeks N.toNumerics) N.invCdf (ofQuotes q) (ofLeg q leg) = ofMark (m.addLeg N q leg) := by
  have hfallback : (ofLeg q leg).fallbackIv = leg.fallbackIv := rfl
  rw [PositionMark.addLeg, PositionMarks.PositionMark.addLeg, legIv_rat, hfallback]
  cases PositionMarks.legIv N q leg with
  | some res =>
    have hiv : (SmileLookup.ofResult res).iv = res.iv := rfl
    simp only [Option.map_some, hiv, priced_rat]
    split_ifs <;> rfl
  | none =>
    cases leg.fallbackIv with
    | none => rfl
    | some sigma =>
      simp only [Option.map_none, priced_rat]
      split_ifs <;> rfl

/-- Over the rationals it is the mark of the monitor. -/
theorem pricePosition_rat (legs : List PositionPricing.LegSpec) :
    pricePosition (ofGreeks N.toNumerics) N.invCdf (ofQuotes q) (legs.map (ofLeg q)) =
      ofMark (PositionMarks.pricePosition N q legs) := by
  suffices hfold : ∀ m : PositionMarks.PositionMark,
      (legs.map (ofLeg q)).foldl (PositionMark.addLeg (ofGreeks N.toNumerics) N.invCdf (ofQuotes q)) (ofMark m) =
        ofMark (legs.foldl (PositionMarks.PositionMark.addLeg N q) m) from hfold .zero
  induction legs with
  | nil => exact fun m => rfl
  | cons leg legs ih =>
    intro m
    rw [List.map_cons, List.foldl_cons, List.foldl_cons, addLeg_rat, ih]

end Rationals

/-- A call in the money on its expiry day is worth nothing to the marks and its payoff to the preview. -/
theorem not_one_pricer : ¬ ∀ F K T sigma : ℝ, 0 < F → 0 < K → 0 ≤ T → 0 ≤ sigma → OnePricer standard F K T sigma := by
  intro h
  have hpoint : OnePricer standard (11 / 10) 1 0 (8 / 100) := h _ _ _ _ (by norm_num) one_pos le_rfl (by norm_num)
  have hexpired : Degenerate (11 / 10 : ℝ) 1 0 (8 / 100) := .inr (.inl le_rfl)
  have hatMoney := (price_iff_degenerate hexpired).mp hpoint.price
  norm_num at hatMoney

/-- The pricers are one, and both keep put-call parity, exactly where the formula has a value and at the money; a leg
of any position is marked on its expiry day as the preview values it exactly if it is out of the money. -/
theorem one_pricer_iff (N : Numerics ℝ) (hN : ∀ x, N.normCdf x + N.normCdf (-x) = 1) (F K T sigma : ℝ)
    (hF : 0 < F) (hK : 0 < K) :
    (OnePricer N F K T sigma ↔ (0 < T ∧ 0 < sigma) ∨ F = K) ∧
      ∀ (invCdf : ℝ → ℝ) (q : Quotes TradePreviews.Tenor ℝ) (before after : List (LegSpec TradePreviews.Tenor ℝ))
        (leg : LegSpec TradePreviews.Tenor ℝ), q.spot = F → leg.strike = K → leg.expiry.toOrdinal = dateOrdinal q.now →
        0 < q.contractMultiplier → 0 < leg.qty →
        ((pricePosition N invCdf q (before ++ leg :: after)).markValueUsd =
            (pricePosition N invCdf q (before ++ after)).markValueUsd + previewValue N q leg sigma ↔
          (if leg.contractType = .call then F ≤ K else K ≤ F)) := by
  refine ⟨onePricer_iff hN hF hK, ?_⟩
  intro invCdf q before after leg hspot hstrike hexpiry hmultiplier hqty
  have hpart : (pricePosition N invCdf q (before ++ leg :: after)).markValueUsd =
      (pricePosition N invCdf q (before ++ after)).markValueUsd + legValue N invCdf q leg := by
    simp only [pricePosition_value, List.map_append, List.map_cons, List.sum_append, List.sum_cons]
    ring
  have hpayoff : payoff q.spot leg.strike leg.contractType ≤ 0 ↔ if leg.contractType = .call then F ≤ K else K ≤ F := by
    rw [payoff, hspot, hstrike]
    split_ifs <;> exact sub_nonpos
  rw [hpart, add_right_inj, expiryValue_iff hmultiplier.ne' hexpiry.le, or_iff_left hqty.ne', hpayoff]

/-- A call in the money, and the day it expires -/
noncomputable def expiringQuotes : Quotes TradePreviews.Tenor ℝ := ⟨none, 11 / 10, 0, 125000⟩

noncomputable def expiringLeg : LegSpec TradePreviews.Tenor ℝ := ⟨.call, .m1, 1, ⟨1970, 1, 1⟩, .buy, 1, some (8 / 100)⟩

theorem one_pricer_expiring : OnePricer standard (11 / 10) 1 (1 / 12) (8 / 100) ∧
    (pricePosition standard id expiringQuotes [expiringLeg]).markValueUsd ≠
      (pricePosition standard id expiringQuotes []).markValueUsd + previewValue standard expiringQuotes expiringLeg (8 / 100) := by
  obtain ⟨hone, hmark⟩ := one_pricer_iff standard (fun x => by
    change BlackFormula.distribution x + BlackFormula.distribution (-x) = 1
    rw [BlackFormula.distribution_neg]
    ring) (11 / 10) 1 (1 / 12) (8 / 100) (by norm_num) one_pos
  refine ⟨hone.mpr (.inl ⟨by norm_num, by norm_num⟩), ?_⟩
  have hmoney := hmark id expiringQuotes [] [] expiringLeg rfl rfl (by decide) (by norm_num [expiringQuotes]) one_pos
  refine fun heq => absurd (hmoney.mp heq) ?_
  norm_num [expiringLeg]

end FxVol.PricerAgreement
