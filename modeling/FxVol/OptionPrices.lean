import FxVol.GreekScaling

/-!
# Option prices

`bs_price` of `core.pricing.bs`, which the risk engine and the monitor use, `bs_price_vec` of
`core.risk.greeks`, and `bs_price` of `core.trade_preview`.  They differ where the formula has no
value.
-/
namespace FxVol.Greeks

variable (N : Numerics) (F K T sigma : ℚ) (right : ContractType)

/-- `bs_price` of `core.pricing.bs` -/
def bsPrice : ℚ :=
  if Degenerate F K T sigma then 0
  else if right = .call then
    F * N.normCdf (bsD1 N F K T sigma) - K * N.normCdf (bsD2 N F K T sigma)
  else K * N.normCdf (-bsD2 N F K T sigma) - F * N.normCdf (-bsD1 N F K T sigma)

/-- One entry of `bs_price_vec`: the forward is not tested. -/
def bsPriceVec : ℚ :=
  if sigma ≤ 0 ∨ T ≤ 0 ∨ K ≤ 0 then 0
  else if right = .call then
    F * N.normCdf (bsD1 N F K T sigma) - K * N.normCdf (bsD2 N F K T sigma)
  else K * N.normCdf (-bsD2 N F K T sigma) - F * N.normCdf (-bsD1 N F K T sigma)

/-- `bs_price` of `core.trade_preview`, the intrinsic value where the formula has none -/
def previewBsPrice : ℚ :=
  if Degenerate F K T sigma then max 0 (if right = .call then F - K else K - F)
  else if right = .call then
    F * cumulative N (bsD1 N F K T sigma) - K * cumulative N (bsD2 N F K T sigma)
  else K * cumulative N (-bsD2 N F K T sigma) - F * cumulative N (-bsD1 N F K T sigma)

variable {F K T sigma}

theorem previewBsPrice_eq (h : ¬ Degenerate F K T sigma) :
    previewBsPrice N F K T sigma right = bsPrice N F K T sigma right := by
  rw [previewBsPrice, bsPrice, if_neg h, if_neg h]
  simp only [cumulative_eq]

theorem bsPriceVec_eq (h : 0 < F) : bsPriceVec N F K T sigma right = bsPrice N F K T sigma right := by
  have hsame : (sigma ≤ 0 ∨ T ≤ 0 ∨ K ≤ 0) ↔ Degenerate F K T sigma := by
    simp [Degenerate, not_le.mpr h]
  rw [bsPriceVec, bsPrice]
  simp only [hsame]

end FxVol.Greeks
