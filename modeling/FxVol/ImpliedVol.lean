import FxVol.BlackGreeks
import FxVol.Numerals
import FxVol.Pricers

/-!
# Greeks and implied volatility

The closed forms of `core.pricing.bs` are the derivatives of its price, over the reals and the normal distribution, and
`bs_implied_vol` inverts it.  The root finder it calls is a parameter.
-/
namespace FxVol.ImpliedVol

open scoped Numerals
open BlackFormula Pricers

section Program
variable {𝕜 : Type*} [Field 𝕜] [LinearOrder 𝕜]

/-- `bs_implied_vol`; `brentq` gives none where it raises -/
def bsImpliedVol (N : Numerics 𝕜) (brentq : (𝕜 → 𝕜) → 𝕜 → 𝕜 → Option 𝕜) (price F K T : 𝕜) (right : ContractType)
    (lo hi : 𝕜) : Option 𝕜 :=
  if price ≤ 0 ∨ F ≤ 0 ∨ K ≤ 0 ∨ T ≤ 0 then none
  else
    let intrinsic := if right = .call then max (F - K) 0 else max (K - F) 0
    if price < intrinsic - 1 / 10 ^ 8 then none
    else
      let f sigma := bsPrice N F K T sigma right - price
      if 0 < f lo * f hi then none else brentq f lo hi

end Program

section ClosedForms
variable {F K T sigma : ℝ} (hF : 0 < F) (hK : 0 < K) (hT : 0 < T) (hsigma : 0 < sigma)
include hF hK hT hsigma

theorem not_degenerate : ¬ Degenerate F K T sigma := by
  simp only [Degenerate, not_or, not_le]
  exact ⟨hsigma, hT, hF, hK⟩

omit hF hK in
theorem totalVol_pos : 0 < sigma * √T := mul_pos hsigma (Real.sqrt_pos.mpr hT)

theorem bsDelta_standard (right : ContractType) : bsDelta standard F K T sigma right =
    if right = .call then distribution (d1 F K (sigma * √T)) else distribution (d1 F K (sigma * √T)) - 1 := by
  rw [bsDelta, if_neg (not_degenerate hF hK hT hsigma), bsD1_standard hT hsigma]
  rfl

theorem bsGamma_standard : bsGamma standard F K T sigma = density (d1 F K (sigma * √T)) / (F * (sigma * √T)) := by
  rw [bsGamma, if_neg (not_degenerate hF hK hT hsigma), bsD1_standard hT hsigma, ← mul_assoc]
  rfl

theorem bsVega_standard : bsVega standard F K T sigma = F * density (d1 F K (sigma * √T)) * √T := by
  rw [bsVega, if_neg (not_degenerate hF hK hT hsigma), bsD1_standard hT hsigma]
  rfl

theorem bsTheta_standard :
    bsTheta standard F K T sigma = -(F * density (d1 F K (sigma * √T)) * sigma) / (2 * √T) / 365 := by
  rw [bsTheta, if_neg (not_degenerate hF hK hT hsigma), bsD1_standard hT hsigma]
  rfl

theorem bsVanna_standard :
    bsVanna standard F K T sigma = -density (d1 F K (sigma * √T)) * d2 F K (sigma * √T) / sigma := by
  rw [bsVanna, if_neg (not_degenerate hF hK hT hsigma), bsD1_standard hT hsigma, bsD2_standard hT hsigma]
  rfl

theorem bsVolga_standard : bsVolga standard F K T sigma =
    F * density (d1 F K (sigma * √T)) * √T * d1 F K (sigma * √T) * d2 F K (sigma * √T) / sigma := by
  rw [bsVolga, if_neg (not_degenerate hF hK hT hsigma), bsD1_standard hT hsigma, bsD2_standard hT hsigma]
  rfl

end ClosedForms

/-- At a positive point a function has the derivative of what it is at the positive points. -/
theorem hasDerivAt_of_pos {f g : ℝ → ℝ} {g' x : ℝ} (hx : 0 < x) (hfg : ∀ y, 0 < y → f y = g y) (hg : HasDerivAt g g' x) :
    HasDerivAt f g' x :=
  hg.congr_of_eventuallyEq ((eventually_gt_nhds hx).mono hfg)

/-- The deltas of the two rights differ by one. -/
theorem hasDerivAt_right (right : ContractType) {f : ℝ → ℝ} {f' x : ℝ} (hf : HasDerivAt f f' x) :
    HasDerivAt (fun x => if right = .call then f x else f x - 1) f' x := by
  by_cases hcall : right = .call
  · simp only [hcall, if_true]
    exact hf
  · simp only [hcall, if_false]
    exact hf.sub_const 1

section Derivatives
variable {F K T sigma : ℝ} (hF : 0 < F) (hK : 0 < K) (hT : 0 < T) (hsigma : 0 < sigma) (right : ContractType)
include hF hK

/-- Both rights have the vega of the formula. -/
theorem hasDerivAt_value {s : ℝ} (hs : 0 < s) :
    HasDerivAt (fun s => if right = .call then call F K s else put F K s) (F * density (d1 F K s)) s := by
  by_cases hcall : right = .call
  · simp only [hcall, if_true]
    exact hasDerivAt_call hF hK hs
  · simp only [hcall, if_false]
    exact hasDerivAt_put hF hK hs

theorem hasDerivAt_value_forward {s : ℝ} (hs : 0 < s) :
    HasDerivAt (fun F => if right = .call then call F K s else put F K s)
      (if right = .call then distribution (d1 F K s) else distribution (d1 F K s) - 1) F := by
  by_cases hcall : right = .call
  · simp only [hcall, if_true]
    exact hasDerivAt_call_forward hF hK hs
  · simp only [hcall, if_false]
    exact hasDerivAt_put_forward hF hK hs

include hT hsigma

theorem hasDerivAt_bsPrice_forward :
    HasDerivAt (fun F => bsPrice standard F K T sigma right) (bsDelta standard F K T sigma right) F := by
  rw [bsDelta_standard hF hK hT hsigma]
  refine hasDerivAt_of_pos hF (fun F hF => bsPrice_standard hF hK hT hsigma) ?_
  exact hasDerivAt_value_forward hF hK right (totalVol_pos hT hsigma)

theorem hasDerivAt_bsDelta_forward :
    HasDerivAt (fun F => bsDelta standard F K T sigma right) (bsGamma standard F K T sigma) F := by
  rw [bsGamma_standard hF hK hT hsigma]
  refine hasDerivAt_of_pos hF (fun F hF => bsDelta_standard hF hK hT hsigma right) ?_
  exact hasDerivAt_right right (hasDerivAt_delta hF hK (sigma * √T))

theorem hasDerivAt_bsPrice_vol :
    HasDerivAt (fun sigma => bsPrice standard F K T sigma right) (bsVega standard F K T sigma) sigma := by
  have hscale : HasDerivAt (fun sigma => sigma * √T) (1 * √T) sigma := (hasDerivAt_id' sigma).mul_const √T
  have hvalue := (hasDerivAt_value hF hK right (totalVol_pos hT hsigma)).comp sigma hscale
  rw [one_mul] at hvalue
  rw [bsVega_standard hF hK hT hsigma]
  exact hasDerivAt_of_pos hsigma (fun sigma hsigma => bsPrice_standard hF hK hT hsigma) hvalue

/-- The price falls as its time passes, by the day. -/
theorem hasDerivAt_bsPrice_time :
    HasDerivAt (fun T => bsPrice standard F K T sigma right) (-(365 * bsTheta standard F K T sigma)) T := by
  have hscale : HasDerivAt (fun T => sigma * √T) (sigma * (1 / (2 * √T))) T :=
    (Real.hasDerivAt_sqrt hT.ne').const_mul sigma
  have hvalue := (hasDerivAt_value hF hK right (totalVol_pos hT hsigma)).comp T hscale
  refine (hasDerivAt_of_pos hT (fun T hT => bsPrice_standard hF hK hT hsigma) hvalue).congr_deriv ?_
  rw [bsTheta_standard hF hK hT hsigma]
  ring

theorem hasDerivAt_bsDelta_vol :
    HasDerivAt (fun sigma => bsDelta standard F K T sigma right) (bsVanna standard F K T sigma) sigma := by
  have hscale : HasDerivAt (fun sigma => sigma * √T) (1 * √T) sigma := (hasDerivAt_id' sigma).mul_const √T
  have hdelta : HasDerivAt (fun sigma => distribution (d1 F K (sigma * √T))) (bsVanna standard F K T sigma) sigma := by
    have hroot : 0 < √T := Real.sqrt_pos.mpr hT
    have hcomp := (hasDerivAt_delta_vol (F := F) (K := K) (totalVol_pos hT hsigma)).comp sigma hscale
    refine hcomp.congr_deriv ?_
    rw [bsVanna_standard hF hK hT hsigma]
    field_simp
  refine hasDerivAt_of_pos hsigma (fun sigma hsigma => bsDelta_standard hF hK hT hsigma right) ?_
  exact hasDerivAt_right right hdelta

theorem hasDerivAt_bsVega_forward :
    HasDerivAt (fun F => bsVega standard F K T sigma) (bsVanna standard F K T sigma) F := by
  have hroot : 0 < √T := Real.sqrt_pos.mpr hT
  have hvega := (hasDerivAt_vega_forward hF hK (totalVol_pos hT hsigma)).mul_const √T
  refine (hasDerivAt_of_pos hF (fun F hF => bsVega_standard hF hK hT hsigma) hvega).congr_deriv ?_
  rw [bsVanna_standard hF hK hT hsigma]
  field_simp

theorem hasDerivAt_bsVega_vol :
    HasDerivAt (fun sigma => bsVega standard F K T sigma) (bsVolga standard F K T sigma) sigma := by
  have hroot : 0 < √T := Real.sqrt_pos.mpr hT
  have hscale : HasDerivAt (fun sigma => sigma * √T) (1 * √T) sigma := (hasDerivAt_id' sigma).mul_const √T
  have hvega := ((hasDerivAt_vega_vol (F := F) (K := K) (totalVol_pos hT hsigma)).comp sigma hscale).mul_const √T
  refine (hasDerivAt_of_pos hsigma (fun sigma hsigma => bsVega_standard hF hK hT hsigma) hvega).congr_deriv ?_
  rw [bsVolga_standard hF hK hT hsigma]
  field_simp

end Derivatives

/-- Every closed form is the derivative it is named after. -/
structure TrueGreeks (F K T sigma : ℝ) (right : ContractType) : Prop where
  delta : HasDerivAt (fun F => bsPrice standard F K T sigma right) (bsDelta standard F K T sigma right) F
  gamma : HasDerivAt (deriv fun F => bsPrice standard F K T sigma right) (bsGamma standard F K T sigma) F
  vega : HasDerivAt (fun sigma => bsPrice standard F K T sigma right) (bsVega standard F K T sigma) sigma
  theta : HasDerivAt (fun T => bsPrice standard F K T sigma right) (-(365 * bsTheta standard F K T sigma)) T
  vanna : HasDerivAt (fun sigma => deriv (fun F => bsPrice standard F K T sigma right) F) (bsVanna standard F K T sigma) sigma
  vanna_swap : HasDerivAt (fun F => deriv (fun sigma => bsPrice standard F K T sigma right) sigma)
    (bsVanna standard F K T sigma) F
  volga : HasDerivAt (deriv fun sigma => bsPrice standard F K T sigma right) (bsVolga standard F K T sigma) sigma

theorem trueGreeks {F K T sigma : ℝ} (hF : 0 < F) (hK : 0 < K) (hT : 0 < T) (hsigma : 0 < sigma) (right : ContractType) :
    TrueGreeks F K T sigma right where
  delta := hasDerivAt_bsPrice_forward hF hK hT hsigma right
  gamma := hasDerivAt_of_pos hF (fun _ hF => (hasDerivAt_bsPrice_forward hF hK hT hsigma right).deriv)
    (hasDerivAt_bsDelta_forward hF hK hT hsigma right)
  vega := hasDerivAt_bsPrice_vol hF hK hT hsigma right
  theta := hasDerivAt_bsPrice_time hF hK hT hsigma right
  vanna := hasDerivAt_of_pos hsigma (fun _ hsigma => (hasDerivAt_bsPrice_forward hF hK hT hsigma right).deriv)
    (hasDerivAt_bsDelta_vol hF hK hT hsigma right)
  vanna_swap := hasDerivAt_of_pos hF (fun _ hF => (hasDerivAt_bsPrice_vol hF hK hT hsigma right).deriv)
    (hasDerivAt_bsVega_forward hF hK hT hsigma)
  volga := hasDerivAt_of_pos hsigma (fun _ hsigma => (hasDerivAt_bsPrice_vol hF hK hT hsigma right).deriv)
    (hasDerivAt_bsVega_vol hF hK hT hsigma)

/-- A price grows with the volatility. -/
theorem bsPrice_strictMonoOn {F K T : ℝ} (hF : 0 < F) (hK : 0 < K) (hT : 0 < T) (right : ContractType) :
    StrictMonoOn (fun sigma => bsPrice standard F K T sigma right) (Set.Ioi 0) := by
  apply strictMonoOn_of_deriv_pos (convex_Ioi 0)
  · exact fun sigma hsigma => (continuousAt_bsPrice F K hT right hsigma).continuousWithinAt
  · intro sigma hsigma
    rw [interior_Ioi] at hsigma
    have hroot : 0 < √T := Real.sqrt_pos.mpr hT
    rw [(hasDerivAt_bsPrice_vol hF hK hT hsigma right).deriv, bsVega_standard hF hK hT hsigma]
    exact mul_pos (mul_pos hF (density_pos _)) hroot

/-- A root finder finds a root of a continuous function between values that are not both above or both below zero. -/
def FindsRoots (brentq : (ℝ → ℝ) → ℝ → ℝ → Option ℝ) : Prop :=
  ∀ f a b, a ≤ b → ContinuousOn f (Set.Icc a b) → f a * f b ≤ 0 → ∃ r ∈ Set.Icc a b, brentq f a b = some r ∧ f r = 0

section Roots
variable {brentq : (ℝ → ℝ) → ℝ → ℝ → Option ℝ} {g : ℝ → ℝ} {lo hi : ℝ}

theorem exists_root (hle : lo ≤ hi) (hg : ContinuousOn g (Set.Icc lo hi)) (hsign : g lo * g hi ≤ 0) :
    ∃ r ∈ Set.Icc lo hi, g r = 0 := by
  rcases mul_nonpos_iff.mp hsign with ⟨hlo, hhi⟩ | ⟨hlo, hhi⟩
  · exact intermediate_value_Icc' hle hg ⟨hhi, hlo⟩
  · exact intermediate_value_Icc hle hg ⟨hlo, hhi⟩

open Classical in
noncomputable def someRoot (f : ℝ → ℝ) (a b : ℝ) : Option ℝ :=
  if h : ∃ r ∈ Set.Icc a b, f r = 0 then some h.choose else none

theorem findsRoots_someRoot : FindsRoots someRoot := by
  intro f a b hle hf hsign
  have h := exists_root hle hf hsign
  exact ⟨h.choose, h.choose_spec.1, dif_pos h, h.choose_spec.2⟩

variable (hmono : StrictMonoOn g (Set.Icc lo hi)) (hle : lo ≤ hi)
include hmono hle

theorem same_sign_iff (price : ℝ) : 0 < (g lo - price) * (g hi - price) ↔ price < g lo ∨ g hi < price := by
  have hends : g lo ≤ g hi := hmono.monotoneOn (Set.left_mem_Icc.mpr hle) (Set.right_mem_Icc.mpr hle) hle
  rw [mul_pos_iff, sub_pos, sub_pos, sub_neg, sub_neg]
  constructor
  · rintro (⟨h, -⟩ | ⟨-, h⟩)
    · exact Or.inl h
    · exact Or.inr h
  · rintro (h | h)
    · exact Or.inl ⟨h, h.trans_le hends⟩
    · exact Or.inr ⟨hends.trans_lt h, h⟩

theorem brentq_eq (hbrentq : FindsRoots brentq) (hg : ContinuousOn g (Set.Icc lo hi)) {x : ℝ} (hx : x ∈ Set.Icc lo hi) :
    brentq (fun y => g y - g x) lo hi = some x := by
  have hlow : g lo ≤ g x := hmono.monotoneOn (Set.left_mem_Icc.mpr hle) hx hx.1
  have hhigh : g x ≤ g hi := hmono.monotoneOn hx (Set.right_mem_Icc.mpr hle) hx.2
  have hsign : (g lo - g x) * (g hi - g x) ≤ 0 :=
    mul_nonpos_of_nonpos_of_nonneg (sub_nonpos.mpr hlow) (sub_nonneg.mpr hhigh)
  obtain ⟨r, hr, hfound, hroot⟩ := hbrentq (fun y => g y - g x) lo hi hle (hg.sub continuousOn_const) hsign
  rw [hfound, hmono.injOn hr hx (sub_eq_zero.mp hroot)]

end Roots

section Inverse
variable {F K T : ℝ} (hF : 0 < F) (hK : 0 < K) (hT : 0 < T) (right : ContractType)
include hF hK hT

theorem intrinsic_lt_bsPrice {sigma : ℝ} (hsigma : 0 < sigma) :
    (if right = .call then max (F - K) 0 else max (K - F) 0) < bsPrice standard F K T sigma right := by
  rw [bsPrice_standard hF hK hT hsigma]
  by_cases hcall : right = .call
  · rw [if_pos hcall, if_pos hcall, max_comm]
    exact lt_call hF hK (totalVol_pos hT hsigma)
  · rw [if_neg hcall, if_neg hcall, max_comm]
    exact lt_put hF hK (totalVol_pos hT hsigma)

theorem bsPrice_pos {sigma : ℝ} (hsigma : 0 < sigma) : 0 < bsPrice standard F K T sigma right := by
  refine lt_of_le_of_lt ?_ (intrinsic_lt_bsPrice hF hK hT right hsigma)
  split <;> exact le_max_right _ _

/-- At a price that is not turned away at once -/
theorem bsImpliedVol_eq {brentq : (ℝ → ℝ) → ℝ → ℝ → Option ℝ} {lo hi price : ℝ} (hprice : 0 < price)
    (hintrinsic : (if right = .call then max (F - K) 0 else max (K - F) 0) - 1 / 10 ^ 8 ≤ price) :
    bsImpliedVol standard brentq price F K T right lo hi =
      if 0 < (bsPrice standard F K T lo right - price) * (bsPrice standard F K T hi right - price) then none
      else brentq (fun sigma => bsPrice standard F K T sigma right - price) lo hi := by
  have hregular : ¬ (price ≤ 0 ∨ F ≤ 0 ∨ K ≤ 0 ∨ T ≤ 0) := by
    simp only [not_or, not_le]
    exact ⟨hprice, hF, hK, hT⟩
  rw [bsImpliedVol, if_neg hregular]
  dsimp only
  rw [if_neg (not_lt.mpr hintrinsic)]

variable {brentq : (ℝ → ℝ) → ℝ → ℝ → Option ℝ} (hbrentq : FindsRoots brentq) {lo hi : ℝ} (hlo : 0 < lo) (hle : lo ≤ hi)
include hlo

theorem bsPrice_strictMonoOn_bracket : StrictMonoOn (fun sigma => bsPrice standard F K T sigma right) (Set.Icc lo hi) :=
  (bsPrice_strictMonoOn hF hK hT right).mono fun _ hx => hlo.trans_le hx.1

omit hF hK in
theorem bsPrice_continuousOn_bracket : ContinuousOn (fun sigma => bsPrice standard F K T sigma right) (Set.Icc lo hi) :=
  fun _ hsigma => (continuousAt_bsPrice F K hT right (hlo.trans_le hsigma.1)).continuousWithinAt

include hbrentq hle

/-- No volatility where the price is nothing, below the intrinsic value or out of the reach of the bracket -/
theorem bsImpliedVol_eq_none (price : ℝ) : bsImpliedVol standard brentq price F K T right lo hi = none ↔
    price ≤ 0 ∨ price < (if right = .call then max (F - K) 0 else max (K - F) 0) - 1 / 10 ^ 8 ∨
      price < bsPrice standard F K T lo right ∨ bsPrice standard F K T hi right < price := by
  have hsign := same_sign_iff (bsPrice_strictMonoOn_bracket hF hK hT right hlo) hle price
  rcases le_or_gt price 0 with hprice | hprice
  · simp only [bsImpliedVol, hprice, true_or, if_true]
  rcases lt_or_ge price ((if right = .call then max (F - K) 0 else max (K - F) 0) - 1 / 10 ^ 8) with hlow | hlow
  · have hregular : ¬ (price ≤ 0 ∨ F ≤ 0 ∨ K ≤ 0 ∨ T ≤ 0) := by
      simp only [not_or, not_le]
      exact ⟨hprice, hF, hK, hT⟩
    simp only [bsImpliedVol, if_neg hregular, hlow, if_true, true_or, or_true]
  rw [bsImpliedVol_eq hF hK hT right hprice hlow]
  by_cases hout : price < bsPrice standard F K T lo right ∨ bsPrice standard F K T hi right < price
  · rw [if_pos (hsign.mpr hout)]
    simp only [hout, or_true]
  · have hbracket := not_lt.mp (hsign.not.mpr hout)
    obtain ⟨r, -, hfound, -⟩ := hbrentq (fun sigma => bsPrice standard F K T sigma right - price) lo hi hle
      ((bsPrice_continuousOn_bracket hT right hlo).sub continuousOn_const) hbracket
    rw [if_neg (hsign.not.mpr hout), hfound]
    simp only [reduceCtorEq, hprice.not_ge, hlow.not_gt, hout, or_self]

/-- The implied volatility of a price is the volatility it was made with. -/
theorem bsImpliedVol_bsPrice {sigma : ℝ} (hsigma : sigma ∈ Set.Icc lo hi) :
    bsImpliedVol standard brentq (bsPrice standard F K T sigma right) F K T right lo hi = some sigma := by
  have hpos : 0 < sigma := hlo.trans_le hsigma.1
  have hmono : StrictMonoOn (fun sigma => bsPrice standard F K T sigma right) (Set.Icc lo hi) :=
    bsPrice_strictMonoOn_bracket hF hK hT right hlo
  have hintrinsic := intrinsic_lt_bsPrice hF hK hT right hpos
  have hlow := hmono.monotoneOn (Set.left_mem_Icc.mpr hle) hsigma hsigma.1
  have hhigh := hmono.monotoneOn hsigma (Set.right_mem_Icc.mpr hle) hsigma.2
  have hin := (same_sign_iff hmono hle (bsPrice standard F K T sigma right)).not.mpr (not_or.mpr ⟨hlow.not_gt, hhigh.not_gt⟩)
  rw [bsImpliedVol_eq hF hK hT right (bsPrice_pos hF hK hT right hpos) (by linarith), if_neg hin]
  exact brentq_eq hmono hle hbrentq (bsPrice_continuousOn_bracket hT right hlo) hsigma

end Inverse

/-- The greeks are the derivatives of the price and the implied volatility is its inverse. -/
theorem greeks_and_inverse {brentq : (ℝ → ℝ) → ℝ → ℝ → Option ℝ} (hbrentq : FindsRoots brentq) {F K T : ℝ} (hF : 0 < F)
    (hK : 0 < K) (hT : 0 < T) (right : ContractType) :
    (∀ sigma, 0 < sigma → TrueGreeks F K T sigma right) ∧
      StrictMonoOn (fun sigma => bsPrice standard F K T sigma right) (Set.Ioi 0) ∧
      ∀ lo hi, 0 < lo → lo ≤ hi →
        (∀ sigma ∈ Set.Icc lo hi,
          bsImpliedVol standard brentq (bsPrice standard F K T sigma right) F K T right lo hi = some sigma) ∧
        ∀ price, bsImpliedVol standard brentq price F K T right lo hi = none ↔
          price ≤ 0 ∨ price < (if right = .call then max (F - K) 0 else max (K - F) 0) - 1 / 10 ^ 8 ∨
            price < bsPrice standard F K T lo right ∨ bsPrice standard F K T hi right < price := by
  refine ⟨fun sigma hsigma => trueGreeks hF hK hT hsigma right, bsPrice_strictMonoOn hF hK hT right, ?_⟩
  intro lo hi hlo hle
  constructor
  · exact fun sigma hsigma => bsImpliedVol_bsPrice hF hK hT right hbrentq hlo hle hsigma
  · exact bsImpliedVol_eq_none hF hK hT right hbrentq hlo hle

/-- A call at the money of a year, in the default bracket -/
theorem greeks_and_inverse_atm :
    TrueGreeks 1 1 1 (1 / 10) .call ∧
      bsImpliedVol standard someRoot (bsPrice standard 1 1 1 (1 / 10) .call) 1 1 1 .call (1 / 10 ^ 4) 5 = some (1 / 10) := by
  obtain ⟨hgreeks, -, hinverse⟩ := greeks_and_inverse findsRoots_someRoot one_pos one_pos one_pos .call
  refine ⟨hgreeks (1 / 10) (by norm_num), (hinverse (1 / 10 ^ 4) 5 (by norm_num) (by norm_num)).1 (1 / 10) ?_⟩
  constructor <;> norm_num

end FxVol.ImpliedVol
