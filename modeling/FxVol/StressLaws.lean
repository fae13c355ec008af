import FxVol.Numerals
import FxVol.Pricers
import FxVol.Revaluation
import FxVol.TableTotals

/-!
# The laws of the stress revaluation

`reval_book` of `core.risk.stress` over any ordered field.  It is a sum over the positions, and nothing at the shocks of the book itself.
A long option gains with the vol shock while it is in the sum; where its shocked vol reaches zero it comes into the
sum with its whole base value against it.
-/
namespace FxVol.StressLaws

open scoped Numerals
open Pricers
open Revaluation (Output)
open Filter Topology

structure OptionTerms (𝕜 : Type*) where
  K : 𝕜
  T : 𝕜
  iv : 𝕜
  right : ContractType

/-- A resolved position with the base price of its option; a future has no option terms. -/
structure Baseline (𝕜 : Type*) where
  qtySigned : 𝕜
  mult : 𝕜
  option : Option (OptionTerms 𝕜)
  priceBase : 𝕜

structure Shocks (𝕜 : Type*) [Zero 𝕜] where
  dspotBp : 𝕜 := 0
  dvolVp : 𝕜 := 0
  dtDays : 𝕜 := 0
  dskewVp : 𝕜 := 0
  dflyVp : 𝕜 := 0

section Reval
variable {𝕜 : Type*} [Field 𝕜] [LinearOrder 𝕜] (N : Numerics 𝕜)

def Baseline.qm (p : Baseline 𝕜) : 𝕜 := p.qtySigned * p.mult

def moneyBand : 𝕜 := 5 / 100

def moneyWeight (strike spot : 𝕜) : 𝕜 :=
  if spot ≤ 0 then 0 else max (-1) (min 1 ((strike - spot) / (spot * moneyBand)))

def shockedIv (o : OptionTerms 𝕜) (spot : 𝕜) (s : Shocks 𝕜) : 𝕜 :=
  let iv := o.iv + s.dvolVp / 100
  if s.dskewVp ≠ 0 ∨ s.dflyVp ≠ 0 then
    let w := moneyWeight o.K spot
    iv + s.dskewVp / 100 * (1 / 2) * w + s.dflyVp / 100 * |w|
  else iv

def greek (output : Output) (qm spot : 𝕜) (o : OptionTerms 𝕜) (iv : 𝕜) : 𝕜 :=
  match output with
  | .pnl => 0
  | .delta => qm * bsDelta N spot o.K o.T iv o.right
  | .gamma => qm * bsGamma N spot o.K o.T iv * (1 / 10000)
  | .vega => qm * bsVega N spot o.K o.T iv * (1 / 100)
  | .theta => qm * bsTheta N spot o.K o.T iv
  | .vanna => qm * bsVanna N spot o.K o.T iv * (1 / 100)
  | .volga => qm * bsVolga N spot o.K o.T iv * (1 / 10000)

def newSpot (spot0 : 𝕜) (s : Shocks 𝕜) : 𝕜 := spot0 * (1 + s.dspotBp / 10000)

def newT (o : OptionTerms 𝕜) (s : Shocks 𝕜) : 𝕜 := max (1 / 10000) (o.T - s.dtDays / 365)

/-- One position of `reval_book` -/
def revalStep (spot0 : 𝕜) (s : Shocks 𝕜) (output : Output) (total : 𝕜) (p : Baseline 𝕜) : 𝕜 :=
  match p.option with
  | none =>
    match output with
    | .pnl => total + p.qm * (newSpot spot0 s - spot0)
    | .delta => total + p.qm
    | _ => total
  | some o =>
    let newIv := shockedIv o (newSpot spot0 s) s
    if newIv ≤ 0 then total
    else if output = .pnl then
      total + p.qm * (bsPrice N (newSpot spot0 s) o.K (newT o s) newIv o.right - p.priceBase)
    else total + greek N output p.qm (newSpot spot0 s) { o with T := newT o s } newIv

def revalBook (baselines : List (Baseline 𝕜)) (spot0 : 𝕜) (s : Shocks 𝕜) (output : Output) : 𝕜 :=
  baselines.foldl (revalStep N spot0 s output) 0

/-- The base price of each option is its price at the spot. -/
def Based (spot0 : 𝕜) (book : List (Baseline 𝕜)) : Prop :=
  ∀ p ∈ book, ∀ o ∈ p.option, p.priceBase = bsPrice N spot0 o.K (max (1 / 10000) o.T) o.iv o.right

/-- The options of the book are long. -/
def Long (book : List (Baseline 𝕜)) : Prop := ∀ p ∈ book, p.option.isSome → 0 ≤ p.qm

/-- The revaluation is additive, nothing at no shock, and for a book of long options non-decreasing in the vol
shock. -/
structure Laws (book : List (Baseline 𝕜)) (spot0 : 𝕜) (s : Shocks 𝕜) : Prop where
  additive : ∀ rest output, revalBook N (book ++ rest) spot0 s output =
    revalBook N book spot0 s output + revalBook N rest spot0 s output
  zero : Based N spot0 book → revalBook N book spot0 {} .pnl = 0
  monotone : Long book → Monotone fun dvol => revalBook N book spot0 { s with dvolVp := dvol } .pnl

/-- The options whose vol comes to zero with the vol shock -/
def leavingAt (book : List (Baseline 𝕜)) (spot : 𝕜) (s : Shocks 𝕜) (dvol : 𝕜) : List (Baseline 𝕜) :=
  book.filter fun p => p.option.any fun o => shockedIv o spot { s with dvolVp := dvol } = 0

def exerciseGain (spot : 𝕜) (p : Baseline 𝕜) : 𝕜 :=
  p.qm * (p.option.elim 0 (fun o => intrinsic spot o.K o.right) - p.priceBase)

/-- The options that come into the sum at one vol shock gain nothing less than their base prices by exercise. -/
def Settles (book : List (Baseline 𝕜)) (spot : 𝕜) (s : Shocks 𝕜) : Prop :=
  ∀ dvol, 0 ≤ ((leavingAt book spot s dvol).map (exerciseGain spot)).sum

theorem revalStep_add (spot0 : 𝕜) (s : Shocks 𝕜) (output : Output) (total : 𝕜) (p : Baseline 𝕜) :
    revalStep N spot0 s output total p = total + revalStep N spot0 s output 0 p := by
  cases ho : p.option with
  | none => cases output <;> simp [revalStep, ho]
  | some o =>
    simp only [revalStep, ho]
    split_ifs <;> simp

theorem revalBook_sum (book : List (Baseline 𝕜)) (spot0 : 𝕜) (s : Shocks 𝕜) (output : Output) :
    revalBook N book spot0 s output = (book.map (revalStep N spot0 s output 0)).sum := by
  have h := TableTotals.foldl_sum book id (fun total p _ => revalStep_add N spot0 s output total p) 0
  exact h.trans (zero_add _)

theorem revalBook_append (book rest : List (Baseline 𝕜)) (spot0 : 𝕜) (s : Shocks 𝕜) (output : Output) :
    revalBook N (book ++ rest) spot0 s output = revalBook N book spot0 s output + revalBook N rest spot0 s output := by
  rw [revalBook_sum, revalBook_sum, revalBook_sum, List.map_append, List.sum_append]

theorem revalBook_unshocked {book : List (Baseline 𝕜)} {spot0 : 𝕜} (h : Based N spot0 book) :
    revalBook N book spot0 {} .pnl = 0 := by
  have hspot : newSpot spot0 {} = spot0 := by simp [newSpot]
  rw [revalBook_sum]
  apply List.sum_eq_zero
  rw [List.forall_mem_map]
  intro p hp
  rw [revalStep]
  cases ho : p.option with
  | none => simp [hspot]
  | some o =>
    have hiv : shockedIv o spot0 {} = o.iv := by simp [shockedIv]
    have hT : newT o {} = max (1 / 10000) o.T := by simp [newT]
    simp only [hiv, hT, hspot, h p hp o ho, sub_self, mul_zero, add_zero, if_true]
    split_ifs <;> rfl

end Reval

section Volatility
variable {spot0 : ℝ} {s : Shocks ℝ} {p : Baseline ℝ} {o : OptionTerms ℝ}

/-- The vol shock that takes the vol of an option to zero -/
noncomputable def cutoff (spot : ℝ) (s : Shocks ℝ) (o : OptionTerms ℝ) : ℝ := -100 * shockedIv o spot { s with dvolVp := 0 }

theorem shockedIv_eq (spot dvol : ℝ) (s : Shocks ℝ) (o : OptionTerms ℝ) :
    shockedIv o spot { s with dvolVp := dvol } = (dvol - cutoff spot s o) / 100 := by
  simp only [cutoff, shockedIv]
  split_ifs
  · ring
  · ring

theorem newT_pos (o : OptionTerms ℝ) (s : Shocks ℝ) : 0 < newT o s := lt_max_of_lt_left (by norm_num)

noncomputable def pnlAt (spot0 : ℝ) (s : Shocks ℝ) (p : Baseline ℝ) (dvol : ℝ) : ℝ :=
  revalStep standard spot0 { s with dvolVp := dvol } .pnl 0 p

noncomputable def priceAt (spot0 : ℝ) (s : Shocks ℝ) (o : OptionTerms ℝ) (dvol : ℝ) : ℝ :=
  bsPrice standard (newSpot spot0 s) o.K (newT o s) ((dvol - cutoff (newSpot spot0 s) s o) / 100) o.right

theorem pnlAt_future (ho : p.option = none) (dvol : ℝ) : pnlAt spot0 s p dvol = p.qm * (newSpot spot0 s - spot0) := by
  simp only [pnlAt, revalStep, ho, zero_add]
  rfl

theorem pnlAt_out (ho : p.option = some o) {dvol : ℝ} (h : dvol ≤ cutoff (newSpot spot0 s) s o) : pnlAt spot0 s p dvol = 0 := by
  have hspot : newSpot spot0 { s with dvolVp := dvol } = newSpot spot0 s := rfl
  simp only [pnlAt, revalStep, ho, hspot, shockedIv_eq]
  exact if_pos (by linarith)

theorem pnlAt_in (ho : p.option = some o) {dvol : ℝ} (h : cutoff (newSpot spot0 s) s o < dvol) :
    pnlAt spot0 s p dvol = p.qm * (priceAt spot0 s o dvol - p.priceBase) := by
  have hspot : newSpot spot0 { s with dvolVp := dvol } = newSpot spot0 s := rfl
  have hT : newT o { s with dvolVp := dvol } = newT o s := rfl
  simp only [pnlAt, revalStep, ho, hspot, hT, shockedIv_eq, if_true, zero_add]
  exact if_neg (by linarith)

theorem revalBook_dvol (book : List (Baseline ℝ)) (dvol : ℝ) :
    revalBook standard book spot0 { s with dvolVp := dvol } .pnl = (book.map fun p => pnlAt spot0 s p dvol).sum :=
  revalBook_sum standard book spot0 { s with dvolVp := dvol } .pnl

theorem priceAt_mono {dvol dvol' : ℝ} (h : cutoff (newSpot spot0 s) s o < dvol) (hle : dvol ≤ dvol') :
    priceAt spot0 s o dvol ≤ priceAt spot0 s o dvol' :=
  bsPrice_monotoneOn _ _ (newT_pos o s) _ (Set.mem_Ioi.mpr (by linarith)) (Set.mem_Ioi.mpr (by linarith)) (by linarith)

theorem continuousAt_priceAt {dvol : ℝ} (h : cutoff (newSpot spot0 s) s o < dvol) : ContinuousAt (priceAt spot0 s o) dvol := by
  have hvol : ContinuousAt (fun dvol => (dvol - cutoff (newSpot spot0 s) s o) / 100) dvol :=
    (continuousAt_id.sub continuousAt_const).div_const 100
  exact ContinuousAt.comp (f := fun dvol => (dvol - cutoff (newSpot spot0 s) s o) / 100)
    (continuousAt_bsPrice _ _ (newT_pos o s) _ (by linarith)) hvol

/-- An option comes into the sum at its intrinsic value. -/
theorem tendsto_priceAt : Tendsto (priceAt spot0 s o) (𝓝[>] (cutoff (newSpot spot0 s) s o))
    (𝓝 (intrinsic (newSpot spot0 s) o.K o.right)) := by
  refine (tendsto_bsPrice _ _ (newT_pos o s) _).comp (tendsto_nhdsWithin_iff.mpr ⟨?_, ?_⟩)
  · have h : Tendsto (fun dvol => (dvol - cutoff (newSpot spot0 s) s o) / 100) (𝓝 (cutoff (newSpot spot0 s) s o))
        (𝓝 ((cutoff (newSpot spot0 s) s o - cutoff (newSpot spot0 s) s o) / 100)) :=
      (tendsto_id.sub_const _).div_const 100
    rw [sub_self, zero_div] at h
    exact h.mono_left nhdsWithin_le_nhds
  · exact eventually_nhdsWithin_of_forall fun dvol (hdvol : _ < dvol) => Set.mem_Ioi.mpr (by linarith)

theorem intrinsic_le_priceAt {dvol : ℝ} (h : cutoff (newSpot spot0 s) s o < dvol) :
    intrinsic (newSpot spot0 s) o.K o.right ≤ priceAt spot0 s o dvol := by
  refine le_of_tendsto tendsto_priceAt ?_
  filter_upwards [Ioo_mem_nhdsGT h] with x hx
  exact priceAt_mono hx.1 hx.2.le

theorem leaves_iff {dvol : ℝ} : p.option.any (fun o => shockedIv o (newSpot spot0 s) { s with dvolVp := dvol } = 0) = true ↔
    ∃ o ∈ p.option, cutoff (newSpot spot0 s) s o = dvol := by
  rw [Option.any_eq_true]
  refine exists_congr fun o => and_congr_right fun _ => ?_
  rw [decide_eq_true_eq, shockedIv_eq, div_eq_zero_iff, or_iff_left (by norm_num), sub_eq_zero]
  exact eq_comm

/-- Beyond a vol shock the P&L goes on from where it was, but for an option that comes in. -/
theorem tendsto_pnlAt (dvol : ℝ) : Tendsto (pnlAt spot0 s p) (𝓝[>] dvol) (𝓝 (pnlAt spot0 s p dvol +
    if p.option.any (fun o => shockedIv o (newSpot spot0 s) { s with dvolVp := dvol } = 0) = true then
      exerciseGain (newSpot spot0 s) p else 0)) := by
  simp only [leaves_iff]
  cases ho : p.option with
  | none =>
    rw [if_neg (by simp), add_zero, funext (pnlAt_future ho)]
    exact tendsto_const_nhds
  | some o =>
    simp only [Option.mem_some_iff, exists_eq_left']
    rcases lt_trichotomy (cutoff (newSpot spot0 s) s o) dvol with hlt | heq | hgt
    · rw [if_neg hlt.ne, add_zero, pnlAt_in ho hlt]
      have hin : ∀ᶠ x in 𝓝[>] dvol, p.qm * (priceAt spot0 s o x - p.priceBase) = pnlAt spot0 s p x :=
        eventually_nhdsWithin_of_forall fun x hx => (pnlAt_in ho (hlt.trans hx)).symm
      refine Tendsto.congr' hin ?_
      exact (((continuousAt_priceAt hlt).tendsto.mono_left nhdsWithin_le_nhds).sub_const _).const_mul _
    · rw [if_pos heq, pnlAt_out ho heq.ge, zero_add, exerciseGain, ho]
      have hin : ∀ᶠ x in 𝓝[>] dvol, p.qm * (priceAt spot0 s o x - p.priceBase) = pnlAt spot0 s p x :=
        eventually_nhdsWithin_of_forall fun x (hx : _ < x) => (pnlAt_in ho (heq.trans_lt hx)).symm
      refine Tendsto.congr' hin ?_
      rw [← heq]
      exact (tendsto_priceAt.sub_const _).const_mul _
    · rw [if_neg hgt.ne', add_zero, pnlAt_out ho hgt.le]
      have hout : ∀ᶠ x in 𝓝[>] dvol, (0 : ℝ) = pnlAt spot0 s p x := by
        filter_upwards [Ioo_mem_nhdsGT hgt] with x hx
        exact (pnlAt_out ho hx.2.le).symm
      exact tendsto_const_nhds.congr' hout

/-- Between two vol shocks a long option gains, the one that comes in at least what its exercise brings. -/
theorem exerciseGain_le (hlong : p.option.isSome → 0 ≤ p.qm) {dvol dvol' : ℝ} (hle : dvol ≤ dvol') :
    (if p.option.any (fun o => dvol ≤ cutoff (newSpot spot0 s) s o ∧ cutoff (newSpot spot0 s) s o < dvol') then
      exerciseGain (newSpot spot0 s) p else 0) ≤ pnlAt spot0 s p dvol' - pnlAt spot0 s p dvol := by
  cases ho : p.option with
  | none => rw [pnlAt_future ho, pnlAt_future ho, sub_self, Option.any_none, if_neg Bool.false_ne_true]
  | some o =>
    rw [ho] at hlong
    have hqm := hlong rfl
    rw [Option.any_some]
    by_cases hcut : dvol ≤ cutoff (newSpot spot0 s) s o
    · rw [pnlAt_out ho hcut, sub_zero]
      by_cases hcut' : cutoff (newSpot spot0 s) s o < dvol'
      · rw [if_pos (by simpa using ⟨hcut, hcut'⟩), pnlAt_in ho hcut', exerciseGain, ho]
        exact mul_le_mul_of_nonneg_left (sub_le_sub_right (intrinsic_le_priceAt hcut') _) hqm
      · rw [if_neg (by simpa using fun _ => not_lt.mp hcut'), pnlAt_out ho (not_lt.mp hcut')]
    · rw [not_le] at hcut
      rw [if_neg (by simpa using fun h => absurd h (not_le.mpr hcut)), pnlAt_in ho hcut, pnlAt_in ho (hcut.trans_le hle)]
      have hprice := mul_le_mul_of_nonneg_left (priceAt_mono hcut hle) hqm
      linarith

end Volatility

section Book
variable (book : List (Baseline ℝ)) (spot0 : ℝ) (s : Shocks ℝ)

theorem tendsto_revalBook (dvol : ℝ) : Tendsto (fun x => revalBook standard book spot0 { s with dvolVp := x } .pnl) (𝓝[>] dvol)
    (𝓝 (revalBook standard book spot0 { s with dvolVp := dvol } .pnl +
      ((leavingAt book (newSpot spot0 s) s dvol).map (exerciseGain (newSpot spot0 s))).sum)) := by
  simp only [revalBook_dvol]
  rw [leavingAt, ← TableTotals.sum_selected, ← List.sum_map_add]
  exact tendsto_list_sum book fun p _ => tendsto_pnlAt dvol

theorem settles_of_monotone (h : Monotone fun dvol => revalBook standard book spot0 { s with dvolVp := dvol } .pnl) :
    Settles book (newSpot spot0 s) s := by
  intro dvol
  have hle := ge_of_tendsto (tendsto_revalBook book spot0 s dvol)
    (eventually_nhdsWithin_of_forall fun x (hx : dvol < x) => h hx.le)
  exact le_of_add_le_add_left ((add_zero _).trans_le hle)

variable {book spot0 s}

/-- What comes into the sum between two vol shocks, taken shock by shock -/
theorem Settles.between (h : Settles book (newSpot spot0 s) s) (dvol dvol' : ℝ) :
    0 ≤ (book.map fun p => if p.option.any (fun o => dvol ≤ cutoff (newSpot spot0 s) s o ∧
      cutoff (newSpot spot0 s) s o < dvol') then exerciseGain (newSpot spot0 s) p else 0).sum := by
  rw [TableTotals.sum_selected]
  -- the options are taken by their cutoffs
  let key : Baseline ℝ → ℝ := fun p => p.option.elim 0 (cutoff (newSpot spot0 s) s)
  let entering := book.filter fun p => p.option.any fun o => dvol ≤ cutoff (newSpot spot0 s) s o ∧ cutoff (newSpot spot0 s) s o < dvol'
  have hkeys := TableTotals.sum_by_key entering key (exerciseGain (newSpot spot0 s)) (entering.map key).nodup_dedup
    fun p hp => List.mem_dedup.mpr (List.mem_map_of_mem hp)
  refine hkeys ▸ List.sum_nonneg ?_
  rw [List.forall_mem_map]
  intro cut hcut
  obtain ⟨p, hp, rfl⟩ := List.mem_map.mp (List.mem_dedup.mp hcut)
  have hgroup : (entering.filter fun q => key q = key p) = leavingAt book (newSpot spot0 s) s (key p) := by
    have hany := (List.mem_filter.mp hp).2
    rw [Option.any_eq_true] at hany
    obtain ⟨o, ho, hrange⟩ := hany
    have hkey : key p = cutoff (newSpot spot0 s) s o := by
      simp only [key, Option.mem_def.mp ho, Option.elim_some]
    rw [leavingAt, List.filter_filter]
    apply List.filter_congr
    intro q _
    rw [Bool.eq_iff_iff, leaves_iff]
    cases hq : q.option with
    | none => simp
    | some o' =>
      have hkey' : key q = cutoff (newSpot spot0 s) s o' := by
        simp only [key, hq, Option.elim_some]
      rw [decide_eq_true_eq] at hrange
      simp only [hkey, hkey', Option.any_some, Bool.and_eq_true, decide_eq_true_eq, Option.mem_some_iff, exists_eq_left']
      exact ⟨And.left, fun heq => ⟨heq, heq ▸ hrange⟩⟩
  rw [hgroup]
  exact h (key p)

theorem monotone_of_settles (hlong : Long book) (h : Settles book (newSpot spot0 s) s) :
    Monotone fun dvol => revalBook standard book spot0 { s with dvolVp := dvol } .pnl := by
  intro dvol dvol' hle
  have hgain : (book.map fun p => pnlAt spot0 s p dvol' - pnlAt spot0 s p dvol).sum =
      (book.map fun p => pnlAt spot0 s p dvol').sum - (book.map fun p => pnlAt spot0 s p dvol).sum := by
    rw [eq_sub_iff_add_eq, ← List.sum_map_add]
    simp only [sub_add_cancel]
  simp only [revalBook_dvol]
  rw [← sub_nonneg, ← hgain]
  exact (h.between dvol dvol').trans (List.sum_le_sum fun p hp => exerciseGain_le (hlong p hp) hle)

end Book

noncomputable def atmCall : Baseline ℝ where
  qtySigned := 1
  mult := 125000
  option := some ⟨1, 1, 1 / 10, .call⟩
  priceBase := bsPrice standard 1 1 1 (1 / 10) .call

theorem atmCall_priceBase : 0 < atmCall.priceBase := by
  rw [atmCall, bsPrice_standard one_pos one_pos one_pos (by norm_num), if_pos rfl]
  have h := BlackFormula.lt_call one_pos one_pos (s := 1 / 10 * √1) (by positivity)
  exact (le_max_left 0 _).trans_lt h

/-- At ten vol points down the call is out of the sum; with any vol it is in, and its base price is lost. -/
theorem not_laws : ¬ ∀ (book : List (Baseline ℝ)) (spot0 : ℝ) (s : Shocks ℝ), Laws standard book spot0 s := by
  intro h
  have hlong : Long [atmCall] := by
    rw [Long, List.forall_mem_singleton]
    intro _
    norm_num [atmCall, Baseline.qm]
  have hsettles := settles_of_monotone _ _ _ ((h [atmCall] 1 {}).monotone hlong) (-10)
  have hleaves : leavingAt [atmCall] (newSpot 1 {}) {} (-10) = [atmCall] := by
    apply List.filter_eq_self.mpr
    rw [List.forall_mem_singleton]
    norm_num [atmCall, shockedIv]
  have hgain : exerciseGain (newSpot 1 {}) atmCall = -125000 * atmCall.priceBase := by
    have hspot : newSpot (1 : ℝ) {} = 1 := by norm_num [newSpot]
    have hoption : atmCall.option = some ⟨1, 1, 1 / 10, .call⟩ := rfl
    have hqm : atmCall.qm = 125000 := by norm_num [atmCall, Baseline.qm]
    rw [exerciseGain, hspot, hoption, hqm, Option.elim_some]
    norm_num [intrinsic]
  rw [hleaves, List.map_singleton, List.sum_singleton, hgain] at hsettles
  linarith [atmCall_priceBase]

/-- The laws hold just where the long options that come into the sum at one vol shock are worth their base prices by
exercise. -/
theorem laws_iff (book : List (Baseline ℝ)) (spot0 : ℝ) (s : Shocks ℝ) :
    Laws standard book spot0 s ↔ (Long book → Settles book (newSpot spot0 s) s) where
  mp h hlong := settles_of_monotone book spot0 s (h.monotone hlong)
  mpr h := {
    additive := fun rest output => revalBook_append standard book rest spot0 s output
    zero := revalBook_unshocked standard
    monotone := fun hlong => monotone_of_settles hlong (h hlong) }

section Rationals
variable (N : Greeks.Numerics)

def ofTerms (o : Revaluation.OptionTerms) : OptionTerms ℚ := { o with }

def ofBaseline (p : Revaluation.Baseline) : Baseline ℚ where
  qtySigned := p.qtySigned
  mult := p.mult
  option := p.option.map ofTerms
  priceBase := p.priceBase

def ofShocks (s : Revaluation.Shocks) : Shocks ℚ := { s with }

theorem shockedIv_rat (o : Revaluation.OptionTerms) (spot : ℚ) (s : Revaluation.Shocks) :
    shockedIv (ofTerms o) spot (ofShocks s) = Revaluation.shockedIv o spot s := rfl

theorem greek_rat (output : Output) (qm spot : ℚ) (o : Revaluation.OptionTerms) (iv : ℚ) :
    greek (ofGreeks N) output qm spot (ofTerms o) iv = Revaluation.greek N output qm spot o iv := by
  cases output <;> rfl

theorem revalStep_rat (spot0 : ℚ) (s : Revaluation.Shocks) (output : Output) (total : ℚ) (p : Revaluation.Baseline) :
    revalStep (ofGreeks N) spot0 (ofShocks s) output total (ofBaseline p) = Revaluation.revalStep N spot0 s output total p := by
  have hoption : (ofBaseline p).option = p.option.map ofTerms := rfl
  cases ho : p.option with
  | none =>
    rw [ho] at hoption
    cases output <;> simp only [revalStep, Revaluation.revalStep, hoption, ho, Option.map_none] <;> rfl
  | some o =>
    rw [ho] at hoption
    have hspot : newSpot spot0 (ofShocks s) = spot0 * (1 + s.dspotBp / 10000) := rfl
    have hT : ({ ofTerms o with T := newT (ofTerms o) (ofShocks s) } : OptionTerms ℚ) =
        ofTerms { o with T := max (1 / 10000) (o.T - s.dtDays / 365) } := rfl
    simp only [revalStep, Revaluation.revalStep, hoption, ho, Option.map_some, hspot, hT, shockedIv_rat, greek_rat]
    split_ifs
    · rfl
    · rfl
    · rfl

/-- The revaluation of the panels is the one over the rationals. -/
theorem revalBook_rat (book : List Revaluation.Baseline) (spot0 : ℚ) (s : Revaluation.Shocks) (output : Output) :
    revalBook (ofGreeks N) (book.map ofBaseline) spot0 (ofShocks s) output = Revaluation.revalBook N book spot0 s output := by
  rw [revalBook, Revaluation.revalBook, List.foldl_map]
  congr 1
  funext total p
  exact revalStep_rat N spot0 s output total p

end Rationals

end FxVol.StressLaws
