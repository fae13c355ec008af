import FxVol.Revaluation
import FxVol.RiskAggregate
import FxVol.TableTotals

/-!
# The revaluation panels against each other

`reval_book` gives the desk greeks at the shocked spot and vols, whatever the book.  `/scenarios` floors a vol that
`reval_book` takes as it is or leaves out, prints the EUR delta as USD, and divides the theta of a day by 365.
-/
namespace FxVol.PanelAgreement

open Greeks RiskSnapshots Revaluation

inductive PureShock | spot (bp : ℚ) | vol (vp : ℚ)
  deriving DecidableEq

namespace PureShock

def shocks : PureShock → Shocks
  | spot bp => { dspotBp := bp }
  | vol vp => { dvolVp := vp }

/-- The spot that `/scenarios` revalues at, by steps of a percent -/
def spotNow (spot0 : ℚ) : PureShock → ℚ
  | spot bp => spot0 * (1 + bp / 100 / 100)
  | vol _ => spot0

def ivShift : PureShock → ℚ
  | spot _ => 0
  | vol vp => vp / 100

def IsZero : PureShock → Prop
  | spot bp => bp = 0
  | vol vp => vp = 0

end PureShock

/-- What the panels show -/
inductive Figure | pnl | delta | gamma | vega | theta
  deriving DecidableEq

namespace Figure

def output : Figure → Output
  | pnl => .pnl
  | delta => .delta
  | gamma => .gamma
  | vega => .vega
  | theta => .theta

def scenario : Figure → Totals → ℚ
  | pnl => Totals.pnl
  | delta => Totals.delta
  | gamma => Totals.gamma
  | vega => Totals.vega
  | theta => Totals.theta

def ladder : Figure → LadderRow → Option ℚ
  | pnl, row => row.pnlUsd
  | delta, row => row.deltaUsd
  | gamma, row => row.gammaUsdPerPip
  | vega, row => row.vegaUsdPerVolpt
  | theta, _ => none

def desk : Figure → PositionGreeks → Option ℚ
  | pnl, _ => none
  | delta, g => g.deltaUsd
  | gamma, g => g.gammaUsdPerPip
  | vega, g => g.vegaUsdPerVolpt
  | theta, g => g.thetaUsdPerDay

/-- A value of `reval_book` in USD: its delta is an exposure in EUR. -/
def usd (spot : ℚ) : Figure → ℚ → ℚ
  | delta, x => x * spot
  | _, x => x

end Figure

/-- What `position_greeks` takes of a resolved position, its vol shifted -/
def instrument (p : ResolvedPosition) (ivShift : ℚ) : Instrument :=
  match p.option with
  | none => ⟨.future, p.mult, none, none, none⟩
  | some o => ⟨o.right, p.mult, some o.K, some o.T, some (o.iv + ivShift)⟩

section Claim
variable (N : Numerics) (ρ : Rounding)

/-- The greeks of the risk engine, over the positions it can price -/
def deskGreeks (ps : List ResolvedPosition) (spot ivShift : ℚ) : PositionGreeks :=
  sumGreeks (ps.filterMap fun p => positionGreeks N (instrument p ivShift) p.qtySigned spot)

def scenarioFigure (ps : List ResolvedPosition) (spot : ℚ) (shock : PureShock) (a : Figure) : ℚ :=
  a.scenario (aggregate N ρ (ps.map (scenarioPosition N spot)) (shock.spotNow spot) shock.ivShift)

/-- The panels show one P&L, delta, gamma, vega and theta for the positions, to the cent; at the zero shock these are
the greeks of the risk engine. The grid shows its delta in EUR. -/
structure AgreeAt (ps : List ResolvedPosition) (spot : ℚ) (shock : PureShock) : Prop where
  reval : ∀ a : Figure, scenarioFigure N ρ ps spot shock a =
    ρ.round (a.usd spot (revalBook N (ps.map (baseline N spot)) spot shock.shocks a.output)) 2
  grid : ∀ a : Figure, a ≠ .delta →
    gridCell N ρ (ps.map (baseline N spot)) spot shock.shocks a.output = scenarioFigure N ρ ps spot shock a
  ladder : ∀ (a : Figure) (x y : ℚ), y ∈ a.ladder (ladderRow N ρ (ps.map (baseline N spot)) spot shock.shocks x) →
    y = scenarioFigure N ρ ps spot shock a
  desk : shock.IsZero → ∀ (a : Figure) (x : ℚ), x ∈ a.desk (deskGreeks N ps spot 0) →
    scenarioFigure N ρ ps spot shock a = ρ.round x 2
  gridDelta : shock.IsZero → gridCell N ρ (ps.map (baseline N spot)) spot shock.shocks .delta =
    ρ.round (deskGreeks N ps spot 0).deltaEur 2

/-- The panels find the same spot for the book, and agree at it. -/
structure Agree (today : ℤ) (rows : List BookRow) (shock : PureShock) : Prop where
  spot : scenarioSpot rows = (resolveSpot rows).map (·.1)
  values : ∀ spot ∈ scenarioSpot rows, AgreeAt N ρ (positions today rows) spot shock

def futureUnit (spot0 spot : ℚ) : Figure → ℚ
  | .pnl => spot - spot0
  | .delta => 1
  | .gamma | .vega | .theta => 0

def optionUnit (spot0 spot : ℚ) (o : OptionTerms) (iv : ℚ) : Figure → ℚ
  | .pnl => bsPrice N spot o.K o.T iv o.right - bsPrice N spot0 o.K o.T o.iv o.right
  | .delta => bsDelta N spot o.K o.T iv o.right
  | .gamma => bsGamma N spot o.K o.T iv * pipSize
  | .vega => bsVega N spot o.K o.T iv * volpt
  | .theta => bsTheta N spot o.K o.T iv

/-- What a value at the floored vol is over the value at the vol, or over nothing where that is not positive -/
def floorGap (f : ℚ → ℚ) (iv : ℚ) : ℚ := f (max (1 / 1000) iv) - if iv ≤ 0 then 0 else f iv

variable (ps : List ResolvedPosition) (spot : ℚ) (shock : PureShock)

/-- What `reval_book` counts for a position -/
def revalued (a : Figure) (p : ResolvedPosition) : ℚ :=
  p.qm * p.option.elim (futureUnit spot (shock.spotNow spot) a) fun o =>
    if o.iv + shock.ivShift ≤ 0 then 0 else optionUnit N spot (shock.spotNow spot) o (o.iv + shock.ivShift) a

/-- What the floor of `/scenarios` adds for a position -/
def gap (a : Figure) (p : ResolvedPosition) : ℚ :=
  p.qm * p.option.elim 0 fun o =>
    floorGap (fun iv => optionUnit N spot (shock.spotNow spot) o iv a) (o.iv + shock.ivShift)

/-- What `/scenarios` shows of a figure: theta, which is of a day, is divided by 365. -/
def Figure.share : Figure → ℚ
  | theta => 1 / 365
  | _ => 1

/-- What is floored makes up for the spot that is missing in the delta and for the theta that is divided twice,
against the greeks of the desk at the shocked spot and vols, and adds nothing to the other figures. -/
structure Reconciled : Prop where
  pnl : (ps.map (gap N spot shock .pnl)).sum = 0
  delta : (ps.map (gap N spot shock .delta)).sum =
    (spot - 1) * (deskGreeks N ps (shock.spotNow spot) shock.ivShift).deltaEur
  gamma : (ps.map (gap N spot shock .gamma)).sum = 0
  vega : (ps.map (gap N spot shock .vega)).sum = 0
  theta : (ps.map (gap N spot shock .theta)).sum =
    364 * (deskGreeks N ps (shock.spotNow spot) shock.ivShift).thetaUsdPerDay

end Claim

/-- What a resolved option has: a strike and a time to expiry -/
structure OptionOk (o : OptionTerms) : Prop where
  strike : 0 < o.K
  expiry : 1 / 1000 ≤ o.T
  right : o.right ≠ .future

theorem parse_strike {symbol : String} {spec : ContractSpec} (h : parseLocalSymbol symbol = some spec) :
    (∀ K ∈ spec.strike, 0 ≤ K) ∧ spec.optionType ≠ some .future := by
  unfold parseLocalSymbol at h
  split at h
  · split_ifs at h with hsymbol hright
    · obtain rfl := Option.some.inj h
      refine ⟨?_, by simp⟩
      rintro K ⟨⟩
      positivity
    · obtain rfl := Option.some.inj h
      refine ⟨?_, by simp⟩
      rintro K ⟨⟩
      positivity
  · split_ifs at h with hsymbol
    obtain rfl := Option.some.inj h
    simp
  · split_ifs at h with hsymbol
    obtain rfl := Option.some.inj h
    simp
  · cases h

theorem optionTerms_ok {today : ℤ} {row : BookRow} {spec : ContractSpec} {o : OptionTerms}
    (hspec : parseLocalSymbol row.localSymbol = some spec) (ho : optionTerms today spec row = some o) : OptionOk o := by
  obtain ⟨hstrike, hright⟩ := parse_strike hspec
  rw [optionTerms] at ho
  split at ho
  · rename_i right K expiry iv hoption hK hexpiry hiv
    obtain rfl := Option.some.inj ho
    obtain ⟨hmem, hne⟩ := Option.filter_eq_some_iff.mp hK
    refine ⟨lt_of_le_of_ne (hstrike K hmem) (Ne.symm (of_decide_eq_true hne)), le_max_left _ _, ?_⟩
    rintro rfl
    exact hright hoption
  · cases ho

theorem positions_ok {today : ℤ} {rows : List BookRow} :
    ∀ p ∈ positions today rows, ∀ o ∈ p.option, OptionOk o := by
  intro p hp o ho
  obtain ⟨row, -, hrow⟩ := List.mem_filterMap.mp hp
  obtain ⟨spec, hspec, hresolved⟩ := Option.bind_eq_some_iff.mp hrow
  dsimp only at hresolved
  split_ifs at hresolved with hfuture
  · obtain rfl := Option.some.inj hresolved
    cases ho
  · obtain ⟨terms, hterms, rfl⟩ := Option.map_eq_some_iff.mp hresolved
    obtain rfl := Option.some.inj ho
    exact optionTerms_ok hspec hterms

theorem shocks_spot (shock : PureShock) (spot : ℚ) :
    spot * (1 + shock.shocks.dspotBp / 10000) = shock.spotNow spot := by
  cases shock with
  | spot bp =>
    simp only [PureShock.shocks, PureShock.spotNow]
    ring
  | vol vp => simp [PureShock.shocks, PureShock.spotNow]

theorem shocks_iv (shock : PureShock) (o : OptionTerms) (spot : ℚ) :
    shockedIv o spot shock.shocks = o.iv + shock.ivShift := by
  cases shock <;> simp [shockedIv, PureShock.shocks, PureShock.ivShift]

theorem shocks_time (shock : PureShock) {o : OptionTerms} (ho : OptionOk o) :
    max (1 / 10000) (o.T - shock.shocks.dtDays / 365) = o.T := by
  have htime : o.T - shock.shocks.dtDays / 365 = o.T := by
    cases shock <;> simp [PureShock.shocks]
  rw [htime]
  exact max_eq_right (le_trans (by norm_num) ho.expiry)

/-- One position of `reval_book`, under a pure shock -/
theorem revalStep_eq (N : Numerics) (spot : ℚ) (shock : PureShock) {p : ResolvedPosition} (hp : ∀ o ∈ p.option, OptionOk o)
    (a : Figure) (total : ℚ) :
    revalStep N spot shock.shocks a.output total (baseline N spot p) = total + revalued N spot shock a p := by
  have hqm : (baseline N spot p).qm = p.qm := rfl
  have hoption : (baseline N spot p).option = p.option := rfl
  unfold revalStep
  rw [revalued, hoption, hqm, shocks_spot]
  cases ho : p.option with
  | none => cases a <;> simp [Figure.output, futureUnit]
  | some o =>
    have hbase : (baseline N spot p).priceBase = bsPrice N spot o.K o.T o.iv o.right := by
      rw [baseline, ho, Option.elim_some]
    simp only [Option.elim_some, shocks_iv, shocks_time shock (hp o ho), hbase]
    by_cases hiv : o.iv + shock.ivShift ≤ 0
    · rw [if_pos hiv, if_pos hiv, mul_zero, add_zero]
    · rw [if_neg hiv, if_neg hiv]
      cases a <;> simp [Figure.output, greek, optionUnit, pipSize, volpt, mul_assoc]

/-- One position of `_aggregate`: the value at the floored vol, and a 365th of it for theta -/
theorem aggregateStep_eq (N : Numerics) (spot : ℚ) (shock : PureShock) (p : ResolvedPosition) (a : Figure) (t : Totals) :
    a.scenario (aggregateStep N (shock.spotNow spot) shock.ivShift t (scenarioPosition N spot p)) =
      a.scenario t + (revalued N spot shock a p + gap N spot shock a p) * a.share := by
  have hqm : (scenarioPosition N spot p).qm = p.qm := rfl
  have hoption : (scenarioPosition N spot p).option = p.option := rfl
  rw [aggregateStep, revalued, gap, hoption, hqm]
  cases ho : p.option with
  | none =>
    have hbase : (scenarioPosition N spot p).npvBase = p.qm * spot := by
      rw [scenarioPosition, ho, Option.elim_none]
    cases a <;> simp [Figure.scenario, Figure.share, futureUnit, hbase, mul_sub]
  | some o =>
    have hbase : (scenarioPosition N spot p).npvBase = p.qm * bsPrice N spot o.K o.T o.iv o.right := by
      rw [scenarioPosition, ho, Option.elim_some]
    simp only [Option.elim_some, hbase, floorGap, ← mul_add, add_sub_cancel]
    cases a <;> simp [Figure.scenario, Figure.share, optionUnit, pipSize, volpt, mul_sub, mul_assoc, div_eq_mul_inv]

section Book
variable (N : Numerics) {ps : List ResolvedPosition} (spot : ℚ) (shock : PureShock)

theorem revalBook_eq (hps : ∀ p ∈ ps, ∀ o ∈ p.option, OptionOk o) (a : Figure) :
    revalBook N (ps.map (baseline N spot)) spot shock.shocks a.output = (ps.map (revalued N spot shock a)).sum := by
  rw [revalBook, List.foldl_map]
  have hsum := TableTotals.foldl_sum ps id (fun total p hp => revalStep_eq N spot shock (hps p hp) a total) 0
  exact hsum.trans (zero_add _)

theorem totals_eq (a : Figure) :
    a.scenario (totals N (ps.map (scenarioPosition N spot)) (shock.spotNow spot) shock.ivShift) =
      ((ps.map (revalued N spot shock a)).sum + (ps.map (gap N spot shock a)).sum) * a.share := by
  rw [totals, List.foldl_map, ← List.sum_map_add, ← List.sum_map_mul_right]
  have hsum := TableTotals.foldl_sum ps a.scenario (fun t p _ => aggregateStep_eq N spot shock p a t) ⟨0, 0, 0, 0, 0⟩
  have hzero : a.scenario ⟨0, 0, 0, 0, 0⟩ = 0 := by cases a <;> rfl
  rw [hsum, hzero, zero_add]

/-- A greek in the unit of `reval_book` -/
def Figure.stock : Figure → PositionGreeks → ℚ
  | pnl, _ => 0
  | delta, g => g.deltaEur
  | gamma, g => g.gammaUsdPerPip
  | vega, g => g.vegaUsdPerVolpt
  | theta, g => g.thetaUsdPerDay

theorem positionGreeks_stock {p : ResolvedPosition} (hp : ∀ o ∈ p.option, OptionOk o) {a : Figure} (ha : a ≠ .pnl) :
    ((positionGreeks N (instrument p shock.ivShift) p.qtySigned (shock.spotNow spot)).map a.stock).getD 0 =
      revalued N spot shock a p := by
  rw [instrument, revalued]
  cases ho : p.option with
  | none => cases a <;> simp_all [positionGreeks, futureGreeks, Figure.stock, futureUnit, ResolvedPosition.qm]
  | some o =>
    obtain ⟨hK, hT, hright⟩ := hp o ho
    have hT : 0 < o.T := lt_of_lt_of_le (by norm_num) hT
    have hpriced : positionGreeks N ⟨o.right, p.mult, some o.K, some o.T, some (o.iv + shock.ivShift)⟩ p.qtySigned
        (shock.spotNow spot) = if 0 < o.iv + shock.ivShift then
          some (optionGreeks N p.qtySigned p.mult (shock.spotNow spot) o.K o.T (o.iv + shock.ivShift) o.right)
        else none := by
      rw [positionGreeks]
      simp [hK, hT]
    rw [Option.elim_some, hpriced]
    by_cases hiv : o.iv + shock.ivShift ≤ 0
    · rw [if_neg (not_lt.mpr hiv), if_pos hiv, Option.map_none, Option.getD_none, mul_zero]
    · rw [if_pos (not_le.mp hiv), if_neg hiv, Option.map_some, Option.getD_some]
      cases a <;> simp_all [Figure.stock, optionGreeks, optionUnit, ResolvedPosition.qm, mul_assoc]

theorem desk_stock (hps : ∀ p ∈ ps, ∀ o ∈ p.option, OptionOk o) {a : Figure} (ha : a ≠ .pnl) :
    a.stock (deskGreeks N ps (shock.spotNow spot) shock.ivShift) = (ps.map (revalued N spot shock a)).sum := by
  have hsum : a.stock (deskGreeks N ps (shock.spotNow spot) shock.ivShift) = ((ps.filterMap fun p =>
      positionGreeks N (instrument p shock.ivShift) p.qtySigned (shock.spotNow spot)).map a.stock).sum := by
    cases a <;> first | exact absurd rfl ha | rfl
  rw [hsum, RiskAggregate.sum_filterMap]
  congr 1
  exact List.map_congr_left fun p hp => positionGreeks_stock N spot shock (hps p hp) ha

theorem desk_delta (hps : ∀ p ∈ ps, ∀ o ∈ p.option, OptionOk o) :
    (deskGreeks N ps (shock.spotNow spot) shock.ivShift).deltaEur = (ps.map (revalued N spot shock .delta)).sum :=
  desk_stock N spot shock hps (a := .delta) (by decide)

theorem desk_theta (hps : ∀ p ∈ ps, ∀ o ∈ p.option, OptionOk o) :
    (deskGreeks N ps (shock.spotNow spot) shock.ivShift).thetaUsdPerDay = (ps.map (revalued N spot shock .theta)).sum :=
  desk_stock N spot shock hps (a := .theta) (by decide)

variable {N spot shock}

theorem positionGreeks_usd {i : Instrument} {qty F : ℚ} {g : PositionGreeks} (h : positionGreeks N i qty F = some g) :
    g.deltaUsd = g.deltaEur * F := by
  unfold positionGreeks at h
  split at h
  · obtain rfl := Option.some.inj h
    rfl
  · split at h
    · split_ifs at h with hpriced
      obtain rfl := Option.some.inj h
      rfl
    · cases h

/-- The desk's delta in USD is its delta in EUR at the spot. -/
theorem desk_usd (ivShift : ℚ) :
    (deskGreeks N ps spot ivShift).deltaUsd = (deskGreeks N ps spot ivShift).deltaEur * spot := by
  simp only [deskGreeks, sumGreeks]
  rw [← List.sum_map_mul_right]
  congr 1
  apply List.map_congr_left
  intro g hg
  obtain ⟨p, -, hp⟩ := List.mem_filterMap.mp hg
  exact positionGreeks_usd hp

theorem scenarioFigure_eq (ρ : Rounding) (a : Figure) : scenarioFigure N ρ ps spot shock a =
    ρ.round (((ps.map (revalued N spot shock a)).sum + (ps.map (gap N spot shock a)).sum) * a.share) 2 := by
  rw [← totals_eq]
  cases a <;> rfl

/-- The condition, figure by figure -/
theorem reconciled_iff (hps : ∀ p ∈ ps, ∀ o ∈ p.option, OptionOk o) : Reconciled N ps spot shock ↔
    ∀ a : Figure, ((ps.map (revalued N spot shock a)).sum + (ps.map (gap N spot shock a)).sum) * a.share =
      a.usd spot (ps.map (revalued N spot shock a)).sum := by
  have hdelta := desk_delta N spot shock hps
  have htheta := desk_theta N spot shock hps
  constructor
  · rintro ⟨hp, hd, hg, hv, ht⟩ a
    cases a with
    | pnl => simp only [hp, Figure.share, Figure.usd, add_zero, mul_one]
    | delta =>
      simp only [hd, hdelta, Figure.share, Figure.usd]
      ring
    | gamma => simp only [hg, Figure.share, Figure.usd, add_zero, mul_one]
    | vega => simp only [hv, Figure.share, Figure.usd, add_zero, mul_one]
    | theta =>
      simp only [ht, htheta, Figure.share, Figure.usd]
      ring
  · intro h
    have hp := h .pnl
    have hd := h .delta
    have hg := h .gamma
    have hv := h .vega
    have ht := h .theta
    simp only [Figure.share, Figure.usd, mul_one] at hp hd hg hv ht
    refine ⟨?_, ?_, ?_, ?_, ?_⟩
    · linarith
    · rw [hdelta]
      linarith
    · linarith
    · linarith
    · rw [htheta]
      linarith

theorem ladder_eq {ρ : Rounding} {baselines : List Baseline} {s : Shocks} {a : Figure} {x y : ℚ}
    (hy : y ∈ a.ladder (ladderRow N ρ baselines spot s x)) :
    y = ρ.round (a.usd spot (revalBook N baselines spot s a.output)) 2 := by
  cases a with
  | theta => cases hy
  | pnl | delta | gamma | vega => exact (Option.some.inj hy).symm

theorem desk_eq {a : Figure} {x : ℚ} (hx : x ∈ a.desk (deskGreeks N ps spot 0)) :
    a ≠ .pnl ∧ x = a.usd spot (a.stock (deskGreeks N ps spot 0)) := by
  cases a with
  | pnl => cases hx
  | delta => exact ⟨by decide, (Option.some.inj hx).symm.trans (desk_usd 0)⟩
  | gamma | vega | theta => exact ⟨by decide, (Option.some.inj hx).symm⟩

theorem zero_shock (h : shock.IsZero) (spot : ℚ) : shock.spotNow spot = spot ∧ shock.ivShift = 0 := by
  cases shock with
  | spot bp =>
    obtain rfl : bp = 0 := h
    simp [PureShock.spotNow, PureShock.ivShift]
  | vol vp =>
    obtain rfl : vp = 0 := h
    simp [PureShock.spotNow, PureShock.ivShift]

/-- At a spot, the panels agree in every rounding just where the condition holds. -/
theorem agreeAt_iff (hps : ∀ p ∈ ps, ∀ o ∈ p.option, OptionOk o) :
    (∀ ρ, AgreeAt N ρ ps spot shock) ↔ Reconciled N ps spot shock := by
  rw [reconciled_iff hps]
  constructor
  · intro h a
    have hexact := (h .exact).reval a
    rw [scenarioFigure_eq, revalBook_eq N spot shock hps] at hexact
    exact hexact
  · intro h ρ
    have hfigure : ∀ a, scenarioFigure N ρ ps spot shock a =
        ρ.round (a.usd spot (ps.map (revalued N spot shock a)).sum) 2 := by
      intro a
      rw [scenarioFigure_eq, h]
    constructor
    · intro a
      rw [hfigure, revalBook_eq N spot shock hps]
    · intro a ha
      rw [hfigure, gridCell, revalBook_eq N spot shock hps]
      cases a <;> first | exact absurd rfl ha | rfl
    · intro a x y hy
      rw [ladder_eq hy, hfigure, revalBook_eq N spot shock hps]
    · intro hzero a x hx
      obtain ⟨ha, rfl⟩ := desk_eq hx
      have hdesk := desk_stock N spot shock hps ha
      rw [(zero_shock hzero spot).1, (zero_shock hzero spot).2] at hdesk
      rw [hfigure, hdesk]
    · intro hzero
      have hdesk := desk_delta N spot shock hps
      rw [(zero_shock hzero spot).1, (zero_shock hzero spot).2] at hdesk
      rw [hdesk, gridCell, ← revalBook_eq N spot shock hps]
      rfl

/-- Where no vol gets under the floor, the condition is that of the two slips: there is no net theta, and no net delta
unless the spot is one. -/
theorem reconciled_unfloored (hfloor : ∀ p ∈ ps, ∀ o ∈ p.option, 1 / 1000 ≤ o.iv + shock.ivShift) :
    Reconciled N ps spot shock ↔
      (spot = 1 ∨ (deskGreeks N ps (shock.spotNow spot) shock.ivShift).deltaEur = 0) ∧
        (deskGreeks N ps (shock.spotNow spot) shock.ivShift).thetaUsdPerDay = 0 := by
  have hgap : ∀ a, (ps.map (gap N spot shock a)).sum = 0 := by
    intro a
    apply List.sum_eq_zero
    intro x hx
    obtain ⟨p, hp, rfl⟩ := List.mem_map.mp hx
    rw [gap]
    cases ho : p.option with
    | none => exact mul_zero _
    | some o =>
      have hiv := hfloor p hp o ho
      have hpos : ¬ o.iv + shock.ivShift ≤ 0 := not_le.mpr (lt_of_lt_of_le (by norm_num) hiv)
      rw [Option.elim_some, floorGap, max_eq_right hiv, if_neg hpos, sub_self, mul_zero]
  constructor
  · rintro ⟨-, hdelta, -, -, htheta⟩
    rw [hgap] at hdelta htheta
    constructor
    · rcases mul_eq_zero.mp hdelta.symm with hspot | hnone
      · exact Or.inl (sub_eq_zero.mp hspot)
      · exact Or.inr hnone
    · linarith
  · rintro ⟨hdelta, htheta⟩
    refine ⟨hgap _, ?_, hgap _, hgap _, ?_⟩
    · rw [hgap]
      rcases hdelta with rfl | hnone
      · ring
      · rw [hnone, mul_zero]
    · rw [hgap, htheta, mul_zero]

/-- Whatever the rounding, the panels agree on a book under a pure shock just where they find the same spot, if any,
and the condition holds at it. -/
theorem agree_iff (N : Numerics) (today : ℤ) (rows : List BookRow) (shock : PureShock) :
    (∀ ρ, Agree N ρ today rows shock) ↔ scenarioSpot rows = (resolveSpot rows).map (·.1) ∧
      ∀ spot ∈ scenarioSpot rows, Reconciled N (positions today rows) spot shock := by
  constructor
  · intro h
    refine ⟨(h .exact).spot, fun spot hspot => ?_⟩
    exact (agreeAt_iff positions_ok).mp fun ρ => (h ρ).values spot hspot
  · rintro ⟨hspot, hreconciled⟩ ρ
    exact ⟨hspot, fun spot hmem => (agreeAt_iff positions_ok).mpr (hreconciled spot hmem) ρ⟩

end Book

/-- The rows of `/scenarios` are its figures under pure shocks. -/
theorem scenarios_listed (N : Numerics) (ρ : Rounding) {today : ℤ} {rows : List BookRow} {spot : ℚ}
    (hspot : scenarioSpot rows = some spot) (a : Figure) :
    (scenarios N ρ today rows).bySpot.map (fun row => a.scenario row.2) =
      scenarioSpotStepsPct.map (fun step => scenarioFigure N ρ (positions today rows) spot (.spot (100 * step)) a) ∧
    (scenarios N ρ today rows).byIv.map (fun row => a.scenario row.2) =
      scenarioIvStepsVolpt.map fun step => scenarioFigure N ρ (positions today rows) spot (.vol step) a := by
  rw [scenarios, hspot]
  constructor
  · rw [List.map_map]
    apply List.map_congr_left
    intro step _
    have hpct : 100 * step / 100 / 100 = step / 100 := by ring
    rw [scenarioFigure, PureShock.spotNow, hpct]
    rfl
  · rw [List.map_map]
    rfl

/-- So are the rows of the ladder, and the columns of the stress grid in the row without a second shock. -/
theorem revalued_listed (N : Numerics) (ρ : Rounding) {today : ℤ} {rows : List BookRow} {spot : ℚ} {source : SpotSource}
    (hspot : resolveSpot rows = some (spot, source)) (output : Output) :
    let baselines := (positions today rows).map (baseline N spot)
    (greeksLadder N ρ today rows .spot).rows =
      (Axis.ladderBins .spot).map (fun bp => ladderRow N ρ baselines spot (PureShock.spot bp).shocks bp) ∧
    (greeksLadder N ρ today rows .vol).rows =
      (Axis.ladderBins .vol).map (fun vp => ladderRow N ρ baselines spot (PureShock.vol vp).shocks vp) ∧
    (stressGrid N ρ today rows .vol output).grid[2]? =
      some ((Axis.stressBins .spot).map fun bp => gridCell N ρ baselines spot (PureShock.spot bp).shocks output) := by
  rw [greeksLadder, greeksLadder, stressGrid, hspot]
  exact ⟨rfl, rfl, rfl⟩

def markedCall : BookRow :=
  ⟨1, "EUUM6 C1085", .buy, 1, some ⟨2026, 6, 15⟩, some (15 / 1000), some (75 / 1000)⟩

def ninetyDaysBefore : ℤ := (Date.mk 2026 3 17).toOrdinal

/-- With no shock at all, `/scenarios` shows a 365th of the theta of `reval_book`, and the delta in EUR. -/
theorem not_agree : ¬ ∀ (today : ℤ) (rows : List BookRow) (shock : PureShock),
    Agree RiskAggregate.riskNumerics.vol.toNumerics .python today rows shock := by
  intro h
  have hvalues := (h ninetyDaysBefore [markedCall] (.vol 0)).values (1085 / 1000) (by decide +kernel)
  have htheta := hvalues.reval .theta
  revert htheta
  decide +kernel

end FxVol.PanelAgreement
