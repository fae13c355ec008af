import FxVol.MonitoredPnl
import FxVol.RiskSnapshots

/-!
# The published risk against the persisted greeks

Both paths scale the greeks of a position alike.  They differ in the volatility of an option that the
surface does not price and its mark does, in the rows that are gone when they are to be written, and
in the multiplier, which the P&L curve leaves out.
-/
namespace FxVol.RiskAggregate

open Greeks VolSurface TradePreviews RiskSnapshots

inductive RiskGreek | delta | gamma | vega | theta | vanna | volga
  deriving DecidableEq

namespace RiskGreek

def of : RiskGreek → PositionGreeks → ℚ
  | delta => PositionGreeks.deltaUsd
  | gamma => PositionGreeks.gammaUsdPerPip
  | vega => PositionGreeks.vegaUsdPerVolpt
  | theta => PositionGreeks.thetaUsdPerDay
  | vanna => PositionGreeks.vannaUsdPerVolpt
  | volga => PositionGreeks.volgaUsdPerVolpt2

def column : RiskGreek → SnapshotRow → Option ℚ
  | delta => SnapshotRow.deltaUsd
  | gamma => SnapshotRow.gammaUsd
  | vega => SnapshotRow.vegaUsd
  | theta => SnapshotRow.thetaUsd
  | vanna => SnapshotRow.vannaUsd
  | volga => SnapshotRow.volgaUsd

end RiskGreek

section Claim
variable (N : RiskNumerics) (c : RiskCycle)

def persistedSum (ρ : Rounding) (a : RiskGreek) : ℚ :=
  ((persistPositionSnapshots N ρ c).map fun row => (a.column row).getD 0).sum

/-- Up to the rounding of its rows the aggregate is what is persisted. -/
structure AggregateMatches (ρ : Rounding) : Prop where
  greeks : ∀ a : RiskGreek, |a.of (aggregateGreeks N c).greeks - persistedSum N c ρ a| ≤
    (persistPositionSnapshots N ρ c).length * (ρ.unit / 2 / 10 ^ 2)
  priced : (aggregateGreeks N c).nPriced =
    ((persistPositionSnapshots N ρ c).filter fun row => row.deltaUsd.isSome).length
  curve : curveAt N c c.F = (c.positions.map fun p => (bsPnl N c p).getD 0).sum

/-- What the mark of an option that the surface does not price makes of a value, which the aggregate
takes at the fallback volatility. -/
def guessed (p : RiskPosition) (f : ℚ → ContractType → ℚ → ℚ) : ℚ :=
  p.option.elim 0 fun (K, right) =>
    match ivFor N c p K, markIv N c p K right with
    | none, some iv => f K right iv - f K right fallbackIv
    | _, _ => 0

def guessGap (a : RiskGreek) (p : RiskPosition) : ℚ :=
  guessed N c p fun K right iv =>
    a.of (optionGreeks N.vol.toNumerics p.quantity p.multiplier c.F K p.T iv right)

def guessedPrice (p : RiskPosition) : ℚ :=
  guessed N c p fun K right iv => bsPrice N.vol.toNumerics c.F K p.T iv right

def Priced (p : RiskPosition) : Prop := p.instrumentType = .future ∨ p.option.isSome

instance (p : RiskPosition) : Decidable (Priced p) := inferInstanceAs (Decidable (_ ∨ _))

def bsMark (p : RiskPosition) : ℚ :=
  if p.instrumentType = .future then c.F
  else p.option.elim 0 fun (K, right) =>
    bsPrice N.vol.toNumerics c.F K p.T (persistIv N c p K right) right

/-- The factor of the persisted P&L, none where the entry price is unknown -/
def pnlFactor (p : RiskPosition) : ℚ := if p.costPerUnit = 0 then 0 else p.multiplier

def curveGap (p : RiskPosition) : ℚ :=
  if Priced p then
    (pnlFactor p - 1) * ((bsMark N c p - p.costPerUnit) * p.quantity) + guessedPrice N c p * p.quantity
  else 0

end Claim

section Position
variable {N : RiskNumerics} {c : RiskCycle} {p : RiskPosition}

/-- A future has no right. -/
theorem loaded_future (hp : p ∈ c.positions) (hfuture : p.instrumentType = .future) :
    p.optionType = none := by
  obtain ⟨row, -, hrow⟩ := List.mem_filterMap.mp hp
  obtain ⟨spec, hspec, rfl⟩ := Option.map_eq_some_iff.mp hrow
  dsimp only at hfuture ⊢
  rw [(future_spec hspec hfuture).2]
  rfl

theorem loaded_future_option (hp : p ∈ c.positions) (hfuture : p.instrumentType = .future) :
    p.option = none := by
  rw [RiskPosition.option, loaded_future hp hfuture]
  rfl

theorem persisted_isSome : (persistedGreeks N c p).isSome = true ↔ Priced p := by
  rw [persistedGreeks, Priced]
  split_ifs with hfuture
  · simp [hfuture]
  · simp [hfuture]

theorem aggregated_isSome : (aggregatedGreeks N c p).isSome = true ↔ Priced p := by
  rw [aggregatedGreeks, Priced]
  split_ifs with hfuture
  · simp [hfuture]
  · simp [hfuture]

/-- The two paths take volatilities that differ only where the surface has none and the mark has
one. -/
theorem guessed_eq {K : ℚ} {right : ContractType} (hoption : p.option = some (K, right))
    (f : ℚ → ContractType → ℚ → ℚ) :
    f K right (persistIv N c p K right) = f K right (ivOrFallback N c p K) + guessed N c p f := by
  rw [guessed, hoption, Option.elim_some, persistIv, ivOrFallback]
  dsimp only
  cases ivFor N c p K with
  | some iv => exact (add_zero (f K right iv)).symm
  | none =>
    cases markIv N c p K right with
    | some iv => exact (add_sub_cancel (f K right fallbackIv) (f K right iv)).symm
    | none => exact (add_zero (f K right fallbackIv)).symm

theorem guessed_none (hoption : p.option = none) (f : ℚ → ContractType → ℚ → ℚ) : guessed N c p f = 0 := by
  rw [guessed, hoption]
  rfl

/-- What is persisted for a position is what the aggregate takes and the gap. -/
theorem persisted_eq (hp : p ∈ c.positions) (a : RiskGreek) : ((persistedGreeks N c p).map a.of).getD 0 =
    ((aggregatedGreeks N c p).map a.of).getD 0 + guessGap N c a p := by
  rw [persistedGreeks, aggregatedGreeks, guessGap]
  by_cases hfuture : p.instrumentType = .future
  · rw [if_pos hfuture, if_pos hfuture, guessed_none (loaded_future_option hp hfuture)]
    exact (add_zero _).symm
  rw [if_neg hfuture, if_neg hfuture]
  cases hoption : p.option with
  | none =>
    rw [guessed_none hoption]
    exact (add_zero _).symm
  | some option =>
    exact guessed_eq hoption fun K right iv =>
      a.of (optionGreeks N.vol.toNumerics p.quantity p.multiplier c.F K p.T iv right)

/-- The P&L persisted for a position is what the curve has for it at the spot and the gap. -/
theorem bsPnl_eq (hp : p ∈ c.positions) :
    (bsPnl N c p).getD 0 = curveTerm N c p c.F + curveGap N c p := by
  by_cases hfuture : p.instrumentType = .future
  · have hright := loaded_future hp hfuture
    have hoption := loaded_future_option hp hfuture
    have hpriced : Priced p := .inl hfuture
    have hguess : guessedPrice N c p = 0 := guessed_none hoption _
    simp only [bsPnl, curveTerm, curveGap, hright, hpriced, if_true, hfuture, bsMark, hguess, pnlFactor]
    split_ifs <;> simp only [Option.getD_none, Option.getD_some] <;> ring
  cases hright : p.optionType with
  | none =>
    have hoption : p.option = none := by
      rw [RiskPosition.option, hright]
      rfl
    have hpriced : ¬ Priced p := by
      rintro (h | h)
      · exact hfuture h
      · rw [hoption] at h
        cases h
    rw [bsPnl, curveTerm, curveGap, hright, if_neg hpriced, if_neg hfuture, hoption, if_neg hfuture]
    split_ifs <;> exact (add_zero _).symm
  | some right =>
    by_cases hnone : p.strike.getD 0 ≤ 0 ∨ p.T ≤ 0
    · have hoption : p.option = none := by
        rw [RiskPosition.option, hright]
        exact if_pos hnone
      have hpriced : ¬ Priced p := by
        rintro (h | h)
        · exact hfuture h
        · rw [hoption] at h
          cases h
      rw [bsPnl, curveTerm, curveGap, hright, if_neg hpriced, if_neg hfuture, hoption]
      dsimp only
      rw [if_pos hnone]
      split_ifs <;> exact (add_zero _).symm
    · have hoption : p.option = some (p.strike.getD 0, right) := by
        rw [RiskPosition.option, hright]
        exact if_neg hnone
      have hpriced : Priced p := .inr (by rw [hoption]; rfl)
      have hprice : bsPrice N.vol.toNumerics c.F (p.strike.getD 0) p.T
          (persistIv N c p (p.strike.getD 0) right) right =
          bsPrice N.vol.toNumerics c.F (p.strike.getD 0) p.T (ivOrFallback N c p (p.strike.getD 0)) right +
            guessedPrice N c p :=
        guessed_eq hoption fun K right iv => bsPrice N.vol.toNumerics c.F K p.T iv right
      rw [bsPnl, curveTerm, curveGap, bsMark, pnlFactor, hright, if_pos hpriced, if_neg hfuture,
        if_neg hfuture, hoption, Option.map_some, Option.elim_some]
      dsimp only
      rw [if_neg hnone, bsPriceVec_eq N.vol.toNumerics right c.spot_pos, hprice]
      split_ifs <;> simp only [Option.getD_none, Option.getD_some] <;> ring

end Position

section Book
variable {N : RiskNumerics} {c : RiskCycle}

theorem sum_filterMap {α β : Type*} (f : α → Option β) (g : β → ℚ) (l : List α) :
    ((l.filterMap f).map g).sum = (l.map fun x => ((f x).map g).getD 0).sum := by
  induction l with
  | nil => rfl
  | cons x l ih => cases hx : f x <;> simp [hx, ih]

theorem sum_filter_of_zero {α : Type*} {keep : α → Bool} {f : α → ℚ} {l : List α}
    (h : ∀ x ∈ l, keep x = false → f x = 0) : ((l.filter keep).map f).sum = (l.map f).sum := by
  rw [← TableTotals.sum_selected]
  refine congrArg List.sum (List.map_congr_left fun x hx => ?_)
  cases hkeep : keep x with
  | true => rfl
  | false => exact (h x hx hkeep).symm

theorem aggregate_of (a : RiskGreek) : a.of (aggregateGreeks N c).greeks =
    (c.positions.map fun p => ((aggregatedGreeks N c p).map a.of).getD 0).sum := by
  rw [← sum_filterMap]
  cases a <;> rfl

theorem column_of (ρ : Rounding) (a : RiskGreek) (p : RiskPosition) :
    a.column (snapshotRow N ρ c p) = (persistedGreeks N c p).map fun g => ρ.round (a.of g) 2 := by
  cases a <;> rfl

/-- The rounded columns are off by half a cent for each row at most. -/
theorem persistedSum_near (ρ : Rounding) (a : RiskGreek) : |persistedSum N c ρ a -
      ((c.positions.filter fun p => c.kept p.id).map fun p =>
        ((persistedGreeks N c p).map a.of).getD 0).sum| ≤
    (persistPositionSnapshots N ρ c).length * (ρ.unit / 2 / 10 ^ 2) := by
  rw [persistedSum, persistPositionSnapshots, List.map_map, List.length_map]
  have hunit : 0 ≤ ρ.unit / 2 / 10 ^ 2 := (abs_nonneg _).trans (ρ.near 0 2)
  induction c.positions.filter fun p => c.kept p.id with
  | nil => simp
  | cons p ps ih =>
    have hone : |((a.column (snapshotRow N ρ c p)).getD 0) - ((persistedGreeks N c p).map a.of).getD 0| ≤
        ρ.unit / 2 / 10 ^ 2 := by
      rw [column_of]
      cases persistedGreeks N c p with
      | none => simpa using hunit
      | some g => exact ρ.near (a.of g) 2
    rw [List.map_cons, List.map_cons, List.sum_cons, List.sum_cons, List.length_cons, add_sub_add_comm]
    refine (abs_add_le _ _).trans ((add_le_add hone ih).trans (le_of_eq ?_))
    push_cast
    ring

/-- The rows that are priced and still there -/
theorem priced_rows (ρ : Rounding) :
    ((persistPositionSnapshots N ρ c).filter fun row => row.deltaUsd.isSome).length =
      (c.positions.filter fun p => decide (Priced p) && c.kept p.id).length := by
  rw [persistPositionSnapshots, List.filter_map, List.length_map, List.filter_filter]
  congr 1
  refine List.filter_congr fun p _ => ?_
  have hsome : (snapshotRow N ρ c p).deltaUsd.isSome = decide (Priced p) := by
    rw [Bool.eq_iff_iff, decide_eq_true_iff, ← persisted_isSome (N := N) (c := c)]
    simp [snapshotRow]
  rw [Function.comp_apply, hsome]

theorem nPriced_eq : (aggregateGreeks N c).nPriced = (c.positions.filter fun p => Priced p).length := by
  rw [aggregateGreeks]
  dsimp only
  induction c.positions with
  | nil => rfl
  | cons p ps ih =>
    by_cases hp : Priced p
    · obtain ⟨g, hg⟩ := Option.isSome_iff_exists.mp ((aggregated_isSome (N := N) (c := c)).mpr hp)
      rw [List.filterMap_cons_some hg, List.filter_cons_of_pos (by simpa using hp), List.length_cons,
        List.length_cons, ih]
    · have hnone : aggregatedGreeks N c p = none := by
        rw [← Option.not_isSome_iff_eq_none, aggregated_isSome]
        exact hp
      rw [List.filterMap_cons_none hnone, List.filter_cons_of_neg (by simpa using hp), ih]

/-- Every priced position still has its row. -/
def AllKept (c : RiskCycle) : Prop := ∀ p ∈ c.positions, Priced p → c.kept p.id = true

theorem allKept_iff : (c.positions.filter fun p => Priced p).length =
    (c.positions.filter fun p => decide (Priced p) && c.kept p.id).length ↔ AllKept c := by
  have hsub : c.positions.filter (fun p => decide (Priced p) && c.kept p.id) =
      (c.positions.filter fun p => Priced p).filter fun p => c.kept p.id := by
    rw [List.filter_filter]
    refine List.filter_congr fun p _ => Bool.and_comm _ _
  rw [hsub]
  constructor
  · intro hlength p hp hpriced
    have hall := List.length_filter_eq_length_iff.mp hlength.symm
    exact hall p (List.mem_filter.mpr ⟨hp, decide_eq_true hpriced⟩)
  · intro hall
    refine (List.length_filter_eq_length_iff.mpr fun p hp => ?_).symm
    obtain ⟨hmem, hpriced⟩ := List.mem_filter.mp hp
    exact hall p hmem (of_decide_eq_true hpriced)

/-- What is persisted where no row is gone -/
theorem persisted_sum (hkept : AllKept c) (a : RiskGreek) :
    ((c.positions.filter fun p => c.kept p.id).map fun p => ((persistedGreeks N c p).map a.of).getD 0).sum =
      a.of (aggregateGreeks N c).greeks + (c.positions.map (guessGap N c a)).sum := by
  have hall : ((c.positions.filter fun p => c.kept p.id).map fun p =>
      ((persistedGreeks N c p).map a.of).getD 0).sum =
        (c.positions.map fun p => ((persistedGreeks N c p).map a.of).getD 0).sum := by
    refine sum_filter_of_zero fun p hp hgone => ?_
    have hnone : persistedGreeks N c p = none := by
      rw [← Option.not_isSome_iff_eq_none, persisted_isSome]
      intro hpriced
      rw [hkept p hp hpriced] at hgone
      cases hgone
    rw [hnone]
    rfl
  rw [hall, aggregate_of, ← List.sum_map_add]
  exact congrArg List.sum (List.map_congr_left fun p hp => persisted_eq hp a)

theorem pnl_sum : (c.positions.map fun p => (bsPnl N c p).getD 0).sum =
    curveAt N c c.F + (c.positions.map (curveGap N c)).sum := by
  rw [curveAt, ← List.sum_map_add]
  exact congrArg List.sum (List.map_congr_left fun p hp => bsPnl_eq hp)

end Book

/-- Whatever the rounding, a cycle publishes what it persists just where every priced position still
has its row, the greeks that a mark rather than the fallback volatility gives cancel out, and so does
what the curve leaves out. -/
theorem aggregate_matches_iff (N : RiskNumerics) (c : RiskCycle) : (∀ ρ, AggregateMatches N c ρ) ↔
    AllKept c ∧ (∀ a, (c.positions.map (guessGap N c a)).sum = 0) ∧
      (c.positions.map (curveGap N c)).sum = 0 := by
  constructor
  · intro h
    have hexact := h .exact
    have hkept : AllKept c := by
      rw [← allKept_iff, ← nPriced_eq (N := N), ← priced_rows (N := N) .exact]
      exact hexact.priced
    refine ⟨hkept, fun a => ?_, ?_⟩
    · have hsum := hexact.greeks a
      have hnear := persistedSum_near (N := N) (c := c) .exact a
      rw [persisted_sum hkept] at hnear
      have hzero : ((persistPositionSnapshots N .exact c).length : ℚ) * (Rounding.exact.unit / 2 / 10 ^ 2) = 0 := by
        simp [Rounding.exact]
      rw [hzero, abs_nonpos_iff] at hsum hnear
      linarith
    · have hcurve := hexact.curve
      rw [pnl_sum] at hcurve
      linarith
  · rintro ⟨hkept, hgreeks, hcurve⟩ ρ
    refine ⟨fun a => ?_, ?_, ?_⟩
    · have hnear := persistedSum_near (N := N) (c := c) ρ a
      rw [persisted_sum hkept, hgreeks, add_zero, abs_sub_comm] at hnear
      exact hnear
    · rw [nPriced_eq, priced_rows]
      exact allKept_iff.mpr hkept
    · rw [pnl_sum, hcurve, add_zero]

/-- Bisection, to less than a millionth -/
def bisect (f : ℚ → ℚ) : ℕ → ℚ → ℚ → ℚ
  | 0, lo, hi => (lo + hi) / 2
  | n + 1, lo, hi =>
    let mid := (lo + hi) / 2
    if f lo * f mid ≤ 0 then bisect f n lo mid else bisect f n mid hi

def riskNumerics : RiskNumerics :=
  { MonitoredPnl.surfaceNumerics with brentq := fun f lo hi => some (bisect f 24 lo hi) }

def longCall : HeldRow :=
  ⟨⟨1, "EUUM6 C1085", .buy, 1, some ⟨2026, 6, 15⟩, none, none⟩, some (15 / 1000)⟩

def longFuture : HeldRow := ⟨⟨2, "6EM6", .buy, 1, some ⟨2026, 6, 15⟩, none, none⟩, some (108 / 100)⟩

/-- A weekend: no surface, and the call marked at 151 points. -/
def weekend : RiskCycle where
  rows := [longCall, longFuture]
  today := (Date.mk 2026 3 17).toOrdinal
  F := 1085 / 1000
  spot_pos := by norm_num
  surface := none
  optionMarks id := if id = 1 then some (151 / 10000) else none
  contractMarks _ := none
  unrealizedPnl _ := none
  kept _ := true

/-- The mark makes sixteen dollars a pip of the gamma, and a book that has made over six hundred dollars
makes one and a half cents on the curve. -/
theorem published_differs :
    (aggregateGreeks riskNumerics weekend).greeks.gammaUsdPerPip < 116 ∧
    131 < persistedSum riskNumerics weekend .python .gamma ∧
    curveAt riskNumerics weekend weekend.F < 1 / 100 ∧
    600 < (weekend.positions.map fun p => (bsPnl riskNumerics weekend p).getD 0).sum ∧
    ¬ ∀ (N : RiskNumerics) (c : RiskCycle), AggregateMatches N c .python := by
  refine ⟨by decide +kernel, by decide +kernel, by decide +kernel, by decide +kernel, ?_⟩
  intro hall
  have hcurve := (hall riskNumerics weekend).curve
  revert hcurve
  decide +kernel

end FxVol.RiskAggregate
