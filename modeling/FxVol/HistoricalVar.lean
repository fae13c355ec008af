import FxVol.AccountVar
import FxVol.ComponentVar
import FxVol.MarginalVar
import FxVol.Numerals
import FxVol.StressLaws

/-!
# Historical simulation

`core.risk.hist_var` replays the daily moves of a year through the open book, and `/var` and `/marginal-var` read the
same vectors: the one its quantiles with a quantile of its own, the other the loss of the sum of the positions.
-/
namespace FxVol.HistoricalVar

open scoped Numerals
open Pricers StressLaws
open ComponentVar (lossVar exactVar alignedDays withSeries lastDays portfolio)

section Shocks
variable {K : Type*} [Field K] [LinearOrder K] (N : Numerics K)

def dailyReturns (closes : List K) : List K :=
  (closes.zip closes.tail).filterMap fun (prev, cur) => if 0 < prev ∧ 0 < cur then some (cur / prev - 1) else none

def rollingRvVp (rets : List K) (window : ℕ) : List (Option K) :=
  (List.range rets.length).map fun i =>
    if i + 1 < window then none
    else
      let w := (rets.drop (i + 1 - window)).take window
      let mean : K := w.sum / window
      let var : K := (w.map fun x => (x - mean) ^ 2).sum / (window - 1 : ℕ)
      some (N.sqrt var * N.sqrt 252 * 100)

def rvWindow : ℕ := 21

/-- `market_shocks`, pairs of a move of the spot in basis points and of the vol in points -/
def marketShocks (closes : List K) : List (K × K) :=
  let rets := dailyReturns closes
  let rv := rollingRvVp N rets rvWindow
  (List.range' 1 (rets.length - 1)).filterMap fun i =>
    match rv.getD (i - 1) none, rv.getD i none with
    | some prevRv, some curRv => some (rets.getD i 0 * 10000, curRv - prevRv)
    | _, _ => none

def scenario (shock : K × K) : Shocks K := { dspotBp := shock.1, dvolVp := shock.2 }

def simulatePnlByPosition (baselines : List (Baseline K)) (spot : K) (shocks : List (K × K)) : List (List K) :=
  baselines.map fun b => shocks.map fun shock => revalBook N [b] spot (scenario shock) .pnl

def portfolioPnl (byPosition : List (List K)) : List K :=
  match byPosition with
  | [] => []
  | v :: _ => (List.range v.length).map fun i => (byPosition.map (·.getD i 0)).sum

end Shocks

section HistSim
variable {K : Type*} [Field K] [LinearOrder K] (N : Numerics K)

/-- The resolved book under the primary key of its rows -/
structure Book (K : Type*) where
  positions : List (ℕ × Baseline K)
  nodup : (positions.map Prod.fst).Nodup

def Book.baselines (book : Book K) : List (Baseline K) := book.positions.map Prod.snd

/-- A row as `_resolve_book` gives it, with the price of its option at the spot -/
def resolveRow (today : ℤ) (spot : K) (p : Revaluation.BookRow) : Option (ℕ × Baseline K) :=
  (Revaluation.resolve today p).map fun r =>
    let option : Option (OptionTerms K) := r.option.map fun o => ⟨o.K, o.T, o.iv, o.right⟩
    (p.id, {
      qtySigned := r.qtySigned
      mult := r.mult
      option := option
      priceBase := option.elim 0 fun o => bsPrice N spot o.K o.T o.iv o.right })

theorem resolveRow_id {today : ℤ} {spot : K} {p : Revaluation.BookRow} {e : ℕ × Baseline K}
    (h : resolveRow N today spot p = some e) : e.1 = p.id := by
  obtain ⟨_, _, rfl⟩ := Option.map_eq_some_iff.mp h
  rfl

def resolveBook (today : ℤ) (spot : K) (rows : List Revaluation.BookRow) (hrows : (rows.map (·.id)).Nodup) : Book K where
  positions := rows.filterMap (resolveRow N today spot)
  nodup := by
    induction rows with
    | nil => exact List.nodup_nil
    | cons p rows ih =>
      obtain ⟨hfresh, hrows⟩ := List.nodup_cons.mp hrows
      rw [List.filterMap_cons]
      cases hp : resolveRow N today spot p with
      | none => exact ih hrows
      | some e =>
        refine List.nodup_cons.mpr ⟨fun hmem => hfresh ?_, ih hrows⟩
        obtain ⟨e', he', hid⟩ := List.mem_map.mp hmem
        obtain ⟨p', hp', hrow⟩ := List.mem_filterMap.mp he'
        exact List.mem_map.mpr ⟨p', hp', by rw [← resolveRow_id N hrow, hid, resolveRow_id N hp]⟩

structure HistSim (K : Type*) where
  pnl : List K
  byId : List (String × List K)
  nScenarios : ℕ

def histSimMinScenarios : ℕ := 60

/-- `_hist_sim`, from what `_resolve_book` and `_daily_closes` give -/
def histSim (spot : Option K) (book : Book K) (closes : List K) : Option (HistSim K) :=
  match spot with
  | none => none
  | some spot =>
    if book.positions = [] then none
    else
      let shocks := marketShocks N closes
      if shocks.length < histSimMinScenarios then none
      else
        let byPosition := simulatePnlByPosition N book.baselines spot shocks
        some {
          pnl := portfolioPnl byPosition
          byId := (book.positions.map fun p => toString p.1).zip byPosition
          nScenarios := shocks.length }

end HistSim

section Stats
variable {K : Type*} [Field K] [LinearOrder K] [FloorSemiring K]

def percentile (sortedVals : List K) (q : K) : Option K :=
  if sortedVals = [] then none else some (SampleMoments.quantile sortedVals q)

structure VarStats (K : Type*) where
  var95 : K
  var99 : K
  es99 : K

def varStats (deltas : List K) : Option (VarStats K) :=
  if deltas.length < 5 then none
  else
    let s := deltas.insertionSort (· ≤ ·)
    match percentile s (5 / 100), percentile s (1 / 100) with
    | some var95, some var99 =>
      let tail := s.filter (· ≤ var99)
      some ⟨var95, var99, if tail = [] then var99 else tail.sum / tail.length⟩
    | _, _ => none

structure Bin (K : Type*) where
  lo : K
  hi : K
  count : ℕ

/-- `_histogram` with Sturges' rule -/
def histogram (round : K → ℕ → K) (values : List K) : List (Bin K) :=
  if values.length < 2 then []
  else
    match values.min?, values.max? with
    | some lo, some hi =>
      if hi ≤ lo then []
      else
        let nbins := max 5 (min 21 (1 + values.length.size))
        let width := (hi - lo) / nbins
        -- the greatest value would be one bin too far
        let counts := SampleMoments.binCounts nbins (fun v => min (nbins - 1) ⌊(v - lo) / width⌋₊) values
        (List.range nbins).map fun i : ℕ =>
          { lo := round (lo + i * width) 2
            hi := round (lo + (i + 1) * width) 2
            count := counts.getD i 0 }
    | _, _ => []

end Stats

/-- Over the rationals these are the statistics of the account history. -/
theorem varStats_rat (deltas : List ℚ) :
    AccountVar.varStats deltas = (varStats deltas).map fun s => ⟨s.var95, s.var99, s.es99⟩ := by
  by_cases hfew : deltas.length < 5
  · rw [AccountVar.varStats, varStats, if_pos hfew, if_pos (by exact hfew)]
    rfl
  · rw [AccountVar.varStats, varStats, if_neg hfew, if_neg (by exact hfew)]
    dsimp only [AccountVar.percentile, percentile, AccountVar.sorted]
    split_ifs <;> rfl

theorem histogram_rat (values : List ℚ) : AccountVar.histogram values =
    (histogram pyRound values).map fun b => ⟨b.lo, b.hi, b.count⟩ := by
  rw [AccountVar.histogram, histogram]
  split_ifs
  · rfl
  · cases values.min? with
    | none => rfl
    | some lo =>
      cases values.max? with
      | none => rfl
      | some hi =>
        dsimp only
        split_ifs
        · rfl
        · simp only [bind_pure_comp, List.map_eq_map, List.map_map]
          refine List.map_congr_left fun i hi => ?_
          simp only [Function.comp_apply, SampleMoments.getD_binCounts values (List.mem_range.mp hi), Nat.cast_inj]

/-- And the rows are resolved as for the panels. -/
theorem resolveRow_rat (N : Greeks.Numerics) (today : ℤ) (spot : ℚ) (p : Revaluation.BookRow) :
    resolveRow (ofGreeks N) today spot p =
      (Revaluation.resolve today p).map fun r => (p.id, ofBaseline (Revaluation.baseline N spot r)) := by
  rw [resolveRow]
  congr 1
  funext r
  cases hr : r.option with
  | none => simp only [ofBaseline, Revaluation.baseline, hr, Option.map_none, Option.elim_none, Rat.cast_id]
  | some o =>
    simp only [ofBaseline, Revaluation.baseline, hr, Option.map_some, Option.elim_some, Rat.cast_id, bsPrice_rat]
    rfl

section Order
variable {K : Type*} [Field K] [LinearOrder K] [IsStrictOrderedRing K]

/-- Mean of the values at or below `v` -/
def tailMean (s : List K) (v : K) : K := (s.filter (· ≤ v)).sum / (s.filter (· ≤ v)).length

theorem mean_mem_Icc {xs : List K} (hne : xs ≠ []) {low high : K} (hlow : ∀ x ∈ xs, low ≤ x) (hhigh : ∀ x ∈ xs, x ≤ high) :
    low ≤ xs.sum / xs.length ∧ xs.sum / xs.length ≤ high := by
  have hlen : (0 : K) < xs.length := by exact_mod_cast List.length_pos_of_ne_nil hne
  have hleast := List.card_nsmul_le_sum xs low hlow
  have hmost := List.sum_le_card_nsmul xs high hhigh
  rw [nsmul_eq_mul] at hleast hmost
  constructor
  · rw [le_div_iff₀ hlen, mul_comm]
    exact hleast
  · rw [div_le_iff₀ hlen, mul_comm]
    exact hmost

theorem sort_scale {c : K} (hc : 0 ≤ c) (xs : List K) :
    (xs.map (c * ·)).insertionSort (· ≤ ·) = (xs.insertionSort (· ≤ ·)).map (c * ·) := by
  have hsorted : ((xs.insertionSort (· ≤ ·)).map (c * ·)).Pairwise (· ≤ ·) :=
    (List.pairwise_insertionSort (· ≤ ·) xs).map _ fun a b hab => mul_le_mul_of_nonneg_left hab hc
  have hperm : ((xs.map (c * ·)).insertionSort (· ≤ ·)).Perm ((xs.insertionSort (· ≤ ·)).map (c * ·)) :=
    (List.perm_insertionSort _ _).trans ((List.perm_insertionSort _ xs).symm.map _)
  exact hperm.eq_of_pairwise' (List.pairwise_insertionSort _ _) hsorted

theorem tailMean_scale {c : K} (hc : 0 ≤ c) (s : List K) (v : K) : tailMean (s.map (c * ·)) (c * v) = c * tailMean s v := by
  rcases hc.eq_or_lt with rfl | hpos
  · have hzero : ∀ x ∈ (s.map (0 * ·)).filter (· ≤ 0 * v), x = 0 := by
      intro x hx
      obtain ⟨y, -, rfl⟩ := List.mem_map.mp (List.mem_filter.mp hx).1
      exact zero_mul y
    rw [tailMean, List.sum_eq_zero hzero, zero_div, zero_mul]
  · have hfilter : (s.map (c * ·)).filter (· ≤ c * v) = (s.filter (· ≤ v)).map (c * ·) := by
      rw [List.filter_map]
      simp only [Function.comp_def, mul_le_mul_iff_right₀ hpos]
    rw [tailMean, hfilter, List.length_map, List.sum_map_mul_left, List.map_id', mul_div_assoc, tailMean]

variable [FloorSemiring K] {deltas : List K}

omit [Field K] [IsStrictOrderedRing K] [FloorSemiring K] in
theorem sort_ne_nil (hmany : 5 ≤ deltas.length) : deltas.insertionSort (· ≤ ·) ≠ [] := by
  have hlen := List.length_insertionSort (· ≤ ·) deltas
  intro hnil
  rw [hnil, List.length_nil] at hlen
  omega

/-- The tail is never empty. -/
theorem tail_ne_nil (hmany : 5 ≤ deltas.length) : (deltas.insertionSort (· ≤ ·)).filter
    (· ≤ SampleMoments.quantile (deltas.insertionSort (· ≤ ·)) (1 / 100)) ≠ [] := by
  have hne := sort_ne_nil hmany
  have hlo := SampleMoments.floor_rank_lt (K := K) (q := 1 / 100) hne (by norm_num)
  have hbetween := (SampleMoments.quantile_between (q := 1 / 100) (List.pairwise_insertionSort (· ≤ ·) deltas) hne
    (by norm_num) (by norm_num)).1
  rw [List.getD_eq_getElem _ _ hlo] at hbetween
  exact List.ne_nil_of_mem (List.mem_filter.mpr ⟨List.getElem_mem hlo, decide_eq_true hbetween⟩)

theorem varStats_eq (hmany : 5 ≤ deltas.length) :
    let s := deltas.insertionSort (· ≤ ·)
    varStats deltas = some ⟨SampleMoments.quantile s (5 / 100), SampleMoments.quantile s (1 / 100),
      tailMean s (SampleMoments.quantile s (1 / 100))⟩ := by
  have hne := sort_ne_nil hmany
  have htail := tail_ne_nil hmany
  simp only [varStats, percentile, if_neg hmany.not_gt, if_neg hne, if_neg htail, tailMean]

/-- The tail mean, the two quantiles and the two ends of the sample are in this order. -/
theorem varStats_order (hmany : 5 ≤ deltas.length) {stats : VarStats K} (h : varStats deltas = some stats) {worst best : K}
    (hworst : ∀ x ∈ deltas, worst ≤ x) (hbest : ∀ x ∈ deltas, x ≤ best) :
    worst ≤ stats.es99 ∧ stats.es99 ≤ stats.var99 ∧ stats.var99 ≤ stats.var95 ∧ stats.var95 ≤ best := by
  have hne := sort_ne_nil hmany
  have hsorted := List.pairwise_insertionSort (· ≤ ·) deltas
  have hmem {x : K} (hx : x ∈ deltas.insertionSort (· ≤ ·)) : x ∈ deltas := (List.mem_insertionSort _).mp hx
  rw [varStats_eq hmany] at h
  cases h
  have htail := mean_mem_Icc (tail_ne_nil hmany) (fun x hx => hworst x (hmem (List.mem_filter.mp hx).1))
    fun x hx => of_decide_eq_true (List.mem_filter.mp hx).2
  refine ⟨htail.1, htail.2, SampleMoments.quantile_mono hsorted hne (by norm_num) (by norm_num) (by norm_num), ?_⟩
  exact (SampleMoments.quantile_mem_Icc hsorted hne (by norm_num) (by norm_num) (fun x hx => hworst x (hmem hx))
    fun x hx => hbest x (hmem hx)).2

theorem varStats_scale {c : K} (hc : 0 ≤ c) (deltas : List K) :
    varStats (deltas.map (c * ·)) = (varStats deltas).map fun s => ⟨c * s.var95, c * s.var99, c * s.es99⟩ := by
  rcases lt_or_ge deltas.length 5 with hfew | hmany
  · rw [varStats, varStats, if_pos (by rwa [List.length_map]), if_pos hfew]
    rfl
  · rw [varStats_eq hmany, varStats_eq (by rwa [List.length_map]), sort_scale hc, SampleMoments.quantile_scale,
      SampleMoments.quantile_scale, tailMean_scale hc]
    rfl

end Order

section Vectors
variable {K : Type*} [Field K] [LinearOrder K] (N : Numerics K)

/-- The P&L of the positions at a shock of the market -/
def scenarioPnl (baselines : List (Baseline K)) (spot : K) (shock : K × K) : K :=
  revalBook N baselines spot (scenario shock) .pnl

theorem scenarioPnl_sum (baselines : List (Baseline K)) (spot : K) (shock : K × K) :
    scenarioPnl N baselines spot shock = (baselines.map fun b => scenarioPnl N [b] spot shock).sum :=
  revalBook_sum N baselines spot (scenario shock) .pnl

theorem portfolioPnl_eq {baselines : List (Baseline K)} (hne : baselines ≠ []) (spot : K) (shocks : List (K × K)) :
    portfolioPnl (simulatePnlByPosition N baselines spot shocks) = shocks.map (scenarioPnl N baselines spot) := by
  obtain ⟨b, rest, rfl⟩ := List.exists_cons_of_ne_nil hne
  change ((List.range (shocks.map (scenarioPnl N [b] spot)).length).map fun i =>
    (((b :: rest).map fun b => shocks.map (scenarioPnl N [b] spot)).map (·.getD i 0)).sum) = _
  rw [List.length_map]
  refine List.ext_getElem (by simp) fun i hi _ => ?_
  have hi : i < shocks.length := by simpa using hi
  rw [List.getElem_map, List.getElem_map, List.getElem_range, scenarioPnl_sum, List.map_map]
  congr 1
  refine List.map_congr_left fun b _ => ?_
  rw [Function.comp_apply, List.getD_eq_getElem _ _ (by rwa [List.length_map]), List.getElem_map]

theorem histSim_eq {book : Book K} (hopen : book.positions ≠ []) (spot : K) {closes : List K}
    (hmany : histSimMinScenarios ≤ (marketShocks N closes).length) : histSim N (some spot) book closes = some
      { pnl := (marketShocks N closes).map (scenarioPnl N book.baselines spot)
        byId := book.positions.map fun p => (toString p.1, (marketShocks N closes).map (scenarioPnl N [p.2] spot))
        nScenarios := (marketShocks N closes).length } := by
  have hne : book.baselines ≠ [] := fun hnil => hopen (List.map_eq_nil_iff.mp hnil)
  have hbyId : (book.positions.map fun p => toString p.1).zip
      (simulatePnlByPosition N book.baselines spot (marketShocks N closes)) =
        book.positions.map fun p => (toString p.1, (marketShocks N closes).map (scenarioPnl N [p.2] spot)) := by
    rw [simulatePnlByPosition, Book.baselines, List.map_map]
    exact List.zip_map'
  simp only [histSim, if_neg hopen, if_neg (not_lt.mpr hmany), hbyId, portfolioPnl_eq N hne]

end Vectors

section Loss
variable {K : Type*} {seriesById : List (String × List K)} {n : ℕ}

theorem withSeries_of_length (hn : 0 < n) (hlen : ∀ e ∈ seriesById, e.2.length = n) : withSeries seriesById = seriesById := by
  refine List.filter_eq_self.mpr fun e he => decide_eq_true (List.ne_nil_of_length_pos ?_)
  rwa [hlen e he]

theorem alignedDays_of_length (hne : seriesById ≠ []) (hn : 0 < n) (hlen : ∀ e ∈ seriesById, e.2.length = n) :
    alignedDays seriesById = some n := by
  obtain ⟨e, he⟩ := List.exists_mem_of_ne_nil seriesById hne
  rw [alignedDays, withSeries_of_length hn hlen, List.min?_eq_some_iff]
  refine ⟨List.mem_map.mpr ⟨e, he, hlen e he⟩, ?_⟩
  rw [List.forall_mem_map]
  exact fun e he => (hlen e he).ge

variable [Field K] [LinearOrder K]

omit [LinearOrder K] in
/-- Vectors of one length are summed as they are. -/
theorem portfolio_of_length (hn : 0 < n) (hlen : ∀ e ∈ seriesById, e.2.length = n) (i : Fin n) :
    portfolio seriesById n i = (seriesById.map fun e => e.2.getD i 0).sum := by
  rw [portfolio, withSeries_of_length hn hlen]
  congr 1
  refine List.map_congr_left fun e he => ?_
  rw [lastDays, hlen e he, Nat.sub_self, List.drop_zero]

variable [FloorSemiring K] {deltas : List K}

/-- The VaR of the sum is a quantile with the sign of a loss. -/
theorem exactVar_of_sum (hne : seriesById ≠ []) (hmany : 5 ≤ deltas.length) (hlen : ∀ e ∈ seriesById, e.2.length = deltas.length)
    (hsum : ∀ i < deltas.length, deltas.getD i 0 = (seriesById.map fun e => e.2.getD i 0).sum) (conf : K) :
    (exactVar seriesById conf).portfolioVarUsd = max 0 (-SampleMoments.quantile (deltas.insertionSort (· ≤ ·)) (1 - conf)) := by
  have hpos : 0 < deltas.length := by omega
  have hseries : List.ofFn (portfolio seriesById deltas.length) = deltas := by
    refine List.ext_getElem (List.length_ofFn) fun i _ hi => ?_
    rw [List.getElem_ofFn, portfolio_of_length hpos hlen, ← hsum i hi, List.getD_eq_getElem _ _ hi]
  rw [ComponentVar.exactVar_portfolioVar (alignedDays_of_length hne hpos hlen) hmany, lossVar, if_neg hpos.ne', hseries]

/-- `/marginal-var` shows this VaR to the cent. -/
theorem marginalVar_total {book : MarginalVar.Book} (hbook : book.positions ≠ []) (now : Instant)
    (history : List MarginalVar.Snapshot) {seriesById : List (String × List ℚ)} (hne : seriesById ≠ [])
    (hn : ComponentVar.minDays ≤ n) (hlen : ∀ e ∈ seriesById, e.2.length = n) :
    (MarginalVar.marginalVar book now (some seriesById) history).total.map Prod.fst =
      some (pyRound (exactVar seriesById (99 / 100)).portfolioVarUsd 2) := by
  have hpos : 0 < n := lt_of_lt_of_le (by decide) hn
  have hdays := alignedDays_of_length hne hpos hlen
  rw [MarginalVar.marginalVar, if_neg hbook, ComponentVar.exactVar_portfolioVar hdays hn, Option.getD_some]
  simp [ComponentVar.componentVar, hdays, hn.not_gt, withSeries_of_length hpos hlen, hne]

end Loss

section Histogram
variable {K : Type*} [Field K] [LinearOrder K] [FloorSemiring K]

/-- The bins of a P&L that is not constant count each scenario. -/
theorem histogram_counts (round : K → ℕ → K) {values : List K} (h : ∃ x ∈ values, ∃ y ∈ values, x ≠ y) :
    ((histogram round values).map Bin.count).sum = values.length := by
  obtain ⟨x, hx, y, hy, hne⟩ := h
  have hmany : ¬values.length < 2 := by
    intro hfew
    obtain ⟨v, hv⟩ : ∃ v, values = [v] := List.length_eq_one_iff.mp (by have := List.length_pos_of_mem hx; omega)
    rw [hv, List.mem_singleton] at hx hy
    exact hne (hx.trans hy.symm)
  rw [histogram, if_neg hmany]
  cases hlo : values.min? with
  | none => exact absurd (List.min?_eq_none_iff.mp hlo) (List.ne_nil_of_mem hx)
  | some lo =>
    cases hhi : values.max? with
    | none => exact absurd (List.max?_eq_none_iff.mp hhi) (List.ne_nil_of_mem hx)
    | some hi =>
      have hleast := (List.min?_eq_some_iff.mp hlo).2
      have hgreatest := (List.max?_eq_some_iff.mp hhi).2
      have hrange : ¬hi ≤ lo := fun hle => hne <|
        ((((hgreatest x hx).trans hle).antisymm (hleast x hx)).trans (((hgreatest y hy).trans hle).antisymm (hleast y hy)).symm)
      dsimp only
      rw [if_neg hrange, List.map_map]
      refine SampleMoments.sum_counts fun v _ => ?_
      omega

end Histogram

section Scale
variable {K : Type*} [Field K] [LinearOrder K] (N : Numerics K)

/-- The book with each quantity times `c` -/
def Book.scale (c : K) (book : Book K) : Book K where
  positions := book.positions.map fun p => (p.1, { p.2 with qtySigned := c * p.2.qtySigned })
  nodup := by
    rw [List.map_map]
    exact book.nodup

theorem revalStep_scale (c spot : K) (s : Shocks K) (p : Baseline K) :
    revalStep N spot s .pnl 0 { p with qtySigned := c * p.qtySigned } = c * revalStep N spot s .pnl 0 p := by
  cases ho : p.option with
  | none =>
    simp only [revalStep, ho, Baseline.qm]
    ring
  | some o =>
    simp only [revalStep, ho, Baseline.qm, if_true]
    split_ifs
    · exact (mul_zero c).symm
    · ring

theorem scenarioPnl_scale (c : K) (book : Book K) (spot : K) (shock : K × K) :
    scenarioPnl N (book.scale c).baselines spot shock = c * scenarioPnl N book.baselines spot shock := by
  rw [scenarioPnl, scenarioPnl, revalBook_sum, revalBook_sum, ← List.sum_map_mul_left, Book.baselines, Book.baselines,
    Book.scale, List.map_map, List.map_map, List.map_map]
  congr 1
  exact List.map_congr_left fun p _ => revalStep_scale N c spot (scenario shock) p.2

theorem resolveRow_scale [CharZero K] (today : ℤ) (spot : K) (c : ℚ) (p : Revaluation.BookRow) :
    resolveRow N today spot { p with quantity := c * p.quantity } =
      (resolveRow N today spot p).map fun e => (e.1, { e.2 with qtySigned := (c : K) * e.2.qtySigned }) := by
  have hoption (spec : ContractSpec) : Revaluation.optionTerms today spec { p with quantity := c * p.quantity } =
      Revaluation.optionTerms today spec p := rfl
  rw [resolveRow, resolveRow, Revaluation.resolve, Revaluation.resolve]
  cases parseLocalSymbol p.localSymbol with
  | none => rfl
  | some spec =>
    simp only [Option.bind_some, hoption]
    split_ifs
    · simp [mul_assoc]
    · cases Revaluation.optionTerms today spec p with
      | none => rfl
      | some terms => simp [mul_assoc]

/-- The quantities of the rows are those of the book, and the spot is not read from them. -/
theorem resolveBook_scale [CharZero K] (today : ℤ) (spot : K) (c : ℚ) {rows : List Revaluation.BookRow}
    (hrows : (rows.map (·.id)).Nodup) (hrows' : ((rows.map fun p => { p with quantity := c * p.quantity }).map (·.id)).Nodup) :
    resolveBook N today spot (rows.map fun p => { p with quantity := c * p.quantity }) hrows' =
        (resolveBook N today spot rows hrows).scale (c : K) ∧
      Revaluation.resolveSpot (rows.map fun p => { p with quantity := c * p.quantity }) = Revaluation.resolveSpot rows := by
  constructor
  · simp only [resolveBook, Book.scale, List.filterMap_map, List.map_filterMap, Function.comp_def,
      resolveRow_scale]
  · rw [Revaluation.resolveSpot, Revaluation.resolveSpot, Revaluation.futureMark, Revaluation.futureMark,
      List.findSome?_map, List.findSome?_map]
    rfl

end Scale

section Length
variable {K : Type*} [Field K] [LinearOrder K] (N : Numerics K)

omit [LinearOrder K] in
theorem isSome_rollingRvVp (rets : List K) (window : ℕ) {i : ℕ} (hi : i < rets.length) :
    ((rollingRvVp N rets window).getD i none).isSome = decide (window ≤ i + 1) := by
  rw [rollingRvVp, List.getD_eq_getElem _ _ (by simpa using hi), List.getElem_map, List.getElem_range]
  split_ifs with hshort
  · exact (decide_eq_false hshort.not_ge).symm
  · exact (decide_eq_true (not_lt.mp hshort)).symm

theorem countP_range' (window m : ℕ) : (List.range' 1 m).countP (fun i => decide (window ≤ i)) = m + 1 - max window 1 := by
  induction m with
  | zero => exact (Nat.sub_eq_zero_of_le (le_max_right window 1)).symm
  | succ m ih =>
    rw [List.range'_1_concat, List.countP_append, ih, List.countP_singleton]
    by_cases hm : window ≤ 1 + m
    · rw [if_pos (decide_eq_true hm)]
      omega
    · rw [if_neg (by simpa using hm)]
      omega

/-- The window takes the first returns. -/
theorem length_marketShocks (closes : List K) : (marketShocks N closes).length = (dailyReturns closes).length - rvWindow := by
  have hsome : ∀ i ∈ List.range' 1 ((dailyReturns closes).length - 1),
      ((match (rollingRvVp N (dailyReturns closes) rvWindow).getD (i - 1) none,
        (rollingRvVp N (dailyReturns closes) rvWindow).getD i none with
        | some prevRv, some curRv => some ((dailyReturns closes).getD i 0 * 10000, curRv - prevRv)
        | _, _ => none).isSome = true) ↔ decide (rvWindow ≤ i) = true := by
    intro i hi
    have hi := List.mem_range'_1.mp hi
    have hprev := isSome_rollingRvVp N (dailyReturns closes) rvWindow (i := i - 1) (by omega)
    have hcur := isSome_rollingRvVp N (dailyReturns closes) rvWindow (i := i) (by omega)
    rw [Nat.sub_add_cancel hi.1] at hprev
    rw [← hprev]
    by_cases hlate : rvWindow ≤ i
    · rw [decide_eq_true (by omega)] at hcur
      obtain ⟨curRv, hcur⟩ := Option.isSome_iff_exists.mp hcur
      rw [hcur]
      cases (rollingRvVp N (dailyReturns closes) rvWindow).getD (i - 1) none <;> rfl
    · rw [decide_eq_false hlate] at hprev
      rw [Option.isNone_iff_eq_none.mp (Option.isSome_eq_false_iff.mp hprev)]
      exact Iff.rfl
  rw [marketShocks, List.length_filterMap_eq_countP, List.countP_congr hsome, countP_range']
  change (dailyReturns closes).length - 1 + 1 - 21 = (dailyReturns closes).length - 21
  omega

theorem dailyReturns_of_pos {closes : List K} (hpos : ∀ x ∈ closes, 0 < x) :
    dailyReturns closes = (closes.zip closes.tail).map fun (prev, cur) => cur / prev - 1 := by
  rw [dailyReturns, ← List.filterMap_eq_map]
  refine List.filterMap_congr fun x hx => ?_
  have hmem := List.of_mem_zip hx
  exact if_pos ⟨hpos x.1 hmem.1, hpos x.2 (List.mem_of_mem_tail hmem.2)⟩

/-- From the end of the first window on each return is in a shock. -/
theorem exists_shock (closes : List K) {i : ℕ} (hlate : rvWindow ≤ i)
    (hi : i < (dailyReturns closes).length) :
    ∃ dvol, ((dailyReturns closes).getD i 0 * 10000, dvol) ∈ marketShocks N closes := by
  have hfirst : 1 ≤ i := le_trans (by decide) hlate
  have hprev := isSome_rollingRvVp N (dailyReturns closes) rvWindow (i := i - 1) (by omega)
  have hcur := isSome_rollingRvVp N (dailyReturns closes) rvWindow hi
  rw [decide_eq_true (by omega)] at hprev hcur
  obtain ⟨prevRv, hprev⟩ := Option.isSome_iff_exists.mp hprev
  obtain ⟨curRv, hcur⟩ := Option.isSome_iff_exists.mp hcur
  refine ⟨curRv - prevRv, List.mem_filterMap.mpr ⟨i, List.mem_range'_1.mpr (by omega), ?_⟩⟩
  rw [hprev, hcur]

end Length

section Claim
variable {K : Type*} [Field K] [LinearOrder K] [FloorSemiring K] (N : Numerics K)

/-- The portfolio is the sum of the positions, `/var` and `/marginal-var` read the same quantile of it, and the
statistics are in order, in the range of the scenarios and of the size of the book. -/
structure Coherent (book : Book K) (spot : K) (closes : List K) (sim : HistSim K) (stats : VarStats K) : Prop where
  ids : sim.byId.map Prod.fst = book.positions.map fun p => toString p.1
  lengths : sim.pnl.length = sim.nScenarios ∧ ∀ e ∈ sim.byId, e.2.length = sim.nScenarios
  sum : ∀ i < sim.nScenarios, sim.pnl.getD i 0 = (sim.byId.map fun e => e.2.getD i 0).sum
  whole : sim.pnl = (marketShocks N closes).map fun shock => revalBook N book.baselines spot (scenario shock) .pnl
  loss : (exactVar sim.byId (99 / 100)).portfolioVarUsd = if stats.var99 < 0 then -stats.var99 else 0
  order : stats.es99 ≤ stats.var99 ∧ stats.var99 ≤ stats.var95
  range : ∃ worst ∈ sim.pnl.min?, ∃ best ∈ sim.pnl.max?, ∀ x ∈ [stats.es99, stats.var99, stats.var95], worst ≤ x ∧ x ≤ best
  scale : ∀ c, 0 ≤ c → ((histSim N (some spot) (book.scale c) closes).bind fun scaled => varStats scaled.pnl) =
    some ⟨c * stats.var95, c * stats.var99, c * stats.es99⟩
  hist : ∀ round, (∃ x ∈ sim.pnl, ∃ y ∈ sim.pnl, x ≠ y) → ((histogram round sim.pnl).map Bin.count).sum = sim.nScenarios

end Claim

section Coherence
variable {K : Type*} [Field K] [LinearOrder K] (N : Numerics K)

/-- The vector of the book is the sum of the vectors of its positions. -/
theorem vector_sum (book : Book K) (spot : K) (shocks : List (K × K)) {i : ℕ} (hi : i < shocks.length) :
    (shocks.map (scenarioPnl N book.baselines spot)).getD i 0 =
      ((book.positions.map fun p => (toString p.1, shocks.map (scenarioPnl N [p.2] spot))).map fun e => e.2.getD i 0).sum := by
  have hget (f : K × K → K) : (shocks.map f).getD i 0 = f shocks[i] := by
    rw [List.getD_eq_getElem _ _ (by rwa [List.length_map]), List.getElem_map]
  rw [hget, scenarioPnl_sum, Book.baselines, List.map_map, List.map_map]
  simp only [Function.comp_def, hget]

variable [IsStrictOrderedRing K]

theorem loss_eq (x : K) : max 0 (-x) = if x < 0 then -x else 0 := by
  split_ifs with hneg
  · exact max_eq_right (neg_nonneg.mpr hneg.le)
  · exact max_eq_left (neg_nonpos.mpr (not_lt.mp hneg))

variable [FloorSemiring K]

theorem vectors_scale {c : K} (hc : 0 ≤ c) (book : Book K) (spot : K) (shocks : List (K × K)) :
    varStats (shocks.map (scenarioPnl N (book.scale c).baselines spot)) =
      (varStats (shocks.map (scenarioPnl N book.baselines spot))).map fun s => ⟨c * s.var95, c * s.var99, c * s.es99⟩ := by
  rw [← varStats_scale hc, List.map_map]
  congr 1
  exact List.map_congr_left fun shock _ => scenarioPnl_scale N c book spot shock

theorem hist_var_coherent (book : Book K) (hopen : book.positions ≠ []) (spot : K) (closes : List K)
    (hmany : histSimMinScenarios ≤ (marketShocks N closes).length) :
    ∃ sim stats, histSim N (some spot) book closes = some sim ∧ varStats sim.pnl = some stats ∧
      Coherent N book spot closes sim stats := by
  have hscaled (c : K) : (book.scale c).positions ≠ [] := mt List.map_eq_nil_iff.mp hopen
  let pnl := (marketShocks N closes).map (scenarioPnl N book.baselines spot)
  have hlength : pnl.length = (marketShocks N closes).length := List.length_map _
  have hlen : 5 ≤ pnl.length := hlength ▸ le_trans (by decide) hmany
  have hne : pnl ≠ [] := List.ne_nil_of_length_pos (by omega)
  have hvectors : ∀ e ∈ book.positions.map fun p => (toString p.1, (marketShocks N closes).map (scenarioPnl N [p.2] spot)),
      e.2.length = (marketShocks N closes).length := by
    rw [List.forall_mem_map]
    exact fun _ _ => List.length_map _
  obtain ⟨worst, hworst⟩ := Option.ne_none_iff_exists'.mp (mt List.min?_eq_none_iff.mp hne)
  obtain ⟨best, hbest⟩ := Option.ne_none_iff_exists'.mp (mt List.max?_eq_none_iff.mp hne)
  have hstats := varStats_eq hlen
  obtain ⟨hes, hes99, hvar99, hvar95⟩ :=
    varStats_order hlen hstats (List.min?_eq_some_iff.mp hworst).2 (List.max?_eq_some_iff.mp hbest).2
  refine ⟨_, _, histSim_eq N hopen spot hmany, hstats, ?_⟩
  exact
    { ids := by
        rw [List.map_map]
        rfl
      lengths := ⟨hlength, hvectors⟩
      sum := fun _ hi => vector_sum N book spot _ hi
      whole := rfl
      loss := by
        have hexact := exactVar_of_sum (mt List.map_eq_nil_iff.mp hopen) hlen (by rwa [hlength])
          (fun i hi => vector_sum N book spot _ (hlength ▸ hi)) (99 / 100)
        have hconf : (1 : K) - 99 / 100 = 1 / 100 := by norm_num
        rw [hexact, hconf, loss_eq]
      order := ⟨hes99, hvar99⟩
      range := by
        refine ⟨worst, hworst, best, hbest, fun x hx => ?_⟩
        simp only [List.mem_cons, List.not_mem_nil, or_false] at hx
        rcases hx with rfl | rfl | rfl
        · exact ⟨hes, hes99.trans (hvar99.trans hvar95)⟩
        · exact ⟨hes.trans hes99, hvar99.trans hvar95⟩
        · exact ⟨hes.trans (hes99.trans hvar99), hvar95⟩
      scale := by
        intro c hc
        rw [histSim_eq N (hscaled c) spot hmany, Option.bind_some, vectors_scale N hc, hstats]
        rfl
      hist := fun round hvaries => (histogram_counts round hvaries).trans hlength }

end Coherence

theorem callPrice_mem {F K T sigma : ℝ} (hF : 0 < F) (hK : 0 < K) (hT : 0 < T) (hsigma : 0 < sigma) :
    0 ≤ bsPrice standard F K T sigma .call ∧ bsPrice standard F K T sigma .call ≤ F := by
  have hs : 0 < sigma * √T := mul_pos hsigma (Real.sqrt_pos.mpr hT)
  rw [bsPrice_standard hF hK hT hsigma, if_pos rfl]
  refine ⟨(le_max_left 0 _).trans (BlackFormula.lt_call hF hK hs).le, ?_⟩
  have hup : BlackFormula.distribution (BlackFormula.d1 F K (sigma * √T)) ≤ 1 := ProbabilityTheory.cdf_le_one _ _
  have hdown : 0 ≤ BlackFormula.distribution (BlackFormula.d2 F K (sigma * √T)) := ProbabilityTheory.cdf_nonneg _ _
  rw [BlackFormula.call]
  nlinarith

noncomputable def shortCall : Baseline ℝ := { atmCall with qtySigned := -1 }

/-- Forty futures against a short call -/
noncomputable def coveredCall : Book ℝ := ⟨[(3, ⟨40, 125000, none, 0⟩), (7, shortCall)], by simp⟩

/-- A day up by a tenth, a day back, and so on -/
noncomputable def swings : List ℝ := (List.range 90).map fun i : ℕ => if Even i then 1 else 11 / 10

theorem shortCall_pnl {spot : ℝ} (hspot : 0 < spot) (dvol : ℝ) :
    -125000 * spot ≤ revalStep standard 1 (scenario ((spot - 1) * 10000, dvol)) .pnl 0 shortCall ∧
      revalStep standard 1 (scenario ((spot - 1) * 10000, dvol)) .pnl 0 shortCall ≤ 125000 := by
  have hnew : newSpot (1 : ℝ) (scenario ((spot - 1) * 10000, dvol)) = spot := by
    rw [newSpot, scenario]
    ring
  have hbase := callPrice_mem one_pos one_pos one_pos (by norm_num : (0 : ℝ) < 1 / 10)
  simp only [revalStep, shortCall, atmCall, hnew, Baseline.qm, if_true]
  split_ifs with hout
  · constructor <;> linarith
  · rw [not_le] at hout
    have hprice := callPrice_mem hspot one_pos (newT_pos ⟨1, 1, 1 / 10, .call⟩ (scenario ((spot - 1) * 10000, dvol))) hout
    constructor <;> linarith

theorem swings_returns : (dailyReturns swings).length = 89 ∧ ∀ i < 89, (dailyReturns swings).getD i 0 =
    (if Even i then 11 / 10 else 10 / 11) - 1 := by
  have hpos : ∀ x ∈ swings, 0 < x := by
    rw [swings, List.forall_mem_map]
    intro i _
    split_ifs <;> norm_num
  rw [dailyReturns_of_pos hpos]
  refine ⟨by simp [swings], fun i hi => ?_⟩
  rw [List.getD_eq_getElem _ _ (by simp [swings]; omega)]
  simp only [swings, List.getElem_map, List.getElem_zip, List.getElem_tail, List.getElem_range, Nat.even_add_one]
  split_ifs <;> norm_num

theorem coveredCall_pnl (spot dvol : ℝ) : revalBook standard coveredCall.baselines 1 (scenario ((spot - 1) * 10000, dvol)) .pnl =
    40 * 125000 * (spot - 1) + revalStep standard 1 (scenario ((spot - 1) * 10000, dvol)) .pnl 0 shortCall := by
  rw [revalBook_sum]
  simp only [Book.baselines, coveredCall, List.map_cons, List.map_nil, List.sum_cons, List.sum_nil, add_zero]
  congr 1
  simp only [revalStep, Baseline.qm, newSpot, scenario]
  ring

/-- The moves of the market move the P&L of the book, so its histogram counts the scenarios. -/
theorem hist_var_coherent_coveredCall : ∃ sim stats, histSim standard (some 1) coveredCall swings = some sim ∧
    varStats sim.pnl = some stats ∧ Coherent standard coveredCall 1 swings sim stats ∧
    ∃ x ∈ sim.pnl, ∃ y ∈ sim.pnl, x ≠ y := by
  obtain ⟨hlength, hreturns⟩ := swings_returns
  have hmany : histSimMinScenarios ≤ (marketShocks standard swings).length := by
    rw [length_marketShocks, hlength]
    decide
  obtain ⟨sim, stats, hsim, hstats, hcoherent⟩ := hist_var_coherent standard coveredCall (List.cons_ne_nil _ _) 1 swings hmany
  obtain ⟨dvolUp, hup⟩ := exists_shock standard swings (i := 22) (by decide) (by omega)
  obtain ⟨dvolDown, hdown⟩ := exists_shock standard swings (i := 23) (by decide) (by omega)
  rw [hreturns 22 (by decide), if_pos (by decide)] at hup
  rw [hreturns 23 (by decide), if_neg (by decide)] at hdown
  refine ⟨sim, stats, hsim, hstats, hcoherent, _, hcoherent.whole ▸ List.mem_map_of_mem hup, _,
    hcoherent.whole ▸ List.mem_map_of_mem hdown, ne_of_gt ?_⟩
  rw [coveredCall_pnl, coveredCall_pnl]
  have hgain := (shortCall_pnl (by norm_num : (0 : ℝ) < 11 / 10) dvolUp).1
  have hloss := (shortCall_pnl (by norm_num : (0 : ℝ) < 10 / 11) dvolDown).2
  linarith

end FxVol.HistoricalVar
