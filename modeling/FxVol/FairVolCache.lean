import FxVol.DecimalRounding
import FxVol.KeyedMemo
import FxVol.Numerals
import FxVol.Pricers
import FxVol.SampleMoments

/-!
# The fair-vol cache

`_attach_fair_vol` keeps the block computed from the daily bars under the date of the last bar and the number of bars.
What is cached is right as long as a frame with the date and the length of the one before has its bars.
-/
namespace FxVol.FairVolCache

open scoped Numerals
open DecimalRounding KeyedMemo
open Pricers (Numerics)

structure Bar (K : Type*) where
  open_ : K
  high : K
  low : K
  close : K
  deriving DecidableEq

/-- A frame of daily bars, with a column of dates or without one -/
structure Ohlc (K : Type*) where
  bars : List (Bar K)
  dates : Option (List ℤ)

/-- `last_date` of a signature; without dates it is the last close. -/
inductive LastMark (K : Type*)
  | date (day : ℤ)
  | close (price : K)
  deriving DecidableEq

def ohlcSignature {K : Type*} (ohlc : Ohlc K) : Option (LastMark K) × ℕ :=
  (match ohlc.dates with
    | some dates => dates.getLast?.map .date
    | none => ohlc.bars.getLast?.map fun bar => .close bar.close,
  ohlc.bars.length)

section Block
variable {K : Type*} [Field K] [LinearOrder K] [FloorRing K]

variable (N : Numerics K)

section YangZhang
variable (dw : List (Bar K))

/-- An entry of the logarithms of a column -/
def logAt (col : Bar K → K) (i : ℕ) : K := N.log ((dw.map col).getD i 0)

def overnight (i : Fin (dw.length - 1)) : K := logAt N dw (·.open_) (i + 1) - logAt N dw (·.close) i

/-- `oc` -/
def openClose (i : Fin (dw.length - 1)) : K := logAt N dw (·.close) (i + 1) - logAt N dw (·.open_) (i + 1)

/-- `rs` -/
def rangeTerm (i : Fin (dw.length - 1)) : K :=
  (logAt N dw (·.high) (i + 1) - logAt N dw (·.close) (i + 1)) * (logAt N dw (·.high) (i + 1) - logAt N dw (·.open_) (i + 1)) +
    (logAt N dw (·.low) (i + 1) - logAt N dw (·.close) (i + 1)) * (logAt N dw (·.low) (i + 1) - logAt N dw (·.open_) (i + 1))

end YangZhang

def yangZhangRvPct (bars : List (Bar K)) (window : ℕ) : Option K :=
  let dw := bars.drop (bars.length - window)
  let n := dw.length
  if n < 3 then none
  else
    let kYz := 34 / 100 / (134 / 100 + ((n + 1 : ℕ) : K) / (n - 1 : ℕ))
    let s2Yz := SampleMoments.variance (overnight N dw) + kYz * SampleMoments.variance (openClose N dw) +
      (1 - kYz) * SampleMoments.mean (rangeTerm N dw)
    some (N.sqrt (max s2Yz 0 * 252) * 100)

/-- `fit_and_project_garch` and `fit_and_project_har`, none where they raise -/
structure Fits (K γ η : Type*) where
  garch : List K → List (String × K) → K → Option γ
  har : List K → List (String × ℤ) → Option η

structure Block (K γ η : Type*) where
  rvFullPct : K
  rvByTenor : List (String × K)
  garch : Option γ
  har : Option η

variable {γ η : Type*} (fits : Fits K γ η) (tenorT : List (String × K))

def computeFairVolBlock (bars : List (Bar K)) : Option (Block K γ η) :=
  (yangZhangRvPct N bars (bars.length - 1)).map fun rvFull =>
    let closes := bars.map (·.close)
    { rvFullPct := roundTo rvFull 4
      rvByTenor := tenorT.filterMap fun (tenor, yfrac) =>
        (yangZhangRvPct N bars (max 3 (nearestEven (yfrac * 252)).toNat)).map fun rv => (tenor, roundTo rv 4)
      garch := if 5 ≤ closes.length then fits.garch closes tenorT rvFull else none
      har := if 45 ≤ closes.length then
          fits.har closes (tenorT.map fun (tenor, yfrac) => (tenor, nearestEven (yfrac * 365)))
        else none }

end Block

section Surface
variable {K γ η π φ : Type*}

/-- A pillar with what it carries besides the realised vol -/
structure Pillar (K π : Type*) where
  rvPct : Option K
  rest : π

structure Surface (K γ η π φ : Type*) where
  pillars : List (String × Pillar K π)
  rvFullPct : Option K
  garch : Option γ
  har : Option η
  fairQ : Option φ

def attachBlock (buildFairQ : Surface K γ η π φ → φ) (out : Surface K γ η π φ) (block : Block K γ η) : Surface K γ η π φ :=
  let attached := { out with
    rvFullPct := some block.rvFullPct
    pillars := out.pillars.map fun p : String × Pillar K π =>
      (p.1, { p.2 with rvPct := (block.rvByTenor.lookup p.1).or p.2.rvPct })
    garch := block.garch.or out.garch
    har := block.har.or out.har }
  { attached with fairQ := some (buildFairQ attached) }

structure Cycle (K γ η π φ : Type*) where
  ohlc : Option (Ohlc K)
  out : Surface K γ η π φ

/-- A frame of fewer than three bars is not used. -/
def usable (ohlc : Option (Ohlc K)) : Option (Ohlc K) := ohlc.filter fun ohlc => 3 ≤ ohlc.bars.length

end Surface

section Cycles
variable {K : Type*} [Field K] [LinearOrder K] [FloorRing K] (N : Numerics K) {γ η π φ : Type*} (fits : Fits K γ η)
  (tenorT : List (String × K)) (buildFairQ : Surface K γ η π φ → φ)

def compute (ohlc : Ohlc K) : Option (Block K γ η) := computeFairVolBlock N fits tenorT ohlc.bars

/-- What is cached under a signature -/
abbrev Cache (K γ η : Type*) := Slot (Option (LastMark K) × ℕ) (Block K γ η)

def attachFairVol (s : Cache K γ η) (c : Cycle K γ η π φ) : Cache K γ η × Surface K γ η π φ :=
  let (s', block) := serve ohlcSignature (compute N fits tenorT) s (usable c.ohlc)
  (s', block.elim c.out (attachBlock buildFairQ c.out))

def attachAll (s : Cache K γ η) : List (Cycle K γ η π φ) → List (Surface K γ η π φ)
  | [] => []
  | c :: cycles => (attachFairVol N fits tenorT buildFairQ s c).2 ::
      attachAll (attachFairVol N fits tenorT buildFairQ s c).1 cycles

def attachFresh (c : Cycle K γ η π φ) : Surface K γ η π φ :=
  ((usable c.ohlc).bind (compute N fits tenorT)).elim c.out (attachBlock buildFairQ c.out)

def Transparent (cycles : List (Cycle K γ η π φ)) : Prop :=
  attachAll N fits tenorT buildFairQ .empty cycles = cycles.map (attachFresh N fits tenorT buildFairQ)

def frames (cycles : List (Cycle K γ η π φ)) : List (Ohlc K) := (cycles.map fun c => usable c.ohlc).reduceOption

/-- A frame with the date of the last bar and the length of the one before has its bars. -/
def Unrevised (cycles : List (Cycle K γ η π φ)) : Prop :=
  (frames cycles).IsChain fun f g => ohlcSignature f = ohlcSignature g → g.bars = f.bars

variable {N fits tenorT buildFairQ}

theorem attachAll_answers (s : Cache K γ η) (cycles : List (Cycle K γ η π φ)) :
    attachAll N fits tenorT buildFairQ s cycles =
      List.zipWith (fun c block => block.elim c.out (attachBlock buildFairQ c.out)) cycles
        (answers ohlcSignature (compute N fits tenorT) s (cycles.map fun c => usable c.ohlc)) := by
  induction cycles generalizing s with
  | nil => rfl
  | cons c cycles ih =>
    rw [attachAll, ih, List.map_cons, answers, List.zipWith_cons_cons]
    rfl

/-- Blocks computed from their own frames make for transparent cycles. -/
theorem transparent_of_answers {cycles : List (Cycle K γ η π φ)}
    (h : answers ohlcSignature (compute N fits tenorT) .empty (cycles.map fun c => usable c.ohlc) =
      (cycles.map fun c => usable c.ohlc).map (·.bind (compute N fits tenorT))) :
    Transparent N fits tenorT buildFairQ cycles := by
  rw [Transparent, attachAll_answers, h, List.map_map, List.zipWith_map_right, List.zipWith_self]
  rfl

/-- As long as no bar is revised under one signature, the cache is transparent. -/
theorem fair_vol_transparent (N : Numerics K) (fits : Fits K γ η) (tenorT : List (String × K))
    (buildFairQ : Surface K γ η π φ → φ) (cycles : List (Cycle K γ η π φ)) (h : Unrevised cycles) :
    Transparent N fits tenorT buildFairQ cycles := by
  apply transparent_of_answers
  rw [answers_iff]
  refine h.imp fun f g hsame hkey _ => ?_
  rw [compute, compute, hsame hkey]

end Cycles

section Revision

theorem round_pos {x : ℝ} (h : 1 ≤ x) : 0 < roundTo x 4 := by
  have hle : ((10000 : ℤ) : ℝ) / 10 ^ 4 ≤ x := by
    norm_num
    exact h
  have hround := le_roundTo hle
  norm_num at hround
  linarith

/-- Four days without a move -/
def flatBars : List (Bar ℝ) := [⟨1, 1, 1, 1⟩, ⟨1, 1, 1, 1⟩, ⟨1, 1, 1, 1⟩, ⟨1, 1, 1, 1⟩]

/-- The same days with a move in the last one -/
def movedBars : List (Bar ℝ) := [⟨1, 1, 1, 1⟩, ⟨1, 1, 1, 1⟩, ⟨1, 1, 1, 1⟩, ⟨1, 2, 1, 2⟩]

theorem variance_two (x : Fin 2 → ℝ) : SampleMoments.variance x = (x 0 - x 1) ^ 2 / 2 := by
  simp only [SampleMoments.variance, SampleMoments.cov, SampleMoments.mean, Fin.sum_univ_two]
  norm_num
  ring

theorem mean_two (x : Fin 2 → ℝ) : SampleMoments.mean x = (x 0 + x 1) / 2 := by
  rw [SampleMoments.mean, Fin.sum_univ_two]
  norm_num

/-- The estimate over the last three bars -/
theorem yangZhang_three (N : Numerics ℝ) (z a b c : Bar ℝ) : yangZhangRvPct N [z, a, b, c] 3 =
    some (N.sqrt (max (((N.log b.open_ - N.log a.close) - (N.log c.open_ - N.log b.close)) ^ 2 / 2 +
      17 / 167 * (((N.log b.close - N.log b.open_) - (N.log c.close - N.log c.open_)) ^ 2 / 2) +
      150 / 167 * (((N.log b.high - N.log b.close) * (N.log b.high - N.log b.open_) +
            (N.log b.low - N.log b.close) * (N.log b.low - N.log b.open_) +
          ((N.log c.high - N.log c.close) * (N.log c.high - N.log c.open_) +
            (N.log c.low - N.log c.close) * (N.log c.low - N.log c.open_))) / 2)) 0 * 252) * 100) := by
  have h : yangZhangRvPct N [z, a, b, c] 3 = some (N.sqrt (max (SampleMoments.variance (overnight N [a, b, c]) +
      34 / 100 / (134 / 100 + ((4 : ℕ) : ℝ) / (2 : ℕ)) * SampleMoments.variance (openClose N [a, b, c]) +
      (1 - 34 / 100 / (134 / 100 + ((4 : ℕ) : ℝ) / (2 : ℕ))) * SampleMoments.mean (rangeTerm N [a, b, c])) 0 * 252) * 100) :=
    rfl
  have hk : 34 / 100 / (134 / 100 + ((4 : ℕ) : ℝ) / (2 : ℕ)) = 17 / 167 := by norm_num
  have hk' : 1 - (17 : ℝ) / 167 = 150 / 167 := by norm_num
  rw [h, variance_two (overnight N [a, b, c]), variance_two (openClose N [a, b, c]), mean_two (rangeTerm N [a, b, c]), hk, hk']
  rfl

theorem flat_rv : yangZhangRvPct Pricers.standard flatBars 3 = some 0 := by
  rw [flatBars, yangZhang_three]
  simp [Pricers.standard]

theorem moved_rv : ∃ rv, 1 ≤ rv ∧ yangZhangRvPct Pricers.standard movedBars 3 = some rv := by
  have hlog : (1 : ℝ) / 2 ≤ Real.log 2 := by
    have := Real.one_sub_inv_le_log_of_pos (by norm_num : (0 : ℝ) < 2)
    linarith
  have hsq : (1 : ℝ) / 4 ≤ Real.log 2 ^ 2 := by nlinarith
  refine ⟨√(17 / 167 * (Real.log 2 ^ 2 / 2) * 252) * 100, ?_, ?_⟩
  · have hroot : 1 ≤ √(17 / 167 * (Real.log 2 ^ 2 / 2) * 252) := Real.one_le_sqrt.mpr (by linarith)
    linarith
  · rw [movedBars, yangZhang_three]
    have hpos : 0 ≤ 17 / 167 * (Real.log 2 ^ 2 / 2) := by positivity
    simp only [Pricers.standard, Real.log_one, sub_zero, sub_self, zero_mul, mul_zero, add_zero, zero_sub, neg_sq, zero_div]
    rw [zero_pow two_ne_zero, zero_div, zero_add, max_eq_left hpos]

def noFits : Fits ℝ Unit Unit := ⟨fun _ _ _ => none, fun _ _ => none⟩

def emptySurface : Surface ℝ Unit Unit Unit Unit := ⟨[], none, none, none, none⟩

/-- The last bar in progress, as it is first seen and after it has moved -/
def firstSight : Ohlc ℝ := ⟨flatBars, some [1, 2, 3, 4]⟩

def secondSight : Ohlc ℝ := ⟨movedBars, some [1, 2, 3, 4]⟩

theorem compute_firstSight : compute Pricers.standard noFits [] firstSight = some ⟨0, [], none, none⟩ := by
  have hround : roundTo (0 : ℝ) 4 = 0 := by norm_num [roundTo, nearestEven]
  have hrv : yangZhangRvPct Pricers.standard firstSight.bars (firstSight.bars.length - 1) = some 0 := flat_rv
  rw [compute, computeFairVolBlock, hrv, Option.map_some, hround]
  rfl

theorem compute_secondSight : ∃ rv, 0 < rv ∧ compute Pricers.standard noFits [] secondSight = some ⟨rv, [], none, none⟩ := by
  obtain ⟨rv, hle, hmoved⟩ := moved_rv
  have hrv : yangZhangRvPct Pricers.standard secondSight.bars (secondSight.bars.length - 1) = some rv := hmoved
  refine ⟨roundTo rv 4, round_pos hle, ?_⟩
  rw [compute, computeFairVolBlock, hrv, Option.map_some]
  rfl

/-- The block of the first sight stays on the surface when the bar has moved. -/
theorem not_transparent : ¬ ∀ cycles : List (Cycle ℝ Unit Unit Unit Unit),
    Transparent Pricers.standard noFits [] (fun _ => ()) cycles := by
  intro h
  obtain ⟨rv, hpos, hsecond⟩ := compute_secondSight
  have hne : compute Pricers.standard noFits [] firstSight ≠ none := by
    rw [compute_firstSight]
    exact nofun
  have hkey : ohlcSignature firstSight = ohlcSignature secondSight := rfl
  have hserved : (serve ohlcSignature (compute Pricers.standard noFits [])
      (serve ohlcSignature (compute Pricers.standard noFits []) .empty (some firstSight)).1 (some secondSight)).2 =
        some ⟨0, [], none, none⟩ := by
    rw [serve_empty, serve_hit hkey hne, compute_firstSight]
  have hcycles := h [⟨some firstSight, emptySurface⟩, ⟨some secondSight, emptySurface⟩]
  have hsurface := (List.cons.inj (List.cons.inj hcycles).2).1
  have hsame : attachBlock (fun _ => ()) emptySurface ⟨0, [], none, none⟩ =
      attachBlock (fun _ => ()) emptySurface ⟨rv, [], none, none⟩ := by
    change Option.elim (serve ohlcSignature (compute Pricers.standard noFits [])
      (serve ohlcSignature (compute Pricers.standard noFits []) .empty (some firstSight)).1 (some secondSight)).2
        emptySurface (attachBlock (fun _ => ()) emptySurface) =
      Option.elim (compute Pricers.standard noFits [] secondSight) emptySurface (attachBlock (fun _ => ()) emptySurface) at hsurface
    rw [hserved, hsecond] at hsurface
    exact hsurface
  exact hpos.ne (Option.some.inj (congrArg (·.rvFullPct) hsame))

def appendedCycles : List (Cycle ℝ Unit Unit Unit Unit) :=
  [⟨some firstSight, emptySurface⟩, ⟨none, emptySurface⟩, ⟨some firstSight, emptySurface⟩,
    ⟨some ⟨flatBars ++ [⟨1, 2, 1, 2⟩], some [1, 2, 3, 4, 5]⟩, emptySurface⟩]

theorem fair_vol_transparent_appended : Transparent Pricers.standard noFits [] (fun _ => ()) appendedCycles := by
  apply fair_vol_transparent
  have hframes : frames appendedCycles = [firstSight, firstSight, ⟨flatBars ++ [⟨1, 2, 1, 2⟩], some [1, 2, 3, 4, 5]⟩] := rfl
  rw [Unrevised, hframes, List.isChain_cons_cons, List.isChain_cons_cons]
  refine ⟨fun _ => rfl, fun hkey => ?_, .singleton _⟩
  have hlen : (4 : ℕ) = 5 := congrArg Prod.snd hkey
  omega

end Revision

end FxVol.FairVolCache
