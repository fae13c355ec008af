import FxVol.LeastSquares
import FxVol.RegimeGate
import FxVol.SampleMoments

/-!
# The enrichment of the regime features

What `core.vol.feature_enrichment` reads from a z-score, a value and their history: a bucket between the quantiles of the
history, the percentile of the value, the strength of the signal and the slope over the last hour.
-/
namespace FxVol.FeatureEnrichment

open DecimalRounding
open FairTerm (level)
open RegimeGate (Feature)

/-- The labels of a bucket, from `--` to `++` -/
inductive Bucket | doubleMinus | minus | zero | plus | doublePlus
  deriving DecidableEq

def Bucket.rank : Bucket → ℕ
  | .doubleMinus => 0
  | .minus => 1
  | .zero => 2
  | .plus => 3
  | .doublePlus => 4

inductive Signal | noise | weak | strong | tail
  deriving DecidableEq

inductive DeltaLabel | underpriced | overpriced | aligned
  deriving DecidableEq

section Enrichment
variable {K : Type*} [Field K] [LinearOrder K]

def bucketBetween (q025 q160 q840 q975 z : K) : Bucket :=
  if z ≤ q025 then .doubleMinus
  else if z ≤ q160 then .minus
  else if z < q840 then .zero
  else if z < q975 then .plus
  else .doublePlus

def bucketNormalFallback (z : K) : Bucket := bucketBetween (level (-2)) (level (-1)) (level 1) (level 2) z

def signal (z : K) (pctValue : Option ℤ) : Signal :=
  if |z| < level 1 then .noise
  else if |z| < level (15 / 10) then .weak
  else if |z| < level (25 / 10) ∧ pctValue.any fun p => 1 < p ∧ p < 99 then .strong
  else .tail

/-- `_DELTA_SIGN_BY_FEATURE` -/
def deltaSign : Feature → K
  | .volLevel | .volOfVol => 1
  | .termSlope => -1

def interpretDelta (feature : Feature) (delta : K) : DeltaLabel :=
  if level (3 / 10) < deltaSign feature * delta then .underpriced
  else if deltaSign feature * delta < -level (3 / 10) then .overpriced
  else .aligned

/-- `delta_z_1h`, on the pairs of a minute and a z-score -/
def deltaZ1h (points : List (K × K)) (minPoints : ℕ) : Option K :=
  if points.length < minPoints then none
  else
    let hours := points.map fun p => (p.1 / level 60, p.2)
    if LeastSquares.centredSquares hours < level (1 / 10 ^ 12) then none
    else some (LeastSquares.slope hours)

variable [FloorRing K]

def bucket (z : K) (zHistory : List K) : Bucket :=
  if zHistory.length < 10 then bucketNormalFallback z
  else
    let sorted := zHistory.insertionSort (· ≤ ·)
    bucketBetween (SampleMoments.quantile sorted (level (25 / 1000))) (SampleMoments.quantile sorted (level (160 / 1000)))
      (SampleMoments.quantile sorted (level (840 / 1000))) (SampleMoments.quantile sorted (level (975 / 1000))) z

def pct (value : K) (valueHistory : List K) : Option ℤ :=
  if valueHistory = [] then none
  else
    let strict := valueHistory.countP fun x => decide (x < value)
    let weak := valueHistory.countP fun x => decide (x ≤ value)
    let rank : K := ((strict + weak : ℕ) : K) / level 2
    some (nearestEven (level 100 * rank / valueHistory.length))

/-- The columns of one feature -/
structure Stamp (K : Type*) where
  bucket : Option Bucket
  pct : Option ℤ
  signal : Option Signal
  deltaZ1h : Option K

def Stamp.empty : Stamp K := ⟨none, none, none, none⟩

def minute : ℤ := 60 * 1000000

/-- `DELTA_WINDOW_MIN` -/
def deltaWindow : ℤ := 60 * minute

def minutesFrom (recent : List (ℤ × K)) : List (K × K) :=
  match recent with
  | [] => []
  | first :: _ => recent.map fun e => (level (((e.1 - first.1 : ℤ) : ℚ) / minute), e.2)

/-- `stamp_enrichment`, for one feature of the row -/
def stampEnrichment (z value : Option K) (zHistory valueHistory : List K) (recentZ : List (ℤ × K)) (now : ℤ) : Stamp K :=
  let pctValue := value.bind fun v => pct v valueHistory
  { bucket := z.map fun z => bucket z zHistory
    pct := pctValue
    signal := z.map fun z => signal z pctValue
    deltaZ1h := z.bind fun _ =>
      let trimmed := recentZ.filter fun e => now - deltaWindow ≤ e.1
      if 12 ≤ trimmed.length then deltaZ1h (minutesFrom trimmed) 12 else none }

omit [Field K] [FloorRing K] in
theorem bucketBetween_mono (q025 q160 q840 q975 : K) {z z' : K} (h : z ≤ z') :
    (bucketBetween q025 q160 q840 q975 z).rank ≤ (bucketBetween q025 q160 q840 q975 z').rank := by
  have hle (q : K) : z' ≤ q → z ≤ q := h.trans
  have hlt (q : K) : z' < q → z < q := h.trans_lt
  simp only [bucketBetween]
  split_ifs <;> simp_all [Bucket.rank]

theorem bucket_mono (zHistory : List K) {z z' : K} (h : z ≤ z') : (bucket z zHistory).rank ≤ (bucket z' zHistory).rank := by
  rw [bucket, bucket]
  split
  · exact bucketBetween_mono _ _ _ _ h
  · exact bucketBetween_mono _ _ _ _ h

theorem bucket_perm (z : K) {zHistory zHistory' : List K} (h : zHistory.Perm zHistory') :
    bucket z zHistory = bucket z zHistory' := by
  have hsort : zHistory.insertionSort (· ≤ ·) = zHistory'.insertionSort (· ≤ ·) :=
    (((List.perm_insertionSort _ _).trans h).trans (List.perm_insertionSort _ _).symm).eq_of_pairwise'
      (List.pairwise_insertionSort _ _) (List.pairwise_insertionSort _ _)
  rw [bucket, bucket, h.length_eq, hsort]

theorem pct_perm (value : K) {valueHistory valueHistory' : List K} (h : valueHistory.Perm valueHistory') :
    pct value valueHistory = pct value valueHistory' := by
  have hnil : valueHistory = [] ↔ valueHistory' = [] := by
    rw [← List.length_eq_zero_iff, ← List.length_eq_zero_iff, h.length_eq]
  simp only [pct, hnil, h.length_eq, h.countP_eq]

section Ordered
variable [IsStrictOrderedRing K]

/-- The sum of the strict and the weak count -/
def twiceRank (value : K) (xs : List K) : ℕ :=
  (xs.countP fun x => decide (x < value)) + xs.countP fun x => decide (x ≤ value)

omit [IsStrictOrderedRing K] in
theorem pct_eq {value : K} {valueHistory : List K} (hne : valueHistory ≠ []) : pct value valueHistory =
    some (nearestEven (level 100 * ((twiceRank value valueHistory : K) / level 2) / valueHistory.length)) := if_neg hne

omit [Field K] [FloorRing K] [IsStrictOrderedRing K] in
theorem twiceRank_mono {value value' : K} (h : value ≤ value') (xs : List K) : twiceRank value xs ≤ twiceRank value' xs := by
  refine Nat.add_le_add (List.countP_mono_left fun x _ hx => ?_) (List.countP_mono_left fun x _ hx => ?_)
  · exact decide_eq_true ((of_decide_eq_true hx).trans_le h)
  · exact decide_eq_true ((of_decide_eq_true hx).trans h)

omit [Field K] [FloorRing K] [IsStrictOrderedRing K] in
theorem twiceRank_le (value : K) (xs : List K) : twiceRank value xs ≤ 2 * xs.length := by
  have hstrict : (xs.countP fun x => decide (x < value)) ≤ xs.length := List.countP_le_length
  have hweak : (xs.countP fun x => decide (x ≤ value)) ≤ xs.length := List.countP_le_length
  rw [twiceRank]
  omega

omit [FloorRing K] in
theorem twiceRank_neg (value : K) (xs : List K) :
    twiceRank (-value) (xs.map fun x => -x) + twiceRank value xs = 2 * xs.length := by
  have hstrict : (xs.countP fun x => decide (-x < -value)) + (xs.countP fun x => decide (x ≤ value)) = xs.length := by
    rw [List.length_eq_countP_add_countP (fun x => decide (-x < -value))]
    refine congrArg _ (List.countP_congr fun x _ => ?_)
    simp
  have hweak : (xs.countP fun x => decide (-x ≤ -value)) + (xs.countP fun x => decide (x < value)) = xs.length := by
    rw [List.length_eq_countP_add_countP (fun x => decide (-x ≤ -value))]
    refine congrArg _ (List.countP_congr fun x _ => ?_)
    simp
  rw [twiceRank, twiceRank, List.countP_map, List.countP_map]
  simp only [Function.comp_def]
  omega

/-- A percentile is between 0 and 100, no lower of a larger value, and from the other end the rest of 100. -/
theorem pct_scale {value value' : K} (h : value ≤ value') {valueHistory : List K} (hne : valueHistory ≠ []) :
    ∃ p p' : ℤ, pct value valueHistory = some p ∧ pct value' valueHistory = some p' ∧ 0 ≤ p ∧ p ≤ p' ∧ p' ≤ 100 ∧
      pct (-value) (valueHistory.map fun x => -x) = some (100 - p) := by
  have hlength : (0 : K) < valueHistory.length := by simpa [List.length_pos_iff] using hne
  have hhundred : (level 100 : K) = ((100 : ℤ) : K) := by simp [level]
  have htwo : (0 : K) < level 2 := by simp [level]
  have hscale {a b : ℕ} (hab : a ≤ b) :
      level 100 * ((a : K) / level 2) / valueHistory.length ≤ level 100 * ((b : K) / level 2) / valueHistory.length := by
    have hhundred' : (0 : K) ≤ level 100 := by simp [level]
    have hcast : (a : K) ≤ b := Nat.cast_le.mpr hab
    gcongr
  have htop : level 100 * (((2 * valueHistory.length : ℕ) : K) / level 2) / valueHistory.length = ((100 : ℤ) : K) := by
    have htwo' : (level 2 : K) = 2 := by simp [level]
    rw [Nat.cast_mul, Nat.cast_ofNat, htwo', mul_div_cancel_left₀ _ two_ne_zero, mul_div_assoc, div_self hlength.ne',
      mul_one, hhundred]
  refine ⟨_, _, pct_eq hne, pct_eq hne, ?_, nearestEven_mono (hscale (twiceRank_mono h valueHistory)), ?_, ?_⟩
  · refine le_nearestEven ?_
    rw [hhundred, Int.cast_zero]
    positivity
  · exact nearestEven_le (htop ▸ hscale (twiceRank_le value' valueHistory))
  · have hmap : (valueHistory.map fun x => -x) ≠ [] := by simpa using hne
    have hsum : ((twiceRank (-value) (valueHistory.map fun x => -x) : ℕ) : K) =
        ((2 * valueHistory.length : ℕ) : K) - (twiceRank value valueHistory : ℕ) := by
      rw [← twiceRank_neg value valueHistory, Nat.cast_add, add_sub_cancel_right]
    rw [pct_eq hmap, List.length_map, hsum, sub_div, mul_sub, sub_div, htop, nearestEven_sub (by decide)]

def hoursOf (recent : List (ℤ × K)) : List (K × K) := recent.map fun e => (level ((e.1 : ℚ) / 3600000000), e.2)

omit [LinearOrder K] [FloorRing K] [IsStrictOrderedRing K] in
theorem level_sub [CharZero K] (x y : ℚ) : (level (x - y) : K) = level x - level y := Rat.cast_sub x y

omit [LinearOrder K] [FloorRing K] [IsStrictOrderedRing K] in
theorem level_div [CharZero K] (x y : ℚ) : (level (x / y) : K) = level x / level y := Rat.cast_div x y

omit [FloorRing K] in
/-- The minutes from the first entry, in hours, are the hours counted from it. -/
theorem minutesFrom_eq {recent : List (ℤ × K)} (hne : recent ≠ []) :
    ∃ c, (minutesFrom recent).map (fun p => (p.1 / level 60, p.2)) = LeastSquares.moved c (hoursOf recent) := by
  obtain ⟨first, rest, rfl⟩ := List.exists_cons_of_ne_nil hne
  refine ⟨level ((first.1 : ℚ) / 3600000000), ?_⟩
  simp only [minutesFrom, hoursOf, LeastSquares.moved, List.map_map]
  refine List.map_congr_left fun e _ => ?_
  simp only [Function.comp_apply, ← level_div, ← level_sub]
  refine congrArg (fun x : ℚ => ((level x : K), e.2)) ?_
  push_cast [minute]
  ring

omit [FloorRing K] in
theorem deltaZ1h_eq_some {recent : List (ℤ × K)} {minPoints : ℕ} (hpos : 0 < minPoints) {s : K}
    (h : deltaZ1h (minutesFrom recent) minPoints = some s) :
    recent ≠ [] ∧ LeastSquares.centredSquares (hoursOf recent) ≠ 0 ∧ s = LeastSquares.slope (hoursOf recent) := by
  have hne : recent ≠ [] := by
    rintro rfl
    rw [deltaZ1h, minutesFrom, List.length_nil, if_pos hpos] at h
    cases h
  have hne' : hoursOf recent ≠ [] := by simpa [hoursOf] using hne
  obtain ⟨c, hc⟩ := minutesFrom_eq hne
  rw [deltaZ1h] at h
  simp only [hc, LeastSquares.centredSquares_moved hne', LeastSquares.slope_moved hne'] at h
  split_ifs at h with _ hspread
  have htiny : (0 : K) < level (1 / 10 ^ 12) := by simp [level]
  exact ⟨hne, (htiny.trans_le (not_lt.mp hspread)).ne', (Option.some_injective _ h).symm⟩

omit [FloorRing K] in
theorem deltaZ1h_least {recent : List (ℤ × K)} {minPoints : ℕ} (hpos : 0 < minPoints) {s : K}
    (h : deltaZ1h (minutesFrom recent) minPoints = some s) (a b : K) :
    LeastSquares.residuals (LeastSquares.intercept s (hoursOf recent)) s (hoursOf recent) ≤
        LeastSquares.residuals a b (hoursOf recent) ∧
      (b ≠ s → LeastSquares.residuals (LeastSquares.intercept s (hoursOf recent)) s (hoursOf recent) <
        LeastSquares.residuals a b (hoursOf recent)) := by
  obtain ⟨hne, hspread, rfl⟩ := deltaZ1h_eq_some hpos h
  have hne' : hoursOf recent ≠ [] := by simpa [hoursOf] using hne
  exact ⟨LeastSquares.residuals_slope_le hne' hspread a b, LeastSquares.residuals_slope_lt hne' hspread⟩

/-- The slope of a stamp is that of the one line with the least squares, of the z-scores of the last hour against the hours
they are from; there are twelve of them at least. -/
theorem stampEnrichment_slope (z value : Option K) (zHistory valueHistory : List K) (recentZ : List (ℤ × K)) (now : ℤ) {s : K}
    (h : (stampEnrichment z value zHistory valueHistory recentZ now).deltaZ1h = some s) :
    let recent := recentZ.filter fun e => now - deltaWindow ≤ e.1
    12 ≤ recent.length ∧ ∀ a b : K,
      LeastSquares.residuals (LeastSquares.intercept s (hoursOf recent)) s (hoursOf recent) ≤
          LeastSquares.residuals a b (hoursOf recent) ∧
        (b ≠ s → LeastSquares.residuals (LeastSquares.intercept s (hoursOf recent)) s (hoursOf recent) <
          LeastSquares.residuals a b (hoursOf recent)) := by
  intro recent
  obtain ⟨_, -, hwindow⟩ := Option.bind_eq_some_iff.mp h
  simp only at hwindow
  split_ifs at hwindow with hlength
  exact ⟨hlength, deltaZ1h_least (by decide) hwindow⟩

/-- What a stamp says of a feature depends on its histories as samples only, and with a larger z-score and value it says no
lower bucket and no lower percentile. -/
theorem stampEnrichment_mono {z z' value value' : K} (hz : z ≤ z') (hvalue : value ≤ value') {zHistory zHistory' valueHistory
    valueHistory' : List K} (hzHistory : zHistory.Perm zHistory') (hvalueHistory : valueHistory.Perm valueHistory')
    (hne : valueHistory ≠ []) (recentZ recentZ' : List (ℤ × K)) (now now' : ℤ) :
    ∃ (b b' : Bucket) (p p' : ℤ),
      (stampEnrichment (some z) (some value) zHistory valueHistory recentZ now).bucket = some b ∧
      (stampEnrichment (some z') (some value') zHistory' valueHistory' recentZ' now').bucket = some b' ∧
      (stampEnrichment (some z) (some value) zHistory valueHistory recentZ now).pct = some p ∧
      (stampEnrichment (some z') (some value') zHistory' valueHistory' recentZ' now').pct = some p' ∧
      b.rank ≤ b'.rank ∧ 0 ≤ p ∧ p ≤ p' ∧ p' ≤ 100 := by
  obtain ⟨p, p', hp, hp', hlow, hle, hhigh, -⟩ := pct_scale hvalue hne
  refine ⟨bucket z zHistory, bucket z' zHistory', p, p', rfl, rfl, hp, ?_, ?_, hlow, hle, hhigh⟩
  · exact (pct_perm value' hvalueHistory).symm.trans hp'
  · rw [← bucket_perm z' hzHistory]
    exact bucket_mono zHistory hz

end Ordered
end Enrichment

def risingZ : List (ℤ × ℚ) := (List.range 12).map fun i => ((i * 60000000 : ℤ), (i : ℚ))

theorem stampEnrichment_slope_rising : 12 ≤ risingZ.length ∧
    LeastSquares.residuals (LeastSquares.intercept 60 (hoursOf risingZ)) 60 (hoursOf risingZ) <
      LeastSquares.residuals 0 61 (hoursOf risingZ) := by
  have hslope : (stampEnrichment (some 11) none [] [] risingZ 660000000).deltaZ1h = some 60 := by decide +kernel
  have hall : risingZ.filter (fun e => 660000000 - deltaWindow ≤ e.1) = risingZ := by decide +kernel
  have h := stampEnrichment_slope (some 11) none [] [] risingZ 660000000 hslope
  rw [hall] at h
  exact ⟨h.1, (h.2 0 61).2 (by norm_num)⟩

def spreadZ : List ℚ := (List.range 40).map fun i : ℕ => (i : ℚ) / 10 - 2

/-- One stamp reads the histories in their order, the other the other way round. -/
theorem stampEnrichment_mono_spread : ∃ (b b' : Bucket) (p p' : ℤ),
    (stampEnrichment (some (1 / 2 : ℚ)) (some 7) spreadZ [6, 8, 7, 9, 5] risingZ 660000000).bucket = some b ∧
    (stampEnrichment (some (19 / 10 : ℚ)) (some 9) spreadZ.reverse [5, 9, 7, 8, 6] [] 0).bucket = some b' ∧
    (stampEnrichment (some (1 / 2 : ℚ)) (some 7) spreadZ [6, 8, 7, 9, 5] risingZ 660000000).pct = some p ∧
    (stampEnrichment (some (19 / 10 : ℚ)) (some 9) spreadZ.reverse [5, 9, 7, 8, 6] [] 0).pct = some p' ∧
    b.rank ≤ b'.rank ∧ 0 ≤ p ∧ p ≤ p' ∧ p' ≤ 100 :=
  stampEnrichment_mono (by norm_num) (by norm_num) spreadZ.reverse_perm.symm (List.reverse_perm [6, 8, 7, 9, 5]).symm
    (by simp) risingZ [] 660000000 0

end FxVol.FeatureEnrichment
