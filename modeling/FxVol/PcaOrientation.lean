import FxVol.GuardedRuns
import FxVol.Numerals
import FxVol.SampleMoments
import FxVol.SignAlignment
import FxVol.TradeTables
import Mathlib.Analysis.Real.Sqrt
import Mathlib.Data.List.Dedup

/-!
# Orientation of the PCA components

A singular value decomposition gives each component up to its sign.  A refit of `core.vol.pca_engine` turns its components towards those of the
model before it, so that what the models, the backfills and the cycles compute does not depend on the signs it was given.
-/
namespace FxVol.PcaOrientation

open scoped Numerals
open GuardedRuns SampleMoments

section Engine
variable {K : Type*} [Field K] [LinearOrder K] (sqrt : K → K)

/-- Thirty vols, five deltas of each of six tenors -/
abbrev Features (K : Type*) := Fin 30 → K

def dot (a b : Features K) : K := ∑ i, a i * b i

def norm (a : Features K) : K := sqrt (dot a a)

def cosine (a b : Features K) : K :=
  let denom := norm sqrt a * norm sqrt b
  if 0 < denom then dot a b / denom else 0

@[ext]
structure Corrected (K : Type*) (m : ℕ) where
  loadings : Fin m → Features K
  cosineSims : Fin m → Option K
  signFlips : Fin m → Bool

/-- `sign_correct_loadings`; a cosine that is not a number is none. -/
def signCorrectLoadings {m n : ℕ} (new : Fin m → Features K) (reference : Option (Fin n → Features K)) : Corrected K m :=
  match reference with
  | none => ⟨new, fun _ => none, fun _ => false⟩
  | some reference =>
    { loadings := fun i => if h : i < n then
          if cosine sqrt (new i) (reference ⟨i, h⟩) < 0 then -new i else new i
        else new i
      cosineSims := fun i => if h : i < n then
          let cos := cosine sqrt (new i) (reference ⟨i, h⟩)
          some (if cos < 0 then -cos else cos)
        else none
      signFlips := fun i => if h : i < n then cosine sqrt (new i) (reference ⟨i, h⟩) < 0 else false }

/-- `mean` of a column -/
def average (xs : List K) : K := mean xs.get

/-- `std` of a column, with `ddof=1` -/
def deviation (xs : List K) : K := sqrt (variance xs.get)

/-- `numpy.linalg.svd` of a standardised matrix: the singular values, and the first six right vectors with signs that are
as good as the opposite ones -/
structure Svd (K : Type*) where
  values : List (Features K) → List K
  vectors : List (Features K) → Fin 6 → Features K

structure PcaFitResult (K : Type*) where
  means : Features K
  stds : Features K
  loadings : Fin 6 → Features K
  eigenvalues : Fin 6 → K
  varianceExplainedRatio : Fin 6 → K
  nObsUsed : ℕ

/-- `fit_pca_svd` for six components; `signs` tells which of them the decomposition gives the other way round. -/
def fitPcaSvd (svd : Svd K) (signs : Fin 6 → Bool) (X : List (Features K)) : Option (PcaFitResult K) :=
  if X.length < 7 then none
  else
    let means : Features K := fun c => average (X.map (· c))
    let stds : Features K := fun c =>
      let std := deviation sqrt (X.map (· c))
      if std ≤ 0 then 1 else std
    let XStd := X.map fun x c => (x c - means c) / stds c
    let S := svd.values XStd
    let dof : K := (max (X.length - 1) 1 : ℕ)
    let eigenvalues : Fin 6 → K := fun i => S.getD i 0 ^ 2 / dof
    let totalVar := (S.map (· ^ 2)).sum / dof
    some {
      means := means
      stds := stds
      loadings := fun i => if signs i then -svd.vectors XStd i else svd.vectors XStd i
      eigenvalues := eigenvalues
      varianceExplainedRatio := fun i => if 0 < totalVar then eigenvalues i / totalVar else 0
      nObsUsed := X.length }

def project (x means stds : Features K) (loadings : Fin 6 → Features K) (i : Fin 6) : K :=
  dot (loadings i) fun c => (x c - means c) / stds c

def zscoreAgainst (value : K) (hist : List K) : K :=
  if hist.length < 5 then 0
  else if deviation sqrt hist ≤ 0 then 0
  else (value - average hist) / deviation sqrt hist

inductive Label | cheap | fair | expensive
  deriving DecidableEq

inductive Strength | weak | moderate | strong | extreme
  deriving DecidableEq

def classifyLabel (z : K) : Label :=
  if |z| < 3 / 2 then .fair else if 0 < z then .expensive else .cheap

def classifyStrength (absZ : K) : Option Strength :=
  if 3 ≤ absZ then some .extreme
  else if 2 ≤ absZ then some .strong
  else if 3 / 2 ≤ absZ then some .moderate
  else if 1 ≤ absZ then some .weak
  else none

/-- `actionable_reason`, the component counted from zero -/
inductive Reason
  | lowNObs | lowTotalVariance | loadingsUnstable (pc : Fin 3) | lowVariance (pc : Fin 3) | signalBelowThreshold
  | labelFair | signalNotPersistent
  deriving DecidableEq

structure ActionableFlag where
  actionable : Bool
  reason : Option Reason
  strength : Option Strength

def minVarianceExplained : Fin 3 → K := ![60 / 100, 15 / 100, 5 / 100]

def actionableCheck (pc : Fin 3) (zScore : K) (label : Label) (loadingsStable : Bool) (varianceExplained : K)
    (persistent : Bool) (nObs : ℕ) (cumulativeVariance : K) : ActionableFlag :=
  if nObs < 30 then ⟨false, some .lowNObs, none⟩
  else if cumulativeVariance < 85 / 100 then ⟨false, some .lowTotalVariance, none⟩
  else if loadingsStable = false then ⟨false, some (.loadingsUnstable pc), none⟩
  else if varianceExplained < minVarianceExplained pc then ⟨false, some (.lowVariance pc), none⟩
  else if |zScore| < 1 then ⟨false, some .signalBelowThreshold, none⟩
  else if label = .fair then ⟨false, some .labelFair, none⟩
  else if persistent = false then ⟨false, some .signalNotPersistent, none⟩
  else ⟨true, none, classifyStrength |zScore|⟩

def pc3SubMetrics (x : Features K) : K × K :=
  let mat (i : Fin 6) (j : Fin 5) : K := x (finProdFinEquiv (i, j))
  (mean fun i => mat i 3 - mat i 1, mean fun i => mat i 0 + mat i 4 - 2 * mat i 2)

def isPersistent (zHistory : List K) : Bool :=
  if zHistory.length < 3 then false
  else
    let recent := zHistory.take 3
    if recent.any fun z => |z| < 1 then false
    else (recent.map fun z => decide (0 < z)).dedup.length = 1

end Engine

section Refit
variable {K : Type*} [Field K] [LinearOrder K] (sqrt : K → K) (svd : Svd K)

/-- A row of `pca_model` without its columns `sign_flip` -/
structure PcaModel (K : Type*) where
  id : ℕ
  nObsUsed : ℕ
  means : Features K
  stds : Features K
  loadings : Fin 6 → Features K
  eigenvalues : Fin 6 → K
  varianceExplainedRatio : Fin 6 → K
  cosineSimilarity : Fin 3 → Option K

/-- A row of `pca_signal_history` -/
structure PcaSignal (K : Type*) where
  symbol : String
  timestamp : Instant
  pcaModelId : ℕ
  pc : Fin 3
  rawScore : K
  zScore : K
  label : Label
  actionable : Bool
  actionableReason : Option Reason
  subSignals : Option (K × K)

/-- A row of `pca_surface_snapshot_history` -/
structure Snapshot (K : Type*) where
  timestamp : Instant
  iv : Fin 30 → Option K

/-- The snapshots without a missing vol -/
def clean (rows : List (Snapshot K)) : List (Instant × Features K) :=
  (rows.filter fun r => ∀ c, (r.iv c).isSome).map fun r => (r.timestamp, fun c => (r.iv c).getD 0)

def component (pc : Fin 3) : Fin 6 := pc.castLE (by omega)

def cumulativeVariance (ratio : Fin 6 → K) : K := ∑ pc, ratio (component pc)

/-- `perform_refit` up to its transaction, none where it refuses: the model, and the columns `sign_flip` -/
def refitModel (id : ℕ) (prev : PcaModel K) (rows : List (Snapshot K)) (signs : Fin 6 → Bool) :
    Option (PcaModel K × (Fin 3 → Bool)) :=
  if rows.length < 6 ∨ (clean rows).length < 6 then none
  else
    (fitPcaSvd sqrt svd signs ((clean rows).map Prod.snd)).map fun fit =>
      let corrected := signCorrectLoadings sqrt fit.loadings (some prev.loadings)
      ({ id := id
         nObsUsed := fit.nObsUsed
         means := fit.means
         stds := fit.stds
         loadings := corrected.loadings
         eigenvalues := fit.eigenvalues
         varianceExplainedRatio := fit.varianceExplainedRatio
         cosineSimilarity := fun pc => corrected.cosineSims (component pc) },
        fun pc => corrected.signFlips (component pc))

def computeBackfillRows (symbol : String) (window : List (Instant × Features K)) (model : PcaModel K) :
    List (PcaSignal K) :=
  let raw (pc : Fin 3) : List K := window.map fun x => project x.2 model.means model.stds model.loadings (component pc)
  let z (pc : Fin 3) : List K :=
    let sigma := if deviation sqrt (raw pc) ≤ 0 then 1 else deviation sqrt (raw pc)
    (raw pc).map fun r => (r - average (raw pc)) / sigma
  let skew := window.map fun x => (pc3SubMetrics x.2).1
  let convex := window.map fun x => (pc3SubMetrics x.2).2
  let skewSigma := if deviation sqrt skew = 0 then 1 else deviation sqrt skew
  let convexSigma := if deviation sqrt convex = 0 then 1 else deviation sqrt convex
  window.zipIdx.flatMap fun (snapshot, t) => (List.finRange 3).map fun pc =>
    let zT := (z pc).getD t 0
    let label := classifyLabel zT
    let stable := ((model.cosineSimilarity pc).map fun cos => decide (85 / 100 ≤ cos)).getD true
    let persistent := isPersistent (((z pc).take (t + 1)).reverse.take 3)
    let flag := actionableCheck pc zT label stable (model.varianceExplainedRatio (component pc)) persistent model.nObsUsed
      (cumulativeVariance model.varianceExplainedRatio)
    { symbol := symbol
      timestamp := snapshot.1
      pcaModelId := model.id
      pc := pc
      rawScore := (raw pc).getD t 0
      zScore := zT
      label := label
      actionable := flag.actionable
      actionableReason := flag.reason
      subSignals := if pc = 2 then
          some ((skew.getD t 0 - average skew) / skewSigma, (convex.getD t 0 - average convex) / convexSigma)
        else none }

end Refit

section Cycle
variable {K : Type*} [Field K] [LinearOrder K] (sqrt : K → K)

def ninetyDays : Instant := 90 * 86400000000

/-- The signals of the model of the last ninety days, the newest first -/
def history (signals : List (PcaSignal K)) (modelId : ℕ) (now : Instant) (pc : Fin 3) : List (PcaSignal K) :=
  (signals.filter fun r => r.pcaModelId = modelId ∧ now - ninetyDays < r.timestamp ∧ r.pc = pc).insertionSort
    fun a b => b.timestamp ≤ a.timestamp

/-- What a cycle publishes of a model: whether its loadings are stable, and a signal of each component -/
structure Payload (K : Type*) where
  loadingsStable : Fin 3 → Bool
  signals : List (PcaSignal K)

/-- `_compute_pca_signals`; the sub-signals come from the smile and the snapshots alone. -/
def computePcaSignals (model : PcaModel K) (signals : List (PcaSignal K)) (symbol : String) (timestamp now : Instant)
    (x : Features K) (pc3Sub : K × K) : Payload K where
  loadingsStable pc := ((model.cosineSimilarity pc).map fun cos => decide (85 / 100 ≤ cos)).getD true
  signals := (List.finRange 3).map fun pc =>
    let hist := history signals model.id now pc
    let raw := project x model.means model.stds model.loadings (component pc)
    let z := zscoreAgainst sqrt raw (hist.map (·.rawScore))
    let label := classifyLabel z
    let stable := decide (85 / 100 ≤ (model.cosineSimilarity pc).getD 1)
    let persistent := isPersistent (z :: hist.map (·.zScore))
    let flag := actionableCheck pc z label stable (model.varianceExplainedRatio (component pc)) persistent model.nObsUsed
      (cumulativeVariance model.varianceExplainedRatio)
    { symbol := symbol
      timestamp := timestamp
      pcaModelId := model.id
      pc := pc
      rawScore := raw
      zScore := z
      label := label
      actionable := flag.actionable
      actionableReason := flag.reason
      subSignals := if pc = 2 then some pc3Sub else none }

end Cycle

section System
variable {K : Type*} [Field K] [LinearOrder K] (sqrt : K → K) (svd : Svd K)

/-- The models with the superseded ones, the table of signals, those on their way to it, and what was published -/
structure Core (K : Type*) where
  superseded : List (PcaModel K)
  active : PcaModel K
  signals : List (PcaSignal K)
  pending : List (PcaSignal K)
  published : List (Payload K)

/-- `signFlips` are the columns `sign_flip` of the refitted models. -/
structure World (K : Type*) extends Core K where
  signFlips : List (Fin 3 → Bool)

/-- The transaction of a refit -/
def Core.promote (w : Core K) (symbol : String) (rows : List (Snapshot K)) (model : PcaModel K) : Core K :=
  { w with
    superseded := w.superseded ++ [w.active]
    active := model
    signals := (w.signals ++ computeBackfillRows sqrt symbol (clean rows) model).filter fun r =>
      ¬ (r.symbol = symbol ∧ r.pcaModelId ≠ model.id) }

def Core.cycle (w : Core K) (symbol : String) (timestamp now : Instant) (x : Features K) (pc3Sub : K × K) : Core K :=
  let payload := computePcaSignals sqrt w.active w.signals symbol timestamp now x pc3Sub
  { w with pending := w.pending ++ payload.signals, published := w.published ++ [payload] }

inductive Event (K : Type*)
  | refit (id : ℕ) (symbol : String) (rows : List (Snapshot K)) (signs : Fin 6 → Bool)
  | cycle (symbol : String) (timestamp now : Instant) (x : Features K) (pc3Sub : K × K)
  /-- The writer stores the oldest signal on its way, or loses it. -/
  | write
  | lose

def Core.step (w : Core K) : Event K → Core K
  | .refit id symbol rows signs =>
    match refitModel sqrt svd id w.active rows signs with
    | none => w
    | some (model, _) => w.promote sqrt symbol rows model
  | .cycle symbol timestamp now x pc3Sub => w.cycle sqrt symbol timestamp now x pc3Sub
  | .write => { w with signals := w.signals ++ w.pending.take 1, pending := w.pending.drop 1 }
  | .lose => { w with pending := w.pending.drop 1 }

def flipsOf (w : Core K) : Event K → List (Fin 3 → Bool)
  | .refit id _ rows signs => ((refitModel sqrt svd id w.active rows signs).map Prod.snd).toList
  | _ => []

def step (w : World K) (e : Event K) : World K := ⟨w.toCore.step sqrt svd e, w.signFlips ++ flipsOf sqrt svd w.toCore e⟩

def run (w : World K) (events : List (Event K)) : World K := events.foldl (step sqrt svd) w

inductive SameData : Event K → Event K → Prop
  | refit (id symbol rows signs signs') : SameData (.refit id symbol rows signs) (.refit id symbol rows signs')
  | other (e) : SameData e e

/-- No component of a refit is orthogonal to the one it is turned towards. -/
def Clear (w : World K) : Event K → Prop
  | .refit _ _ rows signs => ∀ fit ∈ fitPcaSvd sqrt svd signs ((clean rows).map Prod.snd), ∀ i,
      cosine sqrt (fit.loadings i) (w.active.loadings i) ≠ 0
  | _ => True

end System

section Cosine
variable {K : Type*} [Field K]

theorem dot_neg (a b : Features K) : dot (-a) b = -dot a b := by
  simp only [dot, Pi.neg_apply, neg_mul, Finset.sum_neg_distrib]

theorem norm_neg (sqrt : K → K) (a : Features K) : norm sqrt (-a) = norm sqrt a := by
  simp only [norm, dot, Pi.neg_apply, neg_mul_neg]

theorem cosine_neg [LinearOrder K] (sqrt : K → K) (a b : Features K) : cosine sqrt (-a) b = -cosine sqrt a b := by
  simp only [cosine, norm_neg, dot_neg]
  split
  · exact neg_div _ _
  · exact neg_zero.symm

end Cosine

section Alignment
variable {K : Type*} [Field K] [LinearOrder K] {sqrt : K → K} {m n : ℕ} (new : Fin m → Features K)
  (reference : Fin n → Features K) {i : Fin m}

theorem loadings_eq (h : i < n) : (signCorrectLoadings sqrt new (some reference)).loadings i =
    SignAlignment.align (fun v => cosine sqrt v (reference ⟨i, h⟩)) (new i) := dif_pos h

theorem loadings_rest (h : ¬ i < n) : (signCorrectLoadings sqrt new (some reference)).loadings i = new i := dif_neg h

theorem cosineSims_rest (h : ¬ i < n) : (signCorrectLoadings sqrt new (some reference)).cosineSims i = none := dif_neg h

variable [IsStrictOrderedRing K]

theorem cosineSims_eq (h : i < n) : (signCorrectLoadings sqrt new (some reference)).cosineSims i =
    some |cosine sqrt (new i) (reference ⟨i, h⟩)| := by
  have hentry : (signCorrectLoadings sqrt new (some reference)).cosineSims i =
      some (if cosine sqrt (new i) (reference ⟨i, h⟩) < 0 then -cosine sqrt (new i) (reference ⟨i, h⟩)
        else cosine sqrt (new i) (reference ⟨i, h⟩)) := dif_pos h
  rw [hentry, Option.some.injEq]
  split
  · rw [abs_of_neg ‹_›]
  · rw [abs_of_nonneg (not_lt.mp ‹_›)]

variable {new reference}

/-- Components that differ in sign are corrected to the same. -/
theorem signCorrectLoadings_signs {new' : Fin m → Features K} (hnew : new' i = new i ∨ new' i = -new i) (h : i < n)
    (hne : cosine sqrt (new i) (reference ⟨i, h⟩) ≠ 0) :
    (signCorrectLoadings sqrt new' (some reference)).loadings i = (signCorrectLoadings sqrt new (some reference)).loadings i ∧
      (signCorrectLoadings sqrt new' (some reference)).cosineSims i =
        (signCorrectLoadings sqrt new (some reference)).cosineSims i := by
  rw [loadings_eq new' reference h, loadings_eq new reference h, cosineSims_eq new' reference h, cosineSims_eq new reference h]
  rcases hnew with hsame | hopposite
  · rw [hsame]
    exact ⟨rfl, rfl⟩
  · rw [hopposite, cosine_neg, abs_neg]
    exact ⟨SignAlignment.align_neg (fun v => cosine_neg sqrt v _) (new i) hne, rfl⟩

theorem cosineSims_nonneg {cos : K} (h : (signCorrectLoadings sqrt new (some reference)).cosineSims i = some cos) : 0 ≤ cos := by
  by_cases hi : (i : ℕ) < n
  · rw [cosineSims_eq new reference hi, Option.some.injEq] at h
    rw [← h]
    exact abs_nonneg _
  · rw [cosineSims_rest new reference hi] at h
    cases h

theorem corrected_nonneg (h : i < n) :
    0 ≤ cosine sqrt ((signCorrectLoadings sqrt new (some reference)).loadings i) (reference ⟨i, h⟩) := by
  rw [loadings_eq new reference h]
  exact SignAlignment.apply_align_nonneg (c := fun v => cosine sqrt v (reference ⟨i, h⟩)) (fun v => cosine_neg sqrt v _) (new i)

variable (new) in
/-- A corrected matrix is not corrected again. -/
theorem signCorrectLoadings_corrected (reference : Option (Fin n → Features K)) :
    signCorrectLoadings sqrt (signCorrectLoadings sqrt new reference).loadings reference =
      { signCorrectLoadings sqrt new reference with signFlips := fun _ => false } := by
  cases reference with
  | none => rfl
  | some reference =>
    refine Corrected.ext (funext fun i => ?_) (funext fun i => ?_) (funext fun i => ?_)
    · by_cases h : (i : ℕ) < n
      · rw [loadings_eq _ reference h]
        exact if_neg (corrected_nonneg h).not_gt
      · exact loadings_rest _ reference h
    · by_cases h : (i : ℕ) < n
      · have habs := SignAlignment.apply_align (c := fun v => cosine sqrt v (reference ⟨i, h⟩))
          (fun v => cosine_neg sqrt v _) (new i)
        rw [cosineSims_eq _ reference h, cosineSims_eq new reference h, loadings_eq new reference h, habs, abs_abs]
      · rw [cosineSims_rest _ reference h, cosineSims_rest new reference h]
    · by_cases h : (i : ℕ) < n
      · have hflip : (signCorrectLoadings sqrt (signCorrectLoadings sqrt new (some reference)).loadings
            (some reference)).signFlips i = decide (cosine sqrt ((signCorrectLoadings sqrt new
              (some reference)).loadings i) (reference ⟨i, h⟩) < 0) := dif_pos h
        rw [hflip]
        exact decide_eq_false (corrected_nonneg h).not_gt
      · exact dif_neg h

end Alignment

section Runs
variable {K : Type*} [Field K] [LinearOrder K] {sqrt : K → K} {svd : Svd K}

/-- What a fit gives does not depend on the signs but for its loadings, which may be opposite. -/
theorem fitPcaSvd_signs (signs signs' : Fin 6 → Bool) {X : List (Features K)} {fit : PcaFitResult K}
    (h : fitPcaSvd sqrt svd signs X = some fit) : ∃ loadings, fitPcaSvd sqrt svd signs' X = some { fit with loadings } ∧
      ∀ i, loadings i = fit.loadings i ∨ loadings i = -fit.loadings i := by
  rw [fitPcaSvd] at h ⊢
  split at h
  · cases h
  · rw [if_neg ‹_›]
    cases h
    refine ⟨_, rfl, fun i => ?_⟩
    dsimp only
    cases signs i <;> cases signs' i <;> simp

theorem fitPcaSvd_none (signs signs' : Fin 6 → Bool) {X : List (Features K)} (h : fitPcaSvd sqrt svd signs X = none) :
    fitPcaSvd sqrt svd signs' X = none := by
  rw [fitPcaSvd] at h ⊢
  split at h
  · rw [if_pos ‹_›]
  · cases h

variable [IsStrictOrderedRing K]

/-- The model of a refit does not depend on the signs. -/
theorem refitModel_signs (id : ℕ) {prev : PcaModel K} {rows : List (Snapshot K)} {signs : Fin 6 → Bool}
    (signs' : Fin 6 → Bool) (hclear : ∀ fit ∈ fitPcaSvd sqrt svd signs ((clean rows).map Prod.snd), ∀ i,
      cosine sqrt (fit.loadings i) (prev.loadings i) ≠ 0) :
    (refitModel sqrt svd id prev rows signs').map Prod.fst = (refitModel sqrt svd id prev rows signs).map Prod.fst := by
  by_cases hfew : rows.length < 6 ∨ (clean rows).length < 6
  · rw [refitModel, refitModel, if_pos hfew, if_pos hfew]
  rw [refitModel, refitModel, if_neg hfew, if_neg hfew]
  cases hfit : fitPcaSvd sqrt svd signs ((clean rows).map Prod.snd) with
  | none => rw [fitPcaSvd_none signs signs' hfit]
  | some fit =>
    obtain ⟨loadings, hfit', hopposite⟩ := fitPcaSvd_signs signs signs' hfit
    have hcorrected (i : Fin 6) := signCorrectLoadings_signs (hopposite i) i.isLt (hclear fit hfit i)
    have hloadings : (signCorrectLoadings sqrt loadings (some prev.loadings)).loadings =
        (signCorrectLoadings sqrt fit.loadings (some prev.loadings)).loadings := funext fun i => (hcorrected i).1
    have hsims : (signCorrectLoadings sqrt loadings (some prev.loadings)).cosineSims =
        (signCorrectLoadings sqrt fit.loadings (some prev.loadings)).cosineSims := funext fun i => (hcorrected i).2
    rw [hfit']
    simp only [Option.map_some, hloadings, hsims]

/-- Neither does the step that stores it. -/
theorem step_sameData {w w' : World K} {e e' : Event K} (hw : w.toCore = w'.toCore) (hsame : SameData e e')
    (hclear : Clear sqrt svd w e) : (step sqrt svd w e).toCore = (step sqrt svd w' e').toCore := by
  simp only [step, ← hw]
  cases hsame with
  | other => rfl
  | refit id symbol rows signs signs' =>
    have hmodel := refitModel_signs id signs' hclear
    simp only [Core.step]
    cases hfit : refitModel sqrt svd id w.active rows signs with
    | none =>
      rw [hfit, Option.map_none, Option.map_eq_none_iff] at hmodel
      rw [hmodel]
    | some first =>
      rw [hfit, Option.map_some, Option.map_eq_some_iff] at hmodel
      obtain ⟨second, hsecond, hfst⟩ := hmodel
      rw [hsecond]
      dsimp only
      rw [hfst]

theorem run_sameData {w : World K} {events events' : List (Event K)} (hsame : List.Forall₂ SameData events events')
    (hclear : Guarded (step sqrt svd) (Clear sqrt svd) w events) :
    (run sqrt svd w events).toCore = (run sqrt svd w events').toCore := by
  have hkeep : ∀ (w w' : World K) (e e' : Event K), w.toCore = w'.toCore → SameData e e' → Clear sqrt svd w e →
      (step sqrt svd w e).toCore = (step sqrt svd w' e').toCore := fun _ _ _ _ => step_sameData
  exact Guarded.lockstep hkeep hsame rfl hclear

end Runs

section Stored
variable {K : Type*} [Field K] [LinearOrder K] [IsStrictOrderedRing K] {sqrt : K → K} {svd : Svd K}

def Core.stored (w : Core K) : List (PcaModel K) := w.superseded ++ [w.active]

def PcaModel.CosinesNonneg (m : PcaModel K) : Prop := ∀ pc, ∀ cos ∈ m.cosineSimilarity pc, 0 ≤ cos

theorem refitModel_nonneg {id : ℕ} {prev model : PcaModel K} {rows : List (Snapshot K)} {signs : Fin 6 → Bool}
    {flips : Fin 3 → Bool} (h : refitModel sqrt svd id prev rows signs = some (model, flips)) : model.CosinesNonneg := by
  rw [refitModel] at h
  split at h
  · cases h
  · obtain ⟨fit, -, hmodel⟩ := Option.map_eq_some_iff.mp h
    cases hmodel
    exact fun pc cos hcos => cosineSims_nonneg hcos

theorem stored_step (w : World K) (e : Event K) : ∀ m ∈ (step sqrt svd w e).stored, m ∈ w.stored ∨ m.CosinesNonneg := by
  intro m hm
  cases e with
  | refit id symbol rows signs =>
    simp only [step, Core.step] at hm
    cases hfit : refitModel sqrt svd id w.active rows signs with
    | none =>
      rw [hfit] at hm
      exact Or.inl hm
    | some first =>
      rw [hfit] at hm
      simp only [Core.stored, Core.promote, List.mem_append, List.mem_singleton] at hm
      rcases hm with hm | rfl
      · exact Or.inl (by simpa only [Core.stored, List.mem_append, List.mem_singleton] using hm)
      · exact Or.inr (refitModel_nonneg hfit)
  | cycle symbol timestamp now x pc3Sub => exact Or.inl hm
  | write => exact Or.inl hm
  | lose => exact Or.inl hm

theorem stored_run (w : World K) (events : List (Event K)) :
    ∀ m ∈ (run sqrt svd w events).stored, m ∈ w.stored ∨ m.CosinesNonneg := by
  refine Run.rel (R := fun w w' : World K => ∀ m ∈ w'.stored, m ∈ w.stored ∨ m.CosinesNonneg) (I := fun _ => True)
    (fun w m hm => Or.inl hm) ?_ (fun _ _ _ _ => trivial) (fun w e _ _ => stored_step w e) (Run.of_events events) trivial
  intro w w' w'' hfirst hsecond m hm
  rcases hsecond m hm with hm | hm
  · exact hfirst m hm
  · exact Or.inr hm

end Stored

/-- The signs of the decompositions change no model, signal or flag; no stored cosine is negative; and a correction is
made once. -/
theorem orientation_stable {K : Type*} [Field K] [LinearOrder K] [IsStrictOrderedRing K] (sqrt : K → K) (svd : Svd K) :
    (∀ (w : World K) (events events' : List (Event K)), List.Forall₂ SameData events events' →
      Guarded (step sqrt svd) (Clear sqrt svd) w events →
        (run sqrt svd w events).toCore = (run sqrt svd w events').toCore) ∧
      (∀ (w : World K) (events : List (Event K)), ∀ m ∈ (run sqrt svd w events).stored, m ∈ w.stored ∨
        ∀ pc, ∀ cos ∈ m.cosineSimilarity pc, 0 ≤ cos) ∧
      ∀ (m n : ℕ) (new : Fin m → Features K) (reference : Option (Fin n → Features K)),
        signCorrectLoadings sqrt (signCorrectLoadings sqrt new reference).loadings reference =
          { signCorrectLoadings sqrt new reference with signFlips := fun _ => false } := by
  refine ⟨fun w events events' hsame hclear => run_sameData hsame hclear, fun w events => stored_run w events, ?_⟩
  exact fun m n new reference => signCorrectLoadings_corrected new reference

section Flat

/-- The decomposition of a matrix of zeros: the first axes -/
def axes : Svd ℝ where
  values _ := List.replicate 7 0
  vectors _ i c := if c = i.castLE (by omega) then 1 else 0

def flatRows : List (Snapshot ℝ) := (List.range 7).map fun t => ⟨t, fun _ => some 8⟩

def axesModel : PcaModel ℝ where
  id := 1
  nObsUsed := 7
  means _ := 8
  stds _ := 1
  loadings := axes.vectors []
  eigenvalues _ := 0
  varianceExplainedRatio _ := 0
  cosineSimilarity _ := none

def flatWorld : World ℝ := ⟨⟨[], axesModel, [], [], []⟩, []⟩

theorem cosine_axes (i : Fin 6) (xs ys : List (Features ℝ)) : cosine Real.sqrt (axes.vectors xs i) (axes.vectors ys i) = 1 := by
  have hdot (zs zs' : List (Features ℝ)) : dot (axes.vectors zs i) (axes.vectors zs' i) = 1 := by
    simp [dot, axes]
  simp [cosine, norm, hdot]

/-- Two refits of the same flat snapshots, the second time with all signs the other way round -/
theorem orientation_stable_flat :
    (run Real.sqrt axes flatWorld [.refit 2 "EURUSD" flatRows fun _ => false]).toCore =
      (run Real.sqrt axes flatWorld [.refit 2 "EURUSD" flatRows fun _ => true]).toCore := by
  refine (orientation_stable Real.sqrt axes).1 flatWorld _ _ (.cons (.refit _ _ _ _ _) .nil) ⟨?_, trivial⟩
  intro fit hfit i
  rw [fitPcaSvd] at hfit
  split at hfit
  · cases hfit
  · cases hfit
    exact fun hzero => one_ne_zero ((cosine_axes i [] []).symm.trans hzero)

end Flat

end FxVol.PcaOrientation
