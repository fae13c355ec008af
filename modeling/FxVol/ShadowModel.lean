import FxVol.KeyedMemo
import FxVol.PublishedViews
import FxVol.RegimeGate
import Mathlib.Algebra.Order.Archimedean.Real.Basic
import Mathlib.Analysis.SpecialFunctions.Log.Basic
import Mathlib.Analysis.SpecialFunctions.Trigonometric.Basic
import Mathlib.Data.List.FinRange
import Mathlib.Data.List.MinMax

/-!
# The shadow model of the regime

The analytics engine (`core.vol.gmm_regime`) fits a mixture of three components to the features of the last ninety days and publishes it; the vol
engine reads it back and infers from it how probable each regime is, which goes into its rows beside the label.  The names of
the components follow from their levels of volatility, so they do not depend on the order in which a fit has found them.
-/
namespace FxVol.ShadowModel

open DecimalRounding PublishedViews RegimeGate
open FairTerm (Regime)

/-- The fitted attributes of a `GaussianMixture` of three components, each an entry for each component -/
@[ext]
structure Mixture (K : Type*) where
  weights : Fin 3 → K
  means : Fin 3 → List K
  covariances : Fin 3 → List (List K)
  precisionsCholesky : Fin 3 → List (List K)

/-- `sklearn.mixture.GaussianMixture`: what `fit` makes of the observations, with `converged_`, and `predict_proba` -/
structure Sklearn (K : Type*) where
  fit : List (K × K) → Mixture K × Bool
  predictProba : Mixture K → K × K → Fin 3 → K

structure GmmFitResult where
  nObs : ℕ
  componentToLabel : List (Fin 3 × Regime)
  converged : Bool

structure GmmInferenceResult (K : Type*) where
  label : Option Regime
  probability : Regime → K

def minObsGmm : ℕ := 50

section Model
variable {K : Type*} [Field K] [LinearOrder K] (sklearn : Sklearn K)

/-- The mean of a component in the column of `vol_level` -/
def Mixture.volLevel (gmm : Mixture K) (c : Fin 3) : K := (gmm.means c).headD 0

/-- `np.argsort` -/
def Mixture.order (gmm : Mixture K) : List (Fin 3) :=
  (List.finRange 3).insertionSort fun a b => gmm.volLevel a ≤ gmm.volLevel b

def mapComponentsToLabels (gmm : Mixture K) : List (Fin 3 × Regime) := gmm.order.zip [.calm, .preEvent, .stressed]

def fitGmm (X : List (K × K)) : Option (Mixture K × GmmFitResult) :=
  if X.length < minObsGmm then none
  else
    let fit := sklearn.fit X
    some (fit.1, ⟨X.length, mapComponentsToLabels fit.1, fit.2⟩)

/-- `infer_proba`; the labels of the components are distinct. -/
def inferProba [FloorRing K] (gmm : Mixture K) (x : K × K) (fit : GmmFitResult) : GmmInferenceResult K :=
  let byLabel := fit.componentToLabel.map fun c => (c.2, sklearn.predictProba gmm x c.1)
  ⟨(byLabel.argmax Prod.snd).map Prod.fst, fun r => roundTo ((byLabel.lookup r).getD 0) 4⟩

/-- What `serialize_gmm` makes of a fit; the keys of the labels are text. -/
structure GmmPayload (K : Type*) where
  mixture : Mixture K
  nObs : ℕ
  converged : Bool
  componentToLabel : List (String × Regime)

/-- `str` of a component -/
def componentKey : Fin 3 → String
  | 0 => "0"
  | 1 => "1"
  | 2 => "2"

def serializeGmm (gmm : Mixture K) (fit : GmmFitResult) : GmmPayload K :=
  ⟨gmm, fit.nObs, fit.converged, fit.componentToLabel.map fun c => (componentKey c.1, c.2)⟩

/-- `int` of a key, for those that `str` makes of a component -/
def parseComponent (key : String) : Option (Fin 3) := (List.finRange 3).find? fun c => componentKey c = key

theorem parseComponent_componentKey : ∀ c, parseComponent (componentKey c) = some c := by decide

def deserializeGmm (payload : GmmPayload K) : Option (Mixture K × GmmFitResult) :=
  (payload.componentToLabel.mapM fun c => (parseComponent c.1).map fun i => (i, c.2)).map fun labels =>
    (payload.mixture, ⟨payload.nObs, labels, payload.converged⟩)

omit [Field K] [LinearOrder K] in
/-- What was serialised is read back. -/
theorem deserializeGmm_serializeGmm (gmm : Mixture K) (fit : GmmFitResult) :
    deserializeGmm (serializeGmm gmm fit) = some (gmm, fit) := by
  have hlabels : ∀ labels : List (Fin 3 × Regime), (labels.map fun c => (componentKey c.1, c.2)).mapM
      (fun c => (parseComponent c.1).map fun i => (i, c.2)) = some labels := by
    intro labels
    induction labels with
    | nil => rfl
    | cons c labels ih =>
      rw [List.map_cons, List.mapM_cons, ih, parseComponent_componentKey]
      rfl
  rw [deserializeGmm, serializeGmm, hlabels]
  rfl

/-- The components in another order -/
def Mixture.permute (gmm : Mixture K) (σ : Equiv.Perm (Fin 3)) : Mixture K :=
  ⟨gmm.weights ∘ σ, gmm.means ∘ σ, gmm.covariances ∘ σ, gmm.precisionsCholesky ∘ σ⟩

/-- The probability of a component does not depend on its position. -/
def Sklearn.Equivariant (sklearn : Sklearn K) : Prop :=
  ∀ gmm σ x c, sklearn.predictProba (Mixture.permute gmm σ) x c = sklearn.predictProba gmm x (σ c)

theorem order_perm (gmm : Mixture K) : gmm.order.Perm (List.finRange 3) := List.perm_insertionSort _ _

theorem order_sorted (gmm : Mixture K) : gmm.order.Pairwise fun a b => gmm.volLevel a ≤ gmm.volLevel b :=
  haveI : Std.Total fun a b => gmm.volLevel a ≤ gmm.volLevel b := ⟨fun _ _ => le_total _ _⟩
  haveI : IsTrans (Fin 3) fun a b => gmm.volLevel a ≤ gmm.volLevel b := ⟨fun _ _ _ hab hbc => hab.trans hbc⟩
  List.pairwise_insertionSort _ _

variable {sklearn} {gmm : Mixture K}

theorem order_permute (hdistinct : Function.Injective gmm.volLevel) (σ : Equiv.Perm (Fin 3)) :
    (gmm.permute σ).order.map σ = gmm.order := by
  have hperm : ((gmm.permute σ).order.map σ).Perm gmm.order :=
    ((order_perm _).map σ).trans ((Equiv.Perm.map_finRange_perm σ).trans (order_perm gmm).symm)
  have hsorted : ((gmm.permute σ).order.map σ).Pairwise fun a b => gmm.volLevel a ≤ gmm.volLevel b :=
    List.pairwise_map.mpr (order_sorted (gmm.permute σ))
  exact List.Perm.eq_of_pairwise (fun a b _ _ hab hba => hdistinct (le_antisymm hab hba)) hsorted (order_sorted gmm) hperm

theorem exists_order (hdistinct : Function.Injective gmm.volLevel) : ∃ low middle high, gmm.order = [low, middle, high] ∧
    gmm.volLevel low < gmm.volLevel middle ∧ gmm.volLevel middle < gmm.volLevel high := by
  have hlength : gmm.order.length = 3 := by rw [(order_perm gmm).length_eq, List.length_finRange]
  have hnodup : gmm.order.Nodup := (order_perm gmm).nodup_iff.mpr (List.nodup_finRange 3)
  have hstrict : gmm.order.Pairwise fun a b => gmm.volLevel a < gmm.volLevel b :=
    ((order_sorted gmm).and hnodup).imp fun h => lt_of_le_of_ne h.1 (hdistinct.ne h.2)
  obtain ⟨low, middle, high, horder⟩ := List.length_eq_three.mp hlength
  rw [horder] at hstrict
  simp only [List.pairwise_cons, List.mem_cons, List.not_mem_nil, or_false, forall_eq_or_imp, forall_eq] at hstrict
  exact ⟨low, middle, high, horder, hstrict.1.1, hstrict.2.1⟩

/-- Where the components differ in their levels of volatility, the calmest gives the probability of a calm market, the wildest
that of a stressed one, in whatever order a fit has found them. -/
theorem inferProba_permute [FloorRing K] (hequivariant : sklearn.Equivariant) (hdistinct : Function.Injective gmm.volLevel)
    (σ : Equiv.Perm (Fin 3)) (x : K × K) (nObs : ℕ) (converged : Bool) :
    inferProba sklearn (gmm.permute σ) x ⟨nObs, mapComponentsToLabels (gmm.permute σ), converged⟩ =
        inferProba sklearn gmm x ⟨nObs, mapComponentsToLabels gmm, converged⟩ ∧
      ∃ low middle high, gmm.volLevel low < gmm.volLevel middle ∧ gmm.volLevel middle < gmm.volLevel high ∧
        (inferProba sklearn gmm x ⟨nObs, mapComponentsToLabels gmm, converged⟩).probability = fun
          | .calm => roundTo (sklearn.predictProba gmm x low) 4
          | .preEvent => roundTo (sklearn.predictProba gmm x middle) 4
          | .stressed => roundTo (sklearn.predictProba gmm x high) 4 := by
  constructor
  · have hbyLabel : (mapComponentsToLabels (gmm.permute σ)).map
        (fun c => (c.2, sklearn.predictProba (gmm.permute σ) x c.1)) =
          (mapComponentsToLabels gmm).map fun c => (c.2, sklearn.predictProba gmm x c.1) := by
      rw [mapComponentsToLabels, mapComponentsToLabels, ← order_permute hdistinct σ, List.zip_map_left, List.map_map]
      refine List.map_congr_left ?_
      intro c _
      rw [hequivariant gmm σ x c.1]
      rfl
    simp only [inferProba, hbyLabel]
  · obtain ⟨low, middle, high, horder, hlow, hhigh⟩ := exists_order hdistinct
    refine ⟨low, middle, high, hlow, hhigh, ?_⟩
    funext r
    simp only [inferProba, mapComponentsToLabels, horder]
    cases r <;> rfl

/-- The logarithm of the weighted density of a component, from the factors of the precisions -/
noncomputable def logDensity (gmm : Mixture ℝ) (x : ℝ × ℝ) (c : Fin 3) : ℝ :=
  let chol (i j : ℕ) : ℝ := ((gmm.precisionsCholesky c).getD i []).getD j 0
  let away : ℝ × ℝ := (x.1 - (gmm.means c).getD 0 0, x.2 - (gmm.means c).getD 1 0)
  let y (j : ℕ) : ℝ := away.1 * chol 0 j + away.2 * chol 1 j
  Real.log (gmm.weights c) + (Real.log (chol 0 0) + Real.log (chol 1 1)) -
    (2 * Real.log (2 * Real.pi) + (y 0 ^ 2 + y 1 ^ 2)) / 2

/-- `predict_proba` of normal components; nothing is fitted. -/
noncomputable def normalComponents : Sklearn ℝ where
  fit _ := (⟨0, fun _ => [], fun _ => [], fun _ => []⟩, false)
  predictProba gmm x c := Real.exp (logDensity gmm x c) / ∑ c', Real.exp (logDensity gmm x c')

theorem normalComponents_equivariant : normalComponents.Equivariant := by
  intro gmm σ x c
  have hdensity : ∀ c, logDensity (gmm.permute σ) x c = logDensity gmm x (σ c) := fun _ => rfl
  simp only [normalComponents, hdensity]
  rw [Equiv.sum_comp σ fun c' => Real.exp (logDensity gmm x c')]

noncomputable def wildestFirst : Mixture ℝ where
  weights := fun _ => 1 / 3
  means := ![[12, 2], [6, 1], [8, 1]]
  covariances := fun _ => [[1, 0], [0, 1]]
  precisionsCholesky := fun _ => [[1, 0], [0, 1]]

theorem inferProba_permute_wildest :
    inferProba normalComponents (wildestFirst.permute (Equiv.swap 0 1)) (7, 1)
        ⟨50, mapComponentsToLabels (wildestFirst.permute (Equiv.swap 0 1)), true⟩ =
      inferProba normalComponents wildestFirst (7, 1) ⟨50, mapComponentsToLabels wildestFirst, true⟩ := by
  have hdistinct : Function.Injective wildestFirst.volLevel := by
    intro a b h
    fin_cases a <;> fin_cases b <;> simp [Mixture.volLevel, wildestFirst] at h ⊢
  exact (inferProba_permute normalComponents_equivariant hdistinct (Equiv.swap 0 1) (7, 1) 50 true).1

variable (sklearn)

def fitSig (train : List (K × K)) : ℕ × Option (K × K) := (train.length, train.getLast?)

/-- What `_get_gmm_model` answers in the cycles of its inline path: too few observations leave its memo alone. -/
def inlineModels (trains : List (List (K × K))) : List (Option (Mixture K × GmmFitResult)) :=
  KeyedMemo.answers fitSig (fitGmm sklearn) .empty
    (trains.map fun train => if train.length < minObsGmm then none else some train)

variable {sklearn}

omit [Field K] [LinearOrder K] in
theorem reduceOption_observed (trains : List (List (K × K))) :
    (trains.map fun train => if train.length < minObsGmm then none else some train).reduceOption =
      trains.filter fun train => minObsGmm ≤ train.length := by
  rw [List.reduceOption, List.filterMap_map, ← List.filterMap_eq_filter]
  refine List.filterMap_congr ?_
  intro train _
  by_cases hfew : train.length < minObsGmm
  · simp [hfew, Option.guard, not_le.mpr hfew]
  · simp [hfew, Option.guard, not_lt.mp hfew]

/-- As long as the observations are only added to, the memo of the inline path answers what a new fit would. -/
theorem inlineModels_eq {trains : List (List (K × K))} (h : trains.IsChain (· <+: ·)) :
    inlineModels sklearn trains = trains.map (fitGmm sklearn) := by
  have hchain : (trains.filter fun train => minObsGmm ≤ train.length).IsChain (KeyedMemo.Agree fitSig (fitGmm sklearn)) := by
    have : IsTrans (List (K × K)) (· <+: ·) := ⟨fun _ _ _ => List.IsPrefix.trans⟩
    have hpairwise : (trains.filter fun train => minObsGmm ≤ train.length).Pairwise (· <+: ·) :=
      (List.isChain_iff_pairwise.mp h).filter _
    refine hpairwise.isChain.imp ?_
    intro a b hgrown hkey _
    rw [hgrown.eq_of_length (Prod.ext_iff.mp hkey).1]
  rw [inlineModels, KeyedMemo.answers_iff.mpr (reduceOption_observed trains ▸ hchain), List.map_map]
  refine List.map_congr_left ?_
  intro train _
  rw [Function.comp_apply]
  split_ifs with hfew
  · exact (if_pos hfew).symm
  · rfl

/-- A new observation among the same fifty -/
theorem inlineModels_eq_one : inlineModels normalComponents [List.replicate 50 (6, 1), List.replicate 51 (6, 1)] =
    [List.replicate 50 (6, 1), List.replicate 51 (6, 1)].map (fitGmm normalComponents) := by
  refine inlineModels_eq (.cons_cons ?_ (.singleton _))
  exact ⟨[(6, 1)], List.replicate_succ'.symm⟩

end Model

def ttlAnalytics : ℤ := 2 * 60 * 60 * 1000000

/-- The vol engine with its tables, and the model under `analytics:regime_model` -/
structure World (K H : Type*) where
  gate : RegimeGate.World K H
  channel : Channel (GmmPayload K)

/-- `readFeatures` and `publish` are the steps of `_refit_gmm` before and after its fit.  A cycle of the vol engine asks the
model itself, whatever its event says. -/
inductive Event (K : Type*)
  | regime (e : RegimeGate.Event K)
  | readFeatures
  | publish
  | analyticsFail

section System
variable {K H : Type*} [Field K] [LinearOrder K] [FloorRing K] [DecidableEq H] (sqrt : K → K)
  (digest : EventCalendar.HashKey → H) (sklearn : Sklearn K)

def World.start : World K H := ⟨.start, .empty⟩

/-- The observations of the last ninety days that have both features -/
def World.train (w : World K H) : List (K × K) :=
  (featuresSince w.gate.features (w.gate.clock - ninetyDays)).filterMap fun r =>
    r.ivAtm3mPct.bind fun level => r.volOfVol30dPct.map fun vov => (level, vov)

/-- What `_refit_gmm` publishes -/
def World.refit (w : World K H) : Option (GmmPayload K) := (fitGmm sklearn w.train).map fun fit => serializeGmm fit.1 fit.2

/-- The live observation of a cycle -/
def World.observation (w : World K H) (surface : FairTerm.Surface K) : Option (K × K) :=
  let iv3mHistory := (featuresSince w.gate.features (w.gate.clock - thirtyDays)).filterMap (·.ivAtm3mPct)
  let vov := if 20 ≤ iv3mHistory.length then some (sampleSd sqrt iv3mHistory) else none
  (atmPct surface "3M").bind fun level => vov.map fun vov => (level, vov)

def inferFrom (model : Option (Mixture K × GmmFitResult)) (x : K × K) : Option (Regime → K) :=
  model.bind fun m => if m.2.converged then some (inferProba sklearn m.1 x m.2).probability else none

/-- `_fit_and_infer_gmm`, with the model that `_get_gmm_model` reads from Redis -/
def World.fitAndInferGmm (w : World K H) (surface : FairTerm.Surface K) : Option (Regime → K) :=
  (w.observation sqrt surface).bind (inferFrom sklearn ((w.channel.read w.gate.clock).bind deserializeGmm))

/-- The event of the vol engine with the model's answer -/
def World.answered (w : World K H) : RegimeGate.Event K → RegimeGate.Event K
  | .cycle surface _ => .cycle surface (w.fitAndInferGmm sqrt sklearn surface)
  | e => e

def step (w : World K H) : Event K → World K H
  | .regime e => { w with gate := RegimeGate.step sqrt digest w.gate (w.answered sqrt sklearn e) }
  | .readFeatures =>
    match w.refit sklearn with
    | some payload => { w with channel := w.channel.look payload }
    | none => w
  | .publish => { w with channel := w.channel.write w.gate.clock ttlAnalytics }
  | .analyticsFail => { w with channel := w.channel.drop }

def run (es : List (Event K)) : World K H := es.foldl (step sqrt digest sklearn) .start

variable {sqrt digest sklearn}

theorem run_concat (es : List (Event K)) (e : Event K) :
    run sqrt digest sklearn (es ++ [e]) = step sqrt digest sklearn (run sqrt digest sklearn es) e := List.foldl_concat ..

theorem touched (w : World K H) (e : Event K) : Touched (·.channel) (World.refit sklearn) (·.gate.clock) ttlAnalytics w
    (step sqrt digest sklearn w e).channel := by
  cases e with
  | regime e => exact .kept
  | readFeatures =>
    rw [step]
    cases hrefit : w.refit sklearn with
    | none => exact .kept
    | some payload => exact .looked payload hrefit
  | publish => exact .written
  | analyticsFail => exact .dropped

/-- The cycle of this timestamp has inferred `p` from its surface. -/
def Inferred (sqrt : K → K) (digest : EventCalendar.HashKey → H) (sklearn : Sklearn K) (es : List (Event K)) (ts : ℤ)
    (p : Regime → K) : Prop :=
  ∃ now surface gmm, now ++ [.regime (.cycle surface gmm)] <+: es ∧ (run sqrt digest sklearn now).gate.cycleTs = some ts ∧
    (run sqrt digest sklearn now).fitAndInferGmm sqrt sklearn surface = some p

theorem Inferred.mono {es es' : List (Event K)} {ts : ℤ} {p : Regime → K} (h : Inferred sqrt digest sklearn es ts p)
    (hle : es <+: es') : Inferred sqrt digest sklearn es' ts p := by
  obtain ⟨now, surface, gmm, hnow, hts, hp⟩ := h
  exact ⟨now, surface, gmm, hnow.trans hle, hts, hp⟩

/-- The probabilities of the rows, in the table and on their way -/
structure Marked (sqrt : K → K) (digest : EventCalendar.HashKey → H) (sklearn : Sklearn K) (es : List (Event K))
    (w : RegimeGate.World K H) : Prop where
  snapshots : ∀ r ∈ w.snapshots, ∀ p, r.probabilities = some p → Inferred sqrt digest sklearn es r.timestamp p
  pending : ∀ r ∈ w.pendingSnapshots, ∀ p, r.probabilities = some p → Inferred sqrt digest sklearn es r.timestamp p

theorem Marked.mono {es es' : List (Event K)} {w : RegimeGate.World K H} (h : Marked sqrt digest sklearn es w)
    (hle : es <+: es') : Marked sqrt digest sklearn es' w :=
  ⟨fun r hr p hp => (h.snapshots r hr p hp).mono hle, fun r hr p hp => (h.pending r hr p hp).mono hle⟩

/-- A step of the vol engine whose cycle has been answered by an inference -/
theorem Marked.gate {es : List (Event K)} {w : RegimeGate.World K H} (h : Marked sqrt digest sklearn es w)
    (e : RegimeGate.Event K) (he : ∀ surface p, e = .cycle surface (some p) → ∀ ts ∈ w.cycleTs,
      Inferred sqrt digest sklearn es ts p) : Marked sqrt digest sklearn es (RegimeGate.step sqrt digest w e) := by
  cases e with
  | cycle surface gmm =>
    rw [RegimeGate.step]
    cases hts : w.cycleTs with
    | none => exact h
    | some ts =>
      refine ⟨h.snapshots, ?_⟩
      intro r hr p hp
      rcases List.mem_append.mp hr with hr | hr
      · exact h.pending r hr p hp
      · obtain rfl := List.mem_singleton.mp hr
        have hgmm : gmm = some p := hp
        exact he surface p (hgmm ▸ rfl) ts hts
  | writeSnapshot k =>
    rw [RegimeGate.step, RegimeGate.World.writeSnapshot]
    cases hk : w.pendingSnapshots[k]? with
    | none => exact h
    | some row =>
      refine ⟨?_, fun r hr => h.pending r (List.mem_of_mem_eraseIdx hr)⟩
      intro r hr
      rcases KeyedLog.mem_record.mp hr with hr | ⟨rfl, -⟩
      · exact h.snapshots r hr
      · exact h.pending r (List.mem_of_getElem? hk)
  | loseSnapshot k => exact ⟨h.snapshots, fun r hr => h.pending r (List.mem_of_mem_eraseIdx hr)⟩
  | writeFeature k =>
    rw [RegimeGate.step, RegimeGate.World.writeFeature]
    cases w.pendingFeatures[k]? with
    | none => exact h
    | some row => exact ⟨h.snapshots, h.pending⟩
  | calendar e => exact ⟨h.snapshots, h.pending⟩
  | begin => exact ⟨h.snapshots, h.pending⟩
  | loseFeature k => exact ⟨h.snapshots, h.pending⟩
  | wait d => exact ⟨h.snapshots, h.pending⟩

theorem Marked.run (es : List (Event K)) : Marked sqrt digest sklearn es (run sqrt digest sklearn es).gate := by
  induction es using List.reverseRecOn with
  | nil => exact ⟨fun r hr => absurd hr List.not_mem_nil, fun r hr => absurd hr List.not_mem_nil⟩
  | append_singleton es e ih =>
    have h := ih.mono (List.prefix_append es [e])
    rw [run_concat]
    cases e with
    | regime e =>
      refine h.gate _ ?_
      intro surface p he ts hts
      cases e with
      | cycle surface' gmm =>
        obtain ⟨rfl, hp⟩ := RegimeGate.Event.cycle.inj he
        exact ⟨es, surface', gmm, List.prefix_rfl, hts, hp⟩
      | _ => cases he
    | readFeatures =>
      rw [step]
      cases (ShadowModel.run sqrt digest sklearn es).refit sklearn <;> exact h
    | publish => exact h
    | analyticsFail => exact h

def Event.ofGate : Event K → Option (RegimeGate.Event K)
  | .regime e => some e
  | _ => none

/-- The events of the vol engine and its tables -/
def regimeEvents (es : List (Event K)) : List (RegimeGate.Event K) := es.filterMap Event.ofGate

omit [Field K] [LinearOrder K] [FloorRing K] in
theorem regimeEvents_concat (es : List (Event K)) (e : Event K) :
    regimeEvents (es ++ [e]) = regimeEvents es ++ e.ofGate.toList := by
  rw [regimeEvents, List.filterMap_append, regimeEvents]
  cases e <;> rfl

/-- The engine of the regime runs as it does on its own events, with some answers of the model. -/
theorem exists_gate_run (es : List (Event K)) : ∃ es', (run sqrt digest sklearn es).gate = RegimeGate.run sqrt digest es' ∧
    es'.map (·.withoutShadow) = (regimeEvents es).map (·.withoutShadow) := by
  induction es using List.reverseRecOn with
  | nil => exact ⟨[], rfl, rfl⟩
  | append_singleton es e ih =>
    obtain ⟨es', hes', hevents⟩ := ih
    rw [run_concat, regimeEvents_concat, List.map_append, ← hevents]
    cases e with
    | regime e =>
      refine ⟨es' ++ [(run sqrt digest sklearn es).answered sqrt sklearn e], ?_, ?_⟩
      · have hlast : RegimeGate.run sqrt digest (es' ++ [(run sqrt digest sklearn es).answered sqrt sklearn e]) =
          RegimeGate.step sqrt digest (RegimeGate.run sqrt digest es') _ := List.foldl_concat ..
        rw [hlast, ← hes']
        rfl
      · rw [List.map_append]
        cases e <;> rfl
    | readFeatures =>
      refine ⟨es', ?_, ?_⟩
      · rw [← hes', step]
        cases (run sqrt digest sklearn es).refit sklearn <;> rfl
      · exact (List.append_nil _).symm
    | publish => exact ⟨es', hes', (List.append_nil _).symm⟩
    | analyticsFail => exact ⟨es', hes', (List.append_nil _).symm⟩

/-- The model that a cycle reads was fitted to what the table had at an earlier moment, and published within the time to live. -/
theorem read_model {now : List (Event K)} {model : Mixture K × GmmFitResult}
    (h : ((run sqrt digest sklearn now).channel.read (run sqrt digest sklearn now).gate.clock).bind deserializeGmm = some model) :
    ∃ past mid, past <+: mid ∧ mid <+: now ∧
      (run sqrt digest sklearn now).gate.clock < (run sqrt digest sklearn mid).gate.clock + ttlAnalytics ∧
      fitGmm sklearn (run sqrt digest sklearn past).train = some model := by
  obtain ⟨payload, hread, hmodel⟩ := Option.bind_eq_some_iff.mp h
  have htraced : Traced (step sqrt digest sklearn) (·.channel) (World.refit sklearn) (·.gate.clock) ttlAnalytics
      (World.start : World K H) now := .run (by rfl) touched now
  obtain ⟨past, mid, hpast, hmid, hrefit, hlive⟩ := htraced.read hread
  obtain ⟨fit, hfit, rfl⟩ := Option.map_eq_some_iff.mp hrefit
  rw [deserializeGmm_serializeGmm] at hmodel
  exact ⟨past, mid, hpast, hmid, hlive, hfit.trans hmodel⟩

/-- Over any run the engine of the regime runs as it does alone on its own events, whatever the model answers; and the
probabilities in each row of its table are what a converged fit to the features that the table had at an earlier moment,
published less than the time to live before the cycle of the row, says of the observation of that cycle. -/
theorem stored_probabilities (es : List (Event K)) :
    (∃ es', (run sqrt digest sklearn es).gate = RegimeGate.run sqrt digest es' ∧
      es'.map (·.withoutShadow) = (regimeEvents es).map (·.withoutShadow)) ∧
    ∀ r ∈ (run sqrt digest sklearn es).gate.snapshots, ∀ p, r.probabilities = some p →
      ∃ now surface answer, now ++ [.regime (.cycle surface answer)] <+: es ∧
        (run sqrt digest sklearn now).gate.cycleTs = some r.timestamp ∧
      ∃ x, (run sqrt digest sklearn now).observation sqrt surface = some x ∧
      ∃ past mid, past <+: mid ∧ mid <+: now ∧
        (run sqrt digest sklearn now).gate.clock < (run sqrt digest sklearn mid).gate.clock + ttlAnalytics ∧
      ∃ gmm fit, fitGmm sklearn (run sqrt digest sklearn past).train = some (gmm, fit) ∧ fit.converged = true ∧
        p = (inferProba sklearn gmm x fit).probability := by
  refine ⟨exists_gate_run es, ?_⟩
  intro r hr p hp
  obtain ⟨now, surface, answer, hnow, hts, hinfer⟩ := (Marked.run es).snapshots r hr p hp
  obtain ⟨x, hx, hinfer⟩ := Option.bind_eq_some_iff.mp hinfer
  obtain ⟨⟨gmm, fit⟩, hmodel, hinfer⟩ := Option.bind_eq_some_iff.mp hinfer
  simp only at hinfer
  split_ifs at hinfer with hconverged
  obtain ⟨past, mid, hpast, hmid, hlive, hfit⟩ := read_model hmodel
  exact ⟨now, surface, answer, hnow, hts, x, hx, past, mid, hpast, hmid, hlive, gmm, fit, hfit, hconverged,
    (Option.some.inj hinfer).symm⟩

end System

end FxVol.ShadowModel
