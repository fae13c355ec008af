import FxVol.DecimalRounding
import Mathlib.Data.Rat.Cast.Order
import Mathlib.Data.List.Forall2
import Mathlib.Data.Rat.Floor

/-!
# The fair term structure

The fair volatility of a tenor under the pricing measure: its realised volatility, or a forecast where there is none, plus
the variance risk premium of the regime.  A market that has moved more has no tenor with a lower fair volatility, and while
there is a realised volatility no forecast has a say in it.
-/
namespace FxVol.FairTerm

open DecimalRounding

inductive Regime | calm | stressed | preEvent
  deriving DecidableEq

def vrpDefaultsVolPts : Regime → List (String × ℚ)
  | .calm => [("1M", 6 / 10), ("2M", 7 / 10), ("3M", 8 / 10), ("4M", 9 / 10), ("5M", 1), ("6M", 11 / 10)]
  | .stressed => [("1M", 15 / 10), ("2M", 16 / 10), ("3M", 18 / 10), ("4M", 19 / 10), ("5M", 2), ("6M", 21 / 10)]
  | .preEvent => [("1M", 25 / 10), ("2M", 22 / 10), ("3M", 2), ("4M", 19 / 10), ("5M", 18 / 10), ("6M", 18 / 10)]

/-- `predict_vrp`; a tenor that the table does not have gets a default. -/
def predictVrp (tenor : String) (regime : Regime) : ℚ := ((vrpDefaultsVolPts regime).lookup tenor).getD (8 / 10)

section Term
variable {K : Type*} [Field K] [LinearOrder K]

/-- A level given as a decimal, in the arithmetic of the surface -/
def level (x : ℚ) : K := x

/-- `detect_regime`; the slope has no part in it. -/
def detectRegime (volLevelPct volOfVolPct _termSlopePct : Option K) : Regime :=
  if volLevelPct.any fun v => level 10 < v then .stressed
  else if volOfVolPct.any fun v => level 1 < v then .stressed
  else if volOfVolPct.any fun v => level (4 / 10) < v then .preEvent
  else .calm

/-- `q_measure_from_p`, with the premium it has added -/
def qMeasureFromP (sigmaPPct : K) (tenor : String) (regime : Regime) : K × K :=
  (sigmaPPct + level (predictVrp tenor regime), level (predictVrp tenor regime))

/-- What a forecast gives for a tenor, under either of its keys -/
structure Estimate (K : Type*) where
  sigmaHarPct : Option K
  sigmaModelPct : Option K

structure Pillar (K : Type*) where
  atmIv : Option K
  rvPct : Option K

/-- The entries of the surface that the fair volatility reads, the pillars in their order -/
structure Surface (K : Type*) where
  pillars : List (String × Pillar K)
  rvFullPct : Option K
  har : List (String × Estimate K)
  garch : List (String × Estimate K)

inductive Estimator | har | garch
  deriving DecidableEq

inductive FairSource
  | rvTenor
  | rvFull
  | estimator (e : Estimator)
  deriving DecidableEq

def Estimate.sigma (e : Estimate K) : Option K := e.sigmaHarPct <|> e.sigmaModelPct

def pickSigmaFairP (s : Surface K) (tenor : String) : Estimator → Option K
  | .har => (s.har.lookup tenor).bind Estimate.sigma <|> (s.garch.lookup tenor).bind Estimate.sigma
  | .garch => (s.garch.lookup tenor).bind Estimate.sigma <|> (s.har.lookup tenor).bind Estimate.sigma

structure FairQ (K : Type*) where
  sigmaFairPPct : K
  vrpVolPts : K
  sigmaFairQPct : K
  regime : Regime
  fairSource : FairSource

def Surface.atmIv (s : Surface K) (tenor : String) : Option K := (s.pillars.lookup tenor).bind (·.atmIv)

/-- The regime of `build_fair_q`, from the realised volatility alone -/
def Surface.fairRegime (s : Surface K) : Regime :=
  detectRegime s.rvFullPct none
    ((s.atmIv "6M").bind fun long => (s.atmIv "1M").map fun short => (long - short) * level 100)

/-- The level under the physical measure, with where it comes from -/
def Surface.fairP (s : Surface K) (fallback : Estimator) (tenor : String) (pillar : Pillar K) :
    Option (K × FairSource) :=
  match pillar.rvPct, s.rvFullPct with
  | some rv, _ => some (rv, .rvTenor)
  | none, some rv => some (rv, .rvFull)
  | none, none => (pickSigmaFairP s tenor fallback).map fun sigma => (sigma, .estimator fallback)

variable [FloorRing K]

/-- `build_fair_q`, with the estimator that `preferred_estimator` falls back to -/
def buildFairQ (s : Surface K) (fallback : Estimator) : List (String × FairQ K) :=
  s.pillars.filterMap fun tenor =>
    (s.fairP fallback tenor.1 tenor.2).map fun sigmaP =>
      let sigmaQ := qMeasureFromP sigmaP.1 tenor.1 s.fairRegime
      (tenor.1, ⟨roundTo sigmaP.1 4, roundTo sigmaQ.2 4, roundTo sigmaQ.1 4, s.fairRegime, sigmaP.2⟩)

/-- In a stressed market the premium of a tenor is no lower than in a calm one. -/
theorem predictVrp_calm_le_stressed (tenor : String) : predictVrp tenor .calm ≤ predictVrp tenor .stressed := by
  simp only [predictVrp, vrpDefaultsVolPts, List.lookup_cons, List.lookup_nil]
  repeat' split
  all_goals norm_num

variable [IsStrictOrderedRing K]

omit [FloorRing K] in
theorem level_le {x y : ℚ} (h : x ≤ y) : (level x : K) ≤ level y := Rat.cast_le.mpr h

omit [FloorRing K] [IsStrictOrderedRing K] in
/-- The regime of a surface with a realised volatility -/
theorem fairRegime_eq {s : Surface K} {rv : K} (h : s.rvFullPct = some rv) :
    s.fairRegime = if level 10 < rv then .stressed else .calm := by
  simp [Surface.fairRegime, detectRegime, h]

omit [FloorRing K] [IsStrictOrderedRing K] in
theorem vrp_mono {s s' : Surface K} {rv rv' : K} (hrv : s.rvFullPct = some rv) (hrv' : s'.rvFullPct = some rv')
    (hle : rv ≤ rv') (tenor : String) : predictVrp tenor s.fairRegime ≤ predictVrp tenor s'.fairRegime := by
  rw [fairRegime_eq hrv, fairRegime_eq hrv']
  by_cases hstressed : level 10 < rv
  · rw [if_pos hstressed, if_pos (hstressed.trans_le hle)]
  · rw [if_neg hstressed]
    split
    · exact predictVrp_calm_le_stressed tenor
    · exact le_refl _

omit [Field K] [LinearOrder K] [FloorRing K] [IsStrictOrderedRing K] in
/-- With a realised volatility of the whole sample, every tenor has a level, and no forecast is read. -/
theorem fairP_eq {s : Surface K} {rv : K} (h : s.rvFullPct = some rv) (fallback : Estimator) (tenor : String)
    (pillar : Pillar K) : ∃ source, s.fairP fallback tenor pillar = some (pillar.rvPct.getD rv, source) := by
  cases hrv : pillar.rvPct with
  | some rvTenor => exact ⟨.rvTenor, by simp [Surface.fairP, hrv]⟩
  | none => exact ⟨.rvFull, by simp [Surface.fairP, hrv, h]⟩

/-- The pillars of two surfaces, the second of which has realised no less at any tenor -/
def RealisedLe (a b : String × Pillar K) : Prop := a.1 = b.1 ∧ Option.Rel (· ≤ ·) a.2.rvPct b.2.rvPct

omit [Field K] [FloorRing K] [IsStrictOrderedRing K] in
theorem RealisedLe.level {a b : String × Pillar K} (h : RealisedLe a b) {rv rv' : K} (hle : rv ≤ rv') :
    a.2.rvPct.getD rv ≤ b.2.rvPct.getD rv' := by
  obtain ⟨-, hrel⟩ := h
  cases ha : a.2.rvPct <;> cases hb : b.2.rvPct <;> rw [ha, hb] at hrel <;> cases hrel
  · exact hle
  · assumption

omit [IsStrictOrderedRing K] in
theorem buildFairQ_eq {s : Surface K} {rv : K} (h : s.rvFullPct = some rv) (fallback : Estimator) :
    ∃ source : String × Pillar K → FairSource, buildFairQ s fallback = s.pillars.map fun p =>
      (p.1, ⟨roundTo (p.2.rvPct.getD rv) 4, roundTo (level (predictVrp p.1 s.fairRegime)) 4,
        roundTo (p.2.rvPct.getD rv + level (predictVrp p.1 s.fairRegime)) 4, s.fairRegime, source p⟩) := by
  choose source hsource using fun p : String × Pillar K => fairP_eq h fallback p.1 p.2
  refine ⟨source, ?_⟩
  rw [buildFairQ, ← List.filterMap_eq_map]
  refine List.filterMap_congr ?_
  intro p _
  rw [hsource p]
  rfl

/-- Between two surfaces with a realised volatility, of which the second has realised no less, overall and at any tenor, and
whatever each has for forecasts: all tenors get a fair volatility, and that of the second is no lower. -/
theorem buildFairQ_mono (s s' : Surface K) (fallback fallback' : Estimator) (rv rv' : K) (hrv : s.rvFullPct = some rv)
    (hrv' : s'.rvFullPct = some rv') (hle : rv ≤ rv') (hpillars : List.Forall₂ RealisedLe s.pillars s'.pillars) :
    (buildFairQ s fallback).map Prod.fst = s.pillars.map Prod.fst ∧
      List.Forall₂ (fun a b => a.1 = b.1 ∧ a.2.sigmaFairQPct ≤ b.2.sigmaFairQPct) (buildFairQ s fallback)
        (buildFairQ s' fallback') := by
  obtain ⟨source, heq⟩ := buildFairQ_eq hrv fallback
  obtain ⟨source', heq'⟩ := buildFairQ_eq hrv' fallback'
  rw [heq, heq']
  refine ⟨by simp [Function.comp_def], ?_⟩
  rw [List.forall₂_map_left_iff, List.forall₂_map_right_iff]
  refine hpillars.imp ?_
  intro a b hab
  refine ⟨hab.1, roundTo_mono ?_ 4⟩
  have hvrp : (level (predictVrp a.1 s.fairRegime) : K) ≤ level (predictVrp b.1 s'.fairRegime) := by
    rw [← hab.1]
    exact level_le (vrp_mono hrv hrv' hle a.1)
  exact add_le_add (hab.level hle) hvrp

end Term

/-- A calm market with two tenors, one with its own realised volatility -/
def calmSurface : Surface ℚ := ⟨[("1M", ⟨some (7 / 100), some 6⟩), ("9M", ⟨none, none⟩)], some 7, [], []⟩

/-- The same after a jump, with a forecast that is not read -/
def stressedSurface : Surface ℚ :=
  ⟨[("1M", ⟨some (7 / 100), some 14⟩), ("9M", ⟨none, none⟩)], some 12, [("9M", ⟨some 1, none⟩)], []⟩

theorem buildFairQ_mono_jump :
    (buildFairQ calmSurface .har).map Prod.fst = calmSurface.pillars.map Prod.fst ∧
      List.Forall₂ (fun a b => a.1 = b.1 ∧ a.2.sigmaFairQPct ≤ b.2.sigmaFairQPct) (buildFairQ calmSurface .har)
        (buildFairQ stressedSurface .garch) :=
  buildFairQ_mono calmSurface stressedSurface .har .garch 7 12 rfl rfl (by norm_num)
    (.cons ⟨rfl, .some (by norm_num)⟩ (.cons ⟨rfl, .none⟩ .nil))

end FxVol.FairTerm
