import FxVol.PreviewRequests
import FxVol.StructureCompletion
import Mathlib.Algebra.Order.Ring.Abs
import Mathlib.Data.List.MinMax

/-!
# The exit rules

Five rules look at a position in a monitor cycle.  Of those that trigger, the one of the highest
priority wins, and on a tie the one that comes first.
-/
namespace FxVol.ExitRules

open PreviewRequests (Regime)

/-- The rules, and what a close by hand writes in their place. -/
inductive RuleName
  | signalReverse | timeBased | stopLossVega | timeToExpiryCritical | preEventRegime | manualClose
  deriving DecidableEq

inductive ExitAction | exit | trim
  deriving DecidableEq

structure PositionContext where
  triggeringPc : Option ℤ
  entryZScore : Option ℚ
  entryVegaUsdPerVolpt : ℚ
  dteAtEntry : ℤ
  daysRemaining : ℤ
  deriving DecidableEq

inductive RuleDetail
  | reversed (entryZ currentZ : ℚ) (flipped : Bool)
  | weakening (weakeningRatio entryZ currentZ : ℚ)
  | time (daysRemaining daysAtEntry : ℤ) (ratio : ℚ)
  | loss (currentPnlUsd lossThresholdUsd impliedIvMoveVolpts : ℚ)
  | expiry (daysRemaining limit : ℤ)
  | regime (label : Regime)
  | manual
  deriving DecidableEq

structure ExitDecision where
  ruleName : RuleName
  action : ExitAction
  priority : ℕ
  detail : RuleDetail
  deriving DecidableEq

/-- What a rule looks at; the current signals are the latest z-scores. -/
structure RuleInputs where
  ctx : PositionContext
  mtmPnlGrossUsd : ℚ
  currentSignals : ℤ → Option ℚ
  regime : Option Regime

abbrev Rule := RuleInputs → Option ExitDecision

/-- The z-scores at the entry and now of the component that triggered the trade. -/
def signalPair (i : RuleInputs) : Option (ℚ × ℚ) :=
  match i.ctx.triggeringPc, i.ctx.entryZScore with
  | some pc, some entryZ => (i.currentSignals pc).map fun currentZ => (entryZ, currentZ)
  | _, _ => none

def flipped (entryZ currentZ : ℚ) : Prop := ¬ (0 < entryZ ↔ 0 < currentZ)

instance (entryZ currentZ : ℚ) : Decidable (flipped entryZ currentZ) := inferInstanceAs (Decidable ¬ _)

def signalReverseRule (weakThreshold : ℚ) (weakening50pctTriggersTrim : Bool) : Rule := fun i =>
  match signalPair i with
  | none => none
  | some (entryZ, currentZ) =>
    if flipped entryZ currentZ ∨ |currentZ| < weakThreshold then
      some ⟨.signalReverse, .exit, 4, .reversed entryZ currentZ (decide (flipped entryZ currentZ))⟩
    else if weakening50pctTriggersTrim ∧ 1 / 10 ^ 9 < |entryZ| ∧ |currentZ| / |entryZ| < 1 / 2 then
      some ⟨.signalReverse, .trim, 4 - 1, .weakening (|currentZ| / |entryZ|) entryZ currentZ⟩
    else none

def timeBasedRule (threshold : ℚ) : Rule := fun i =>
  if i.ctx.dteAtEntry ≤ 0 then none
  else
    let ratio := (i.ctx.daysRemaining : ℚ) / i.ctx.dteAtEntry
    if ratio < threshold then
      some ⟨.timeBased, .exit, 2, .time i.ctx.daysRemaining i.ctx.dteAtEntry (pyRound ratio 3)⟩
    else none

def stopLossVegaRule (lossUnits : ℚ) : Rule := fun i =>
  let vegaAbs := |i.ctx.entryVegaUsdPerVolpt|
  if vegaAbs ≤ 0 then none
  else
    let threshold := -lossUnits * vegaAbs
    if i.mtmPnlGrossUsd < threshold then
      some ⟨.stopLossVega, .exit, 3,
        .loss i.mtmPnlGrossUsd threshold (i.mtmPnlGrossUsd / i.ctx.entryVegaUsdPerVolpt)⟩
    else none

def timeToExpiryCriticalRule (minDays : ℤ) : Rule := fun i =>
  if i.ctx.daysRemaining < minDays then
    some ⟨.timeToExpiryCritical, .exit, 5, .expiry i.ctx.daysRemaining minDays⟩
  else none

def preEventRegimeRule (triggerRegimes : List Regime) : Rule := fun i =>
  i.regime.bind fun label =>
    if label ∈ triggerRegimes then some ⟨.preEventRegime, .exit, 6, .regime label⟩ else none

def exitRules : List Rule :=
  [signalReverseRule (1 / 2) true, timeBasedRule (3 / 10), stopLossVegaRule 3, timeToExpiryCriticalRule 7,
    preEventRegimeRule [.preEvent]]

def evaluateAllRules (rules : List Rule) (i : RuleInputs) : List ExitDecision :=
  rules.filterMap fun rule => rule i

def pickWinningDecision (decisions : List ExitDecision) : Option ExitDecision :=
  decisions.argmax (·.priority)

def SignalGone (i : RuleInputs) : Prop :=
  ∃ z ∈ signalPair i, flipped z.1 z.2 ∨ |z.2| < 1 / 2

def SignalWeakened (i : RuleInputs) : Prop :=
  ∃ z ∈ signalPair i, 1 / 10 ^ 9 < |z.1| ∧ |z.2| / |z.1| < 1 / 2

def TimeSpent (i : RuleInputs) : Prop :=
  0 < i.ctx.dteAtEntry ∧ (i.ctx.daysRemaining : ℚ) / i.ctx.dteAtEntry < 3 / 10

/-- The loss is beyond three times a vega. -/
def LossBeyond (i : RuleInputs) (vega : ℚ) : Prop := i.mtmPnlGrossUsd < -3 * |vega|

section Rules
variable (i : RuleInputs)

theorem preEvent_eq : preEventRegimeRule [.preEvent] i =
    if i.regime = some .preEvent then some ⟨.preEventRegime, .exit, 6, .regime .preEvent⟩ else none := by
  rw [preEventRegimeRule]
  cases i.regime with
  | none => rfl
  | some label => cases label <;> rfl

theorem signalReverse_gone (h : SignalGone i) : ∃ detail,
    signalReverseRule (1 / 2) true i = some ⟨.signalReverse, .exit, 4, detail⟩ := by
  obtain ⟨⟨entryZ, currentZ⟩, hpair, hgone⟩ := h
  rw [Option.mem_def] at hpair
  refine ⟨.reversed entryZ currentZ (decide (flipped entryZ currentZ)), ?_⟩
  simp only [signalReverseRule, hpair]
  exact if_pos hgone

theorem signalReverse_weakened (h : SignalWeakened i) (hgone : ¬ SignalGone i) : ∃ detail,
    signalReverseRule (1 / 2) true i = some ⟨.signalReverse, .trim, 3, detail⟩ := by
  obtain ⟨⟨entryZ, currentZ⟩, hpair, hratio⟩ := h
  have hkept : ¬ (flipped entryZ currentZ ∨ |currentZ| < 1 / 2) := fun hz => hgone ⟨_, hpair, hz⟩
  rw [Option.mem_def] at hpair
  refine ⟨.weakening (|currentZ| / |entryZ|) entryZ currentZ, ?_⟩
  simp only [signalReverseRule, hpair]
  rw [if_neg hkept, if_pos ⟨trivial, hratio⟩]

theorem signalReverse_none (hgone : ¬ SignalGone i) (hweak : ¬ SignalWeakened i) :
    signalReverseRule (1 / 2) true i = none := by
  rw [signalReverseRule]
  cases hpair : signalPair i with
  | none => rfl
  | some z =>
    have hkept : ¬ (flipped z.1 z.2 ∨ |z.2| < 1 / 2) := fun hz => hgone ⟨z, hpair, hz⟩
    have hstrong : ¬ (1 / 10 ^ 9 < |z.1| ∧ |z.2| / |z.1| < 1 / 2) := fun hz => hweak ⟨z, hpair, hz⟩
    dsimp only
    rw [if_neg hkept, if_neg (fun hz => hstrong hz.2)]

theorem timeBased_spent (h : TimeSpent i) : ∃ detail,
    timeBasedRule (3 / 10) i = some ⟨.timeBased, .exit, 2, detail⟩ := by
  obtain ⟨hdte, hratio⟩ := h
  rw [timeBasedRule, if_neg (not_le.mpr hdte)]
  exact ⟨_, if_pos hratio⟩

theorem timeBased_none (h : ¬ TimeSpent i) : timeBasedRule (3 / 10) i = none := by
  rw [timeBasedRule]
  by_cases hdte : i.ctx.dteAtEntry ≤ 0
  · exact if_pos hdte
  · rw [if_neg hdte]
    exact if_neg fun hratio => h ⟨not_le.mp hdte, hratio⟩

theorem stopLoss_beyond (hvega : i.ctx.entryVegaUsdPerVolpt ≠ 0)
    (h : LossBeyond i i.ctx.entryVegaUsdPerVolpt) : ∃ detail,
      stopLossVegaRule 3 i = some ⟨.stopLossVega, .exit, 3, detail⟩ := by
  rw [stopLossVegaRule, if_neg (not_le.mpr (abs_pos.mpr hvega))]
  exact ⟨_, if_pos h⟩

theorem stopLoss_none (h : ¬ (i.ctx.entryVegaUsdPerVolpt ≠ 0 ∧
    LossBeyond i i.ctx.entryVegaUsdPerVolpt)) : stopLossVegaRule 3 i = none := by
  rw [stopLossVegaRule]
  by_cases hvega : |i.ctx.entryVegaUsdPerVolpt| ≤ 0
  · exact if_pos hvega
  · rw [if_neg hvega]
    exact if_neg fun hloss => h ⟨abs_pos.mp (not_le.mp hvega), hloss⟩

end Rules

section Winner
variable {α : Type*} {f : α → ℕ} {a : α} {l : List α}

/-- The first of the list wins where nothing after it is higher. -/
theorem argmax_cons_of_le (h : ∀ b ∈ l, f b ≤ f a) : (a :: l).argmax f = some a := by
  rw [List.argmax_cons]
  cases hrest : l.argmax f with
  | none => rfl
  | some b => exact if_neg (not_lt.mpr (h b (List.argmax_mem hrest)))

/-- What is higher than all the others wins wherever it stands. -/
theorem argmax_of_lt (ha : a ∈ l) (h : ∀ b ∈ l, b ≠ a → f b < f a) : l.argmax f = some a := by
  cases hmax : l.argmax f with
  | none =>
    rw [List.argmax_eq_none.mp hmax] at ha
    cases ha
  | some b =>
    by_contra hne
    have hb : b ≠ a := fun heq => hne (congrArg some heq)
    have hlt := h b (List.argmax_mem hmax) hb
    exact absurd (List.le_of_mem_argmax ha hmax) (not_le.mpr hlt)

end Winner

section Ladder
variable {i : RuleInputs} {d : ExitDecision}

theorem preEvent_priority (h : preEventRegimeRule [.preEvent] i = some d) : d.priority = 6 := by
  rw [preEvent_eq] at h
  split_ifs at h
  cases h
  rfl

theorem timeToExpiry_priority (h : timeToExpiryCriticalRule 7 i = some d) : d.priority = 5 := by
  rw [timeToExpiryCriticalRule] at h
  split_ifs at h
  cases h
  rfl

theorem signalReverse_priority (h : signalReverseRule (1 / 2) true i = some d) :
    d.priority = 3 ∨ d.priority = 4 := by
  by_cases hgone : SignalGone i
  · obtain ⟨detail, heq⟩ := signalReverse_gone i hgone
    cases heq.symm.trans h
    exact .inr rfl
  · by_cases hweak : SignalWeakened i
    · obtain ⟨detail, heq⟩ := signalReverse_weakened i hweak hgone
      cases heq.symm.trans h
      exact .inl rfl
    · cases (signalReverse_none i hgone hweak).symm.trans h

theorem stopLoss_priority (h : stopLossVegaRule 3 i = some d) : d.priority = 3 := by
  simp only [stopLossVegaRule] at h
  split_ifs at h
  cases h
  rfl

theorem timeBased_priority (h : timeBasedRule (3 / 10) i = some d) : d.priority = 2 := by
  simp only [timeBasedRule] at h
  split_ifs at h
  cases h
  rfl

theorem mem_evaluated : d ∈ evaluateAllRules exitRules i ↔
    signalReverseRule (1 / 2) true i = some d ∨ timeBasedRule (3 / 10) i = some d ∨
      stopLossVegaRule 3 i = some d ∨ timeToExpiryCriticalRule 7 i = some d ∨
      preEventRegimeRule [.preEvent] i = some d := by
  simp [evaluateAllRules, exitRules]

/-- Below the regime and the expiry the priorities are four at most. -/
theorem evaluated_below (h : d ∈ evaluateAllRules exitRules i) :
    preEventRegimeRule [.preEvent] i = some d ∨ timeToExpiryCriticalRule 7 i = some d ∨ d.priority ≤ 4 := by
  rcases mem_evaluated.mp h with h | h | h | h | h
  · have := signalReverse_priority h
    omega
  · have := timeBased_priority h
    omega
  · have := stopLoss_priority h
    omega
  · exact .inr (.inl h)
  · exact .inl h

/-- The winner is the first on a ladder: the regime, the expiry, the signal, be it to trim or to exit,
the stop loss, the time. -/
theorem winner_eq (i : RuleInputs) : pickWinningDecision (evaluateAllRules exitRules i) =
    ((((preEventRegimeRule [.preEvent] i).or (timeToExpiryCriticalRule 7 i)).or
      (signalReverseRule (1 / 2) true i)).or (stopLossVegaRule 3 i)).or (timeBasedRule (3 / 10) i) := by
  rw [pickWinningDecision]
  cases hevent : preEventRegimeRule [.preEvent] i with
  | some d =>
    refine argmax_of_lt (mem_evaluated.mpr (by simp [hevent])) fun b hb hne => ?_
    rw [preEvent_priority hevent]
    rcases evaluated_below hb with h | h | h
    · exact absurd (Option.some.inj (h.symm.trans hevent)) hne
    · have := timeToExpiry_priority h
      omega
    · omega
  | none =>
    cases hexpiry : timeToExpiryCriticalRule 7 i with
    | some d =>
      refine argmax_of_lt (mem_evaluated.mpr (by simp [hexpiry])) fun b hb hne => ?_
      rw [timeToExpiry_priority hexpiry]
      rcases evaluated_below hb with h | h | h
      · cases hevent.symm.trans h
      · exact absurd (Option.some.inj (h.symm.trans hexpiry)) hne
      · omega
    | none =>
      have hrest : evaluateAllRules exitRules i = (signalReverseRule (1 / 2) true i).toList ++
          ((timeBasedRule (3 / 10) i).toList ++ (stopLossVegaRule 3 i).toList) := by
        simp only [evaluateAllRules, exitRules, List.filterMap_cons, List.filterMap_nil, hevent, hexpiry]
        cases signalReverseRule (1 / 2) true i <;> cases timeBasedRule (3 / 10) i <;>
          cases stopLossVegaRule 3 i <;> rfl
      rw [hrest]
      cases hsignal : signalReverseRule (1 / 2) true i with
      | some d =>
        -- a trim is no higher than the stop loss, but comes first
        refine argmax_cons_of_le fun b hb => ?_
        have hlow := signalReverse_priority hsignal
        have hlater : b ∈ (timeBasedRule (3 / 10) i).toList ++ (stopLossVegaRule 3 i).toList := hb
        rcases List.mem_append.mp hlater with h | h
        · have := timeBased_priority (Option.mem_toList.mp h)
          omega
        · have := stopLoss_priority (Option.mem_toList.mp h)
          omega
      | none =>
        cases hloss : stopLossVegaRule 3 i with
        | some d =>
          refine argmax_of_lt (by simp) fun b hb hne => ?_
          have hmem : timeBasedRule (3 / 10) i = some b ∨ b = d := by simpa using hb
          rw [stopLoss_priority hloss]
          rcases hmem with h | h
          · have := timeBased_priority h
            omega
          · exact absurd h hne
        | none => cases timeBasedRule (3 / 10) i <;> rfl

end Ladder

end FxVol.ExitRules
