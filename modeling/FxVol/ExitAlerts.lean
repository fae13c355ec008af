import FxVol.ExitRules
import FxVol.MonitoredPnl

/-!
# Whether an exit alert can be masked

A monitor cycle writes an alert for the rule that wins, if that rule has not written one within the
cooldown; an exit alert is handed on to be closed where auto-execution is enabled.
-/
namespace FxVol.ExitAlerts

open ExitRules PositionMarks BookState BookingPaths MonitoredPnl TradePreviews
open PreviewRequests (Regime)

/-- A row of `exit_alert`, with the columns the monitor writes -/
structure AlertRow where
  positionId : ℕ
  timestamp : Instant
  ruleTriggered : RuleName
  actionRecommended : ExitAction
  priority : ℕ
  ruleDetail : RuleDetail
  deriving DecidableEq

/-- What the structure of a position holds for the rules. -/
structure ArmedStructure where
  triggeringPc : Option ℤ
  armedZScore : Option ℚ
  expiryDate : Option Date
  deriving DecidableEq

inductive BookingPath | mock | live
  deriving DecidableEq

def BookingPath.entryGreeks (payload : PreviewPayload) : BookingPath → EntryGreeks
  | .mock => mockGreeks payload
  | .live => liveGreeks

structure Position extends BookedPosition where
  path : BookingPath
  payload : PreviewPayload
  struct : Option ArmedStructure

namespace Position

def row (pos : Position) : PositionRow := ⟨pos.toBookedPosition, pos.path.entryGreeks pos.payload⟩

def legsVega (pos : Position) : ℚ := pos.payload.greeksNet.vegaUsdPerVolpt

end Position

/-- What a cycle reads: the tables, the market, the signals and the regime, and `hedgeCost`, what the
filled hedges of a position have cost. -/
structure Cycle where
  db : Db
  positions : List Position
  market : Market
  hedgeCost : ℕ → ℚ
  currentSignals : ℤ → Option ℚ
  currentRegime : Option Regime
  now : Instant
  autoExecute : Bool

def Cycle.openPositions (c : Cycle) : List (ℕ × Position) :=
  (c.positions.mapIdx Prod.mk).filter fun p => p.2.state = .open

def daysRemaining (struct : ArmedStructure) (now : Instant) : ℤ :=
  struct.expiryDate.elim 90 fun expiry => max 0 (expiry.toOrdinal - dateOrdinal now)

def dteAtEntry (struct : ArmedStructure) (openedAt : Instant) : ℤ :=
  struct.expiryDate.elim 90 fun expiry => max 1 (expiry.toOrdinal - dateOrdinal openedAt)

/-- The alerts, and the closes that were initiated: the position with the key of its alert. -/
structure AlertLog where
  alerts : List AlertRow
  closes : List (ℕ × ℕ)
  deriving DecidableEq

def alertCooldown : Instant := 5 * 60 * 1000000

def recentAlertExists (alerts : List AlertRow) (positionId : ℕ) (rule : RuleName) (now : Instant) :
    Prop :=
  ∃ a ∈ alerts, a.positionId = positionId ∧ a.ruleTriggered = rule ∧ now - alertCooldown < a.timestamp

instance (alerts : List AlertRow) (positionId : ℕ) (rule : RuleName) (now : Instant) :
    Decidable (recentAlertExists alerts positionId rule now) :=
  inferInstanceAs (Decidable (∃ a ∈ alerts, _))

section Cycles
variable (N : VolSurface.Numerics) (c : Cycle)

def ruleInputs (positionId : ℕ) (pos : Position) (struct : ArmedStructure) : RuleInputs where
  ctx :=
    { triggeringPc := struct.triggeringPc
      entryZScore := struct.armedZScore
      entryVegaUsdPerVolpt := pos.row.entryGreeks.vegaUsdPerVolpt.getD 0
      dteAtEntry := dteAtEntry struct pos.openedAt
      daysRemaining := daysRemaining struct c.now }
  mtmPnlGrossUsd := (monitoredMtm N c.db pos.row c.market c.now (c.hedgeCost positionId)).pnlGrossUsd
  currentSignals := c.currentSignals
  regime := c.currentRegime

/-- What the rules make of a position; without its structure there is nothing to go by. -/
def decisions (positionId : ℕ) (pos : Position) : List ExitDecision :=
  pos.struct.elim [] fun struct => evaluateAllRules exitRules (ruleInputs N c positionId pos struct)

def alertOf (positionId : ℕ) (d : ExitDecision) : AlertRow :=
  ⟨positionId, c.now, d.ruleName, d.action, d.priority, d.detail⟩

/-- The alert of `_monitor_one` -/
def monitorOne (log : AlertLog) (positionId : ℕ) (pos : Position) : AlertLog :=
  match pickWinningDecision (decisions N c positionId pos) with
  | none => log
  | some winner =>
    if recentAlertExists log.alerts positionId winner.ruleName c.now then log
    else
      { alerts := log.alerts ++ [alertOf c positionId winner]
        closes := if winner.action = .exit ∧ c.autoExecute then log.closes ++ [(positionId, log.alerts.length)]
          else log.closes }

/-- The alerts of `_cycle` -/
def cycle (log : AlertLog) : AlertLog :=
  c.openPositions.foldl (fun log p => monitorOne N c log p.1 p.2) log

/-- A rule says to exit, or the gross loss is beyond three times the vega of the legs. -/
def CallsExit (positionId : ℕ) (pos : Position) : Prop :=
  (∃ d ∈ decisions N c positionId pos, d.action = .exit) ∨
    (monitoredMtm N c.db pos.row c.market c.now (c.hedgeCost positionId)).pnlGrossUsd <
      -3 * |pos.legsVega|

/-- There is an exit alert of the last cooldown window, and its close where those are automatic. -/
def Covered (log : AlertLog) (positionId : ℕ) : Prop :=
  ∃ id a, log.alerts[id]? = some a ∧ a.positionId = positionId ∧ a.actionRecommended = .exit ∧
    c.now - alertCooldown < a.timestamp ∧ (c.autoExecute → (positionId, id) ∈ log.closes)

def NeverMasked (log : AlertLog) : Prop :=
  ∀ p ∈ c.openPositions, CallsExit N c p.1 p.2 → Covered c (cycle N c log) p.1

end Cycles

/-- The rule that gets to speak in a cycle says to exit and has been silent for the cooldown.  The
regime is asked first, then the expiry, the signal, the stop loss, which only a mock submit arms, and
the time. -/
inductive ExitHeard (alerts : List AlertRow) (now : Instant) (positionId : ℕ) (pos : Position)
    (i : RuleInputs) : Prop
  | preEvent (hregime : i.regime = some .preEvent)
      (hsilent : ¬ recentAlertExists alerts positionId .preEventRegime now)
  | expiry (hregime : i.regime ≠ some .preEvent) (hdays : i.ctx.daysRemaining < 7)
      (hsilent : ¬ recentAlertExists alerts positionId .timeToExpiryCritical now)
  | signal (hregime : i.regime ≠ some .preEvent) (hdays : 7 ≤ i.ctx.daysRemaining) (hgone : SignalGone i)
      (hsilent : ¬ recentAlertExists alerts positionId .signalReverse now)
  | stopLoss (hregime : i.regime ≠ some .preEvent) (hdays : 7 ≤ i.ctx.daysRemaining)
      (hgone : ¬ SignalGone i) (hweak : ¬ SignalWeakened i) (hpath : pos.path = .mock)
      (hvega : pos.legsVega ≠ 0) (hloss : LossBeyond i pos.legsVega)
      (hsilent : ¬ recentAlertExists alerts positionId .stopLossVega now)
  | time (hregime : i.regime ≠ some .preEvent) (hdays : 7 ≤ i.ctx.daysRemaining) (hgone : ¬ SignalGone i)
      (hweak : ¬ SignalWeakened i)
      (hloss : ¬ (pos.path = .mock ∧ pos.legsVega ≠ 0 ∧ LossBeyond i pos.legsVega)) (hspent : TimeSpent i)
      (hsilent : ¬ recentAlertExists alerts positionId .timeBased now)

section Winner
variable {N : VolSurface.Numerics} {c : Cycle} {alerts : List AlertRow} {positionId : ℕ} {pos : Position}
  {struct : ArmedStructure}

/-- The stop loss goes by the vega of the legs just where a mock submit booked them. -/
theorem stopLoss_armed : (ruleInputs N c positionId pos struct).ctx.entryVegaUsdPerVolpt ≠ 0 ∧
      LossBeyond (ruleInputs N c positionId pos struct)
        (ruleInputs N c positionId pos struct).ctx.entryVegaUsdPerVolpt ↔
    pos.path = .mock ∧ pos.legsVega ≠ 0 ∧ LossBeyond (ruleInputs N c positionId pos struct) pos.legsVega := by
  simp only [ruleInputs, Position.row]
  cases pos.path with
  | mock => simp [BookingPath.entryGreeks, mockGreeks, Position.legsVega]
  | live => simp [BookingPath.entryGreeks, liveGreeks]

/-- The rule that speaks says to exit, and has been silent. -/
def WritesExit (N : VolSurface.Numerics) (c : Cycle) (alerts : List AlertRow) (positionId : ℕ)
    (pos : Position) : Prop :=
  ∃ d, pickWinningDecision (decisions N c positionId pos) = some d ∧ d.action = .exit ∧
    ¬ recentAlertExists alerts positionId d.ruleName c.now

theorem expiry_eq (i : RuleInputs) : timeToExpiryCriticalRule 7 i =
    if i.ctx.daysRemaining < 7 then some ⟨.timeToExpiryCritical, .exit, 5, .expiry i.ctx.daysRemaining 7⟩
    else none := rfl

theorem ExitHeard.writes (hstruct : pos.struct = some struct)
    (h : ExitHeard alerts c.now positionId pos (ruleInputs N c positionId pos struct)) :
    WritesExit N c alerts positionId pos := by
  have harmed := @stopLoss_armed N c positionId pos struct
  rw [WritesExit, decisions, hstruct, Option.elim_some, winner_eq, preEvent_eq, expiry_eq]
  generalize ruleInputs N c positionId pos struct = i at h harmed ⊢
  cases h with
  | preEvent hregime hsilent =>
    rw [if_pos hregime]
    exact ⟨_, rfl, rfl, hsilent⟩
  | expiry hregime hdays hsilent =>
    rw [if_neg hregime, if_pos hdays]
    exact ⟨_, rfl, rfl, hsilent⟩
  | signal hregime hdays hgone hsilent =>
    obtain ⟨detail, hsignal⟩ := signalReverse_gone i hgone
    rw [if_neg hregime, if_neg (not_lt.mpr hdays), hsignal]
    exact ⟨_, rfl, rfl, hsilent⟩
  | stopLoss hregime hdays hgone hweak hpath hvega hloss hsilent =>
    obtain ⟨hvega, hbeyond⟩ := harmed.mpr ⟨hpath, hvega, hloss⟩
    obtain ⟨detail, hstop⟩ := stopLoss_beyond i hvega hbeyond
    rw [if_neg hregime, if_neg (not_lt.mpr hdays), signalReverse_none i hgone hweak, hstop]
    exact ⟨_, rfl, rfl, hsilent⟩
  | time hregime hdays hgone hweak hloss hspent hsilent =>
    obtain ⟨detail, htime⟩ := timeBased_spent i hspent
    rw [if_neg hregime, if_neg (not_lt.mpr hdays), signalReverse_none i hgone hweak,
      stopLoss_none i (fun h => hloss (harmed.mp h)), htime]
    exact ⟨_, rfl, rfl, hsilent⟩

theorem WritesExit.heard (hstruct : pos.struct = some struct) (h : WritesExit N c alerts positionId pos) :
    ExitHeard alerts c.now positionId pos (ruleInputs N c positionId pos struct) := by
  have harmed := @stopLoss_armed N c positionId pos struct
  rw [WritesExit, decisions, hstruct, Option.elim_some, winner_eq, preEvent_eq, expiry_eq] at h
  generalize ruleInputs N c positionId pos struct = i at h harmed ⊢
  obtain ⟨d, hwinner, hexit, hsilent⟩ := h
  by_cases hregime : i.regime = some .preEvent
  · rw [if_pos hregime] at hwinner
    cases hwinner
    exact .preEvent hregime hsilent
  rw [if_neg hregime] at hwinner
  by_cases hdays : i.ctx.daysRemaining < 7
  · rw [if_pos hdays] at hwinner
    cases hwinner
    exact .expiry hregime hdays hsilent
  rw [if_neg hdays] at hwinner
  have hlate := not_lt.mp hdays
  by_cases hgone : SignalGone i
  · obtain ⟨detail, hsignal⟩ := signalReverse_gone i hgone
    rw [hsignal] at hwinner
    cases hwinner
    exact .signal hregime hlate hgone hsilent
  by_cases hweak : SignalWeakened i
  · -- the trim keeps the stop loss and the time from speaking
    obtain ⟨detail, hsignal⟩ := signalReverse_weakened i hweak hgone
    rw [hsignal] at hwinner
    cases hwinner
    cases hexit
  rw [signalReverse_none i hgone hweak] at hwinner
  by_cases hloss : pos.path = .mock ∧ pos.legsVega ≠ 0 ∧ LossBeyond i pos.legsVega
  · obtain ⟨hvega, hbeyond⟩ := harmed.mpr hloss
    obtain ⟨detail, hstop⟩ := stopLoss_beyond i hvega hbeyond
    rw [hstop] at hwinner
    cases hwinner
    exact .stopLoss hregime hlate hgone hweak hloss.1 hloss.2.1 hloss.2.2 hsilent
  rw [stopLoss_none i fun h => hloss (harmed.mp h)] at hwinner
  by_cases hspent : TimeSpent i
  · obtain ⟨detail, htime⟩ := timeBased_spent i hspent
    rw [htime] at hwinner
    cases hwinner
    exact .time hregime hlate hgone hweak hloss hspent hsilent
  · rw [timeBased_none i hspent] at hwinner
    cases hwinner

end Winner

section Step
variable {N : VolSurface.Numerics} {c : Cycle} {log : AlertLog} {i j : ℕ} {pos : Position}

/-- What the monitor does to the log for a position. -/
theorem monitorOne_cases (N : VolSurface.Numerics) (c : Cycle) (log : AlertLog) (i : ℕ) (pos : Position) :
    (monitorOne N c log i pos = log ∧ ¬ WritesExit N c log.alerts i pos) ∨
    ∃ d, pickWinningDecision (decisions N c i pos) = some d ∧
      ¬ recentAlertExists log.alerts i d.ruleName c.now ∧
      monitorOne N c log i pos = ⟨log.alerts ++ [alertOf c i d],
        if d.action = .exit ∧ c.autoExecute then log.closes ++ [(i, log.alerts.length)] else log.closes⟩ := by
  rw [monitorOne]
  cases hwinner : pickWinningDecision (decisions N c i pos) with
  | none =>
    refine .inl ⟨rfl, ?_⟩
    rintro ⟨d, hd, -⟩
    cases hwinner.symm.trans hd
  | some d =>
    by_cases hrecent : recentAlertExists log.alerts i d.ruleName c.now
    · refine .inl ⟨if_pos hrecent, ?_⟩
      rintro ⟨d', hd, -, hsilent⟩
      cases hwinner.symm.trans hd
      exact hsilent hrecent
    · exact .inr ⟨d, rfl, hrecent, if_neg hrecent⟩

theorem getElem?_concat_cases {α : Type*} {l : List α} {a b : α} {k : ℕ} (h : (l ++ [a])[k]? = some b) :
    l[k]? = some b ∨ (k = l.length ∧ a = b) := by
  rcases lt_or_ge k l.length with hlt | hge
  · rw [List.getElem?_append_left hlt] at h
    exact .inl h
  · rw [List.getElem?_append_right hge] at h
    have hk : k - l.length = 0 := by
      have hlt := (List.getElem?_eq_some_iff.mp h).1
      simpa using hlt
    rw [hk] at h
    exact .inr ⟨by omega, Option.some.inj h⟩

/-- An alert covers its own position if it is an exit, and uncovers none. -/
theorem covered_alert (d : ExitDecision) :
    Covered c ⟨log.alerts ++ [alertOf c i d],
        if d.action = .exit ∧ c.autoExecute then log.closes ++ [(i, log.alerts.length)] else log.closes⟩ j ↔
      Covered c log j ∨ (i = j ∧ d.action = .exit) := by
  constructor
  · rintro ⟨id, a, ha, hpos, hexit, hrecent, hclose⟩
    rcases getElem?_concat_cases ha with hold | ⟨-, rfl⟩
    · refine .inl ⟨id, a, hold, hpos, hexit, hrecent, fun hauto => ?_⟩
      have hlt := (List.getElem?_eq_some_iff.mp hold).1
      have hmem := hclose hauto
      split_ifs at hmem
      · rcases List.mem_append.mp hmem with hmem | hmem
        · exact hmem
        · have hid := (Prod.mk.inj (List.mem_singleton.mp hmem)).2
          omega
      · exact hmem
    · exact .inr ⟨hpos, hexit⟩
  · rintro (⟨id, a, ha, hpos, hexit, hrecent, hclose⟩ | ⟨rfl, hexit⟩)
    · refine ⟨id, a, ?_, hpos, hexit, hrecent, fun hauto => ?_⟩
      · rw [List.getElem?_append_left (List.getElem?_eq_some_iff.mp ha).1]
        exact ha
      · split_ifs
        · exact List.mem_append_left _ (hclose hauto)
        · exact hclose hauto
    · refine ⟨log.alerts.length, alertOf c i d, List.getElem?_concat_length, rfl, hexit, ?_, ?_⟩
      · exact sub_lt_self c.now (by decide)
      · intro hauto
        rw [if_pos ⟨hexit, hauto⟩]
        exact List.mem_append_right _ List.mem_cons_self

/-- The position is covered where it was, and where the rule that speaks writes an exit. -/
theorem monitorOne_covered : Covered c (monitorOne N c log i pos) i ↔
    Covered c log i ∨ WritesExit N c log.alerts i pos := by
  rcases monitorOne_cases N c log i pos with ⟨heq, hsilent⟩ | ⟨d, hwinner, hsilent, heq⟩
  · rw [heq]
    exact (or_iff_left hsilent).symm
  · rw [heq, covered_alert]
    refine or_congr Iff.rfl ⟨fun h => ⟨d, hwinner, h.2, hsilent⟩, ?_⟩
    rintro ⟨d', hd, hexit, -⟩
    cases hwinner.symm.trans hd
    exact ⟨rfl, hexit⟩

/-- The other positions are as covered as before, -/
theorem monitorOne_covered_other (hij : i ≠ j) :
    Covered c (monitorOne N c log i pos) j ↔ Covered c log j := by
  rcases monitorOne_cases N c log i pos with ⟨heq, -⟩ | ⟨d, -, -, heq⟩
  · rw [heq]
  · rw [heq, covered_alert]
    exact or_iff_left fun h => hij h.1

theorem monitorOne_recent_other (hij : i ≠ j) (rule : RuleName) :
    recentAlertExists (monitorOne N c log i pos).alerts j rule c.now ↔
      recentAlertExists log.alerts j rule c.now := by
  rcases monitorOne_cases N c log i pos with ⟨heq, -⟩ | ⟨d, -, -, heq⟩
  · rw [heq]
  · rw [heq]
    constructor
    · rintro ⟨a, ha, hpos, h⟩
      rcases List.mem_append.mp ha with ha | ha
      · exact ⟨a, ha, hpos, h⟩
      · cases List.mem_singleton.mp ha
        exact absurd hpos hij
    · rintro ⟨a, ha, h⟩
      exact ⟨a, List.mem_append_left _ ha, h⟩

/-- and their rules as silent. -/
theorem monitorOne_writes_other {pos' : Position} (hij : i ≠ j) :
    WritesExit N c (monitorOne N c log i pos).alerts j pos' ↔ WritesExit N c log.alerts j pos' := by
  simp only [WritesExit, monitorOne_recent_other hij]

end Step

theorem monitor_covered {N : VolSurface.Numerics} {c : Cycle} {ps : List (ℕ × Position)}
    (hnodup : (ps.map Prod.fst).Nodup) {p : ℕ × Position} (hp : p ∈ ps) (log : AlertLog) :
    Covered c (ps.foldl (fun log p => monitorOne N c log p.1 p.2) log) p.1 ↔
      Covered c log p.1 ∨ WritesExit N c log.alerts p.1 p.2 := by
  have hothers : ∀ (ps : List (ℕ × Position)) (log : AlertLog), p.1 ∉ ps.map Prod.fst →
      (Covered c (ps.foldl (fun log p => monitorOne N c log p.1 p.2) log) p.1 ↔ Covered c log p.1) := by
    intro ps
    induction ps with
    | nil => exact fun log _ => Iff.rfl
    | cons q ps ih =>
      intro log hnot
      rw [List.map_cons, List.mem_cons, not_or] at hnot
      rw [List.foldl_cons, ih _ hnot.2, monitorOne_covered_other (Ne.symm hnot.1)]
  induction ps generalizing log with
  | nil => cases hp
  | cons q ps ih =>
    rw [List.map_cons, List.nodup_cons] at hnodup
    rw [List.foldl_cons]
    rcases List.mem_cons.mp hp with rfl | hmem
    · rw [hothers ps _ hnodup.1, monitorOne_covered]
    · have hne : q.1 ≠ p.1 := fun heq => hnodup.1 (heq ▸ List.mem_map_of_mem hmem)
      exact (ih hnodup.2 hmem _).trans
        (or_congr (monitorOne_covered_other hne) (monitorOne_writes_other hne))

theorem openPositions_nodup (c : Cycle) : (c.openPositions.map Prod.fst).Nodup := by
  have hkeys : (c.positions.mapIdx Prod.mk).map Prod.fst = List.range c.positions.length := by
    apply List.ext_getElem
    · simp
    · intro k h₁ h₂
      simp
  refine List.Nodup.sublist (List.filter_sublist.map _) ?_
  rw [hkeys]
  exact List.nodup_range

/-- In a cycle no exit is masked just where each position that calls for one is covered already or
has it heard. -/
theorem never_masked_iff (N : VolSurface.Numerics) (c : Cycle) (log : AlertLog) : NeverMasked N c log ↔
    ∀ p ∈ c.openPositions, CallsExit N c p.1 p.2 → Covered c log p.1 ∨
      ∃ struct, p.2.struct = some struct ∧
        ExitHeard log.alerts c.now p.1 p.2 (ruleInputs N c p.1 p.2 struct) := by
  refine forall₂_congr fun p hp => imp_congr_right fun _ => ?_
  rw [cycle, monitor_covered (openPositions_nodup c) hp]
  refine or_congr Iff.rfl ⟨fun h => ?_, ?_⟩
  · cases hstruct : p.2.struct with
    | none =>
      obtain ⟨d, hd, -⟩ := h
      rw [decisions, hstruct] at hd
      cases hd
    | some struct => exact ⟨struct, rfl, h.heard hstruct⟩
  · rintro ⟨struct, hstruct, h⟩
    exact h.writes hstruct

instance (c : Cycle) (log : AlertLog) (positionId : ℕ) : Decidable (Covered c log positionId) :=
  decidable_of_iff (∃ id, id < log.alerts.length ∧ ∃ a ∈ log.alerts[id]?,
      a.positionId = positionId ∧ a.actionRecommended = .exit ∧ c.now - alertCooldown < a.timestamp ∧
        (c.autoExecute → (positionId, id) ∈ log.closes)) <| by
    constructor
    · rintro ⟨id, -, a, ha, h⟩
      exact ⟨id, a, ha, h⟩
    · rintro ⟨id, a, ha, h⟩
      exact ⟨id, (List.getElem?_eq_some_iff.mp ha).1, a, ha, h⟩

instance (N : VolSurface.Numerics) (c : Cycle) (positionId : ℕ) (pos : Position) :
    Decidable (CallsExit N c positionId pos) := inferInstanceAs (Decidable (_ ∨ _))

instance (N : VolSurface.Numerics) (c : Cycle) (log : AlertLog) : Decidable (NeverMasked N c log) :=
  inferInstanceAs (Decidable (∀ p ∈ c.openPositions, _))

def filledLive : Db :=
  (maybeCompleteStructure ([("a", 0), ("b", 0), ("c", 1), ("d", 1)].foldl (fun db fill =>
      step db (.execution fill.2 { execution fill.1 "BOT" 1 (some 2) with
        price := ((submittedStraddle.orders[fill.2]?).bind (·.previewPrice)).getD 0 } march))
    (submitPreview Db.empty (LegInstruments.liveLegs BookExposure.nearTheMoney BookExposure.straddleStructure
      (BookExposure.straddle 2) (GateClosure.published (1 / 100)) LegInstruments.june) march)) 0 march).1

def heldStraddle (path : BookingPath) : Position :=
  { straddlePosition with
    path := path
    payload := BookExposure.straddlePayload 2
    struct := some ⟨some 1, some 2, some (LegInstruments.june 90)⟩ }

/-- The volatility has fallen from seven to three. -/
def fallen : Market where
  surface := some { syntheticSurface with
    cell := fun t d => (syntheticSurface.cell t d).map fun cell => { cell with iv := some (3 / 100) } }
  spotNow := some (10856557 / 10000000)
  ivNowPct := some 3

/-- A cycle that many seconds after the booking, with the signal at `z` -/
def watch (path : BookingPath) (z : ℚ) (seconds : ℤ) : Cycle where
  db := if path = .mock then bookedStraddle else filledLive
  positions := [heldStraddle path]
  market := fallen
  hedgeCost _ := 0
  currentSignals _ := some z
  currentRegime := some .calm
  now := march + seconds * 1000000
  autoExecute := true

/-- A trim outranks the stop loss, it keeps a reversal a minute later from being heard, and where the
legs were filled live the stop loss never speaks. -/
theorem exit_masked :
    ¬ NeverMasked surfaceNumerics (watch .mock (4 / 5) 60) ⟨[], []⟩ ∧
    ¬ NeverMasked surfaceNumerics (watch .mock (-1) 120)
      (cycle surfaceNumerics (watch .mock (4 / 5) 60) ⟨[], []⟩) ∧
    ¬ NeverMasked surfaceNumerics (watch .live 2 60) ⟨[], []⟩ := by
  decide +kernel

end FxVol.ExitAlerts
