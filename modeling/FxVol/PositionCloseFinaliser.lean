import FxVol.FillHandlers
import FxVol.StructureCompletion

/-!
# The close of a booked position

Once a closing structure is fully filled, `finalise_position_close` closes the position its
exit alert names and stamps the P&L, from the aggregates both structures were completed with.
-/
namespace FxVol

structure CloseStamp where
  closedAt : Instant
  closeReason : String
  exitPremiumUsd : ℚ
  exitTotalCostUsd : ℚ
  grossPnlUsd : ℚ
  netPnlUsd : ℚ
  deriving DecidableEq

/-- The stamp of a position whose closing structure is `closing`; `hedgeCost` is what its
filled hedge orders cost. -/
def closeStamp (closing : TradeStructure) (alert : ExitAlert) (pos : BookedPosition)
    (hedgeCost : ℚ) (now : Instant) : CloseStamp :=
  let exitPremium := closing.totalPremiumPaidUsd.getD 0
  let exitTotalCost := closing.totalEntryCostUsd.getD 0
  let gross := -exitPremium - pos.entryPremiumUsd
  let net := gross - pos.entryTotalCostUsd - exitTotalCost - hedgeCost
  { closedAt := now
    closeReason := truncate 80 alert.ruleTriggered
    exitPremiumUsd := exitPremium
    exitTotalCostUsd := exitTotalCost
    grossPnlUsd := pyRound gross 2
    netPnlUsd := pyRound net 2 }

def ExitAlert.done (alert : ExitAlert) : ExitAlert :=
  if alert.executionStatus = some "in_progress" then { alert with executionStatus := some "done" }
  else alert

/-- `finalise_position_close`: the new tables and the stamp; `none` when it closes nothing. -/
def finalisePositionClose (db : Db) (closingStructureId : ℕ) (hedgeCost : ℚ) (now : Instant) :
    Option (Db × CloseStamp) :=
  match db.structures[closingStructureId]? with
  | none => none
  | some closing =>
    if closing.state ≠ .fullyFilled then none
    else match db.exitAlerts.zipIdx.find? fun p => p.1.closingStructureId = some closingStructureId
      with
      | none => none
      | some (alert, k) =>
        match db.bookedPositions[alert.positionId]? with
        | none => none
        | some pos =>
          if pos.state = .closed then none
          else some
            ({ db with
                bookedPositions := db.bookedPositions.set alert.positionId
                  { pos with state := .closed }
                exitAlerts := db.exitAlerts.set k alert.done },
              closeStamp closing alert pos hedgeCost now)

end FxVol
