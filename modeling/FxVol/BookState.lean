import FxVol.StructureCompletion
import Mathlib.Data.List.Dedup

/-!
# The book state

The totals of `refresh_book_state`: sums of the entry greeks and premiums over the open rows of
`booked_position`.
-/
namespace FxVol.BookState

/-- The entry greeks of a booked position, null where its writer left them out. -/
structure EntryGreeks where
  vegaUsdPerVolpt : Option ℚ
  gammaUsdPerPip2 : Option ℚ
  thetaUsdPerDay : Option ℚ
  deriving DecidableEq

/-- What every reader makes of a null. -/
def EntryGreeks.read (g : EntryGreeks) : ℚ × ℚ × ℚ :=
  (g.vegaUsdPerVolpt.getD 0, g.gammaUsdPerPip2.getD 0, g.thetaUsdPerDay.getD 0)

/-- A row of `booked_position` with its entry greeks. -/
structure PositionRow extends BookedPosition where
  entryGreeks : EntryGreeks
  deriving DecidableEq

structure BookTotals where
  totalVegaUsd : ℚ
  totalGammaUsd : ℚ
  totalThetaUsd : ℚ
  totalDelta : ℚ
  nOpenStructures : ℕ
  nOpenLegs : ℕ
  notionalEngagedUsd : ℚ
  deriving DecidableEq

def bookTotals (rows : List PositionRow) : BookTotals :=
  let open' := rows.filter (·.state = .open)
  let structures := (open'.map (·.structureId)).dedup.length
  { totalVegaUsd := pyRound (open'.map (·.entryGreeks.read.1)).sum 4
    totalGammaUsd := pyRound (open'.map (·.entryGreeks.read.2.1)).sum 4
    totalThetaUsd := pyRound (open'.map (·.entryGreeks.read.2.2)).sum 4
    totalDelta := 0
    nOpenStructures := structures
    nOpenLegs := structures
    notionalEngagedUsd := pyRound (open'.map (·.entryPremiumUsd)).sum 2 }

/-- The totals read no more of a row than its structure, premium, state and greeks. -/
theorem bookTotals_congr {rows : List PositionRow} {p q : PositionRow} (hid : q.structureId = p.structureId)
    (hpremium : q.entryPremiumUsd = p.entryPremiumUsd) (hstate : q.state = p.state)
    (hgreeks : q.entryGreeks.read = p.entryGreeks.read) : bookTotals (rows ++ [q]) = bookTotals (rows ++ [p]) := by
  simp only [bookTotals, List.filter_append, List.filter_singleton, hstate]
  by_cases hopen : p.state = .open
  · simp [hopen, hid, hpremium, hgreeks]
  · simp [hopen]

end FxVol.BookState
