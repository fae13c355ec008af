import FxVol.PositionReconciliation
import FxVol.KeyedLog

/-!
# The mirror of the account

`sync_positions_from_ib` copies the positions IB reports into `open_position`: a row for each
`localSymbol`, refreshed in place, added when it is new, and deleted when IB does not report
the symbol any more and the snapshot is trusted.  Quantities fit the four decimals of the
column.
-/
namespace FxVol

open KeyedLog

structure ReportedPosition extends IbPosition where
  conId : Option ℕ
  deriving DecidableEq

/-- What the executor answers during a pass: the connection, whether account values or a
portfolio are streaming, and `list_positions`. -/
structure AccountSnapshot where
  connected : Bool
  streaming : Bool
  positions : List ReportedPosition
  deriving DecidableEq

namespace AccountSnapshot
variable (s : AccountSnapshot)

/-- `account_is_reporting` -/
def reporting : Bool := s.connected && s.streaming

/-- `ib_active` -/
def active : List ReportedPosition := s.positions.filter fun p => 0 < |p.position|

/-- The keys of `ib_by_key`, in the order of the dict; entries without a symbol are skipped. -/
def keys : List String :=
  recordAll id [] ((s.active.map (·.localSymbol)).filter fun k => k ≠ "")

/-- `ib_by_key.get(k)`: the last entry with the symbol wins. -/
def reported (k : String) : Option ReportedPosition :=
  if k = "" then none else (s.active.filter fun p => p.localSymbol = k).getLast?

end AccountSnapshot

/-- One row of `open_position`, with the columns a pass keeps in step with IB. -/
structure MirrorRow where
  id : ℕ
  localSymbol : String
  contractId : Option ℕ
  tradeId : Option ℕ
  side : Side
  quantity : ℚ
  entryTimestamp : Instant
  deriving DecidableEq

structure Mirror where
  rows : List MirrorRow
  nextId : ℕ
  deriving DecidableEq

def Mirror.empty : Mirror := ⟨[], 0⟩

namespace Mirror

def rowsAt (m : Mirror) (k : String) : List MirrorRow := m.rows.filter fun r => r.localSymbol = k

/-- `db_by_key.get(k)` -/
def byKey (m : Mirror) (k : String) : Option MirrorRow :=
  if k = "" then none else (m.rowsAt k).getLast?

end Mirror

/-- `_PARENT_LIVE_STATES` -/
def StructureState.parentLive (s : StructureState) : Bool :=
  s = .submitted ∨ s = .partialFill ∨ s = .fullyFilled ∨ s = .partialFail

/-- `_build_leg_to_trade_map`, looked up at a symbol: the latest live structure with an entry
leg on it. -/
def legToTrade (db : Db) (k : String) : Option ℕ :=
  let live := db.structures.zipIdx.filter fun p => p.1.state.parentLive
  let legs := live.flatMap fun p => entryOrders db p.2
  ((legs.filter fun p => orKey p.1.ibLocalSymbol p.1.ibKey = some k).map (·.1.structureId)).getLast?
where
  /-- `leg.ib_local_symbol or _structure_order_to_ib_key(leg)` -/
  orKey (recorded rebuilt : Option String) : Option String :=
    if recorded.getD "" = "" then rebuilt else recorded

def ReportedPosition.side (p : ReportedPosition) : Side := if 0 < p.position then .buy else .sell

def MirrorRow.refresh (r : MirrorRow) (p : ReportedPosition) (tradeId : Option ℕ) : MirrorRow :=
  { r with contractId := p.conId, tradeId := tradeId, side := p.side, quantity := |p.position| }

section Sync
variable (db : Db) (s : AccountSnapshot) (now : Instant) (m : Mirror)

/-- The row found under its key, refreshed from what IB reports there. -/
def upsertRow (r : MirrorRow) : MirrorRow :=
  match s.reported r.localSymbol with
  | some p =>
    if m.byKey r.localSymbol = some r then r.refresh p (legToTrade db r.localSymbol) else r
  | none => r

def newRow (k : String) (id : ℕ) : Option MirrorRow :=
  (s.reported k).map fun p =>
    { id := id
      localSymbol := k
      contractId := p.conId
      tradeId := legToTrade db k
      side := p.side
      quantity := |p.position|
      entryTimestamp := now }

/-- The keys IB reports that have no row yet. -/
def newKeys : List String := s.keys.filter fun k => m.byKey k = none

/-- The upserts of a pass: rows in place, new rows behind them. -/
def upserts : Mirror where
  rows := m.rows.map (upsertRow db s m) ++
    (newKeys s m).zipIdx.filterMap fun x => newRow db s now x.1 (m.nextId + x.2)
  nextId := m.nextId + (newKeys s m).length

def trustworthy : Bool :=
  s.reporting ∧ ¬ (s.active = [] ∧ ∃ r ∈ m.rows, r.localSymbol ≠ "")

/-- The rows of `db_by_key` whose key IB does not report. -/
def goneAtIb (r : MirrorRow) : Bool :=
  (m.byKey r.localSymbol).any (·.id = r.id) ∧ r.localSymbol ∉ s.keys

/-- `sync_positions_from_ib` -/
def syncPositions : Mirror :=
  if ¬ s.connected then m
  else if trustworthy s m then
    { upserts db s now m with
      rows := (upserts db s now m).rows.filter fun r => ¬ goneAtIb s m r }
  else upserts db s now m

end Sync

end FxVol
