import FxVol.PositionSync
import Mathlib.Data.List.Sort
import Mathlib.Data.String.Basic

/-!
# Breaks between the book and the mirror

`reconcile_positions` adds up `leg_position.open_qty` under each recorded `ib_local_symbol`,
nets the mirror under each symbol, and keeps one open row of `reconciliation_break` for every
symbol where the two differ.
-/
namespace FxVol

inductive BreakType | missingAtIb | unbookedAtIb | direction | quantity
  deriving DecidableEq

def breakEps : ℚ := 1 / 10000

def classifyBreak (bookQty brokerQty : ℚ) : Option BreakType :=
  let book := pyRound bookQty 4
  let broker := pyRound brokerQty 4
  if |pyRound (book - broker) 4| ≤ breakEps then none
  else if broker = 0 then some .missingAtIb
  else if book = 0 then some .unbookedAtIb
  else if ¬ (0 < book ↔ 0 < broker) then some .direction
  else some .quantity

structure PositionBreak where
  contract : String
  bookQty : ℚ
  brokerQty : ℚ
  diff : ℚ
  breakType : BreakType
  deriving DecidableEq

def breakAt (book broker : String → ℚ) (contract : String) : Option PositionBreak :=
  let b := pyRound (book contract) 4
  let k := pyRound (broker contract) 4
  (classifyBreak b k).map fun breakType =>
    { contract := contract
      bookQty := b
      brokerQty := k
      diff := pyRound (b - k) 4
      breakType := breakType }

/-- `compute_breaks`, over the keys of the two dicts; a dict reads 0 where it has no key. -/
def computeBreaks (keys : List String) (book broker : String → ℚ) : List PositionBreak :=
  (keys.dedup.insertionSort (· ≤ ·)).filterMap (breakAt book broker)

/-- The symbol `_book_by_contract` files a leg under. -/
def StructureOrder.bookKey (o : StructureOrder) : Option String := o.ibLocalSymbol.bind nonEmpty

/-- The rows of the join of `trade_order` with `leg_position`, by symbol. -/
def bookRows (db : Db) : List (String × ℤ) :=
  db.orders.zipIdx.filterMap fun p =>
    (p.1.bookKey).bind fun sym => (db.legPositions p.2).map fun lp => (sym, lp.openQty)

def bookByContract (db : Db) (contract : String) : ℚ :=
  (((bookRows db).filter fun r => r.1 = contract).map fun r => (r.2 : ℚ)).sum

def MirrorRow.signedQty (r : MirrorRow) : ℚ := sideSign r.side * r.quantity

def brokerByContract (mirror : List MirrorRow) (contract : String) : ℚ :=
  ((mirror.filter fun r => r.localSymbol = contract).map MirrorRow.signedQty).sum

/-- The contracts of the two dicts. -/
def reconciledContracts (db : Db) (mirror : List MirrorRow) : List String :=
  (bookRows db).map (·.1) ++ (mirror.map (·.localSymbol)).filter fun k => k ≠ ""

/-- One row of `reconciliation_break`.  Rows are never deleted. -/
structure BreakRow where
  localSymbol : String
  bookQty : ℚ
  brokerQty : ℚ
  diff : ℚ
  breakType : BreakType
  detectedAt : Instant
  lastSeenAt : Instant
  resolvedAt : Option Instant
  deriving DecidableEq

def PositionBreak.newRow (br : PositionBreak) (now : Instant) : BreakRow where
  localSymbol := br.contract
  bookQty := br.bookQty
  brokerQty := br.brokerQty
  diff := br.diff
  breakType := br.breakType
  detectedAt := now
  lastSeenAt := now
  resolvedAt := none

def BreakRow.seen (r : BreakRow) (br : PositionBreak) (now : Instant) : BreakRow :=
  { r with
    bookQty := br.bookQty
    brokerQty := br.brokerQty
    diff := br.diff
    breakType := br.breakType
    lastSeenAt := now }

/-- `open_by_contract.get(contract)`: the key of the last open row of the contract. -/
def openByContract (rows : List BreakRow) (contract : String) : Option ℕ :=
  ((rows.zipIdx.filter fun p => p.1.resolvedAt = none ∧ p.1.localSymbol = contract).map
    (·.2)).getLast?

/-- What the pass does to the row with key `i`, given the breaks it found. -/
def reviewRow (rows : List BreakRow) (breaks : List PositionBreak) (now : Instant) (r : BreakRow)
    (i : ℕ) : BreakRow :=
  if openByContract rows r.localSymbol = some i then
    match breaks.find? fun br => br.contract = r.localSymbol with
    | some br => r.seen br now
    | none => { r with resolvedAt := some now }
  else r

def reconcilePositions (db : Db) (mirror : List MirrorRow) (reporting : Bool) (now : Instant)
    (rows : List BreakRow) : List BreakRow :=
  if ¬ reporting then rows
  else
    let breaks := computeBreaks (reconciledContracts db mirror) (bookByContract db)
      (brokerByContract mirror)
    rows.zipIdx.map (fun p => reviewRow rows breaks now p.1 p.2) ++
      (breaks.filter fun br => openByContract rows br.contract = none).map (·.newRow now)

structure BreakWorld where
  db : Db
  mirror : List MirrorRow
  breaks : List BreakRow

def BreakWorld.empty : BreakWorld := ⟨.empty, [], []⟩

/-- Transactions of the order book, any change of the mirror, and passes. -/
inductive BreakEvent
  | book (e : Event)
  | mirror (rows : List MirrorRow)
  | pass (reporting : Bool) (now : Instant)

def breakStep (w : BreakWorld) : BreakEvent → BreakWorld
  | .book e => { w with db := step w.db e }
  | .mirror rows => { w with mirror := rows }
  | .pass reporting now =>
    { w with breaks := reconcilePositions w.db w.mirror reporting now w.breaks }

end FxVol
