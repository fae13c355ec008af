import FxVol.GateUnits
import FxVol.BreakReconciler
import FxVol.RowUpdates
import Mathlib.Data.Fintype.Basic

/-!
# The greeks of the book

Live submits that pass the gate, the fills of their legs, and their way into the rows of
`open_position`: IB reports the account, the sync mirrors it, a pass of the risk engine loads the
rows and writes their greeks later.  Market data and caps are constant.
-/
namespace FxVol.BookExposure

open Greeks TradePreviews PretradeGate

inductive Axis | delta | vega | gamma
  deriving DecidableEq

instance : Fintype Axis where
  elems := {.delta, .vega, .gamma}
  complete a := by cases a <;> simp

namespace Axis

def position : Axis → PositionGreeks → ℚ
  | delta => PositionGreeks.deltaUsd
  | vega => PositionGreeks.vegaUsdPerVolpt
  | gamma => PositionGreeks.gammaUsdPerPip

def row : Axis → RowGreeks → ℚ
  | delta => RowGreeks.deltaUsd
  | vega => RowGreeks.vegaUsd
  | gamma => RowGreeks.gammaUsd

def book : Axis → BookGreeks → ℚ
  | delta => BookGreeks.deltaUsd
  | vega => BookGreeks.vegaUsdPerVolpt
  | gamma => BookGreeks.gammaUsdPerPip

def trade : Axis → TradeGreeks → ℚ
  | delta => TradeGreeks.deltaUsd
  | vega => TradeGreeks.vegaUsdPerVolpt
  | gamma => TradeGreeks.gammaUsdPerPip

def cap : Axis → GreekCaps → ℚ
  | delta => GreekCaps.deltaUsd
  | vega => GreekCaps.vegaUsd
  | gamma => GreekCaps.gammaPip

theorem book_bookGreeks (a : Axis) (rows : List (Option RowGreeks)) :
    a.book (bookGreeks rows) = (rows.map fun row => (row.map a.row).getD 0).sum := by
  cases a <;> rfl

end Axis

/-- What does not change over a run: the spot, the years to expiry and the volatility of each
contract, by local symbol, what IB reports of it besides the position, and the caps. -/
structure Market where
  numerics : Numerics
  spot : ℚ
  years : String → ℚ
  iv : String → ℚ
  contract : String → ReportedPosition
  caps : GreekCaps

/-- The greeks of `_persist_position_snapshots`, none for a symbol that `_load_positions` skips and
for an option that has no strike or has expired. -/
def greeksOf (m : Market) (localSymbol : String) (quantity : ℚ) : Option PositionGreeks :=
  (parseLocalSymbol localSymbol).bind fun spec =>
    if spec.instrumentType = .future then some (futureGreeks quantity spec.multiplier m.spot)
    else spec.optionType.bind fun right =>
      let K := spec.strike.getD 0
      let T := m.years localSymbol
      if 0 < K ∧ 0 < T then
        some (optionGreeks m.numerics quantity spec.multiplier m.spot K T (m.iv localSymbol) right)
      else none

def unit (m : Market) (a : Axis) (localSymbol : String) : ℚ :=
  ((greeksOf m localSymbol 1).map a.position).getD 0

/-- Greeks are linear in the quantity. -/
theorem greeksOf_position (m : Market) (a : Axis) (k : String) (q : ℚ) :
    ((greeksOf m k q).map a.position).getD 0 = q * unit m a k := by
  unfold unit greeksOf
  cases parseLocalSymbol k with
  | none => simp
  | some spec =>
    simp only [Option.bind_some]
    by_cases hfuture : spec.instrumentType = .future
    · rw [if_pos hfuture, if_pos hfuture]
      cases a <;> simp [Axis.position, futureGreeks]
      ring
    · rw [if_neg hfuture, if_neg hfuture]
      cases spec.optionType with
      | none => simp
      | some right =>
        simp only [Option.bind_some]
        split_ifs
        · cases a <;> simp [Axis.position, optionGreeks] <;> ring
        · simp

/-- A leg of a submitted structure, with the contract IB lists it under. -/
structure OrderedLeg where
  contract : String
  side : Side
  qty : ℤ
  filled : ℤ
  deriving DecidableEq

namespace OrderedLeg
variable (l : OrderedLeg)

def held : ℚ := sideSign l.side * l.filled

def rest : ℚ := sideSign l.side * (l.qty - l.filled)

/-- A fill of `n` contracts, at most what is left of the order. -/
def fill (n : ℕ) : OrderedLeg := { l with filled := min (l.filled + n) l.qty }

end OrderedLeg

structure Submitted where
  legs : List OrderedLeg
  terminal : Bool
  deriving DecidableEq

/-- What `_load_positions` reads of a row. -/
structure LoadedPosition where
  id : ℕ
  localSymbol : String
  quantity : ℚ
  deriving DecidableEq

/-- The greeks columns of `open_position` are kept by the id of their row. -/
structure World where
  submitted : List Submitted
  account : AccountSnapshot
  mirror : Mirror
  greeks : ℕ → Option RowGreeks
  loaded : List LoadedPosition

namespace World

def empty : World := ⟨[], ⟨true, true, []⟩, .empty, fun _ => none, []⟩

variable (w : World)

def legs : List OrderedLeg := w.submitted.flatMap (·.legs)

def contracts : List String := (w.legs.map (·.contract)).dedup

/-- The position in a contract that the fills add up to. -/
def held (k : String) : ℚ := ((w.legs.filter (·.contract = k)).map (·.held)).sum

def positions (m : Market) : List ReportedPosition :=
  w.contracts.map fun k => { m.contract k with localSymbol := k, position := w.held k }

/-- The rows as the gate reads them. -/
def bookRows : List (Option RowGreeks) := w.mirror.rows.map fun r => w.greeks r.id

end World

/-- The gate reads the book and the caps; its other reads are of the moment. -/
def gateReads (m : Market) (w : World) (r : GateReads) : GateReads :=
  { r with book := some w.bookRows, liveCaps := some m.caps }

def Admitted (m : Market) (w : World) (r : GateReads) (payload : PreviewPayload) : Prop :=
  (runPretradeGate (gateReads m w r) payload true).passed = true

instance (m : Market) (w : World) (r : GateReads) (payload : PreviewPayload) :
    Decidable (Admitted m w r payload) := by unfold Admitted; infer_instance

/-- The legs of a payload as they are ordered, each under the contract IB qualifies it to. -/
def orderedLegs (payload : PreviewPayload) (contracts : ℕ → String) : List OrderedLeg :=
  payload.legs.mapIdx fun i leg => ⟨contracts i, leg.side, leg.qty, 0⟩

/-- `_load_positions`: rows with a symbol it cannot read are skipped. -/
def loadPositions (mirror : Mirror) : List LoadedPosition :=
  mirror.rows.filterMap fun r =>
    (parseLocalSymbol r.localSymbol).map fun _ => ⟨r.id, r.localSymbol, r.signedQty⟩

/-- The greeks as the columns hold them. -/
def rowGreeks (g : PositionGreeks) : RowGreeks where
  deltaUsd := pyRound g.deltaUsd 2
  vegaUsd := pyRound g.vegaUsdPerVolpt 2
  gammaUsd := pyRound g.gammaUsdPerPip 2

/-- One position of `_persist_position_snapshots`; a row that is gone is skipped. -/
def persistPosition (m : Market) (mirror : Mirror) (greeks : ℕ → Option RowGreeks)
    (pos : LoadedPosition) : ℕ → Option RowGreeks :=
  if mirror.rows.any (·.id = pos.id) then
    Function.update greeks pos.id ((greeksOf m pos.localSymbol pos.quantity).map rowGreeks)
  else greeks

inductive Event
  | submit (r : GateReads) (payload : PreviewPayload) (contracts : ℕ → String)
  | fill (s leg n : ℕ)
  | finish (s : ℕ)
  | report (connected streaming : Bool)
  | sync (db : Db) (now : Instant)
  | load
  | persist

def step (m : Market) (w : World) : Event → World
  | .submit r payload contracts =>
    if Admitted m w r payload then
      { w with submitted := w.submitted ++ [⟨orderedLegs payload contracts, false⟩] }
    else w
  | .fill s leg n =>
    { w with submitted := w.submitted.modify s fun st =>
        if st.terminal then st else { st with legs := st.legs.modify leg (·.fill n) } }
  | .finish s => { w with submitted := w.submitted.modify s fun st => { st with terminal := true } }
  | .report connected streaming => { w with account := ⟨connected, streaming, w.positions m⟩ }
  | .sync db now =>
    { w with
      mirror := syncPositions db w.account now w.mirror
      -- the columns of a new row are empty
      greeks := fun id => if id < w.mirror.nextId then w.greeks id else none }
  | .load => { w with loaded := loadPositions w.mirror }
  | .persist => { w with greeks := w.loaded.foldl (persistPosition m w.mirror) w.greeks }

section Exposure
variable (m : Market) (a : Axis)

def heldOf (legs : List OrderedLeg) : ℚ := (legs.map fun l => l.held * unit m a l.contract).sum

def restOf (legs : List OrderedLeg) : ℚ := (legs.map fun l => l.rest * unit m a l.contract).sum

def wholeOf (legs : List OrderedLeg) : ℚ :=
  (legs.map fun l => sideSign l.side * l.qty * unit m a l.contract).sum

def Submitted.rest (st : Submitted) : ℚ := if st.terminal then 0 else restOf m a st.legs

/-- The greeks of all executed fills. -/
def executed (w : World) : ℚ := (w.submitted.map fun st => heldOf m a st.legs).sum

/-- The greeks of what is left of the structures that are not terminal. -/
def inFlight (w : World) : ℚ := (w.submitted.map (Submitted.rest m a)).sum

def exposure (w : World) : ℚ := executed m a w + inFlight m a w

def Submitted.exposure (st : Submitted) : ℚ := heldOf m a st.legs + st.rest m a

variable {m a}

theorem exposure_eq (w : World) : exposure m a w = (w.submitted.map (Submitted.exposure m a)).sum := by
  rw [exposure, executed, inFlight, ← List.sum_map_add]
  rfl

theorem heldOf_add_restOf (legs : List OrderedLeg) :
    heldOf m a legs + restOf m a legs = wholeOf m a legs := by
  rw [heldOf, restOf, wholeOf, ← List.sum_map_add]
  congr 1
  apply List.map_congr_left
  intro l _
  rw [OrderedLeg.held, OrderedLeg.rest]
  ring

theorem wholeOf_fill (legs : List OrderedLeg) (leg n : ℕ) :
    wholeOf m a (legs.modify leg (·.fill n)) = wholeOf m a legs := by
  rw [wholeOf, RowUpdates.map_modify_same]
  · rfl
  · exact fun l => rfl

/-- A fill moves greeks from the rest of a structure to its fills. -/
theorem exposure_fill (w : World) (s leg n : ℕ) :
    exposure m a (step m w (.fill s leg n)) = exposure m a w := by
  rw [exposure_eq, exposure_eq, step, RowUpdates.map_modify_same]
  intro st
  cases hst : st.terminal with
  | true => simp
  | false => simp [Submitted.exposure, Submitted.rest, hst, heldOf_add_restOf, wholeOf_fill]

theorem sum_finish (l : List Submitted) (s : ℕ) :
    ((l.modify s fun st => { st with terminal := true }).map (Submitted.exposure m a)).sum =
      (l.map (Submitted.exposure m a)).sum - (l[s]?).elim 0 (Submitted.rest m a) := by
  induction l generalizing s with
  | nil => simp
  | cons st l ih =>
    cases s with
    | zero =>
      simp only [List.modify_zero_cons, List.map_cons, List.sum_cons, List.getElem?_cons_zero,
        Option.elim_some, Submitted.exposure, Submitted.rest, if_true]
      ring
    | succ s =>
      rw [List.modify_succ_cons, List.map_cons, List.sum_cons, ih, List.map_cons, List.sum_cons,
        List.getElem?_cons_succ]
      ring

/-- The rest that ends with a structure. -/
def restAt (m : Market) (a : Axis) (w : World) (s : ℕ) : ℚ :=
  (w.submitted[s]?).elim 0 (Submitted.rest m a)

theorem exposure_finish (w : World) (s : ℕ) :
    exposure m a (step m w (.finish s)) = exposure m a w - restAt m a w s := by
  rw [exposure_eq, exposure_eq, restAt]
  exact sum_finish w.submitted s

theorem exposure_admitted {w : World} {r : GateReads} {payload : PreviewPayload}
    (h : Admitted m w r payload) (contracts : ℕ → String) :
    exposure m a (step m w (.submit r payload contracts)) =
      exposure m a w + wholeOf m a (orderedLegs payload contracts) := by
  rw [exposure_eq, exposure_eq, step, if_pos h, List.map_append, List.sum_append,
    ← heldOf_add_restOf]
  simp [Submitted.exposure, Submitted.rest]

end Exposure

end FxVol.BookExposure
