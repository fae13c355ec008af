import FxVol.ClaimColumns
import FxVol.PositionCloseFinaliser

/-!
# The completion cascade, await by await

A transaction that fills an order calls `maybe_complete_structure` after it has committed, in a
session of its own, and a closing structure calls `finalise_position_close` after that.  Between
two reads, or a read and the commit, other tasks run; a crash drops every task under way.
-/
namespace FxVol

open KeyedPasses

inductive CascadePc
  /-- `maybe_complete_structure` is called. -/
  | called
  /-- The structure is there and not `fully_filled`. -/
  | checked
  /-- Its entry orders are all filled; what they come to is computed. -/
  | counting (orders : List StructureOrder) (now : Instant)
  /-- The booked positions of the structure are counted. -/
  | booking (orders : List StructureOrder) (now : Instant) (existing : Bool)
  /-- Its closing orders are all filled. -/
  | completing (orders : List StructureOrder) (now : Instant)
  /-- `finalise_position_close` is called. -/
  | finalising
  /-- The finaliser has found the alert and its position, not closed. -/
  | closing (alertId positionId : ℕ) (stamp : CloseStamp)
  deriving DecidableEq

/-- The tables, the cascades under way with their structures, and the closes committed so far
(`position_closed`). -/
structure CascadeWorld where
  db : Db
  tasks : List (ℕ × CascadePc)
  closed : List (ℕ × CloseStamp)

def CascadeWorld.empty : CascadeWorld := ⟨.empty, [], []⟩

def closePosition (db : Db) (alertId positionId : ℕ) : Db :=
  { db with
    bookedPositions := db.bookedPositions.modify positionId fun pos => { pos with state := .closed }
    exitAlerts := db.exitAlerts.modify alertId ExitAlert.done }

/-- One step of a cascade; `none` when it has ended or raised. -/
def cascadeStep (hedgeCost : ℚ) (now : Instant) (w : CascadeWorld) (structureId : ℕ) :
    CascadePc → CascadeWorld × Option CascadePc
  | .called =>
    match w.db.structures[structureId]? with
    | none => (w, none)
    | some s => if s.state = .fullyFilled then (w, none) else (w, some .checked)
  | .checked =>
    let allOrders := (w.db.ordersOf structureId).map (·.1)
    let orders := primaryOrders allOrders
    if orders = [] ∨ ¬ (orders.all fun o => o.state = .filled) then (w, none)
    else if allOrders.all fun o => o.orderRole = .closing then (w, some (.completing orders now))
    else (w, some (.counting orders now))
  | .counting orders at_ =>
    (w, some (.booking orders at_ (w.db.bookedPositions.any fun p => p.structureId = structureId)))
  | .booking orders at_ existing =>
    match w.db.structures[structureId]? with
    | none => (w, none)
    | some s =>
      let s' := s.completed orders at_
      let db₁ := w.db.setStructure structureId s'
      if existing then ({ w with db := db₁ }, none)
      -- `structure_id` is unique: a position booked since it was counted makes the insert raise
      else if w.db.bookedPositions.any fun p => p.structureId = structureId then (w, none)
      else ({ w with db := bookPosition db₁ structureId s' at_ }, none)
  | .completing orders at_ =>
    match w.db.structures[structureId]? with
    | none => (w, none)
    | some s =>
      ({ w with db := w.db.setStructure structureId (s.completed orders at_) }, some .finalising)
  | .finalising =>
    match w.db.structures[structureId]? with
    | none => (w, none)
    | some closing =>
      if closing.state ≠ .fullyFilled then (w, none)
      else match w.db.exitAlerts.zipIdx.find? fun p => p.1.closingStructureId = some structureId with
        | none => (w, none)
        | some (alert, k) =>
          match w.db.bookedPositions[alert.positionId]? with
          | none => (w, none)
          | some pos =>
            if pos.state = .closed then (w, none)
            else (w, some (.closing k alert.positionId
              (closeStamp closing alert pos hedgeCost now)))
  | .closing alertId positionId stamp =>
    ({ w with
        db := closePosition w.db alertId positionId
        closed := w.closed ++ [(positionId, stamp)] }, none)

/-- The structures a transaction calls the cascade for once it has committed. -/
def cascadesOf (db : Db) : Event → List ℕ
  | .execution orderId fill now =>
    match persistFill db orderId fill now with
    | .ok (_, some structureId) => [structureId]
    | _ => []
  | .comboStatus perm orderIds status reason now =>
    (onComboStatus db perm orderIds status reason now).2.toList
  | .reconcile now => (reconcileStuckOrders db now).2
  | _ => []

inductive CascadeEvent
  | book (e : Event)
  | raiseAlert (positionId : ℕ) (ruleTriggered : String)
  | run (task : ℕ) (hedgeCost : ℚ) (now : Instant)
  | crash

def ExitAlert.new (positionId : ℕ) (ruleTriggered : String) : ExitAlert where
  positionId := positionId
  ruleTriggered := ruleTriggered
  autoExecuted := false
  executionStatus := none
  closingStructureId := none

def cascadeWorldStep (w : CascadeWorld) : CascadeEvent → CascadeWorld
  | .book e =>
    { w with
      db := step w.db e
      tasks := w.tasks ++ (cascadesOf w.db e).map fun structureId => (structureId, .called) }
  | .raiseAlert positionId rule =>
    { w with db := { w.db with exitAlerts := w.db.exitAlerts ++ [.new positionId rule] } }
  | .run k hedgeCost now =>
    match w.tasks[k]? with
    | none => w
    | some (structureId, pc) =>
      match cascadeStep hedgeCost now w structureId pc with
      | (w', some pc') => { w' with tasks := w'.tasks.set k (structureId, pc') }
      | (w', none) => { w' with tasks := w'.tasks.eraseIdx k }
  | .crash => { w with tasks := [] }

def cascadeAlone (hedgeCost : ℚ) (now : Instant) (structureId : ℕ) :
    ℕ → CascadeWorld → CascadePc → CascadeWorld × Option CascadePc
  | 0, w, pc => (w, some pc)
  | n + 1, w, pc =>
    match cascadeStep hedgeCost now w structureId pc with
    | (w', some pc') => cascadeAlone hedgeCost now structureId n w' pc'
    | (w', none) => (w', none)

section Alone
variable (hedgeCost : ℚ) (now : Instant) (w : CascadeWorld) (structureId : ℕ)

theorem cascadeAlone_ends {n : ℕ} {w w' : CascadeWorld} {pc : CascadePc}
    (h : cascadeStep hedgeCost now w structureId pc = (w', none)) :
    cascadeAlone hedgeCost now structureId (n + 1) w pc = (w', none) := by
  rw [cascadeAlone, h]

theorem cascadeAlone_goes {n : ℕ} {w w' : CascadeWorld} {pc pc' : CascadePc}
    (h : cascadeStep hedgeCost now w structureId pc = (w', some pc')) :
    cascadeAlone hedgeCost now structureId (n + 1) w pc =
      cascadeAlone hedgeCost now structureId n w' pc' := by
  rw [cascadeAlone, h]

/-- Alone, the cascade is `maybe_complete_structure`. -/
theorem cascadeAlone_called : ∃ n, cascadeAlone hedgeCost now structureId n w .called =
    ({ w with db := (maybeCompleteStructure w.db structureId now).1 },
      if (maybeCompleteStructure w.db structureId now).2 then some .finalising else none) := by
  cases hs : w.db.structures[structureId]? with
  | none =>
    refine ⟨1, ?_⟩
    simp [cascadeAlone, cascadeStep, maybeCompleteStructure, hs]
  | some s =>
    by_cases hfull : s.state = .fullyFilled
    · refine ⟨1, ?_⟩
      simp [cascadeAlone, cascadeStep, maybeCompleteStructure, hs, hfull]
    · by_cases hfilled : primaryOrders ((w.db.ordersOf structureId).map (·.1)) = [] ∨
          ¬ ((primaryOrders ((w.db.ordersOf structureId).map (·.1))).all fun o => o.state = .filled)
      · refine ⟨2, ?_⟩
        simp only [cascadeAlone, cascadeStep, maybeCompleteStructure, hs, hfull, hfilled, if_false,
          if_true, false_or, Bool.false_eq_true]
      · by_cases hclosing : ((w.db.ordersOf structureId).map (·.1)).all fun o =>
            o.orderRole = .closing
        · refine ⟨3, ?_⟩
          simp only [cascadeAlone, cascadeStep, maybeCompleteStructure, hs, hfull, hfilled,
            hclosing, if_false, if_true, false_or]
        · refine ⟨4, ?_⟩
          simp only [cascadeAlone, cascadeStep, maybeCompleteStructure, hs, hfull, hfilled,
            hclosing, if_false, false_or, bookPosition, Bool.false_eq_true]
          by_cases hany : w.db.bookedPositions.any fun p => p.structureId = structureId
          · simp [Db.setStructure, hany]
          · simp [Db.setStructure, hany]

/-- Alone, the finaliser is `finalise_position_close`: it closes nothing where that closes
nothing. -/
theorem cascadeAlone_closes_nothing
    (h : finalisePositionClose w.db structureId hedgeCost now = none) :
    cascadeAlone hedgeCost now structureId 1 w .finalising = (w, none) := by
  apply cascadeAlone_ends
  cases hs : w.db.structures[structureId]? with
  | none => simp only [cascadeStep, hs]
  | some closing =>
    simp only [finalisePositionClose, hs] at h
    simp only [cascadeStep, hs]
    split_ifs at h ⊢ with hstate
    · rfl
    · cases halert : w.db.exitAlerts.zipIdx.find? fun p =>
          p.1.closingStructureId = some structureId with
      | none => rfl
      | some found =>
        obtain ⟨alert, k⟩ := found
        simp only [halert] at h ⊢
        cases hpos : w.db.bookedPositions[alert.positionId]? with
        | none => rfl
        | some pos =>
          simp only [hpos] at h ⊢
          split_ifs at h ⊢ with hclosed
          rfl

/-- And it closes what that closes. -/
theorem cascadeAlone_closes {db' : Db} {stamp : CloseStamp}
    (h : finalisePositionClose w.db structureId hedgeCost now = some (db', stamp)) :
    ∃ positionId, cascadeAlone hedgeCost now structureId 2 w .finalising =
      ({ w with db := db', closed := w.closed ++ [(positionId, stamp)] }, none) := by
  cases hs : w.db.structures[structureId]? with
  | none =>
    simp only [finalisePositionClose, hs] at h
    cases h
  | some closing =>
    simp only [finalisePositionClose, hs] at h
    split_ifs at h with hstate
    cases halert : w.db.exitAlerts.zipIdx.find? fun p =>
        p.1.closingStructureId = some structureId with
    | none =>
      simp only [halert] at h
      cases h
    | some found =>
      obtain ⟨alert, k⟩ := found
      simp only [halert] at h
      cases hpos : w.db.bookedPositions[alert.positionId]? with
      | none =>
        simp only [hpos] at h
        cases h
      | some pos =>
        simp only [hpos] at h
        split_ifs at h with hclosed
        simp only [Option.some.injEq, Prod.mk.injEq] at h
        obtain ⟨rfl, rfl⟩ := h
        refine ⟨alert.positionId, ?_⟩
        have hstep : cascadeStep hedgeCost now w structureId .finalising =
            (w, some (.closing k alert.positionId (closeStamp closing alert pos hedgeCost now))) := by
          simp only [cascadeStep, hs, hstate, halert, hpos, hclosed, if_false]
        rw [cascadeAlone_goes hedgeCost now structureId hstep]
        apply cascadeAlone_ends
        have hrow : w.db.exitAlerts[k]? = some alert :=
          List.mem_zipIdx_iff_getElem?.mp (List.mem_of_find?_eq_some halert)
        simp only [cascadeStep, closePosition, List.modify_eq_set_getElem?, hpos, hrow]
        rfl

end Alone

end FxVol
