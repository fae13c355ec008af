import FxVol.TableGrowth
import FxVol.KeyedLog

/-!
# The reconnect replay

`rehydrate_session` re-attaches handlers to the orders IB still holds and pushes every replayed
execution through the fill path, order by order, by the reference stamped at placement.  An
execution that raises stops the replay there.
-/
namespace FxVol

/-- The order row an execution's `orderRef` names. -/
def namedOrder (fill : IbFill) : Option ℤ := (parseOrderRef fill.orderRef).map (·.2)

/-- `option_fills`: the executions of each named order, in the order the orders appear. -/
def optionFills (fills : List IbFill) : List (ℤ × List IbFill) :=
  (fills.filterMap namedOrder).eraseDups.map fun oid =>
    (oid, fills.filter fun f => namedOrder f = some oid)

/-- `spot_fills`, which are folded after the option executions. -/
def spotFills (fills : List IbFill) : List IbFill :=
  fills.filter fun f => namedOrder f = none ∧ (parseSpotOrderRef f.orderRef).isSome

/-- The row with this id, if there is one. -/
def knownOrder (db : Db) (oid : ℤ) : Option ℕ :=
  if 0 ≤ oid ∧ oid.toNat < db.orders.length then some oid.toNat else none

/-- The executions to replay, each with its order row, as the two loops visit them. -/
def replayQueue (db : Db) (fills : List IbFill) : List (ℕ × IbFill) :=
  (optionFills fills).flatMap fun g =>
    match knownOrder db g.1 with
    | none => []
    | some i => g.2.map fun f => (i, f)

/-- The cascade of a persisted execution, in a session of its own. -/
def cascade (db : Db) (completes : Option ℕ) (now : Instant) : Db :=
  match completes with
  | none => db
  | some structureId => (maybeCompleteStructure db structureId now).1

/-- The executions one after the other; with what is left when one of them raises. -/
def replayAll (now : Instant) : Db → List (ℕ × IbFill) → Db × Option (List (ℕ × IbFill))
  | db, [] => (db, none)
  | db, (i, f) :: rest =>
    match persistFill db i f now with
    | .ok (db', completes) => replayAll now (cascade db' completes now) rest
    | .error _ => (db, some rest)

/-- `_replay_fills`: the tables it leaves, and the executions an exception kept it from. -/
def replayFills (db : Db) (fills : List IbFill) (now : Instant) : Db × List IbFill :=
  match replayAll now db (replayQueue db fills) with
  | (db', none) => (db', [])
  | (db', some rest) => (db', rest.map (·.2) ++ spotFills fills)

def rehydrateSession (db : Db) (openTrades : List IbTrade) (fills : List IbFill) (now : Instant) :
    Db × List IbFill :=
  replayFills (attachOptionHandlers db openTrades now) fills now

section Facts
variable {db db' : Db} {i : ℕ} {f : IbFill} {now : Instant} {queue rest : List (ℕ × IbFill)}

theorem cascade_frame (db : Db) (completes : Option ℕ) (now : Instant) :
    (cascade db completes now).orders = db.orders ∧ (cascade db completes now).fills = db.fills := by
  cases completes with
  | none => exact ⟨rfl, rfl⟩
  | some sid =>
    obtain ⟨ho, hf, _⟩ := maybeCompleteStructure_frame db sid now
    exact ⟨ho, hf⟩

/-- A replay over two queues is the second after the first, unless the first raises. -/
theorem replayAll_append (h : replayAll now db queue = (db', none)) (rest : List (ℕ × IbFill)) :
    replayAll now db (queue ++ rest) = replayAll now db' rest := by
  induction queue generalizing db with
  | nil =>
    obtain rfl : db = db' := congrArg Prod.fst h
    rfl
  | cons x queue ih =>
    obtain ⟨i, f⟩ := x
    cases hp : persistFill db i f now with
    | error e =>
      simp only [replayAll, hp, Prod.mk.injEq, reduceCtorEq, and_false] at h
    | ok r =>
      simp only [replayAll, hp] at h
      simp only [List.cons_append, replayAll, hp]
      exact ih h

/-- The queue holds exactly the executions that name a known row. -/
theorem mem_replayQueue {fills : List IbFill} : (i, f) ∈ replayQueue db fills ↔
    f ∈ fills ∧ namedOrder f = some (i : ℤ) ∧ i < db.orders.length := by
  simp only [replayQueue, optionFills, List.mem_flatMap, List.mem_map, List.mem_eraseDups,
    List.mem_filterMap]
  constructor
  · rintro ⟨_, ⟨oid, _, rfl⟩, hmem⟩
    cases hk : knownOrder db oid with
    | none => simp [hk] at hmem
    | some k =>
      simp only [hk, List.mem_map, List.mem_filter, decide_eq_true_eq, Prod.mk.injEq] at hmem
      obtain ⟨g, ⟨hg, hname⟩, rfl, rfl⟩ := hmem
      unfold knownOrder at hk
      split_ifs at hk with hrange
      obtain rfl := Option.some.inj hk
      refine ⟨hg, ?_, hrange.2⟩
      rw [hname, Int.toNat_of_nonneg hrange.1]
  · rintro ⟨hf, hname, hi⟩
    refine ⟨_, ⟨(i : ℤ), ⟨f, hf, hname⟩, rfl⟩, ?_⟩
    have hk : knownOrder db i = some i := by simp [knownOrder, hi]
    simp only [hk, List.mem_map, List.mem_filter, decide_eq_true_eq]
    exact ⟨f, ⟨hf, hname⟩, rfl⟩

end Facts

end FxVol
