import FxVol.ExitAlerts
import FxVol.StagedWork

/-!
# What a monitor cycle hands on

The scheduler processes every open position in one session, and queues the hedges and closes to hand
on after the commit.  The queue is a list of the scheduler: it outlives the session, and with it the
rows its entries refer to.
-/
namespace FxVol.MonitorSessions

open ExitRules ExitAlerts PositionMarks BookState StagedWork GuardedRuns MonitoredPnl

/-- A row of `booked_position_metric_history`, but for the columns of the signal -/
structure MetricRow where
  positionId : ℕ
  timestamp : Instant
  spot : ℚ
  ivAvgLegsPct : ℚ
  mtm : MtmResult
  attribution : PnlAttribution
  currentGreeks : EntryGreeks
  currentDeltaUnhedged : Option ℚ
  deriving DecidableEq

/-- What `_monitor_one` has to write for a position. -/
structure Plan where
  metric : MetricRow
  alert : Option AlertRow
  hedge : Option PositionHedge
  deriving DecidableEq

/-- A row with the key that the database gives it; nothing refers to that of a metric. -/
inductive Row
  | metric (m : MetricRow)
  | alert (id : ℕ) (a : AlertRow)
  | hedge (id : ℕ) (h : PositionHedge)
  deriving DecidableEq

/-- An entry of `_pending_hedge_ids` or of `_pending_close_alerts` -/
inductive Entry
  | hedge (hedgeId : ℕ)
  | close (positionId alertId : ℕ)
  deriving DecidableEq

namespace Entry

def id : Entry → ℕ
  | .hedge hedgeId => hedgeId
  | .close _ alertId => alertId

def Refers : Entry → Row → Prop
  | .hedge hedgeId, .hedge id _ => id = hedgeId
  | .close positionId alertId, .alert id a => id = alertId ∧ a.positionId = positionId
  | _, _ => False

instance : (x : Entry) → (r : Row) → Decidable (x.Refers r)
  | .hedge hedgeId, .hedge id _ => inferInstanceAs (Decidable (id = hedgeId))
  | .close _ alertId, .alert id _ => inferInstanceAs (Decidable (id = alertId ∧ _))
  | .hedge _, .metric _ | .hedge _, .alert .. | .close .., .metric _ | .close .., .hedge .. =>
    inferInstanceAs (Decidable False)

end Entry

structure Toggles where
  autoExecute : Bool
  executeHedge : Bool

section Acts
variable (t : Toggles) (id : ℕ)

def alertActs (a : AlertRow) : List (Act Row Entry) :=
  [.add (.alert id a), .flush] ++
    if a.actionRecommended = .exit ∧ t.autoExecute then [.push (.close a.positionId id)] else []

def hedgeActs (h : PositionHedge) : List (Act Row Entry) :=
  [.add (.hedge id h), .flush] ++ if t.executeHedge then [.push (.hedge id)] else []

/-- `_monitor_one`.  A query flushes what is pending before it; where the structure of the position is
missing there is only the query for it. -/
def acts (plan : Option Plan) : List (Act Row Entry) :=
  .flush :: plan.elim [] fun p =>
    [.add (.metric p.metric), .flush] ++ p.alert.elim [] (alertActs t id) ++
      .flush :: p.hedge.elim [] (hedgeActs t id)

end Acts

/-- An open position in a cycle: what it has to write, and where its processing fails. -/
structure Work where
  plan : Option Plan
  fault : Option Fault
  deriving DecidableEq

/-- A cycle over the open positions; it may fail before the first of them, and in the commit. -/
structure MonitorCycle where
  works : List Work
  toggles : Toggles
  loadFails : Bool
  commitFails : Bool

/-- The tables, the keys dealt so far, what waits in the queues and what was handed on. -/
structure Scheduler where
  committed : List Row
  nextId : ℕ
  pending : List Entry
  handed : List Entry
  deriving DecidableEq

namespace Scheduler

def start : Scheduler := ⟨[], 0, [], []⟩

/-- The key of a work is its place after those dealt so far. -/
def tasks (m : Scheduler) (e : MonitorCycle) : List (Task Row Entry) :=
  e.works.mapIdx fun i w => ⟨acts e.toggles (m.nextId + i) w.plan, w.fault⟩

def session (m : Scheduler) (e : MonitorCycle) : Session Row Entry :=
  (Session.mk [] m.pending false).runAll (m.tasks e)

def cycle (m : Scheduler) (e : MonitorCycle) : Scheduler :=
  if e.works = [] ∨ e.loadFails then m
  else
    let s := m.session e
    if s.spoiled ∨ e.commitFails then { m with nextId := m.nextId + e.works.length, pending := s.queue }
    else
      { committed := m.committed ++ s.staged
        nextId := m.nextId + e.works.length
        pending := []
        handed := m.handed ++ s.queue }

end Scheduler

namespace Work

/-- The shape of the work, whatever its key. -/
def task (w : Work) (t : Toggles) : Task Row Entry := ⟨acts t 0 w.plan, w.fault⟩

/-- The rows of the work are there. -/
def Written (w : Work) (rows : List Row) : Prop :=
  ∀ p ∈ w.plan, .metric p.metric ∈ rows ∧ (∀ a ∈ p.alert, ∃ id, .alert id a ∈ rows) ∧
    ∀ h ∈ p.hedge, ∃ id, .hedge id h ∈ rows

end Work

structure HandedCommitted (m : Scheduler) : Prop where
  refers : ∀ x ∈ m.handed, ∃ row ∈ m.committed, x.Refers row
  once : m.handed.Nodup

instance (m : Scheduler) : Decidable (HandedCommitted m) :=
  decidable_of_iff ((∀ x ∈ m.handed, ∃ row ∈ m.committed, x.Refers row) ∧ m.handed.Nodup)
    ⟨fun h => ⟨h.1, h.2⟩, fun h => ⟨h.refers, h.once⟩⟩

/-- A position whose processing does not fail has its rows committed. -/
def Isolated (m : Scheduler) (e : MonitorCycle) : Prop :=
  e.loadFails = false → e.commitFails = false → ∀ w ∈ e.works, ¬ (w.task e.toggles).Fails →
    w.Written ((m.cycle e).committed.drop m.committed.length)

/-- What a cycle is to guarantee. -/
def DispatchesCommitted (m : Scheduler) (e : MonitorCycle) : Prop :=
  HandedCommitted (m.cycle e) ∧ Isolated m e

/-- Where the commit is not what fails: no flush fails, unless no position has its processing finish,
and nothing waits from before in a cycle that hands on. -/
def Safe (m : Scheduler) (e : MonitorCycle) : Prop :=
  e.works ≠ [] → e.loadFails = false → e.commitFails = false →
    ((∃ w ∈ e.works, (w.task e.toggles).FailsFlush) →
      ∀ w ∈ e.works, w.plan = none ∨ (w.task e.toggles).Fails) ∧
    ((∀ w ∈ e.works, ¬ (w.task e.toggles).FailsFlush) → m.pending = [])

section Position
variable {t : Toggles} {id : ℕ} {plan : Option Plan}

/-- The key of a work is no part of its shape. -/
theorem acts_shape (t : Toggles) (id id' : ℕ) (plan : Option Plan) :
    (acts t id plan).map Act.isFlush = (acts t id' plan).map Act.isFlush := by
  rcases plan with - | ⟨metric, - | a, - | h⟩
  · rfl
  · rfl
  · simp only [acts, hedgeActs, Option.elim]
    split_ifs <;> rfl
  · simp only [acts, alertActs, Option.elim]
    split_ifs <;> rfl
  · simp only [acts, alertActs, hedgeActs, Option.elim]
    split_ifs <;> rfl

/-- An entry is pushed after its row, which has the key of the work. -/
theorem acts_backed (t : Toggles) (id : ℕ) (plan : Option Plan) :
    Backed Entry.Refers [] (acts t id plan) := by
  rcases plan with - | ⟨metric, - | a, - | h⟩
  · exact trivial
  · exact trivial
  · simp only [acts, hedgeActs, Option.elim]
    split_ifs <;> simp [Backed, Entry.Refers]
  · simp only [acts, alertActs, Option.elim]
    split_ifs <;> simp [Backed, Entry.Refers]
  · simp only [acts, alertActs, hedgeActs, Option.elim]
    split_ifs <;> simp [Backed, Entry.Refers]

def Plan.rows (id : ℕ) (p : Plan) : List Row :=
  .metric p.metric :: (p.alert.map (Row.alert id)).toList ++ (p.hedge.map (Row.hedge id)).toList

theorem added_acts (t : Toggles) (id : ℕ) (plan : Option Plan) :
    added (acts t id plan) = plan.elim [] (Plan.rows id) := by
  rcases plan with - | ⟨metric, - | a, - | h⟩
  · rfl
  · rfl
  · simp only [acts, hedgeActs, Option.elim]
    split_ifs <;> rfl
  · simp only [acts, alertActs, Option.elim]
    split_ifs <;> rfl
  · simp only [acts, alertActs, hedgeActs, Option.elim]
    split_ifs <;> rfl

theorem added_id {row : Row} (h : row ∈ added (acts t id plan)) {x : Entry} (hx : x.Refers row) :
    x.id = id := by
  rw [added_acts] at h
  cases plan with
  | none => cases h
  | some p =>
    have hrow : (row = .metric p.metric ∨ ∃ a ∈ p.alert, .alert id a = row) ∨
        ∃ h ∈ p.hedge, .hedge id h = row := by
      simpa [Plan.rows, or_assoc] using h
    obtain (rfl | ⟨a, -, rfl⟩) | ⟨h, -, rfl⟩ := hrow
    · cases x <;> exact hx.elim
    · cases x with
      | hedge => exact hx.elim
      | close positionId alertId => exact hx.1.symm
    · cases x with
      | hedge hedgeId => exact Eq.symm hx
      | close => exact hx.elim

/-- A position pushes a close and a hedge at most, both with its key. -/
theorem pushed_acts (t : Toggles) (id : ℕ) (plan : Option Plan) :
    (∀ x ∈ pushed (acts t id plan), x.id = id) ∧ (pushed (acts t id plan)).Nodup := by
  rcases plan with - | ⟨metric, - | a, - | h⟩
  · simp [acts, pushed, List.filterMap_cons, Act.entry?]
  · simp [acts, pushed, List.filterMap_cons, Act.entry?]
  · simp only [acts, hedgeActs, Option.elim]
    split_ifs <;> simp [pushed, List.filterMap_cons, Act.entry?, Entry.id]
  · simp only [acts, alertActs, Option.elim]
    split_ifs <;> simp [pushed, List.filterMap_cons, Act.entry?, Entry.id]
  · simp only [acts, alertActs, hedgeActs, Option.elim]
    split_ifs <;> simp [pushed, List.filterMap_cons, Act.entry?, Entry.id]

/-- The rows of a plan that was carried out are there. -/
theorem written_of_added {w : Work} {rows : List Row}
    (h : ∀ row ∈ added (acts t id w.plan), row ∈ rows) : w.Written rows := by
  intro p hp
  rw [added_acts, hp, Option.elim_some] at h
  refine ⟨h _ ?_, fun a ha => ⟨id, h _ ?_⟩, fun x hx => ⟨id, h _ ?_⟩⟩
  · simp [Plan.rows]
  · simp [Plan.rows, Option.mem_def.mp ha]
  · simp [Plan.rows, Option.mem_def.mp hx]

end Position

section Cycle
variable {m : Scheduler} {e : MonitorCycle}

/-- The keys in use, and the entries that wait: none of them was handed on, and the rows they refer to
are lost. -/
structure Keyed (m : Scheduler) : Prop where
  rows : ∀ row ∈ m.committed, ∀ x : Entry, x.Refers row → x.id < m.nextId
  entries : ∀ x ∈ m.handed ++ m.pending, x.id < m.nextId
  once : (m.handed ++ m.pending).Nodup
  lost : ∀ x ∈ m.pending, ∀ row ∈ m.committed, ¬ x.Refers row

theorem keyed_start : Keyed .start := by
  constructor <;> simp [Scheduler.start]

theorem mem_tasks {task : Task Row Entry} : task ∈ m.tasks e ↔
    ∃ i w, e.works[i]? = some w ∧ task = ⟨acts e.toggles (m.nextId + i) w.plan, w.fault⟩ := by
  rw [Scheduler.tasks, List.mem_mapIdx]
  constructor
  · rintro ⟨i, hi, rfl⟩
    exact ⟨i, e.works[i], List.getElem?_eq_getElem hi, rfl⟩
  · rintro ⟨i, w, hw, rfl⟩
    obtain ⟨hi, rfl⟩ := List.getElem?_eq_some_iff.mp hw
    exact ⟨i, hi, rfl⟩

theorem tasks_flush : ∀ task ∈ m.tasks e, task.Flushes := by
  intro task htask
  obtain ⟨i, w, -, rfl⟩ := mem_tasks.mp htask
  exact ⟨_, rfl⟩

theorem tasks_backed : ∀ task ∈ m.tasks e, Backed Entry.Refers [] task.acts := by
  intro task htask
  obtain ⟨i, w, -, rfl⟩ := mem_tasks.mp htask
  exact acts_backed e.toggles _ w.plan

/-- What the tasks would push has the keys of the cycle, each once. -/
theorem tasks_pushed : ((m.tasks e).flatMap fun task => pushed task.acts).Nodup ∧
    ∀ x ∈ (m.tasks e).flatMap fun task => pushed task.acts,
      m.nextId ≤ x.id ∧ x.id < m.nextId + e.works.length := by
  have hkey : ∀ i (hi : i < (m.tasks e).length), ∀ x ∈ pushed ((m.tasks e)[i]).acts, x.id = m.nextId + i := by
    intro i hi x hx
    simp only [Scheduler.tasks, List.getElem_mapIdx] at hx
    exact (pushed_acts _ _ _).1 x hx
  constructor
  · rw [List.nodup_flatMap]
    constructor
    · intro task htask
      obtain ⟨i, w, -, rfl⟩ := mem_tasks.mp htask
      exact (pushed_acts _ _ _).2
    · rw [List.pairwise_iff_getElem]
      intro i j hi hj hij x hx hx'
      have hi' := hkey i hi x hx
      have hj' := hkey j hj x hx'
      omega
  · intro x hx
    obtain ⟨task, htask, hpush⟩ := List.mem_flatMap.mp hx
    obtain ⟨i, w, hw, rfl⟩ := mem_tasks.mp htask
    have hid := (pushed_acts _ _ _).1 x hpush
    have hi := (List.getElem?_eq_some_iff.mp hw).1
    omega

/-- What the session of a cycle holds when it is done: rows with the keys of the cycle, and behind the
entries that waited new ones that refer to them. -/
theorem session_parts (m : Scheduler) (e : MonitorCycle) : ∃ entries,
    (m.session e).queue = m.pending ++ entries ∧ entries.Nodup ∧
      (∀ x ∈ entries, m.nextId ≤ x.id ∧ x.id < m.nextId + e.works.length) ∧
      (∀ x ∈ entries, ∃ row ∈ (m.session e).staged, x.Refers row) ∧
      ∀ row ∈ (m.session e).staged, ∀ x : Entry, x.Refers row →
        m.nextId ≤ x.id ∧ x.id < m.nextId + e.works.length := by
  obtain ⟨rows, entries, hstaged, hqueue, hsub, hsub', hrefers⟩ :=
    runAll_parts (Session.mk [] m.pending false) (tasks_backed (m := m) (e := e))
  have hrows : (m.session e).staged = rows := hstaged
  obtain ⟨hnodup, hkeys⟩ := tasks_pushed (m := m) (e := e)
  refine ⟨entries, hqueue, hnodup.sublist hsub', fun x hx => hkeys x (hsub'.subset hx), ?_, ?_⟩
  · rw [hrows]
    exact hrefers
  · rw [hrows]
    intro row hrow x hx
    obtain ⟨task, htask, hadd⟩ := List.mem_flatMap.mp (hsub.subset hrow)
    obtain ⟨i, w, hw, rfl⟩ := mem_tasks.mp htask
    have hid := added_id hadd hx
    have hi := (List.getElem?_eq_some_iff.mp hw).1
    omega

/-- The session is spoiled just where a flush fails. -/
theorem session_spoiled : (m.session e).spoiled = true ↔
    ∃ w ∈ e.works, (w.task e.toggles).FailsFlush := by
  rw [Scheduler.session, runAll_spoiled rfl tasks_flush]
  constructor
  · rintro ⟨task, htask, f, hf, hflush, hat⟩
    obtain ⟨i, w, hw, rfl⟩ := mem_tasks.mp htask
    refine ⟨w, List.mem_of_getElem? hw, f, hf, hflush, ?_⟩
    rw [Work.task, acts_shape _ 0 (m.nextId + i)]
    exact hat
  · rintro ⟨w, hw, f, hf, hflush, hat⟩
    obtain ⟨i, hi⟩ := List.getElem?_of_mem hw
    refine ⟨_, mem_tasks.mpr ⟨i, w, hi, rfl⟩, f, hf, hflush, ?_⟩
    rw [acts_shape _ (m.nextId + i) 0]
    exact hat

/-- What a cycle does: nothing, or it processes the positions and commits them or not. -/
theorem cycle_cases (m : Scheduler) (e : MonitorCycle) :
    ((e.works = [] ∨ e.loadFails = true) ∧ m.cycle e = m) ∨
    (¬ (e.works = [] ∨ e.loadFails = true) ∧ ((m.session e).spoiled = true ∨ e.commitFails = true) ∧
      m.cycle e =
        { m with nextId := m.nextId + e.works.length, pending := (m.session e).queue }) ∨
    (¬ (e.works = [] ∨ e.loadFails = true) ∧ (m.session e).spoiled = false ∧ e.commitFails = false ∧
      m.cycle e = ⟨m.committed ++ (m.session e).staged, m.nextId + e.works.length, [],
        m.handed ++ (m.session e).queue⟩) := by
  rw [Scheduler.cycle]
  by_cases hidle : e.works = [] ∨ e.loadFails = true
  · exact .inl ⟨hidle, if_pos hidle⟩
  rw [if_neg hidle]
  by_cases hfail : (m.session e).spoiled = true ∨ e.commitFails = true
  · exact .inr (.inl ⟨hidle, hfail, if_pos hfail⟩)
  · have hboth := not_or.mp hfail
    exact .inr (.inr ⟨hidle, Bool.eq_false_of_not_eq_true hboth.1, Bool.eq_false_of_not_eq_true hboth.2,
      if_neg hfail⟩)

theorem Keyed.cycle (h : Keyed m) (e : MonitorCycle) : Keyed (m.cycle e) := by
  obtain ⟨entries, hqueue, hnodup, hkeys, hrefers, hstaged⟩ := session_parts m e
  have hentries : ∀ x ∈ m.handed ++ (m.session e).queue, x.id < m.nextId + e.works.length := by
    intro x hx
    rw [hqueue, ← List.append_assoc] at hx
    rcases List.mem_append.mp hx with hx | hx
    · have := h.entries x hx
      omega
    · exact (hkeys x hx).2
  have honce : (m.handed ++ (m.session e).queue).Nodup := by
    rw [hqueue, ← List.append_assoc, List.nodup_append']
    refine ⟨h.once, hnodup, fun x hx hx' => ?_⟩
    have hold := h.entries x hx
    have hnew := (hkeys x hx').1
    omega
  rcases cycle_cases m e with ⟨-, heq⟩ | ⟨-, -, heq⟩ | ⟨-, -, -, heq⟩
  · rw [heq]
    exact h
  · rw [heq]
    refine ⟨fun row hrow x hx => ?_, hentries, honce, fun x hx row hrow => ?_⟩
    · exact (h.rows row hrow x hx).trans_le (Nat.le_add_right _ _)
    · -- no row of the cycle is committed, and none before has its keys
      intro href
      have hold := h.rows row hrow x href
      rw [hqueue] at hx
      rcases List.mem_append.mp hx with hx | hx
      · exact h.lost x hx row hrow href
      · have := (hkeys x hx).1
        omega
  · rw [heq]
    refine ⟨fun row hrow x hx => ?_, ?_, ?_, fun x hx => nomatch hx⟩
    · rcases List.mem_append.mp hrow with hrow | hrow
      · exact (h.rows row hrow x hx).trans_le (Nat.le_add_right _ _)
      · exact (hstaged row hrow x hx).2
    · rw [List.append_nil]
      exact hentries
    · rw [List.append_nil]
      exact honce

/-- An entry that waited from before is handed on in vain. -/
theorem waited_in_vain (h : Keyed m) (hcommit : m.cycle e = ⟨m.committed ++ (m.session e).staged,
      m.nextId + e.works.length, [], m.handed ++ (m.session e).queue⟩)
    (hall : HandedCommitted (m.cycle e)) : m.pending = [] := by
  obtain ⟨entries, hqueue, -, -, -, hstaged⟩ := session_parts m e
  rw [List.eq_nil_iff_forall_not_mem]
  intro x hx
  have hhanded : x ∈ (m.cycle e).handed := by
    rw [hcommit, hqueue]
    exact List.mem_append_right _ (List.mem_append_left _ hx)
  obtain ⟨row, hrow, href⟩ := hall.refers x hhanded
  rw [hcommit] at hrow
  rcases List.mem_append.mp hrow with hrow | hrow
  · exact h.lost x hx row hrow href
  · have hnew := (hstaged row hrow x href).1
    have hold := h.entries x (List.mem_append_right _ hx)
    omega

/-- What a cycle with empty queues hands on it has committed. -/
theorem handed_committed (h : Keyed m) (hm : HandedCommitted m)
    (hsafe : (m.session e).spoiled = false → e.works ≠ [] → e.loadFails = false → e.commitFails = false →
      m.pending = []) : HandedCommitted (m.cycle e) := by
  refine ⟨?_, (h.cycle e).once.of_append_left⟩
  obtain ⟨entries, hqueue, -, -, hrefers, -⟩ := session_parts m e
  rcases cycle_cases m e with ⟨-, heq⟩ | ⟨-, -, heq⟩ | ⟨hbusy, hsound, hcommit, heq⟩
  · rw [heq]
    exact hm.refers
  · rw [heq]
    exact hm.refers
  · have hboth := not_or.mp hbusy
    have hempty := hsafe hsound hboth.1 (Bool.eq_false_of_not_eq_true hboth.2) hcommit
    rw [heq]
    intro x hx
    rw [hqueue, hempty, List.nil_append] at hx
    rcases List.mem_append.mp hx with hx | hx
    · obtain ⟨row, hrow, href⟩ := hm.refers x hx
      exact ⟨row, List.mem_append_left _ hrow, href⟩
    · obtain ⟨row, hrow, href⟩ := hrefers x hx
      exact ⟨row, List.mem_append_right _ hrow, href⟩

/-- Where the session is not spoiled and the commit goes through, what does not fail is written. -/
theorem isolated_of_sound (hsound : (m.session e).spoiled = false) : Isolated m e := by
  intro hload hcommit w hw hfine
  have hbusy : ¬ (e.works = [] ∨ e.loadFails = true) := by
    rintro (hnil | hfail)
    · rw [hnil] at hw
      cases hw
    · rw [hload] at hfail
      cases hfail
  have hcommitted : (m.cycle e).committed.drop m.committed.length = (m.session e).staged := by
    rcases cycle_cases m e with ⟨hidle, -⟩ | ⟨-, hspoiled | hfail, -⟩ | ⟨-, -, -, heq⟩
    · exact absurd hidle hbusy
    · rw [hsound] at hspoiled
      cases hspoiled
    · rw [hcommit] at hfail
      cases hfail
    · rw [heq, List.drop_left]
  rw [hcommitted]
  obtain ⟨i, hi⟩ := List.getElem?_of_mem hw
  have hlength : (acts e.toggles (m.nextId + i) w.plan).length = (acts e.toggles 0 w.plan).length := by
    have := congrArg List.length (acts_shape e.toggles (m.nextId + i) 0 w.plan)
    simpa only [List.length_map] using this
  refine written_of_added (runAll_staged rfl tasks_flush hsound (mem_tasks.mpr ⟨i, w, hi, rfl⟩) ?_)
  rintro ⟨f, hf, hlt⟩
  exact hfine ⟨f, hf, hlength ▸ hlt⟩

/-- A spoiled session commits nothing. -/
theorem isolated_of_spoiled (hspoiled : (m.session e).spoiled = true) : Isolated m e ↔
    (e.loadFails = false → e.commitFails = false →
      ∀ w ∈ e.works, w.plan = none ∨ (w.task e.toggles).Fails) := by
  have hnothing : (m.cycle e).committed.drop m.committed.length = [] := by
    rcases cycle_cases m e with ⟨-, heq⟩ | ⟨-, -, heq⟩ | ⟨-, hsound, -⟩
    · rw [heq, List.drop_length]
    · rw [heq, List.drop_length]
    · rw [hspoiled] at hsound
      cases hsound
  rw [Isolated, hnothing]
  refine forall₄_congr fun hload hcommit w hw => ?_
  constructor
  · intro hwritten
    by_cases hfails : (w.task e.toggles).Fails
    · exact .inr hfails
    · cases hplan : w.plan with
      | none => exact .inl rfl
      | some p => exact nomatch (hwritten hfails p hplan).1
  · rintro (hnone | hfails) hfine
    · intro p hp
      rw [hnone] at hp
      cases hp
    · exact absurd hfails hfine

/-- The step: a cycle dispatches what it committed just where it is safe. -/
theorem dispatches_iff (h : Keyed m) (hm : HandedCommitted m) (e : MonitorCycle) :
    DispatchesCommitted m e ↔ Safe m e := by
  have hflush := session_spoiled (m := m) (e := e)
  cases hspoiled : (m.session e).spoiled with
  | true =>
    have hfail := hflush.mp hspoiled
    rw [DispatchesCommitted, isolated_of_spoiled hspoiled]
    constructor
    · rintro ⟨-, hall⟩ hbusy hload hcommit
      refine ⟨fun _ => hall hload hcommit, fun hfine => ?_⟩
      obtain ⟨w, hw, hwfail⟩ := hfail
      exact absurd hwfail (hfine w hw)
    · intro hsafe
      refine ⟨handed_committed h hm fun hsound => ?_, fun hload hcommit w hw => ?_⟩
      · rw [hspoiled] at hsound
        cases hsound
      · have hbusy : e.works ≠ [] := List.ne_nil_of_mem hw
        exact (hsafe hbusy hload hcommit).1 hfail w hw
  | false =>
    have hfine : ∀ w ∈ e.works, ¬ (w.task e.toggles).FailsFlush := by
      intro w hw hwfail
      rw [hflush.mpr ⟨w, hw, hwfail⟩] at hspoiled
      cases hspoiled
    constructor
    · rintro ⟨hall, -⟩ hbusy hload hcommit
      refine ⟨?_, fun _ => ?_⟩
      · rintro ⟨w, hw, hwfail⟩
        exact absurd hwfail (hfine w hw)
      · rcases cycle_cases m e with ⟨hnil | hfail, -⟩ | ⟨-, hfail | hfail, -⟩ | ⟨-, -, -, heq⟩
        · exact absurd hnil hbusy
        · rw [hload] at hfail
          cases hfail
        · rw [hspoiled] at hfail
          cases hfail
        · rw [hcommit] at hfail
          cases hfail
        · exact waited_in_vain h heq hall
    · intro hsafe
      exact ⟨handed_committed h hm fun _ hbusy hload hcommit => (hsafe hbusy hload hcommit).2 hfine,
        isolated_of_sound hspoiled⟩

end Cycle

/-- Over any sequence of cycles each of them dispatches what it committed, once, and keeps the rows of
the positions that do not fail, just when every cycle is safe. -/
theorem dispatches_committed_iff (es : List MonitorCycle) :
    (∀ past e, past ++ [e] <+: es → DispatchesCommitted (past.foldl Scheduler.cycle .start) e) ↔
      Guarded Scheduler.cycle Safe .start es := by
  have hstart : Keyed .start ∧ HandedCommitted .start := by
    refine ⟨keyed_start, ?_⟩
    constructor <;> simp [Scheduler.start]
  exact guarded_iff_steps (I := fun m => Keyed m ∧ HandedCommitted m)
    (fun m e h hq => ⟨h.1.cycle e, hq.1⟩) (fun m e h => dispatches_iff h.1 h.2 e) hstart es

section Plans
variable (N : VolSurface.Numerics) (c : Cycle)

def metricRow (positionId : ℕ) (pos : Position) : MetricRow :=
  let live := liveMark N c.db pos.row c.market c.now
  { positionId := positionId
    timestamp := c.now
    spot := (c.market.quotes c.now).spot
    ivAvgLegsPct := c.market.ivEff
    mtm := monitoredMtm N c.db pos.row c.market c.now (c.hedgeCost positionId)
    attribution := attribution c.market pos.row c.now
      (live.elim 0 fun mark => mark.markValueUsd - pos.entryPremiumUsd)
    currentGreeks := live.elim pos.row.entryGreeks fun mark =>
      ⟨some mark.totalVegaUsdPerVolpt, some mark.totalGammaUsdPerPip2, some mark.totalThetaUsdPerDay⟩
    currentDeltaUnhedged := live.map (·.totalDelta) }

def newAlert (alerts : List AlertRow) (positionId : ℕ) (pos : Position) : Option AlertRow :=
  ((pickWinningDecision (decisions N c positionId pos)).filter fun d =>
    ¬ recentAlertExists alerts positionId d.ruleName c.now).map (alertOf c positionId)

def newHedge (cfg : HedgeConfig) (hedges : List PositionHedge) (positionId : ℕ) (delta : Option ℚ)
    (now : Instant) : Option PositionHedge :=
  match checkDeltaHedgeNeeded (deltaForDecision hedges positionId delta) cfg
      (lastHedgeAt hedges positionId) now with
  | .hedge qty side imbalance threshold _ =>
    some { HedgeOrder.new side qty with
           positionId := positionId
           triggeredAt := now
           deltaImbalanceAtTrigger := imbalance
           rebalanceThresholdUsed := threshold }
  | .skip .. => none

/-- What `_monitor_one` has to write, by the rows committed so far. -/
def planOf (cfg : HedgeConfig) (alerts : List AlertRow) (hedges : List PositionHedge) (positionId : ℕ)
    (pos : Position) : Option Plan :=
  pos.struct.map fun _ =>
    { metric := metricRow N c positionId pos
      alert := newAlert N c alerts positionId pos
      hedge := newHedge cfg hedges positionId (metricRow N c positionId pos).currentDeltaUnhedged c.now }

end Plans

section Connected
variable {N : VolSurface.Numerics} {c : Cycle} {cfg : HedgeConfig}

theorem liveMark_delta (db : Db) (pos : PositionRow) (market : Market) (now : Instant) :
    (liveMark N db pos market now).map (·.totalDelta) =
      currentDeltaUnhedged db pos.structureId (hedgerMarket N (market.quotes now)) := by
  rw [liveMark, currentDeltaUnhedged, repricePosition_hedger]
  cases PositionMarks.repricePosition N (market.quotes now) db pos.structureId with
  | none => rfl
  | some mark =>
    rw [Option.filter_some]
    by_cases hmissing : mark.nSurfaceMissing = 0
    · simp [hmissing]
    · simp [hmissing]

/-- The hedge of a plan is the one the delta hedger adds. -/
theorem newHedge_monitorOne (hedges : List PositionHedge) {i : ℕ} {pos : Position}
    (hrow : c.db.bookedPositions[i]? = some pos.toBookedPosition) (hopen : pos.state = .open) :
    FxVol.monitorOne cfg hedges c.db i (hedgerMarket N (c.market.quotes c.now)) c.now =
      hedges ++ (newHedge cfg hedges i (metricRow N c i pos).currentDeltaUnhedged c.now).toList := by
  have hdelta : optionDelta c.db i (hedgerMarket N (c.market.quotes c.now)) =
      (metricRow N c i pos).currentDeltaUnhedged := by
    rw [optionDelta, hrow, Option.bind_some, metricRow, liveMark_delta]
    rfl
  rw [FxVol.monitorOne, hrow, Option.map_some, if_pos (congrArg some hopen), hdelta, newHedge]
  cases checkDeltaHedgeNeeded _ cfg (lastHedgeAt hedges i) c.now with
  | skip => simp
  | hedge => rfl

/-- The alert of a plan is the one the exit rules add. -/
theorem newAlert_monitorOne (log : AlertLog) (i : ℕ) (pos : Position) :
    (ExitAlerts.monitorOne N c log i pos).alerts = log.alerts ++ (newAlert N c log.alerts i pos).toList := by
  rw [ExitAlerts.monitorOne, newAlert]
  cases pickWinningDecision (decisions N c i pos) with
  | none => simp
  | some d =>
    rw [Option.filter_some]
    by_cases hrecent : recentAlertExists log.alerts i d.ruleName c.now
    · simp [hrecent]
    · simp [hrecent]

theorem monitor_alerts {ps : List (ℕ × Position)} (hnodup : (ps.map Prod.fst).Nodup) (log : AlertLog) :
    (ps.foldl (fun log p => ExitAlerts.monitorOne N c log p.1 p.2) log).alerts =
      log.alerts ++ ps.filterMap fun p => newAlert N c log.alerts p.1 p.2 := by
  induction ps generalizing log with
  | nil => exact (List.append_nil _).symm
  | cons q ps ih =>
    rw [List.map_cons, List.nodup_cons] at hnodup
    have hsame : ps.filterMap (fun p => newAlert N c (ExitAlerts.monitorOne N c log q.1 q.2).alerts p.1 p.2) =
        ps.filterMap fun p => newAlert N c log.alerts p.1 p.2 := by
      refine List.filterMap_congr fun p hp => ?_
      have hne : q.1 ≠ p.1 := fun heq => hnodup.1 (heq ▸ List.mem_map_of_mem hp)
      simp only [newAlert, monitorOne_recent_other hne]
    rw [List.foldl_cons, ih hnodup.2, hsame, newAlert_monitorOne, List.append_assoc]
    cases hnew : newAlert N c log.alerts q.1 q.2 <;> simp [hnew]

def alertsOf (rows : List Row) : List AlertRow :=
  rows.filterMap fun row => match row with
    | .alert _ a => some a
    | _ => none

theorem alertsOf_acts (t : Toggles) (id : ℕ) (plan : Option Plan) :
    alertsOf (added (acts t id plan)) = (plan.bind (·.alert)).toList := by
  rw [added_acts]
  rcases plan with - | ⟨metric, - | a, - | h⟩ <;> rfl

theorem planOf_alert (alerts : List AlertRow) (hedges : List PositionHedge) (i : ℕ) (pos : Position) :
    (planOf N c cfg alerts hedges i pos).bind (·.alert) = newAlert N c alerts i pos := by
  rw [planOf, newAlert, decisions]
  cases pos.struct <;> rfl

/-- A cycle in which nothing fails commits the alerts of the exit rules. -/
theorem cycle_alerts (m : Scheduler) (e : MonitorCycle) (hedges : List PositionHedge)
    (hworks : e.works = c.openPositions.map fun p =>
      ⟨planOf N c cfg (alertsOf m.committed) hedges p.1 p.2, none⟩)
    (hload : e.loadFails = false) (hcommit : e.commitFails = false) :
    alertsOf (m.cycle e).committed = (ExitAlerts.cycle N c ⟨alertsOf m.committed, []⟩).alerts := by
  have hfault : ∀ task ∈ m.tasks e, task.fault = none := by
    intro task htask
    obtain ⟨i, w, hw, rfl⟩ := mem_tasks.mp htask
    have hmem := List.mem_of_getElem? hw
    rw [hworks] at hmem
    obtain ⟨p, -, rfl⟩ := List.mem_map.mp hmem
    rfl
  have hsession : m.session e = ⟨[] ++ (m.tasks e).flatMap fun task => added task.acts,
      m.pending ++ (m.tasks e).flatMap fun task => pushed task.acts, false⟩ := runAll_complete rfl hfault
  have htasks : (m.tasks e).map (fun task => alertsOf (added task.acts)) =
      e.works.map fun w => (w.plan.bind (·.alert)).toList := by
    apply List.ext_getElem
    · simp [Scheduler.tasks]
    · intro i h₁ h₂
      simp [Scheduler.tasks, alertsOf_acts]
  have hstaged : alertsOf (m.session e).staged =
      c.openPositions.filterMap fun p => newAlert N c (alertsOf m.committed) p.1 p.2 := by
    rw [hsession, List.nil_append, alertsOf, List.filterMap_flatMap, List.flatMap_def]
    refine (congrArg List.flatten htasks).trans ?_
    rw [hworks, List.map_map, ← List.flatMap_def, List.filterMap_eq_flatMap_toList]
    simp only [Function.comp_def, planOf_alert]
  rw [ExitAlerts.cycle, monitor_alerts (openPositions_nodup c), ← hstaged]
  rcases cycle_cases m e with ⟨hnil | hfail, heq⟩ | ⟨-, hfail | hfail, -⟩ | ⟨-, -, -, heq⟩
  · have hnone : (m.session e).staged = [] := by
      rw [hsession, Scheduler.tasks, hnil]
      rfl
    rw [heq, hnone]
    exact (List.append_nil _).symm
  · rw [hload] at hfail
    cases hfail
  · rw [hsession] at hfail
    cases hfail
  · rw [hcommit] at hfail
    cases hfail
  · rw [heq]
    exact List.filterMap_append

end Connected

def stopLossPlan (seconds : ℤ) : Option Plan :=
  planOf surfaceNumerics (watch .mock 2 seconds) HedgeConfig.defaults [] [] 0 (heldStraddle .mock)

/-- A cycle of which only the commit fails -/
def uncommitted : MonitorCycle := ⟨[⟨stopLossPlan 60, none⟩], ⟨true, true⟩, false, true⟩

def nextCycle : MonitorCycle := ⟨[⟨stopLossPlan 120, none⟩], ⟨true, true⟩, false, false⟩

/-- The flush of the first metric fails, and the second position has no fault. -/
def poisoned : MonitorCycle :=
  ⟨[⟨stopLossPlan 60, some ⟨2, true⟩⟩, ⟨stopLossPlan 60, none⟩], ⟨true, true⟩, false, false⟩

/-- The alert of the first close was rolled back with its cycle, and the close goes out a cycle later;
and the flush that fails for one position loses the metric of the other. -/
theorem dispatched_uncommitted :
    ((Scheduler.start.cycle uncommitted).cycle nextCycle).handed = [.close 0 0, .close 0 1] ∧
    (∀ row ∈ ((Scheduler.start.cycle uncommitted).cycle nextCycle).committed,
      ¬ (Entry.close 0 0).Refers row) ∧
    (Scheduler.start.cycle poisoned).committed = [] ∧
    ¬ ∀ es : List MonitorCycle, ∀ past e, past ++ [e] <+: es →
      DispatchesCommitted (past.foldl Scheduler.cycle .start) e := by
  refine ⟨by decide +kernel, by decide +kernel, by decide +kernel, ?_⟩
  intro hall
  have hlast := (hall [uncommitted, nextCycle] [uncommitted] nextCycle List.prefix_rfl).1
  revert hlast
  decide +kernel

end FxVol.MonitorSessions
