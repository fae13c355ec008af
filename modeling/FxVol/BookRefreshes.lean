import FxVol.BookingPaths
import FxVol.CompletionOnce

/-!
# Refreshes of the book state

A completion and a mock submit each end in `refresh_book_state`, in the session that books the
position: it sums the open positions, takes the flag off the current row of
`book_state_snapshot_history` and inserts a new one, and its caller commits.  A session reads what is
committed and what it wrote itself.  An update waits for rows that another session has changed; the
unique index on the current row makes an insert wait for another insert, and fail once that is
committed.  A failed statement takes the booking with it.
-/
namespace FxVol.BookRefreshes

open PreviewPricing BookState BookingPaths GuardedRuns

/-- One row of `book_state_snapshot_history`; the book has one symbol. -/
structure Snapshot where
  totals : BookTotals
  capitalTotalUsd : Option ℚ
  marginUsedUsd : Option ℚ
  isCurrent : Bool
  deriving DecidableEq

structure Tables where
  db : Db
  entryGreeks : List EntryGreeks
  parallel : entryGreeks.length = db.bookedPositions.length

def Tables.rows (t : Tables) : List PositionRow :=
  List.zipWith PositionRow.mk t.db.bookedPositions t.entryGreeks

inductive Job
  | completion (structureId : ℕ)
  | mockSubmit (legs : List PricedLeg) (expiry : ℕ → Date)
      (slippageTolerancePct commissionPerContract : ℚ) (greeks : EntryGreeks)

/-- What a session adds before it refreshes the book state. -/
inductive Write
  | completed (structureId : ℕ) (row : TradeStructure) (now : Instant)
  | mocked (legs : List PricedLeg) (expiry : ℕ → Date)
      (slippageTolerancePct commissionPerContract : ℚ) (greeks : EntryGreeks) (now : Instant)

theorem bookPosition_length (db : Db) (s : ℕ) (row : TradeStructure) (now : Instant) :
    (bookPosition db s row now).bookedPositions.length =
      db.bookedPositions.length +
        if db.bookedPositions.any fun p => p.structureId = s then 0 else 1 := by
  unfold bookPosition
  split <;> simp

def Write.commit (t : Tables) : Write → Tables
  | .completed s row now =>
    { db := bookPosition (t.db.setStructure s row) s row now
      entryGreeks := t.entryGreeks ++
        if t.db.bookedPositions.any fun p => p.structureId = s then [] else [liveGreeks]
      parallel := by
        rw [bookPosition_length, List.length_append, t.parallel]
        by_cases h : t.db.bookedPositions.any fun p => p.structureId = s <;> simp [Db.setStructure, h] }
  | .mocked legs expiry slippageTolerancePct commissionPerContract greeks now =>
    { db := mockSubmit t.db legs expiry slippageTolerancePct commissionPerContract now
      entryGreeks := t.entryGreeks ++ [greeks]
      parallel := by simp [mockSubmit, t.parallel] }

/-- How far a session has come. -/
inductive Phase
  | called
  /-- The legs are filled, and what the session writes is determined. -/
  | read (write : Write)
  /-- The open positions are summed. -/
  | summed (write : Write) (totals : BookTotals)
  /-- The current row is read. -/
  | previous (write : Write) (row : Snapshot)
  /-- The update has found its rows. -/
  | updating (write : Write) (row : Snapshot) (targets : List ℕ)
  /-- The update is done. -/
  | updated (write : Write) (row : Snapshot) (flips : List ℕ)
  /-- The new row is inserted. -/
  | inserted (write : Write) (row : Snapshot) (flips : List ℕ)
  /-- The legs of a closing structure are filled. -/
  | closing (structureId : ℕ) (row : TradeStructure)
  /-- `finalise_position_close` is called. -/
  | finalising (structureId : ℕ)
  | committed
  /-- Rolled back. -/
  | lost
  /-- There was nothing to book. -/
  | nothing

structure Session where
  job : Job
  phase : Phase

/-- What is committed. -/
structure Store where
  tables : Tables
  snapshots : List Snapshot

structure World extends Store where
  sessions : List Session

def currentIds (snapshots : List Snapshot) : List ℕ :=
  (List.range snapshots.length).filter fun i => (snapshots[i]?).any (·.isCurrent)

/-- The row that `refresh_book_state` inserts. -/
def newSnapshot (snapshots : List Snapshot) (totals : BookTotals) : Snapshot :=
  let prev := snapshots.find? (·.isCurrent)
  { totals := totals
    capitalTotalUsd := some ((prev.bind (·.capitalTotalUsd)).getD 100000)
    marginUsedUsd := match prev with
      | some row => row.marginUsedUsd
      | none => some 0
    isCurrent := true }

/-- The history once a refresh is committed. -/
def replaceCurrent (snapshots : List Snapshot) (flips : List ℕ) (row : Snapshot) : List Snapshot :=
  (snapshots.mapIdx fun i old => if i ∈ flips then { old with isCurrent := false } else old) ++ [row]

/-- The rows that a session has changed and not committed. -/
def Phase.flips : Phase → List ℕ
  | .updated _ _ flips | .inserted _ _ flips => flips
  | _ => []

def Phase.isInserted : Phase → Bool
  | .inserted .. => true
  | _ => false

/-- Between the sum and the commit -/
def Phase.pastSum : Phase → Bool
  | .summed .. | .previous .. | .updating .. | .updated .. | .inserted .. => true
  | _ => false

/-- Inside `refresh_book_state` -/
def Phase.refreshing : Phase → Bool
  | .read .. | .summed .. | .previous .. | .updating .. | .updated .. => true
  | _ => false

def Phase.ended : Phase → Bool
  | .committed | .lost | .nothing => true
  | _ => false

def locked (others : List Session) (i : ℕ) : Bool := others.any fun s => i ∈ s.phase.flips

/-- What `maybe_complete_structure` and a mock submit read first. -/
def Job.firstRead (db : Db) (now : Instant) : Job → Phase
  | .mockSubmit legs expiry slippageTolerancePct commissionPerContract greeks =>
    .read (.mocked legs expiry slippageTolerancePct commissionPerContract greeks now)
  | .completion structureId =>
    match db.structures[structureId]? with
    | none => .nothing
    | some s =>
      let allOrders := (db.ordersOf structureId).map (·.1)
      let orders := primaryOrders allOrders
      if s.state = .fullyFilled ∨ orders = [] ∨ ¬ (orders.all fun o => o.state = .filled) then .nothing
      else if allOrders.all fun o => o.orderRole = .closing then
        .closing structureId (s.completed orders now)
      else .read (.completed structureId (s.completed orders now) now)

/-- Alone, a completion commits what it has read. -/
theorem maybeCompleteStructure_firstRead (db : Db) (s : ℕ) (now : Instant) :
    maybeCompleteStructure db s now =
      match (Job.completion s).firstRead db now with
      | .read (.completed s row now) => (bookPosition (db.setStructure s row) s row now, false)
      | .closing s row => (db.setStructure s row, true)
      | _ => (db, false) := by
  simp only [maybeCompleteStructure, Job.firstRead]
  cases db.structures[s]? with
  | none => rfl
  | some row =>
    dsimp only
    split_ifs <;> rfl

/-- Where the next statement of a session leads; it stays where it waits. -/
def Phase.next (st : Store) (others : List Session) (job : Job) (now : Instant) : Phase → Phase
  | .called => job.firstRead st.tables.db now
  | .read write => .summed write (bookTotals (write.commit st.tables).rows)
  | .summed write totals => .previous write (newSnapshot st.snapshots totals)
  | .previous write row => .updating write row (currentIds st.snapshots)
  | .updating write row targets =>
    if targets.any (locked others) then .updating write row targets
    -- a row that was taken back meanwhile no longer matches
    else .updated write row (targets.filter fun i => i ∈ currentIds st.snapshots)
  | .updated write row flips =>
    let conflicts := (currentIds st.snapshots).filter fun i => i ∉ flips
    if others.any (·.phase.isInserted) ∨ conflicts.any (locked others) then .updated write row flips
    else if conflicts = [] then .inserted write row flips
    -- the unique index: the flush fails, and with it the commit
    else .lost
  | .inserted .. => .committed
  | .closing structureId _ => .finalising structureId
  | .finalising _ => .nothing
  | .committed => .committed
  | .lost => .lost
  | .nothing => .nothing

def afterClose (db : Db) (closingStructureId : ℕ) (hedgeCost : ℚ) (now : Instant) : Db :=
  match finalisePositionClose db closingStructureId hedgeCost now with
  | some (db', _) => db'
  | none => db

/-- The position that the finaliser of a closing structure would close. -/
def alertedPosition (db : Db) (closingStructureId : ℕ) : Option BookedPosition :=
  (db.exitAlerts.zipIdx.find? fun p => p.1.closingStructureId = some closingStructureId).bind
    fun p => db.bookedPositions[p.1.positionId]?

/-- What the finaliser leaves alone, and what it does to the positions. -/
theorem afterClose_frame (db : Db) (s : ℕ) (hedgeCost : ℚ) (now : Instant) :
    (afterClose db s hedgeCost now).structures = db.structures ∧
    (afterClose db s hedgeCost now).orders = db.orders ∧
    ((afterClose db s hedgeCost now).bookedPositions = db.bookedPositions ∨
      ∃ i pos, alertedPosition db s = some pos ∧ db.bookedPositions[i]? = some pos ∧
        (afterClose db s hedgeCost now).bookedPositions =
          db.bookedPositions.set i { pos with state := .closed }) := by
  unfold afterClose finalisePositionClose alertedPosition
  split
  next db' _ h =>
    split at h
    · cases h
    · split_ifs at h
      split at h
      · cases h
      · next alert k hfind =>
        split at h
        · cases h
        · next pos hpos =>
          split_ifs at h
          cases h
          exact ⟨rfl, rfl, .inr ⟨_, pos, by rw [hfind]; exact hpos, hpos, rfl⟩⟩
  next => exact ⟨rfl, rfl, .inl rfl⟩

theorem afterClose_length (db : Db) (s : ℕ) (hedgeCost : ℚ) (now : Instant) :
    (afterClose db s hedgeCost now).bookedPositions.length = db.bookedPositions.length := by
  obtain ⟨-, -, h | ⟨i, pos, -, -, h⟩⟩ := afterClose_frame db s hedgeCost now
  · rw [h]
  · rw [h, List.length_set]

/-- What the next statement of a session commits. -/
def Phase.effect (st : Store) (hedgeCost : ℚ) (now : Instant) : Phase → Store
  | .inserted write row flips =>
    { tables := write.commit st.tables
      snapshots := replaceCurrent st.snapshots flips row }
  | .closing structureId row =>
    { st with tables := { st.tables with db := st.tables.db.setStructure structureId row } }
  | .finalising structureId =>
    { st with
      tables :=
        { db := afterClose st.tables.db structureId hedgeCost now
          entryGreeks := st.tables.entryGreeks
          parallel := st.tables.parallel.trans (afterClose_length _ _ _ _).symm } }
  | _ => st

inductive RefreshEvent
  /-- The next statement of a session -/
  | run (session : ℕ) (hedgeCost : ℚ) (now : Instant)
  /-- A statement of its refresh raises. -/
  | fail (session : ℕ)

def refreshStep (w : World) : RefreshEvent → World
  | .run k hedgeCost now =>
    match w.sessions[k]? with
    | none => w
    | some s =>
      { s.phase.effect w.toStore hedgeCost now with
        sessions := w.sessions.set k
          { s with phase := s.phase.next w.toStore (w.sessions.eraseIdx k) s.job now } }
  | .fail k =>
    match w.sessions[k]? with
    | none => w
    | some s =>
      if s.phase.refreshing then { w with sessions := w.sessions.set k { s with phase := .lost } }
      else w

def Job.structure? : Job → Option ℕ
  | .completion structureId => some structureId
  | .mockSubmit .. => none

/-- Sessions of different structures are called, on tables whose keys hold. -/
structure Start (w : World) : Prop where
  called : ∀ s ∈ w.sessions, s.phase = .called
  distinct : (w.sessions.filterMap (·.job.structure?)).Nodup
  keys : ∀ o ∈ w.tables.db.orders, o.structureId < w.tables.db.structures.length
  booked : ∀ s, w.tables.db.fullyFilled s → EntryFilled w.tables.db s → w.tables.db.isBooked s
  oneCurrent : (currentIds w.snapshots).length ≤ 1

/-- The sessions leave each other's bookings alone. -/
structure Independent (w : World) : Prop where
  booked : ∀ s ∈ w.sessions, ∀ structureId, s.job = .completion structureId → s.phase.ended →
    EntryFilled w.tables.db structureId →
      w.tables.db.fullyFilled structureId ∧ w.tables.db.isBooked structureId
  kept : ∀ s ∈ w.sessions, s.phase ≠ .lost
  oneCurrent : (currentIds w.snapshots).length ≤ 1
  totals : (∀ s ∈ w.sessions, s.phase.ended) → (∃ s ∈ w.sessions, s.phase = .committed) →
    ∃ row ∈ w.snapshots, row.isCurrent ∧ row.totals = bookTotals w.tables.rows
  /-- The sessions do not all wait. -/
  advances : (∃ s ∈ w.sessions, ¬ s.phase.ended) → ∃ (k : ℕ) (s : Session), w.sessions[k]? = some s ∧
    ¬ s.phase.ended ∧ ∀ now, s.phase.next w.toStore (w.sessions.eraseIdx k) s.job now ≠ s.phase

/-- No refresh commits while another is between its sum and its commit, no statement of a refresh
raises, and no finaliser closes a position that is still open. -/
def Separate (w : World) : RefreshEvent → Prop
  | .run k _ _ => ∀ s, w.sessions[k]? = some s →
      (s.phase.isInserted → ∀ other ∈ w.sessions.eraseIdx k, ¬ other.phase.pastSum) ∧
      (∀ structureId, s.phase = .finalising structureId →
        (alertedPosition w.tables.db structureId).all (·.state ≠ .open))
  | .fail k => ∀ s, w.sessions[k]? = some s → ¬ s.phase.refreshing

section Current
variable {snapshots : List Snapshot} {row : Snapshot} {flips : List ℕ} {i : ℕ}

theorem mem_currentIds : i ∈ currentIds snapshots ↔ ∃ r, snapshots[i]? = some r ∧ r.isCurrent := by
  simp only [currentIds, List.mem_filter, List.mem_range, Option.any_eq_true]
  constructor
  · rintro ⟨-, r, hr, hcurrent⟩
    exact ⟨r, hr, hcurrent⟩
  · rintro ⟨r, hr, hcurrent⟩
    exact ⟨(List.getElem?_eq_some_iff.mp hr).1, r, hr, hcurrent⟩

/-- Once a refresh that took back every current row is committed, its own row is the only one. -/
theorem mem_currentIds_replace (hcover : ∀ j ∈ currentIds snapshots, j ∈ flips)
    (h : i ∈ currentIds (replaceCurrent snapshots flips row)) : i = snapshots.length := by
  obtain ⟨r, hr, hcurrent⟩ := mem_currentIds.mp h
  by_contra hne
  rw [replaceCurrent, List.getElem?_append] at hr
  simp only [List.length_mapIdx] at hr
  split_ifs at hr with hlt
  · rw [List.getElem?_mapIdx] at hr
    obtain ⟨old, hold, rfl⟩ := Option.map_eq_some_iff.mp hr
    by_cases hflip : i ∈ flips
    · rw [if_pos hflip] at hcurrent
      cases hcurrent
    · rw [if_neg hflip] at hcurrent
      exact hflip (hcover i (mem_currentIds.mpr ⟨old, hold, hcurrent⟩))
  · have hi : i - snapshots.length = 0 := by
      have hbound := (List.getElem?_eq_some_iff.mp hr).1
      simp only [List.length_singleton] at hbound
      omega
    omega

theorem currentIds_nodup (snapshots : List Snapshot) : (currentIds snapshots).Nodup :=
  List.nodup_range.filter _

theorem current_unique {j : ℕ} (h : (currentIds snapshots).length ≤ 1) (hi : i ∈ currentIds snapshots)
    (hj : j ∈ currentIds snapshots) : i = j := by
  match hids : currentIds snapshots with
  | [] =>
    rw [hids] at hi
    cases hi
  | [a] =>
    rw [hids, List.mem_singleton] at hi hj
    rw [hi, hj]
  | a :: b :: rest =>
    rw [hids] at h
    simp at h

theorem oneCurrent_replace (hcover : ∀ j ∈ currentIds snapshots, j ∈ flips) :
    (currentIds (replaceCurrent snapshots flips row)).length ≤ 1 := by
  have hsub : currentIds (replaceCurrent snapshots flips row) ⊆ [snapshots.length] := by
    intro j hj
    exact List.mem_singleton.mpr (mem_currentIds_replace hcover hj)
  exact ((currentIds_nodup _).subperm hsub).length_le

end Current

/-- What is booked stays booked, and what is new is booked. -/
structure Keeps (db db' : Db) : Prop where
  length : db.structures.length ≤ db'.structures.length
  keys : (∀ o ∈ db.orders, o.structureId < db.structures.length) →
    ∀ o ∈ db'.orders, o.structureId < db'.structures.length
  entry : ∀ s, EntryFilled db' s → EntryFilled db s ∨ db'.fullyFilled s ∧ db'.isBooked s
  filled : ∀ s, db.fullyFilled s → db'.fullyFilled s
  booked : ∀ s, db.isBooked s → db'.isBooked s

section Keeping
variable {db db' : Db} {s : ℕ} {row : TradeStructure} {now : Instant}

theorem EntryFilled.congr (h : db'.orders = db.orders) : EntryFilled db' s ↔ EntryFilled db s := by
  rw [EntryFilled, EntryFilled, h]

theorem Keeps.refl (db : Db) : Keeps db db :=
  ⟨le_rfl, id, fun _ => .inl, fun _ => id, fun _ => id⟩

/-- Where the orders are left alone -/
theorem Keeps.of_orders (horders : db'.orders = db.orders)
    (hlength : db'.structures.length = db.structures.length)
    (hfilled : ∀ s, db.fullyFilled s → db'.fullyFilled s)
    (hbooked : ∀ s, db.isBooked s → db'.isBooked s) : Keeps db db' where
  length := hlength.ge
  keys := by
    rw [horders, hlength]
    exact id
  entry := fun s h => .inl ((EntryFilled.congr horders).mp h)
  filled := hfilled
  booked := hbooked

theorem fullyFilled_setStructure (hrow : row.state = .fullyFilled) {t : ℕ} (h : db.fullyFilled t) :
    (db.setStructure s row).fullyFilled t := by
  obtain ⟨old, hold, hstate⟩ := (Option.any_eq_true _ _).mp h
  have hlt := (List.getElem?_eq_some_iff.mp hold).1
  rw [Db.fullyFilled, Db.setStructure]
  by_cases heq : s = t
  · subst heq
    simp [List.getElem?_set_self hlt, hrow]
  · simp [List.getElem?_set_ne heq, hold, hstate]

theorem fullyFilled_setStructure_self (hrow : row.state = .fullyFilled)
    (hs : s < db.structures.length) : (db.setStructure s row).fullyFilled s := by
  simp [Db.fullyFilled, Db.setStructure, List.getElem?_set_self hs, hrow]

theorem fullyFilled_set_ne {t : ℕ} (h : s ≠ t) : (db.setStructure s row).fullyFilled t = db.fullyFilled t := by
  rw [Db.fullyFilled, Db.setStructure, List.getElem?_set_ne h]
  rfl

variable (db s row now) in
theorem isBooked_bookPosition : (bookPosition db s row now).isBooked s := by
  unfold bookPosition
  split
  · next h => exact isBooked_iff.mpr h
  · simp [Db.isBooked]

variable (s row now) in
theorem isBooked_mono {t : ℕ} (h : db.isBooked t) : (bookPosition db s row now).isBooked t := by
  unfold bookPosition
  split
  · exact h
  · simp only [Db.isBooked, List.map_append, List.mem_append]
    exact .inl h

theorem keeps_completed (hrow : row.state = .fullyFilled) :
    Keeps db (bookPosition (db.setStructure s row) s row now) := by
  apply Keeps.of_orders
  · rw [bookPosition_orders]
    rfl
  · simp [Db.setStructure]
  · intro t ht
    have hset := fullyFilled_setStructure (s := s) hrow ht
    rwa [Db.fullyFilled, bookPosition_structures]
  · intro t ht
    exact isBooked_mono s row now ht

theorem keeps_closing (hrow : row.state = .fullyFilled) : Keeps db (db.setStructure s row) := by
  refine Keeps.of_orders rfl ?_ ?_ ?_
  · simp [Db.setStructure]
  · intro t ht
    exact fullyFilled_setStructure hrow ht
  · intro t ht
    exact ht

theorem keeps_mocked (legs : List PricedLeg) (expiry : ℕ → Date) (tolerance rate : ℚ) (now : Instant) :
    Keeps db (mockSubmit db legs expiry tolerance rate now) where
  length := by simp [mockSubmit]
  keys := by
    intro hkeys o ho
    simp only [mockSubmit, List.length_append, List.length_singleton, List.mem_append,
      List.mem_mapIdx] at ho ⊢
    rcases ho with ho | ⟨i, hi, rfl⟩
    · exact Nat.lt_succ_of_lt (hkeys o ho)
    · exact Nat.lt_succ_self _
  entry := by
    intro s hs
    by_cases hnew : s = db.structures.length
    · right
      subst hnew
      constructor
      · simp [Db.fullyFilled, mockSubmit, mockStructure]
      · simp [Db.isBooked, mockSubmit]
    · left
      have hold {o : StructureOrder} (hsid : o.structureId = s)
          (ho : o ∈ (mockSubmit db legs expiry tolerance rate now).orders) : o ∈ db.orders := by
        rcases List.mem_append.mp ho with ho | ho
        · exact ho
        · obtain ⟨i, hi, rfl⟩ := List.mem_mapIdx.mp ho
          exact absurd hsid.symm hnew
      obtain ⟨⟨o, ho, hsid, hrole⟩, hfilled⟩ := hs
      exact ⟨⟨o, hold hsid ho, hsid, hrole⟩,
        fun o ho => hfilled o (List.mem_append_left _ ho)⟩
  filled := by
    intro s hs
    obtain ⟨old, hold, hstate⟩ := (Option.any_eq_true _ _).mp hs
    have hlt := (List.getElem?_eq_some_iff.mp hold).1
    simp [Db.fullyFilled, mockSubmit, List.getElem?_append_left hlt, hold, hstate]
  booked := by
    intro s hs
    simp only [Db.isBooked, mockSubmit, List.map_append, List.mem_append]
    exact .inl hs

/-- The state of a position is not its structure. -/
theorem structureIds_set {i : ℕ} {pos : BookedPosition} {state : PositionState}
    (hpos : db.bookedPositions[i]? = some pos) :
    (db.bookedPositions.set i { pos with state := state }).map (·.structureId) =
      db.bookedPositions.map (·.structureId) := by
  obtain ⟨hi, hrow⟩ := List.getElem?_eq_some_iff.mp hpos
  have hlt : i < (db.bookedPositions.map (·.structureId)).length := by
    rwa [List.length_map]
  have hread : (db.bookedPositions.map (·.structureId))[i] = pos.structureId := by
    rw [List.getElem_map, hrow]
  rw [List.map_set, ← hread, List.set_getElem_self]

theorem keeps_afterClose (s : ℕ) (hedgeCost : ℚ) (now : Instant) :
    Keeps db (afterClose db s hedgeCost now) := by
  obtain ⟨hstructures, horders, hpositions⟩ := afterClose_frame db s hedgeCost now
  refine Keeps.of_orders horders (by rw [hstructures]) ?_ ?_
  · intro t ht
    rwa [Db.fullyFilled, hstructures]
  · intro t ht
    rcases hpositions with h | ⟨i, pos, -, hpos, h⟩
    · rwa [Db.isBooked, h]
    · rwa [Db.isBooked, h, structureIds_set hpos]

end Keeping

/-- Where the entry legs of a structure are filled, it is completed and booked. -/
def Done (db : Db) (s : ℕ) : Prop := EntryFilled db s → db.fullyFilled s ∧ db.isBooked s

theorem Done.keep {db db' : Db} {s : ℕ} (h : Done db s) (hkeep : Keeps db db') : Done db' s := by
  intro hfilled
  rcases hkeep.entry s hfilled with hold | hnew
  · obtain ⟨hfull, hbooked⟩ := h hold
    exact ⟨hkeep.filled s hfull, hkeep.booked s hbooked⟩
  · exact hnew

end FxVol.BookRefreshes
