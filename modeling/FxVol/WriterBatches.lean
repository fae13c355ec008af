import FxVol.KeyedLog
import FxVol.RetriedPrograms
import Mathlib.Data.List.Pairwise

/-!
# Batches of the database writer

A batch goes into the tables of its events, each table in a transaction; a row that cannot be inserted
is parked in the dead letters, and what fails for a moment is sent again.
-/
namespace FxVol.WriterBatches

open KeyedLog RetriedPrograms

/-- The keys of `TABLE_MODELS` -/
inductive Table
  | accountHistory | featureHistory | pcaSignalHistory | openPosition | openPositionHistory
  | regimeSnapshotHistory | pcaSurfaceSnapshotHistory | volSurfaceHistory
  deriving DecidableEq

/-- `IDEMPOTENT_TABLES` -/
def Table.idempotent : Table → Bool
  | .volSurfaceHistory | .openPosition | .featureHistory | .regimeSnapshotHistory
  | .pcaSurfaceSnapshotHistory | .pcaSignalHistory => true
  | .accountHistory | .openPositionHistory => false

/-- What a statement can raise besides the transient errors; `compile` is a statement that SQLAlchemy
cannot compile, and `other` any class not named. -/
inductive SqlError | integrity | data | programming | statement | value | type | compile | other
  deriving DecidableEq

/-- `_ROW_ERRORS` -/
def SqlError.isRowError : SqlError → Bool
  | .integrity | .data | .programming | .statement | .value | .type => true
  | .compile | .other => false

/-- What the database and SQLAlchemy make of an insert of some rows, and the natural keys -/
structure Sql (Row Key : Type*) where
  error : Table → List Row → Option SqlError
  key : Table → Row → Key

inductive Target
  | model (t : Table)
  | unknown (name : String)
  deriving DecidableEq

/-- An item of a batch, with its place there -/
structure Event (Row : Type*) where
  place : ℕ
  target : Target
  payload : Row
  deriving DecidableEq

structure WriterDb (Row : Type*) where
  stored : Table → List Row
  dead : List (Event Row)

/-- A failure raised before the transaction took effect, or after -/
inductive Fault | before | after
  deriving DecidableEq

/-- A transaction of the writer -/
inductive Tx (Row : Type*)
  | dead (e : Event Row)
  | insert (t : Table) (es : List (Event Row))

section Writer
variable {Row Key : Type*} [DecidableEq Key] (S : Sql Row Key)

/-- `_build_insert` where it goes through -/
def insertRows (t : Table) (rows : List Row) (db : WriterDb Row) : WriterDb Row :=
  { db with
    stored := Function.update db.stored t
      (if t.idempotent then recordAll (S.key t) (db.stored t) rows else db.stored t ++ rows) }

def insertError (t : Table) (es : List (Event Row)) : Option SqlError := S.error t (es.map (·.payload))

/-- An insert ends the attempt on a transient error, and for good on an error that is no row error; a
dead letter is best effort. -/
def writer : Semantics (Tx Row) Fault (WriterDb Row) where
  effect tx fault db :=
    match tx, fault with
    | _, some .before => db
    | .dead e, _ => { db with dead := db.dead ++ [e] }
    | .insert t es, _ => if insertError S t es = none then insertRows S t (es.map (·.payload)) db else db
  stop tx fault :=
    match tx, fault with
    | .dead _, _ => none
    | .insert _ _, some .before => some .again
    | .insert t es, fault =>
      match insertError S t es with
      | some error => if error.isRowError then none else some .forGood
      | none => if fault = some .after then some .again else none

def fallsBack (t : Table) (es : List (Event Row)) : Bool := (insertError S t es).any (·.isRowError)

def writeRowsOneByOne (t : Table) (es : List (Event Row)) : List (Tx Row) :=
  es.flatMap fun e => .insert t [e] :: if fallsBack S t [e] then [.dead e] else []

def writeTable (t : Table) (es : List (Event Row)) : List (Tx Row) :=
  .insert t es :: if fallsBack S t es then writeRowsOneByOne S t es else []

def Event.table (e : Event Row) : Option Table :=
  match e.target with
  | .model t => some t
  | .unknown _ => none

def tablesOf (batch : List (Event Row)) : List Table := recordAll id [] (batch.filterMap (·.table))

def rowsOf (batch : List (Event Row)) (t : Table) : List (Event Row) := batch.filter fun e => e.table = some t

/-- `_write_batch`: the transactions it runs until one ends it -/
def writeBatch (batch : List (Event Row)) : List (Tx Row) :=
  (batch.filter fun e => e.table = none).map .dead ++
    (tablesOf batch).flatMap fun t => writeTable S t (rowsOf batch t)

def writeBatchWithRetries (retryAttempts : ℕ) (faults : ℕ → ℕ → Option Fault) (batch : List (Event Row))
    (db : WriterDb Row) : WriterDb Row :=
  (writer S).attempts faults (writeBatch S batch) retryAttempts 0 db

end Writer

/-- A call of the writer on a batch, with fewer transient failures than attempts; each is at a place of
the transactions of an attempt. -/
structure Call {Row Key : Type*} (S : Sql Row Key) where
  retryAttempts : ℕ
  batch : List (Event Row)
  db : WriterDb Row
  pattern : List ((ℕ × ℕ) × Fault)
  places : (batch.map (·.place)).Nodup
  keyed : ∀ t, t.idempotent → ((db.stored t).map (S.key t)).Nodup
  few : pattern.length < retryAttempts

namespace Call

variable {Row Key : Type*} [DecidableEq Key] {S : Sql Row Key} (c : Call S)

def faults (k i : ℕ) : Option Fault := (c.pattern.find? fun x => x.1 = (k, i)).map (·.2)

def program : List (Tx Row) := writeBatch S c.batch

def result : WriterDb Row := writeBatchWithRetries S c.retryAttempts c.faults c.batch c.db

end Call

section Claim
variable {Row Key : Type*} [DecidableEq Key] (S : Sql Row Key)

/-- The table of the event is known, and its own insert goes through. -/
def Valid (e : Event Row) : Prop := ∃ t, e.table = some t ∧ insertError S t [e] = none

instance : DecidablePred (Valid S) := fun e =>
  match h : e.table with
  | some t => decidable_of_iff (insertError S t [e] = none) (by simp [Valid, h])
  | none => .isFalse (by simp [Valid, h])

/-- Two rows that a table takes for one -/
def Same (t : Table) (r r' : Row) : Prop := if t.idempotent then S.key t r = S.key t r' else r = r'

/-- Every event ends in exactly one place. -/
structure Placed (c : Call S) : Prop where
  dead : c.result.dead.Perm (c.db.dead ++ c.batch.filter fun e => ¬ Valid S e)
  once : ∀ e ∈ c.batch, Valid S e → ∀ t, e.table = some t → t.idempotent →
    ((c.result.stored t).filter fun r => S.key t r = S.key t e.payload).length = 1
  kept : ∀ e ∈ c.batch, Valid S e → ∀ t, e.table = some t → ∃ r ∈ c.result.stored t, Same S t r e.payload
  clean : ∀ t, ∀ r ∈ c.result.stored t, r ∈ c.db.stored t ∨
    ∃ e ∈ c.batch, Valid S e ∧ e.table = some t ∧ e.payload = r

/-- The transaction is at that place, and no statement up to it raises what is no row error. -/
def OnPath (c : Call S) (i : ℕ) (tx : Tx Row) : Prop :=
  c.program[i]? = some tx ∧ ∀ j ≤ i, ∀ tx' ∈ c.program[j]?, (writer S).stop tx' none ≠ some .forGood

/-- An attempt that is made reaches the place, and what is there takes effect. -/
def TakesEffect (c : Call S) (k i : ℕ) : Prop :=
  (writer S).Made c.faults c.program k ∧ (writer S).Reached c.faults c.program k i ∧
    c.faults k i ≠ some .before

/-- Each dead letter takes effect in one attempt; no event is after a statement that raises what is no row
error, unless its row is stored anyhow; and no statement takes a row that would fail alone. -/
structure Settles (c : Call S) : Prop where
  once : ∀ i e, c.program[i]? = some (.dead e) → ∃! k, TakesEffect S c k i
  handled : ∀ e ∈ c.batch, (∃ i, OnPath S c i (.dead e)) ∨ Valid S e ∧ ∃ t, e.table = some t ∧
    ((∃ r ∈ c.db.stored t, Same S t r e.payload) ∨ ∃ i es, OnPath S c i (.insert t es) ∧
      insertError S t es = none ∧ ∃ e' ∈ es, Same S t e'.payload e.payload)
  alone : ∀ i t es, OnPath S c i (.insert t es) → insertError S t es = none →
    ∀ e ∈ es, insertError S t [e] = none

end Claim

section Program
variable {Row Key : Type*} {S : Sql Row Key} {batch : List (Event Row)}
  {e : Event Row} {t : Table} {es : List (Event Row)}

theorem mem_rowsOf : e ∈ rowsOf batch t ↔ e ∈ batch ∧ e.table = some t := by simp [rowsOf]

theorem mem_tablesOf : t ∈ tablesOf batch ↔ ∃ e ∈ batch, e.table = some t := by
  have h := key_mem_recordAll id [] (batch.filterMap (·.table)) t
  simpa [tablesOf] using h

theorem tablesOf_nodup : (tablesOf batch).Nodup := by
  have h := nodup_recordAll id [] (batch.filterMap (·.table)) List.nodup_nil
  rwa [List.map_id] at h

/-- A dead letter is for an event of an unknown table, or one whose table and whose row both failed. -/
theorem dead_mem_writeBatch : .dead e ∈ writeBatch S batch ↔ e ∈ batch ∧
    (e.table = none ∨ ∃ t, e.table = some t ∧ fallsBack S t (rowsOf batch t) = true ∧
      fallsBack S t [e] = true) := by
  simp only [writeBatch, writeTable, writeRowsOneByOne, List.mem_append, List.mem_map, List.mem_filter,
    List.mem_flatMap]
  constructor
  · rintro (⟨e', ⟨he, hnone⟩, heq⟩ | ⟨t, -, htx⟩)
    · cases heq
      exact ⟨he, .inl (of_decide_eq_true hnone)⟩
    · rcases List.mem_cons.mp htx with heq | htx
      · cases heq
      split_ifs at htx with hfall
      · obtain ⟨e', he', htx⟩ := List.mem_flatMap.mp htx
        rcases List.mem_cons.mp htx with heq | htx
        · cases heq
        split_ifs at htx with halone
        · cases List.mem_singleton.mp htx
          obtain ⟨hmem, htable⟩ := mem_rowsOf.mp he'
          exact ⟨hmem, .inr ⟨t, htable, hfall, halone⟩⟩
        · cases htx
      · cases htx
  · rintro ⟨he, hnone | ⟨t, htable, hfall, halone⟩⟩
    · exact .inl ⟨e, ⟨he, decide_eq_true hnone⟩, rfl⟩
    · refine .inr ⟨t, mem_tablesOf.mpr ⟨e, he, htable⟩, List.mem_cons_of_mem _ ?_⟩
      rw [if_pos hfall]
      exact List.mem_flatMap.mpr ⟨e, mem_rowsOf.mpr ⟨he, htable⟩, by simp [halone]⟩

theorem insert_mem_writeBatch (h : .insert t es ∈ writeBatch S batch) :
    es = rowsOf batch t ∨ fallsBack S t (rowsOf batch t) = true ∧ ∃ e ∈ rowsOf batch t, es = [e] := by
  simp only [writeBatch, writeTable, writeRowsOneByOne, List.mem_append, List.mem_map, List.mem_flatMap] at h
  rcases h with ⟨e, -, heq⟩ | ⟨t', -, htx⟩
  · cases heq
  · rcases List.mem_cons.mp htx with heq | htx
    · cases heq
      exact .inl rfl
    split_ifs at htx with hfall
    · obtain ⟨e, he, htx⟩ := List.mem_flatMap.mp htx
      rcases List.mem_cons.mp htx with heq | htx
      · cases heq
        exact .inr ⟨hfall, e, he, rfl⟩
      split_ifs at htx
      · cases List.mem_singleton.mp htx
      · cases htx
    · cases htx

def deadOf : Tx Row → Option (Event Row)
  | .dead e => some e
  | .insert _ _ => none

theorem deadOf_eq {tx : Tx Row} : deadOf tx = some e ↔ tx = .dead e := by
  cases tx <;> simp [deadOf]

/-- No event has two dead letters in the program. -/
theorem deads_nodup (h : batch.Nodup) : ((writeBatch S batch).filterMap deadOf).Nodup := by
  have hunknown : ((batch.filter fun e => e.table = none).map Tx.dead).filterMap deadOf =
      batch.filter fun e => e.table = none := by
    rw [List.filterMap_map]
    exact List.filterMap_some
  have htable : ∀ t, (writeTable S t (rowsOf batch t)).filterMap deadOf =
      if fallsBack S t (rowsOf batch t) then (rowsOf batch t).filter fun e => fallsBack S t [e] else [] := by
    intro t
    rw [writeTable, List.filterMap_cons_none rfl]
    split_ifs
    · rw [writeRowsOneByOne]
      induction rowsOf batch t with
      | nil => rfl
      | cons e es ih =>
        rw [List.flatMap_cons, List.filterMap_append, ih, List.filterMap_cons_none rfl]
        by_cases halone : fallsBack S t [e] = true
        · simp [halone, deadOf]
        · simp [halone, deadOf]
    · rfl
  have hmem : ∀ t e, e ∈ (writeTable S t (rowsOf batch t)).filterMap deadOf → e.table = some t := by
    intro t e he
    rw [htable] at he
    split_ifs at he
    · exact (mem_rowsOf.mp (List.mem_filter.mp he).1).2
    · cases he
  rw [writeBatch, List.filterMap_append, hunknown, List.filterMap_flatMap, List.nodup_append']
  refine ⟨h.filter _, ?_, fun e he he' => ?_⟩
  · rw [List.nodup_flatMap]
    refine ⟨fun t _ => ?_, tablesOf_nodup.imp fun hne e he he' => ?_⟩
    · rw [htable]
      split_ifs
      · exact (h.filter _).filter _
      · exact List.nodup_nil
    · exact hne (Option.some.inj ((hmem _ e he).symm.trans (hmem _ e he')))
  · obtain ⟨t, -, he'⟩ := List.mem_flatMap.mp he'
    have hnone := of_decide_eq_true (List.mem_filter.mp he).2
    rw [hmem t e he'] at hnone
    cases hnone

end Program

section Effects
variable {Row Key : Type*} [DecidableEq Key] {S : Sql Row Key} {db : WriterDb Row} {t t' : Table}
  {r : Row} {rows : List Row}

omit [DecidableEq Key] in
theorem Same.refl (t : Table) (r : Row) : Same S t r r := by
  rw [Same]
  split_ifs <;> rfl

theorem insertRows_other (h : t' ≠ t) : (insertRows S t rows db).stored t' = db.stored t' :=
  Function.update_of_ne h _ _

theorem insertRows_self : (insertRows S t rows db).stored t =
    if t.idempotent then recordAll (S.key t) (db.stored t) rows else db.stored t ++ rows :=
  Function.update_self _ _ _

theorem mem_insertRows (h : r ∈ (insertRows S t rows db).stored t) : r ∈ db.stored t ∨ r ∈ rows := by
  rw [insertRows_self] at h
  split_ifs at h
  · exact mem_of_mem_recordAll h
  · exact List.mem_append.mp h

/-- What a table takes for a row is there after the insert where it was before or is among the rows. -/
theorem same_insertRows : (∃ r' ∈ (insertRows S t rows db).stored t, Same S t r' r) ↔
    (∃ r' ∈ db.stored t, Same S t r' r) ∨ ∃ r' ∈ rows, Same S t r' r := by
  rw [insertRows_self]
  by_cases hkeyed : t.idempotent = true
  · have h := key_mem_recordAll (S.key t) (db.stored t) rows (S.key t r)
    simp only [List.mem_map] at h
    simpa only [if_pos hkeyed, Same] using h
  · simp only [if_neg hkeyed, List.mem_append, Same]
    constructor
    · rintro ⟨r', hr' | hr', rfl⟩
      · exact .inl ⟨r', hr', rfl⟩
      · exact .inr ⟨r', hr', rfl⟩
    · rintro (⟨r', hr', rfl⟩ | ⟨r', hr', rfl⟩)
      · exact ⟨r', .inl hr', rfl⟩
      · exact ⟨r', .inr hr', rfl⟩

/-- An insert that takes effect -/
def Inserts (S : Sql Row Key) (fault : Option Fault) (t : Table) (es : List (Event Row)) : Prop :=
  fault ≠ some .before ∧ insertError S t es = none

variable (faults : ℕ → ℕ → Option Fault)

def play (S : Sql Row Key) (db : WriterDb Row) (x : Semantics.Executed (Tx Row)) : WriterDb Row :=
  (writer S).effect x.2.2 (faults x.1 x.2.1) db

variable {x : Semantics.Executed (Tx Row)} {xs : List (Semantics.Executed (Tx Row))}

theorem play_cases (S : Sql Row Key) (db : WriterDb Row) (x : Semantics.Executed (Tx Row)) :
    play faults S db x = db ∧ (∀ e, x.2.2 = .dead e → faults x.1 x.2.1 = some .before) ∧
        (∀ t es, x.2.2 = .insert t es → ¬ Inserts S (faults x.1 x.2.1) t es) ∨
      (∃ e, x.2.2 = .dead e ∧ faults x.1 x.2.1 ≠ some .before ∧
        play faults S db x = { db with dead := db.dead ++ [e] }) ∨
      ∃ t es, x.2.2 = .insert t es ∧ Inserts S (faults x.1 x.2.1) t es ∧
        play faults S db x = insertRows S t (es.map (·.payload)) db := by
  by_cases hbefore : faults x.1 x.2.1 = some .before
  · refine .inl ⟨?_, fun e _ => hbefore, fun t es _ h => h.1 hbefore⟩
    simp only [play, writer, hbefore]
  · cases htx : x.2.2 with
    | dead e =>
      refine .inr (.inl ⟨e, rfl, hbefore, ?_⟩)
      cases hfault : faults x.1 x.2.1 with
      | none => simp only [play, writer, htx, hfault]
      | some fault =>
        cases fault with
        | before => exact absurd hfault hbefore
        | after => simp only [play, writer, htx, hfault]
    | insert t es =>
      have hplay : play faults S db x =
          if insertError S t es = none then insertRows S t (es.map (·.payload)) db else db := by
        cases hfault : faults x.1 x.2.1 with
        | none => simp only [play, writer, htx, hfault]
        | some fault =>
          cases fault with
          | before => exact absurd hfault hbefore
          | after => simp only [play, writer, htx, hfault]
      by_cases herror : insertError S t es = none
      · exact .inr (.inr ⟨t, es, rfl, ⟨hbefore, herror⟩, hplay.trans (if_pos herror)⟩)
      · refine .inl ⟨hplay.trans (if_neg herror), ?_, ?_⟩
        · intro e h
          cases h
        · intro t' es' h h'
          cases h
          exact herror h'.2

variable {faults}

/-- A dead letter that takes effect -/
def lettered (faults : ℕ → ℕ → Option Fault) (x : Semantics.Executed (Tx Row)) : Option (Event Row) :=
  if faults x.1 x.2.1 = some .before then none else deadOf x.2.2

theorem lettered_eq {e : Event Row} : lettered faults x = some e ↔
    x.2.2 = .dead e ∧ faults x.1 x.2.1 ≠ some .before := by
  rw [lettered]
  split_ifs with hbefore
  · simp [hbefore]
  · simp [hbefore, deadOf_eq]

theorem foldl_dead (db : WriterDb Row) (xs : List (Semantics.Executed (Tx Row))) :
    (xs.foldl (play faults S) db).dead = db.dead ++ xs.filterMap (lettered faults) := by
  induction xs generalizing db with
  | nil => exact (List.append_nil _).symm
  | cons x xs ih =>
    rw [List.foldl_cons, ih]
    rcases play_cases faults S db x with ⟨heq, hdead, -⟩ | ⟨e, htx, hfault, heq⟩ | ⟨t, es, htx, -, heq⟩
    · have hnone : lettered faults x = none := by
        rw [Option.eq_none_iff_forall_ne_some]
        intro e he
        obtain ⟨htx, hfault⟩ := lettered_eq.mp he
        exact hfault (hdead e htx)
      rw [heq, List.filterMap_cons_none hnone]
    · rw [heq, List.filterMap_cons_some (lettered_eq.mpr ⟨htx, hfault⟩), List.append_assoc]
      rfl
    · have hnone : lettered faults x = none := by
        rw [Option.eq_none_iff_forall_ne_some]
        intro e he
        have h := (lettered_eq.mp he).1
        rw [htx] at h
        cases h
      rw [heq, List.filterMap_cons_none hnone]
      rfl

theorem foldl_mem (h : r ∈ (xs.foldl (play faults S) db).stored t) : r ∈ db.stored t ∨
    ∃ x ∈ xs, ∃ es, x.2.2 = .insert t es ∧ Inserts S (faults x.1 x.2.1) t es ∧
      ∃ e ∈ es, e.payload = r := by
  induction xs generalizing db with
  | nil => exact .inl h
  | cons x xs ih =>
    rcases ih h with hr | ⟨y, hy, hrest⟩
    · rcases play_cases faults S db x with ⟨heq, -, -⟩ | ⟨e, -, -, heq⟩ | ⟨t', es, htx, hins, heq⟩
      · exact .inl (heq ▸ hr)
      · rw [heq] at hr
        exact .inl hr
      · rw [heq] at hr
        by_cases ht : t = t'
        · subst ht
          rcases mem_insertRows hr with hold | hnew
          · exact .inl hold
          · obtain ⟨e, he, hpayload⟩ := List.mem_map.mp hnew
            exact .inr ⟨x, List.mem_cons_self, es, htx, hins, e, he, hpayload⟩
        · rw [insertRows_other ht] at hr
          exact .inl hr
    · exact .inr ⟨y, List.mem_cons_of_mem _ hy, hrest⟩

theorem play_same (h : ∃ r' ∈ db.stored t, Same S t r' r) : ∃ r' ∈ (play faults S db x).stored t, Same S t r' r := by
  rcases play_cases faults S db x with ⟨heq, -, -⟩ | ⟨e, -, -, heq⟩ | ⟨t', es, htx, hins, heq⟩
  · rwa [heq]
  · rwa [heq]
  · rw [heq]
    by_cases ht : t = t'
    · subst ht
      exact same_insertRows.mpr (.inl h)
    · rwa [insertRows_other ht]

/-- What was stored stays, and what is inserted is stored. -/
theorem foldl_same : (∃ r' ∈ (xs.foldl (play faults S) db).stored t, Same S t r' r) ↔
    (∃ r' ∈ db.stored t, Same S t r' r) ∨ ∃ x ∈ xs, ∃ es, x.2.2 = .insert t es ∧
      Inserts S (faults x.1 x.2.1) t es ∧ ∃ e ∈ es, Same S t e.payload r := by
  constructor
  · rintro ⟨r', hr', hsame⟩
    rcases foldl_mem hr' with hold | ⟨x, hx, es, htx, hins, e, he, rfl⟩
    · exact .inl ⟨r', hold, hsame⟩
    · exact .inr ⟨x, hx, es, htx, hins, e, he, hsame⟩
  · intro h
    induction xs generalizing db with
    | nil =>
      rcases h with hold | ⟨x, hx, -⟩
      · exact hold
      · cases hx
    | cons x xs ih =>
      refine ih ?_
      rcases h with hold | ⟨y, hy, es, htx, hins, e, he, hsame⟩
      · exact .inl (play_same hold)
      · rcases List.mem_cons.mp hy with rfl | hy
        · refine .inl ?_
          rcases play_cases faults S db y with ⟨-, -, hno⟩ | ⟨e', htx', -⟩ | ⟨t', es', htx', -, heq⟩
          · exact absurd hins (hno t es htx)
          · rw [htx] at htx'
            cases htx'
          · rw [htx] at htx'
            cases htx'
            rw [heq]
            exact same_insertRows.mpr (.inr ⟨e.payload, List.mem_map_of_mem he, hsame⟩)
        · exact .inr ⟨y, hy, es, htx, hins, e, he, hsame⟩

/-- Natural keys stay unique. -/
theorem foldl_keyed (ht : t.idempotent = true) (h : ((db.stored t).map (S.key t)).Nodup) :
    (((xs.foldl (play faults S) db).stored t).map (S.key t)).Nodup := by
  induction xs generalizing db with
  | nil => exact h
  | cons x xs ih =>
    refine ih ?_
    rcases play_cases faults S db x with ⟨heq, -, -⟩ | ⟨e, -, -, heq⟩ | ⟨t', es, -, -, heq⟩
    · rwa [heq]
    · rwa [heq]
    · rw [heq]
      by_cases heq : t = t'
      · subst heq
        rw [insertRows_self, if_pos ht]
        exact nodup_recordAll _ _ _ h
      · rwa [insertRows_other heq]

end Effects

section OneCall
variable {Row Key : Type*} [DecidableEq Key] {S : Sql Row Key} {c : Call S} {i k : ℕ} {e : Event Row} {t : Table}
  {es : List (Event Row)} {tx : Tx Row}

omit [DecidableEq Key] in
theorem Call.batch_nodup (c : Call S) : c.batch.Nodup := c.places.of_map

def Call.trace (c : Call S) : List (Semantics.Executed (Tx Row)) :=
  (writer S).trace c.faults c.program c.retryAttempts 0

theorem Call.result_eq (c : Call S) : c.result = c.trace.foldl (play c.faults S) c.db :=
  Semantics.attempts_eq _ _ _

theorem stop_insert (fault : Option Fault) : (writer S).stop (.insert t es) fault =
    if fault = some .before then some .again
    else match insertError S t es with
      | some error => if error.isRowError then none else some .forGood
      | none => if fault = some .after then some .again else none := by
  rcases fault with - | fault
  · rfl
  · cases fault <;> rfl

theorem stop_forGood : (writer S).stop tx none = some .forGood ↔
    ∃ t es error, tx = .insert t es ∧ insertError S t es = some error ∧ error.isRowError = false := by
  cases tx with
  | dead e => simp [writer]
  | insert t es =>
    rw [stop_insert]
    cases herror : insertError S t es with
    | none => simp [herror]
    | some error => simp [herror]

theorem stop_forGood_of_fault {fault : Option Fault} (h : (writer S).stop tx fault = some .forGood) :
    (writer S).stop tx none = some .forGood := by
  cases tx with
  | dead e => cases h
  | insert t es =>
    rw [stop_insert] at h ⊢
    rw [if_neg (by simp)]
    by_cases hbefore : fault = some .before
    · rw [if_pos hbefore] at h
      cases h
    · rw [if_neg hbefore] at h
      cases herror : insertError S t es with
      | some error => simpa only [herror] using h
      | none =>
        simp only [herror] at h
        split_ifs at h
        cases h

theorem stop_of_forGood (h : (writer S).stop tx none = some .forGood) (fault : Option Fault) :
    (writer S).stop tx fault ≠ none := by
  obtain ⟨t, es, error, rfl, herror, hrow⟩ := stop_forGood.mp h
  rw [stop_insert, herror]
  split_ifs <;> simp [hrow]

/-- Only a fault interrupts. -/
theorem interrupted_fault (h : (writer S).Interrupted c.faults c.program k) : ∃ x ∈ c.pattern, x.1.1 = k := by
  obtain ⟨i, -, tx, -, hstop⟩ := h
  have hfault : c.faults k i ≠ none := by
    intro hnone
    rw [hnone] at hstop
    cases tx with
    | dead e => cases hstop
    | insert t es =>
      rw [stop_insert] at hstop
      cases herror : insertError S t es with
      | none => simp [herror] at hstop
      | some error => simp [herror] at hstop
  obtain ⟨fault, hfault⟩ := Option.ne_none_iff_exists'.mp hfault
  obtain ⟨x, hx, -⟩ := Option.map_eq_some_iff.mp hfault
  refine ⟨x, List.mem_of_find?_eq_some hx, ?_⟩
  have hplace := List.find?_some hx
  rw [of_decide_eq_true hplace]

theorem exists_last_attempt (c : Call S) : ∃ m < c.retryAttempts, (writer S).Made c.faults c.program m ∧
    ¬ (writer S).Interrupted c.faults c.program m :=
  Semantics.exists_last c.few fun _ h => interrupted_fault h

theorem mem_trace : (k, i, tx) ∈ c.trace ↔ (writer S).Made c.faults c.program k ∧
    c.program[i]? = some tx ∧ (writer S).Reached c.faults c.program k i := by
  rw [Call.trace, Semantics.mem_trace]
  constructor
  · rintro ⟨-, -, hmade, htx, hreached⟩
    exact ⟨fun j hj => hmade j (Nat.zero_le j) hj, htx, hreached⟩
  · rintro ⟨hmade, htx, hreached⟩
    refine ⟨Nat.zero_le k, ?_, fun j _ hj => hmade j hj, htx, hreached⟩
    obtain ⟨m, hm, -, hnot⟩ := exists_last_attempt c
    rw [Nat.zero_add]
    by_contra hk
    exact hnot (hmade m (by omega))

/-- An attempt that is not interrupted reaches everything on the path. -/
theorem reached_of_onPath (hnot : ¬ (writer S).Interrupted c.faults c.program k) (h : OnPath S c i tx) :
    (writer S).Reached c.faults c.program k i := by
  suffices hall : ∀ d ≤ i, (writer S).Reached c.faults c.program k d from hall i le_rfl
  intro d
  induction d with
  | zero => exact fun _ j hj => absurd hj (Nat.not_lt_zero j)
  | succ d ih =>
    intro hd j hj tx' htx'
    rcases Nat.lt_succ_iff_lt_or_eq.mp hj with hlt | rfl
    · exact ih (by omega) j hlt tx' htx'
    · have hopen := h.2 j (by omega) tx' htx'
      cases hstop : (writer S).stop tx' (c.faults k j) with
      | none => rfl
      | some stop =>
        cases stop with
        | again => exact absurd ⟨j, ih (by omega), tx', htx', hstop⟩ hnot
        | forGood => exact absurd (stop_forGood_of_fault hstop) hopen

theorem onPath_of_reached (htx : c.program[i]? = some tx) (h : (writer S).Reached c.faults c.program k i)
    (hopen : (writer S).stop tx none ≠ some .forGood) : OnPath S c i tx := by
  refine ⟨htx, fun j hj tx' htx' => ?_⟩
  rcases Nat.lt_or_eq_of_le hj with hlt | rfl
  · exact fun hgood => stop_of_forGood hgood _ (h j hlt tx' htx')
  · rw [htx] at htx'
    rwa [← Option.some.inj htx']

/-- What is inserted in some attempt: what the inserts on the path that go through hold. -/
theorem inserted_iff {p : Event Row → Prop} : (∃ x ∈ c.trace, ∃ es, x.2.2 = .insert t es ∧
      Inserts S (c.faults x.1 x.2.1) t es ∧ ∃ e ∈ es, p e) ↔
    ∃ i es, OnPath S c i (.insert t es) ∧ insertError S t es = none ∧ ∃ e ∈ es, p e := by
  constructor
  · rintro ⟨⟨k, i, tx⟩, hx, es, htx, hins, hp⟩
    dsimp only at htx
    subst htx
    obtain ⟨-, hplace, hreached⟩ := mem_trace.mp hx
    refine ⟨i, es, onPath_of_reached hplace hreached ?_, hins.2, hp⟩
    rw [stop_insert, hins.2]
    simp
  · rintro ⟨i, es, hpath, hnone, hp⟩
    obtain ⟨m, -, hmade, hnot⟩ := exists_last_attempt c
    have hreached := reached_of_onPath hnot hpath
    refine ⟨(m, i, .insert t es), mem_trace.mpr ⟨hmade, hpath.1, hreached⟩, es, rfl, ⟨fun hbefore => ?_, hnone⟩, hp⟩
    refine hnot ⟨i, hreached, _, hpath.1, ?_⟩
    rw [stop_insert, hbefore]
    rfl

theorem lettered_iff : (∃ x ∈ c.trace, lettered c.faults x = some e) ↔
    ∃ i k, c.program[i]? = some (.dead e) ∧ TakesEffect S c k i := by
  constructor
  · rintro ⟨⟨k, i, tx⟩, hx, he⟩
    obtain ⟨htx, hfault⟩ := lettered_eq.mp he
    dsimp only at htx hfault
    subst htx
    obtain ⟨hmade, hplace, hreached⟩ := mem_trace.mp hx
    exact ⟨i, k, hplace, hmade, hreached, hfault⟩
  · rintro ⟨i, k, hplace, hmade, hreached, hfault⟩
    exact ⟨(k, i, .dead e), mem_trace.mpr ⟨hmade, hplace, hreached⟩, lettered_eq.mpr ⟨rfl, hfault⟩⟩

omit [DecidableEq Key] in
/-- An event has its dead letter at one place of the program. -/
theorem dead_place_unique {j : ℕ} (hi : c.program[i]? = some (.dead e)) (hj : c.program[j]? = some (.dead e)) :
    i = j := by
  have hnodup := deads_nodup (S := S) c.batch_nodup
  rw [List.Nodup, List.pairwise_filterMap] at hnodup
  by_contra hne
  obtain ⟨hilt, higet⟩ := List.getElem?_eq_some_iff.mp hi
  obtain ⟨hjlt, hjget⟩ := List.getElem?_eq_some_iff.mp hj
  rcases Nat.lt_or_gt_of_ne hne with hlt | hlt
  · have h := List.pairwise_iff_getElem.mp hnodup i j hilt hjlt hlt
    exact h e (deadOf_eq.mpr higet) e (deadOf_eq.mpr hjget) rfl
  · have h := List.pairwise_iff_getElem.mp hnodup j i hjlt hilt hlt
    exact h e (deadOf_eq.mpr hjget) e (deadOf_eq.mpr higet) rfl

theorem nodup_filterMap_iff {α β : Type*} {f : α → Option β} {l : List α} (h : l.Nodup) :
    (l.filterMap f).Nodup ↔ ∀ x ∈ l, ∀ y ∈ l, ∀ b, f x = some b → f y = some b → x = y := by
  rw [List.Nodup, List.pairwise_filterMap]
  constructor
  · intro hpair x hx y hy b hb hb'
    by_contra hne
    have hsymm : Std.Symm fun x y : α => ∀ b, f x = some b → ∀ b', f y = some b' → b ≠ b' :=
      ⟨fun x y h b hb b' hb' heq => h b' hb' b hb heq.symm⟩
    exact hpair.forall hx hy hne b hb b hb' rfl
  · intro hinj
    refine List.Pairwise.imp_of_mem (fun {x y} hx hy hne b hb b' hb' heq => ?_) h
    exact hne (hinj x hx y hy b hb (heq ▸ hb'))

/-- The dead letters are written once each just where each of them takes effect in one attempt. -/
theorem letters_nodup_iff : (c.trace.filterMap (lettered c.faults)).Nodup ↔
    ∀ i e, c.program[i]? = some (.dead e) → ∀ k k', TakesEffect S c k i → TakesEffect S c k' i → k = k' := by
  have htrace : c.trace.Nodup := Semantics.trace_nodup _ _
  rw [nodup_filterMap_iff htrace]
  constructor
  · intro hinj i e hplace k k' hk hk'
    have h := hinj (k, i, .dead e) (mem_trace.mpr ⟨hk.1, hplace, hk.2.1⟩) (k', i, .dead e)
      (mem_trace.mpr ⟨hk'.1, hplace, hk'.2.1⟩) e (lettered_eq.mpr ⟨rfl, hk.2.2⟩) (lettered_eq.mpr ⟨rfl, hk'.2.2⟩)
    exact congrArg Prod.fst h
  · rintro hone ⟨k, i, tx⟩ hx ⟨k', i', tx'⟩ hx' e he he'
    obtain ⟨htx, hfault⟩ := lettered_eq.mp he
    obtain ⟨htx', hfault'⟩ := lettered_eq.mp he'
    dsimp only at htx hfault htx' hfault'
    subst htx htx'
    obtain ⟨hmade, hplace, hreached⟩ := mem_trace.mp hx
    obtain ⟨hmade', hplace', hreached'⟩ := mem_trace.mp hx'
    obtain rfl := dead_place_unique hplace hplace'
    rw [hone i e hplace k k' ⟨hmade, hreached, hfault⟩ ⟨hmade', hreached', hfault'⟩]

omit [DecidableEq Key] in
theorem dead_not_valid (h : c.program[i]? = some (.dead e)) : e ∈ c.batch ∧ ¬ Valid S e := by
  obtain ⟨hmem, hcase⟩ := dead_mem_writeBatch.mp (List.mem_of_getElem? h)
  refine ⟨hmem, ?_⟩
  rintro ⟨t, htable, hnone⟩
  rcases hcase with hunknown | ⟨t', htable', -, halone⟩
  · rw [hunknown] at htable
    cases htable
  · rw [htable] at htable'
    cases htable'
    rw [fallsBack, hnone] at halone
    cases halone

omit [DecidableEq Key] in
/-- An event whose row goes in with others has no dead letter. -/
theorem insert_no_dead (h : c.program[i]? = some (.insert t es)) (hnone : insertError S t es = none) (he : e ∈ es) :
    e ∈ c.batch ∧ e.table = some t ∧ (¬ insertError S t [e] = none → ∀ j : ℕ, c.program[j]? ≠ some (Tx.dead e)) := by
  rcases insert_mem_writeBatch (List.mem_of_getElem? h) with rfl | ⟨-, e', he', rfl⟩
  · obtain ⟨hmem, htable⟩ := mem_rowsOf.mp he
    refine ⟨hmem, htable, fun _ j hj => ?_⟩
    rcases (dead_mem_writeBatch.mp (List.mem_of_getElem? hj)).2 with hunknown | ⟨t', htable', hfall, -⟩
    · rw [htable] at hunknown
      cases hunknown
    · rw [htable] at htable'
      cases htable'
      rw [fallsBack, hnone] at hfall
      cases hfall
  · rw [List.mem_singleton.mp he]
    obtain ⟨hmem, htable⟩ := mem_rowsOf.mp he'
    exact ⟨hmem, htable, fun hfails => absurd hnone hfails⟩

end OneCall

/-- Rows with a key, some with a column that the tables do not have: the columns of an insert are those of
its first row. -/
def featureSql : Sql (ℕ × Bool) ℕ where
  error _ rows := if rows.head?.any (·.2) then some .compile else none
  key _ row := row.1

/-- An event of an unknown table and a feature whose insert meets a transient error -/
def resent : Call featureSql where
  retryAttempts := 3
  batch := [⟨0, .unknown "prices", (0, false)⟩, ⟨1, .model .featureHistory, (1, false)⟩]
  db := ⟨fun _ => [], []⟩
  pattern := [((0, 1), .before)]
  places := by decide
  keyed _ _ := List.nodup_nil
  few := by decide

/-- A feature with an unknown column, and no error of the connection -/
def uncompiled : Call featureSql where
  retryAttempts := 3
  batch := [⟨0, .model .featureHistory, (0, true)⟩]
  db := ⟨fun _ => [], []⟩
  pattern := []
  places := by decide
  keyed _ _ := List.nodup_nil
  few := by decide

example : resent.result.dead.length = 2 ∧ uncompiled.result.dead = [] := by decide

end FxVol.WriterBatches
