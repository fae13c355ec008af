import FxVol.GuardedRuns
import FxVol.TradeTables
import Mathlib.Data.List.Sort
import Mathlib.Data.Fintype.Basic

/-!
# The switch of the PCA model

A refit reads the snapshots and the active model, fits without holding a lock, and then writes in one transaction: the
new model, the demotion of the one it has read, its own promotion, the signals of its window, and the delete of the
superseded signals of its symbol.  The partial unique index makes the second of two refits wait for the first.  The
signals of a cycle of the vol engine reach the table later, through the DB writer, and a retention pass deletes old ones.
-/
namespace FxVol.ModelSwitch

/-- A row of `pca_surface_snapshot_history`, with its thirty volatilities -/
structure Snapshot where
  symbol : String
  timestamp : Instant
  iv : Fin 30 → Option ℚ

def Snapshot.Clean (r : Snapshot) : Prop := ∀ c, (r.iv c).isSome = true

instance (r : Snapshot) : Decidable r.Clean := inferInstanceAs (Decidable (∀ _, _))

/-- A row of `pca_model`; a version is told by the second that names it. -/
structure PcaModel where
  id : ℕ
  version : ℤ
  isActive : Bool
  supersededBy : Option ℕ
  deriving DecidableEq

/-- The natural key of `pca_signal_history` -/
structure SignalKey where
  symbol : String
  timestamp : Instant
  pcaModelId : ℕ
  pcId : ℕ
  deriving DecidableEq

structure PcaSignal extends SignalKey where
  id : ℕ
  deriving DecidableEq

/-- The other tables that retention prunes -/
inductive HistoryTable | openPositionHistory | accountHistory | volSurfaceHistory
  deriving DecidableEq

/-- `previews` and `structures` are the `pca_signal_id` of the rows of `trade_preview` and `trade_structure`. -/
structure Tables where
  snapshots : List Snapshot
  models : List PcaModel
  signals : List PcaSignal
  previews : List (Option ℕ)
  structures : List (Option ℕ)
  histories : HistoryTable → List Instant

def Tables.Referenced (t : Tables) (id : ℕ) : Prop := some id ∈ t.previews ∨ some id ∈ t.structures

instance (t : Tables) (id : ℕ) : Decidable (t.Referenced id) := inferInstanceAs (Decidable (_ ∨ _))

def minObsForFit : ℕ := 6

def nComponents : ℕ := 6

inductive RefitError
  | tooFewSnapshots (found : ℕ)
  | tooFewClean (found : ℕ)
  | fitRefused (found : ℕ)
  | versionTaken
  | secondActive
  | signalReferenced
  deriving DecidableEq

/-- A refit that has fitted; `prev` is the model that was active when it read. -/
structure Refit where
  symbol : String
  version : ℤ
  prev : Option ℕ
  window : List Instant
  deriving DecidableEq

/-- A refit that holds its rows locked; `doomed` are the signals that it has deleted. -/
structure Writing extends Refit where
  modelId : ℕ
  doomed : Option (List PcaSignal)
  deriving DecidableEq

def windowRows (t : Tables) (symbol : String) : List Snapshot :=
  (t.snapshots.filter fun r => r.symbol = symbol).insertionSort fun a b => a.timestamp ≤ b.timestamp

def cleanRows (t : Tables) (symbol : String) : List Snapshot := (windowRows t symbol).filter fun r => r.Clean

/-- `perform_refit` up to the fit, which `fit_pca_svd` refuses below one observation more than components -/
def startRefit (t : Tables) (symbol : String) (version : ℤ) : Except RefitError Refit :=
  if (windowRows t symbol).length < minObsForFit then .error (.tooFewSnapshots (windowRows t symbol).length)
  else if (cleanRows t symbol).length < minObsForFit then .error (.tooFewClean (cleanRows t symbol).length)
  else if (cleanRows t symbol).length < nComponents + 1 then .error (.fitRefused (cleanRows t symbol).length)
  else
    .ok { symbol, version, prev := (t.models.find? (·.isActive)).map (·.id)
          window := (cleanRows t symbol).map (·.timestamp) }

def demote (prev : Option ℕ) (newId : ℕ) (m : PcaModel) : PcaModel :=
  if some m.id = prev then { m with isActive := false, supersededBy := some newId } else m

/-- The new model is inserted, the previous one demoted and the new one promoted. -/
def promote (models : List PcaModel) (newId : ℕ) (f : Refit) : Except RefitError Writing :=
  if ∃ m ∈ models, m.version = f.version then .error .versionTaken
  else if ∃ m ∈ models.map (demote f.prev newId), m.isActive = true then .error .secondActive
  else .ok { f with modelId := newId, doomed := none }

def superseded (t : Tables) (symbol : String) (modelId : ℕ) : List PcaSignal :=
  t.signals.filter fun r => r.symbol = symbol ∧ r.pcaModelId ≠ modelId

def dropSuperseded (t : Tables) (w : Writing) : Except RefitError (List PcaSignal) :=
  if ∃ r ∈ superseded t w.symbol w.modelId, t.Referenced r.id then .error .signalReferenced
  else .ok (superseded t w.symbol w.modelId)

/-- `_backfill_signals_from_fit`; the rows get the next ids. -/
def Writing.backfill (w : Writing) (firstId : ℕ) : List PcaSignal :=
  (w.window.product [1, 2, 3]).mapIdx fun k x =>
    { symbol := w.symbol, timestamp := x.1, pcaModelId := w.modelId, pcId := x.2, id := firstId + k }

def Writing.modelsAfter (w : Writing) (models : List PcaModel) : List PcaModel :=
  models.map (demote w.prev w.modelId) ++ [⟨w.modelId, w.version, true, none⟩]

/-- A delete of `pca_signal_history` that has read which rows are old and unreferenced, of those with an id below `upTo` -/
structure Prune where
  cutoff : Instant
  doomed : List PcaSignal
  upTo : ℕ
  deriving DecidableEq

structure System where
  tables : Tables
  nextModelId : ℕ
  nextSignalId : ℕ
  fitting : List Refit
  writing : Option Writing
  published : List SignalKey
  reading : List (String × ℕ)
  pruning : List Prune

inductive Event
  | recordSnapshot (r : Snapshot)
  | recordHistory (table : HistoryTable) (timestamp : Instant)
  | startRefit (symbol : String) (version : ℤ)
  | promote (i : ℕ)
  | dropSuperseded
  | commit (refreshed : Bool)
  | loseFit (i : ℕ)
  | loseWriting
  | cycle (symbol : String) (timestamp : Instant)
  | land (i : ℕ)
  | openState (symbol : String)
  | readState (i : ℕ)
  | preview (signal : Option ℕ)
  | submit (i : ℕ)
  | pruneHistory (table : HistoryTable) (cutoff : Instant)
  | scan (cutoff : Instant)
  | prune (i : ℕ)

def activeModel (models : List PcaModel) : Option PcaModel := models.find? (·.isActive)

/-- `ON CONFLICT DO NOTHING`, and a row whose model is not there is parked -/
def Lands (t : Tables) (row : SignalKey) : Prop :=
  (∃ m ∈ t.models, m.id = row.pcaModelId) ∧ ∀ r ∈ t.signals, r.toSignalKey ≠ row

instance (t : Tables) (row : SignalKey) : Decidable (Lands t row) := inferInstanceAs (Decidable (_ ∧ _))

/-- A reference is taken to a row that is there and that no refit has deleted. -/
def MayReference (s : System) (id : ℕ) : Prop :=
  (∃ r ∈ s.tables.signals, r.id = id) ∧ ∀ w ∈ s.writing, ∀ doomed ∈ w.doomed, ∀ r ∈ doomed, r.id ≠ id

instance (s : System) (id : ℕ) : Decidable (MayReference s id) := inferInstanceAs (Decidable (_ ∧ _))

def commitWriting (s : System) (w : Writing) (doomed : List PcaSignal) : System :=
  { s with
    tables := { s.tables with
      models := w.modelsAfter s.tables.models
      signals := (s.tables.signals.filter fun r => r ∉ doomed) ++ w.backfill s.nextSignalId }
    nextSignalId := s.nextSignalId + (w.backfill s.nextSignalId).length
    writing := none }

/-- The rows of a pass, unless one of them has been referenced since: then the foreign key refuses the whole delete. -/
def pruneRows (t : Tables) (p : Prune) : List PcaSignal :=
  if ∃ r ∈ t.signals, r ∈ p.doomed ∧ t.Referenced r.id then t.signals
  else t.signals.filter fun r => r ∉ p.doomed

def step (s : System) : Event → System
  | .recordSnapshot r =>
    if ∃ x ∈ s.tables.snapshots, x.symbol = r.symbol ∧ x.timestamp = r.timestamp then s
    else { s with tables := { s.tables with snapshots := s.tables.snapshots ++ [r] } }
  | .recordHistory table timestamp =>
    { s with tables := { s.tables with
        histories := Function.update s.tables.histories table (s.tables.histories table ++ [timestamp]) } }
  | .startRefit symbol version =>
    match startRefit s.tables symbol version with
    | .ok f => { s with fitting := s.fitting ++ [f] }
    | .error _ => s
  | .promote i =>
    -- a refit that another one's rows keep waiting has not taken this step
    match s.fitting[i]?, s.writing with
    | some f, none =>
      match promote s.tables.models s.nextModelId f with
      | .ok w =>
        { s with fitting := s.fitting.eraseIdx i, nextModelId := s.nextModelId + 1, writing := some w }
      | .error _ => { s with fitting := s.fitting.eraseIdx i, nextModelId := s.nextModelId + 1 }
    | _, _ => s
  | .dropSuperseded =>
    match s.writing with
    | some w =>
      if w.doomed.isSome then s
      else
        match dropSuperseded s.tables w with
        | .ok doomed => { s with writing := some { w with doomed := some doomed } }
        | .error _ => { s with writing := none }
    | none => s
  | .commit _ =>
    match s.writing with
    | some w =>
      match w.doomed with
      | some doomed => commitWriting s w doomed
      | none => s
    | none => s
  | .loseFit i => { s with fitting := s.fitting.eraseIdx i }
  | .loseWriting => { s with writing := none }
  | .cycle symbol timestamp =>
    match activeModel s.tables.models with
    | some m => { s with published := s.published ++ [1, 2, 3].map fun pc => ⟨symbol, timestamp, m.id, pc⟩ }
    | none => s
  | .land i =>
    match s.published[i]? with
    | some row =>
      if Lands s.tables row then
        { s with
          tables := { s.tables with signals := s.tables.signals ++ [⟨row, s.nextSignalId⟩] }
          nextSignalId := s.nextSignalId + 1
          published := s.published.eraseIdx i }
      else { s with published := s.published.eraseIdx i }
    | none => s
  | .openState symbol =>
    match activeModel s.tables.models with
    | some m => { s with reading := s.reading ++ [(symbol, m.id)] }
    | none => s
  | .readState i => { s with reading := s.reading.eraseIdx i }
  | .preview signal =>
    if ∀ id ∈ signal, MayReference s id then
      { s with tables := { s.tables with previews := s.tables.previews ++ [signal] } }
    else s
  | .submit i =>
    match s.tables.previews[i]? with
    | some signal => { s with tables := { s.tables with structures := s.tables.structures ++ [signal] } }
    | none => s
  | .pruneHistory table cutoff =>
    { s with tables := { s.tables with
        histories := Function.update s.tables.histories table
          ((s.tables.histories table).filter fun timestamp => ¬ timestamp < cutoff) } }
  | .scan cutoff =>
    { s with pruning := s.pruning ++ [{
        cutoff
        doomed := s.tables.signals.filter fun r => r.timestamp < cutoff ∧ ¬ s.tables.Referenced r.id
        upTo := s.nextSignalId }] }
  | .prune i =>
    match s.pruning[i]? with
    | some p => { s with tables := { s.tables with signals := pruneRows s.tables p }, pruning := s.pruning.eraseIdx i }
    | none => s

/-- At most one active model, rows of known models under ids of their own, and every reference to a row that is there;
a refit that holds its locks has demoted whatever is active and deleted nothing that is referenced, and a pass has seen
every old row that is not. -/
structure Sound (s : System) : Prop where
  oneActive : (s.tables.models.filter (·.isActive)).length ≤ 1
  modelIds : ∀ m ∈ s.tables.models, m.id < s.nextModelId
  signalIds : ∀ r ∈ s.tables.signals, r.id < s.nextSignalId
  signalModels : ∀ r ∈ s.tables.signals, ∃ m ∈ s.tables.models, m.id = r.pcaModelId
  referenced : ∀ id, s.tables.Referenced id → ∃ r ∈ s.tables.signals, r.id = id
  demotes : ∀ w ∈ s.writing, ∀ m ∈ s.tables.models, m.isActive = true → some m.id = w.prev
  fresh : ∀ w ∈ s.writing, w.modelId < s.nextModelId ∧ ∀ m ∈ s.tables.models, m.id ≠ w.modelId
  doomed : ∀ w ∈ s.writing, ∀ doomed ∈ w.doomed, ∀ r ∈ doomed, ¬ s.tables.Referenced r.id
  seen : ∀ p ∈ s.pruning, p.upTo ≤ s.nextSignalId ∧ ∀ r ∈ s.tables.signals, r.id < p.upTo → r.timestamp < p.cutoff →
    ¬ s.tables.Referenced r.id → r ∈ p.doomed
  old : ∀ p ∈ s.pruning, ∀ r ∈ p.doomed, r.id < p.upTo ∧ r.timestamp < p.cutoff

/-- A database that meets its schema -/
structure Database where
  tables : Tables
  nextModelId : ℕ
  nextSignalId : ℕ
  oneActive : (tables.models.filter (·.isActive)).length ≤ 1
  modelIds : ∀ m ∈ tables.models, m.id < nextModelId
  signalIds : ∀ r ∈ tables.signals, r.id < nextSignalId
  signalModels : ∀ r ∈ tables.signals, ∃ m ∈ tables.models, m.id = r.pcaModelId
  referenced : ∀ id, tables.Referenced id → ∃ r ∈ tables.signals, r.id = id

def Database.start (db : Database) : System where
  tables := db.tables
  nextModelId := db.nextModelId
  nextSignalId := db.nextSignalId
  fitting := []
  writing := none
  published := []
  reading := []
  pruning := []

theorem sound_start (db : Database) : Sound db.start where
  oneActive := db.oneActive
  modelIds := db.modelIds
  signalIds := db.signalIds
  signalModels := db.signalModels
  referenced := db.referenced
  demotes := by simp [Database.start]
  fresh := by simp [Database.start]
  doomed := by simp [Database.start]
  seen := by simp [Database.start]
  old := by simp [Database.start]

section Steps
variable {s : System}

/-- What the invariant does not speak about may change. -/
theorem Sound.frame (hs : Sound s) (snapshots : List Snapshot) (histories : HistoryTable → List Instant)
    (fitting : List Refit) (published : List SignalKey) (reading : List (String × ℕ)) :
    Sound { s with tables := { s.tables with snapshots, histories }, fitting, published, reading } :=
  ⟨hs.oneActive, hs.modelIds, hs.signalIds, hs.signalModels, hs.referenced, hs.demotes, hs.fresh, hs.doomed, hs.seen,
    hs.old⟩

/-- A refit that ends before its commit leaves the tables as they are. -/
theorem Sound.ended (hs : Sound s) (fitting : List Refit) {nextModelId : ℕ} (hle : s.nextModelId ≤ nextModelId)
    {writing : Option Writing} (hsub : ∀ w ∈ writing, w ∈ s.writing) :
    Sound { s with fitting, nextModelId, writing } where
  oneActive := hs.oneActive
  modelIds := fun m hm => lt_of_lt_of_le (hs.modelIds m hm) hle
  signalIds := hs.signalIds
  signalModels := hs.signalModels
  referenced := hs.referenced
  demotes := fun w hw => hs.demotes w (hsub w hw)
  fresh := fun w hw => ⟨lt_of_lt_of_le (hs.fresh w (hsub w hw)).1 hle, (hs.fresh w (hsub w hw)).2⟩
  doomed := fun w hw => hs.doomed w (hsub w hw)
  seen := hs.seen
  old := hs.old

theorem promote_ok {models : List PcaModel} {newId : ℕ} {f : Refit} {w : Writing} (h : promote models newId f = .ok w) :
    (∀ m ∈ models, m.version ≠ f.version) ∧ (∀ m ∈ models, m.isActive = true → some m.id = f.prev) ∧
      w = { f with modelId := newId, doomed := none } := by
  rw [promote] at h
  split_ifs at h with htaken hsecond
  refine ⟨fun m hm hv => htaken ⟨m, hm, hv⟩, ?_, (Except.ok.inj h).symm⟩
  intro m hm hactive
  by_contra hother
  refine hsecond ⟨m, List.mem_map.mpr ⟨m, hm, ?_⟩, hactive⟩
  rw [demote, if_neg hother]

theorem dropSuperseded_ok {t : Tables} {w : Writing} {doomed : List PcaSignal} (h : dropSuperseded t w = .ok doomed) :
    doomed = superseded t w.symbol w.modelId ∧ ∀ r ∈ doomed, ¬ t.Referenced r.id := by
  rw [dropSuperseded] at h
  split_ifs at h with hreferenced
  obtain rfl := Except.ok.inj h
  exact ⟨rfl, fun r hmem hr => hreferenced ⟨r, hmem, hr⟩⟩

/-- The model of the refit that commits is the one active model afterwards. -/
theorem active_modelsAfter {w : Writing} {models : List PcaModel}
    (h : ∀ m ∈ models, m.isActive = true → some m.id = w.prev) :
    (w.modelsAfter models).filter (·.isActive) = [⟨w.modelId, w.version, true, none⟩] := by
  have hnone : (models.map (demote w.prev w.modelId)).filter (·.isActive) = [] := by
    rw [List.filter_eq_nil_iff]
    intro m' hm' hactive
    obtain ⟨m, hm, rfl⟩ := List.mem_map.mp hm'
    rw [demote] at hactive
    split_ifs at hactive with hprev
    exact hprev (h m hm hactive)
  rw [Writing.modelsAfter, List.filter_append, hnone]
  rfl

theorem demote_id (prev : Option ℕ) (newId : ℕ) (m : PcaModel) : (demote prev newId m).id = m.id := by
  rw [demote]
  split_ifs <;> rfl

theorem mem_modelsAfter_id {w : Writing} {models : List PcaModel} {id : ℕ} :
    (∃ m ∈ w.modelsAfter models, m.id = id) ↔ (∃ m ∈ models, m.id = id) ∨ id = w.modelId := by
  simp [Writing.modelsAfter, demote_id, or_and_right, exists_or, eq_comm]

theorem mem_backfill {w : Writing} {firstId : ℕ} {r : PcaSignal} (h : r ∈ w.backfill firstId) :
    r.symbol = w.symbol ∧ r.pcaModelId = w.modelId ∧ firstId ≤ r.id ∧ r.id < firstId + (w.backfill firstId).length := by
  rw [Writing.backfill, List.mem_mapIdx] at h
  obtain ⟨k, hk, rfl⟩ := h
  refine ⟨rfl, rfl, Nat.le_add_right _ _, ?_⟩
  rw [Writing.backfill, List.length_mapIdx]
  exact Nat.add_lt_add_left hk _

theorem promoted_sound (hs : Sound s) {f : Refit} {w : Writing} (h : promote s.tables.models s.nextModelId f = .ok w)
    (fitting : List Refit) : Sound { s with fitting, nextModelId := s.nextModelId + 1, writing := some w } := by
  obtain ⟨-, hprev, rfl⟩ := promote_ok h
  constructor
  · exact hs.oneActive
  · exact fun m hm => Nat.lt_succ_of_lt (hs.modelIds m hm)
  · exact hs.signalIds
  · exact hs.signalModels
  · exact hs.referenced
  · intro w hw
    obtain rfl := Option.some.inj hw
    exact hprev
  · intro w hw
    obtain rfl := Option.some.inj hw
    exact ⟨Nat.lt_succ_self _, fun m hm => (hs.modelIds m hm).ne⟩
  · intro w hw doomed hdoomed
    obtain rfl := Option.some.inj hw
    cases hdoomed
  · exact hs.seen
  · exact hs.old

theorem dropped_sound (hs : Sound s) {w : Writing} (hw : s.writing = some w) {doomed : List PcaSignal}
    (h : dropSuperseded s.tables w = .ok doomed) : Sound { s with writing := some { w with doomed := some doomed } } := by
  constructor
  · exact hs.oneActive
  · exact hs.modelIds
  · exact hs.signalIds
  · exact hs.signalModels
  · exact hs.referenced
  · intro w' hw'
    obtain rfl := Option.some.inj hw'
    exact hs.demotes w hw
  · intro w' hw'
    obtain rfl := Option.some.inj hw'
    exact hs.fresh w hw
  · intro w' hw' doomed' hdoomed'
    obtain rfl := Option.some.inj hw'
    obtain rfl := Option.some.inj hdoomed'
    exact (dropSuperseded_ok h).2
  · exact hs.seen
  · exact hs.old

theorem commit_sound (hs : Sound s) {w : Writing} (hw : s.writing = some w) {doomed : List PcaSignal}
    (hdoomed : w.doomed = some doomed) : Sound (commitWriting s w doomed) := by
  have hmodels := active_modelsAfter (hs.demotes w hw)
  constructor
  · exact (congrArg List.length hmodels).le
  · intro m hm
    rcases mem_modelsAfter_id.mp ⟨m, hm, rfl⟩ with ⟨m', hm', hid⟩ | hid
    · rw [← hid]
      exact hs.modelIds m' hm'
    · rw [hid]
      exact (hs.fresh w hw).1
  · intro r hr
    rcases List.mem_append.mp hr with hold | hnew
    · exact Nat.lt_add_right _ (hs.signalIds r (List.mem_of_mem_filter hold))
    · exact (mem_backfill hnew).2.2.2
  · intro r hr
    rcases List.mem_append.mp hr with hold | hnew
    · exact mem_modelsAfter_id.mpr (Or.inl (hs.signalModels r (List.mem_of_mem_filter hold)))
    · exact mem_modelsAfter_id.mpr (Or.inr (mem_backfill hnew).2.1)
  · intro id hid
    obtain ⟨r, hr, rfl⟩ := hs.referenced id hid
    refine ⟨r, List.mem_append_left _ (List.mem_filter.mpr ⟨hr, ?_⟩), rfl⟩
    exact decide_eq_true fun hmem => hs.doomed w hw doomed hdoomed r hmem hid
  · simp [commitWriting]
  · simp [commitWriting]
  · simp [commitWriting]
  · intro p hp
    obtain ⟨hle, hseen⟩ := hs.seen p hp
    refine ⟨hle.trans (Nat.le_add_right _ _), ?_⟩
    intro r hr hid
    rcases List.mem_append.mp hr with hold | hnew
    · exact hseen r (List.mem_of_mem_filter hold) hid
    · exact absurd ((mem_backfill hnew).2.2.1.trans_lt hid) hle.not_gt
  · exact hs.old

theorem land_sound (hs : Sound s) {row : SignalKey} (h : Lands s.tables row) (published : List SignalKey) :
    Sound { s with
      tables := { s.tables with signals := s.tables.signals ++ [⟨row, s.nextSignalId⟩] }
      nextSignalId := s.nextSignalId + 1, published } := by
  constructor
  · exact hs.oneActive
  · exact hs.modelIds
  · intro r hr
    rcases List.mem_append.mp hr with hold | hnew
    · exact Nat.lt_succ_of_lt (hs.signalIds r hold)
    · rw [List.mem_singleton.mp hnew]
      exact Nat.lt_succ_self _
  · intro r hr
    rcases List.mem_append.mp hr with hold | hnew
    · exact hs.signalModels r hold
    · rw [List.mem_singleton.mp hnew]
      exact h.1
  · intro id hid
    obtain ⟨r, hr, hrid⟩ := hs.referenced id hid
    exact ⟨r, List.mem_append_left _ hr, hrid⟩
  · exact hs.demotes
  · exact hs.fresh
  · exact hs.doomed
  · intro p hp
    obtain ⟨hle, hseen⟩ := hs.seen p hp
    refine ⟨hle.trans (Nat.le_succ _), ?_⟩
    intro r hr hid
    rcases List.mem_append.mp hr with hold | hnew
    · exact hseen r hold hid
    · rw [List.mem_singleton.mp hnew] at hid
      exact absurd hid hle.not_gt
  · exact hs.old

/-- References are only ever added, to rows that are there and stay. -/
theorem reference_sound (hs : Sound s) {previews structures : List (Option ℕ)}
    (hpreviews : s.tables.previews ⊆ previews) (hstructures : s.tables.structures ⊆ structures)
    (h : ∀ id, some id ∈ previews ∨ some id ∈ structures → s.tables.Referenced id ∨ MayReference s id) :
    Sound { s with tables := { s.tables with previews, structures } } := by
  have hmore : ∀ id, s.tables.Referenced id → some id ∈ previews ∨ some id ∈ structures :=
    fun id hid => hid.imp (fun hp => hpreviews hp) fun hq => hstructures hq
  constructor
  · exact hs.oneActive
  · exact hs.modelIds
  · exact hs.signalIds
  · exact hs.signalModels
  · intro id hid
    rcases h id hid with hold | hnew
    · exact hs.referenced id hold
    · exact hnew.1
  · exact hs.demotes
  · exact hs.fresh
  · intro w hw doomed hdoomed r hmem hid
    rcases h r.id hid with hold | hnew
    · exact hs.doomed w hw doomed hdoomed r hmem hold
    · exact hnew.2 w hw doomed hdoomed r hmem rfl
  · intro p hp
    obtain ⟨hle, hseen⟩ := hs.seen p hp
    exact ⟨hle, fun r hr hid hold hun => hseen r hr hid hold fun href => hun (hmore _ href)⟩
  · exact hs.old

theorem scan_sound (hs : Sound s) (cutoff : Instant) : Sound (step s (.scan cutoff)) := by
  refine ⟨hs.oneActive, hs.modelIds, hs.signalIds, hs.signalModels, hs.referenced, hs.demotes, hs.fresh, hs.doomed, ?_,
    ?_⟩
  · intro p hp
    rcases List.mem_append.mp hp with hold | hnew
    · exact hs.seen p hold
    · rw [List.mem_singleton.mp hnew]
      exact ⟨le_rfl, fun r hr _ hcut hun => List.mem_filter.mpr ⟨hr, decide_eq_true ⟨hcut, hun⟩⟩⟩
  · intro p hp
    rcases List.mem_append.mp hp with hold | hnew
    · exact hs.old p hold
    · rw [List.mem_singleton.mp hnew]
      intro r hr
      obtain ⟨hmem, hdoomed⟩ := List.mem_filter.mp hr
      exact ⟨hs.signalIds r hmem, (of_decide_eq_true hdoomed).1⟩

theorem pruneRows_subset (t : Tables) (p : Prune) : pruneRows t p ⊆ t.signals := by
  rw [pruneRows]
  split_ifs
  · exact List.Subset.refl _
  · exact List.filter_subset_self _

theorem prune_sound (hs : Sound s) (p : Prune) (i : ℕ) :
    Sound { s with tables := { s.tables with signals := pruneRows s.tables p }, pruning := s.pruning.eraseIdx i } := by
  have hsub := pruneRows_subset s.tables p
  constructor
  · exact hs.oneActive
  · exact hs.modelIds
  · exact fun r hr => hs.signalIds r (hsub hr)
  · exact fun r hr => hs.signalModels r (hsub hr)
  · intro id hid
    obtain ⟨r, hr, rfl⟩ := hs.referenced id hid
    refine ⟨r, ?_, rfl⟩
    change r ∈ pruneRows s.tables p
    rw [pruneRows]
    split_ifs with hrefused
    · exact hr
    · exact List.mem_filter.mpr ⟨hr, decide_eq_true fun hmem => hrefused ⟨r, hr, hmem, hid⟩⟩
  · exact hs.demotes
  · exact hs.fresh
  · exact hs.doomed
  · intro q hq
    obtain ⟨hle, hseen⟩ := hs.seen q (List.mem_of_mem_eraseIdx hq)
    exact ⟨hle, fun r hr => hseen r (hsub hr)⟩
  · exact fun q hq => hs.old q (List.mem_of_mem_eraseIdx hq)

theorem step_sound (hs : Sound s) (e : Event) : Sound (step s e) := by
  cases e with
  | recordSnapshot r =>
    rw [step]
    split_ifs
    · exact hs
    · exact hs.frame _ _ _ _ _
  | recordHistory table timestamp => exact hs.frame _ _ _ _ _
  | startRefit symbol version =>
    rw [step]
    split
    · exact hs.frame _ _ _ _ _
    · exact hs
  | promote i =>
    rw [step]
    split
    · split
      · rename_i hok
        exact promoted_sound hs hok _
      · exact hs.ended _ (Nat.le_succ _) fun w hw => hw
    · exact hs
  | dropSuperseded =>
    rw [step]
    split
    · rename_i w hw
      split_ifs
      · exact hs
      · split
        · rename_i hok
          exact dropped_sound hs hw hok
        · exact hs.ended _ le_rfl (by simp)
    · exact hs
  | commit refreshed =>
    rw [step]
    split
    · rename_i w hw
      split
      · rename_i hdoomed
        exact commit_sound hs hw hdoomed
      · exact hs
    · exact hs
  | loseFit i => exact hs.frame _ _ _ _ _
  | loseWriting => exact hs.ended _ le_rfl (by simp)
  | cycle symbol timestamp =>
    rw [step]
    split
    · exact hs.frame _ _ _ _ _
    · exact hs
  | land i =>
    rw [step]
    split
    · split_ifs with hlands
      · exact land_sound hs hlands _
      · exact hs.frame _ _ _ _ _
    · exact hs
  | openState symbol =>
    rw [step]
    split
    · exact hs.frame _ _ _ _ _
    · exact hs
  | readState i => exact hs.frame _ _ _ _ _
  | preview signal =>
    rw [step]
    split_ifs with hmay
    · apply reference_sound hs (List.subset_append_left _ _) (List.Subset.refl _)
      rintro id (hid | hid)
      · rcases List.mem_append.mp hid with hold | hnew
        · exact Or.inl (Or.inl hold)
        · exact Or.inr (hmay id (List.mem_singleton.mp hnew).symm)
      · exact Or.inl (Or.inr hid)
    · exact hs
  | submit i =>
    rw [step]
    split
    · rename_i signal hsignal
      apply reference_sound hs (List.Subset.refl _) (List.subset_append_left _ _)
      rintro id (hid | hid)
      · exact Or.inl (Or.inl hid)
      · rcases List.mem_append.mp hid with hold | hnew
        · exact Or.inl (Or.inr hold)
        · rw [← List.mem_singleton.mp hnew] at hsignal
          exact Or.inl (Or.inl (List.mem_of_getElem? hsignal))
    · exact hs
  | pruneHistory table cutoff => exact hs.frame _ _ _ _ _
  | scan cutoff => exact scan_sound hs cutoff
  | prune i =>
    rw [step]
    split
    · exact prune_sound hs _ i
    · exact hs

end Steps

end FxVol.ModelSwitch
