import FxVol.ModelSwitch

/-!
# The signals that readers get

`/signals/pca/state` reads the active model and then the signals of that model.  `/signals/pca/history` reads the signals
of a symbol whatever their model, so it gives the active model's as long as the table holds no other: a refit deletes
those of its own symbol that it finds, while other symbols' stay, and rows that come later come in.
-/
namespace FxVol.SignalSeries

open ModelSwitch GuardedRuns

def latestFirst (rows : List PcaSignal) : List PcaSignal := rows.insertionSort fun a b => b.timestamp ≤ a.timestamp

/-- `/signals/pca/history` -/
def history (t : Tables) (symbol : String) (pcId n : ℕ) : List PcaSignal :=
  (latestFirst (t.signals.filter fun r => r.symbol = symbol ∧ r.pcId = pcId)).take n

/-- The second statement of `/signals/pca/state`: the latest signal of each of three PCs, under the model read before -/
def stateSignals (t : Tables) (symbol : String) (modelId : ℕ) : List PcaSignal :=
  [1, 2, 3].filterMap fun pc =>
    (latestFirst (t.signals.filter fun r => r.symbol = symbol ∧ r.pcaModelId = modelId ∧ r.pcId = pc)).head?

theorem history_subset {t : Tables} {symbol : String} {pcId n : ℕ} : history t symbol pcId n ⊆ t.signals := by
  intro r hr
  have hsorted := List.mem_of_mem_take hr
  rw [latestFirst, List.mem_insertionSort] at hsorted
  exact List.mem_of_mem_filter hsorted

theorem stateSignals_subset {t : Tables} {symbol : String} {modelId : ℕ} : stateSignals t symbol modelId ⊆ t.signals := by
  intro r hr
  obtain ⟨pc, -, hhead⟩ := List.mem_filterMap.mp hr
  have hsorted := List.mem_of_mem_head? hhead
  rw [latestFirst, List.mem_insertionSort] at hsorted
  exact List.mem_of_mem_filter hsorted

def Active (t : Tables) (modelId : ℕ) : Prop := ∃ m ∈ t.models, m.isActive = true ∧ m.id = modelId

instance (t : Tables) (modelId : ℕ) : Decidable (Active t modelId) := inferInstanceAs (Decidable (∃ _ ∈ _, _))

def activeModels (t : Tables) : List PcaModel := t.models.filter (·.isActive)

def OfRefit : Event → Bool
  | .startRefit .. | .promote _ | .dropSuperseded | .commit _ | .loseFit _ | .loseWriting => true
  | _ => false

/-- The step by which a refit returns; by every other one it goes on, waits or raises. -/
def Returns (s : System) (e : Event) : Prop := e = .commit true ∧ ∃ w ∈ s.writing, w.doomed.isSome = true

/-- What a run has led to -/
abbrev after (db : Database) (past : List Event) : System := past.foldl step db.start

structure SwitchAtomic (db : Database) (events : List Event) : Prop where
  unique : ∀ past, past <+: events → (activeModels (after db past).tables).length ≤ 1
  kept : ∀ past later, past ++ later <+: events → activeModels (after db past).tables ≠ [] →
    (activeModels (after db (past ++ later)).tables).length = 1
  rollback : ∀ past e, past ++ [e] <+: events → OfRefit e = true → ¬ Returns (after db past) e →
    (step (after db past) e).tables = (after db past).tables
  historyActive : ∀ past, past <+: events → ∀ symbol pcId n, ∀ r ∈ history (after db past).tables symbol pcId n,
    Active (after db past).tables r.pcaModelId
  unmixed : ∀ past, past <+: events → ∀ symbol pcId n, ∀ r ∈ history (after db past).tables symbol pcId n,
    ∀ r' ∈ history (after db past).tables symbol pcId n, r.pcaModelId = r'.pcaModelId
  stateActive : ∀ past, past <+: events → ∀ x ∈ (after db past).reading, ∀ r ∈ stateSignals (after db past).tables x.1 x.2,
    Active (after db past).tables r.pcaModelId

/-- No signal of another model than the active one -/
def StaleFree (s : System) : Prop := ∀ r ∈ s.tables.signals, Active s.tables r.pcaModelId

/-- A row lands while its model is active, and a refit that commits has deleted every row there is. -/
def KeepsFresh (s : System) : Event → Prop
  | .land i => ∀ row ∈ s.published[i]?, Lands s.tables row → Active s.tables row.pcaModelId
  | .commit _ => ∀ w ∈ s.writing, ∀ doomed ∈ w.doomed, ∀ r ∈ s.tables.signals, r ∈ doomed
  | _ => True

/-- A refit that has committed still has its database when it reads its model back. -/
def ReadsBack (s : System) : Event → Prop
  | .commit refreshed => ∀ w ∈ s.writing, w.doomed.isSome = true → refreshed = true
  | _ => True

def Meets (s : System) (e : Event) : Prop := KeepsFresh s e ∧ ReadsBack s e

instance (s : System) : Decidable (StaleFree s) := inferInstanceAs (Decidable (∀ _ ∈ _, _))

instance (s : System) : ∀ e, Decidable (KeepsFresh s e)
  | .land i => inferInstanceAs (Decidable (∀ row ∈ s.published[i]?, _ → _))
  | .commit _ => inferInstanceAs (Decidable (∀ w ∈ s.writing, ∀ doomed ∈ w.doomed, _))
  | .recordSnapshot _ | .recordHistory _ _ | .startRefit _ _ | .promote _ | .dropSuperseded | .loseFit _ | .loseWriting
  | .cycle _ _ | .openState _ | .readState _ | .preview _ | .submit _ | .pruneHistory _ _ | .scan _ | .prune _ =>
    .isTrue trivial

instance (s : System) : ∀ e, Decidable (ReadsBack s e)
  | .commit _ => inferInstanceAs (Decidable (∀ w ∈ s.writing, _ → _))
  | .recordSnapshot _ | .recordHistory _ _ | .startRefit _ _ | .promote _ | .dropSuperseded | .loseFit _ | .loseWriting
  | .cycle _ _ | .land _ | .openState _ | .readState _ | .preview _ | .submit _ | .pruneHistory _ _ | .scan _ | .prune _ =>
    .isTrue trivial

instance (s : System) (e : Event) : Decidable (Meets s e) := inferInstanceAs (Decidable (_ ∧ _))

section Steps
variable {s : System}

/-- A step that changes the models commits a refit. -/
theorem models_step (s : System) (e : Event) : (step s e).tables.models = s.tables.models ∨
    ∃ refreshed, e = .commit refreshed ∧ ∃ w ∈ s.writing, ∃ doomed ∈ w.doomed, step s e = commitWriting s w doomed := by
  cases e with
  | commit refreshed =>
    rw [step]
    split
    · rename_i w hw
      split
      · rename_i doomed hdoomed
        exact Or.inr ⟨refreshed, rfl, w, hw, doomed, hdoomed, rfl⟩
      · exact Or.inl rfl
    · exact Or.inl rfl
  | _ =>
    left
    unfold step
    dsimp only
    repeat' split
    all_goals rfl

/-- A step of a refit other than its commit changes no table. -/
theorem tables_refit (e : Event) (he : OfRefit e = true) : (step s e).tables = s.tables ∨
    ∃ refreshed, e = .commit refreshed ∧ ∃ w ∈ s.writing, w.doomed.isSome = true := by
  cases e with
  | commit refreshed =>
    rw [step]
    split
    · rename_i w hw
      split
      · rename_i doomed hdoomed
        exact Or.inr ⟨refreshed, rfl, w, hw, by rw [hdoomed]; rfl⟩
      · exact Or.inl rfl
    · exact Or.inl rfl
  | startRefit _ _ | promote _ | dropSuperseded | loseFit _ | loseWriting =>
    left
    unfold step
    dsimp only
    repeat' split
    all_goals rfl
  | _ => cases he

theorem StaleFree.subset (h : StaleFree s) {t : System} (hmodels : t.tables.models = s.tables.models)
    (hsignals : t.tables.signals ⊆ s.tables.signals) : StaleFree t := by
  intro r hr
  rw [Active, hmodels]
  exact h r (hsignals hr)

theorem staleFree_land (h : StaleFree s) (i : ℕ) : StaleFree (step s (.land i)) ↔ KeepsFresh s (.land i) := by
  rw [step]
  split
  · rename_i row hrow
    split_ifs with hlands
    · constructor
      · intro hafter row' hrow' _
        obtain rfl := Option.some.inj (hrow.symm.trans hrow')
        exact hafter ⟨row, s.nextSignalId⟩ (List.mem_append_right _ (List.mem_singleton_self _))
      · intro hkeeps r hr
        rcases List.mem_append.mp hr with hold | hnew
        · exact h r hold
        · rw [List.mem_singleton.mp hnew]
          exact hkeeps row hrow hlands
    · refine iff_of_true h ?_
      intro row' hrow' hlands'
      obtain rfl := Option.some.inj (hrow.symm.trans hrow')
      exact absurd hlands' hlands
  · rename_i hnone
    refine iff_of_true h ?_
    intro row hrow
    rw [hnone] at hrow
    cases hrow

theorem active_commit (hs : Sound s) {w : Writing} (hw : s.writing = some w) {doomed : List PcaSignal} {id : ℕ} :
    Active (commitWriting s w doomed).tables id ↔ w.modelId = id := by
  have hactive := active_modelsAfter (hs.demotes w hw)
  have hmem : ∀ m, m ∈ (commitWriting s w doomed).tables.models ∧ m.isActive = true ↔
      m = ⟨w.modelId, w.version, true, none⟩ := by
    intro m
    have hone : m ∈ (w.modelsAfter s.tables.models).filter (·.isActive) ↔ m ∈ [(⟨w.modelId, w.version, true, none⟩ : PcaModel)] := by
      rw [hactive]
    rwa [List.mem_filter, List.mem_singleton] at hone
  constructor
  · rintro ⟨m, hm, ha, rfl⟩
    rw [(hmem m).mp ⟨hm, ha⟩]
  · rintro rfl
    obtain ⟨hm, ha⟩ := (hmem _).mpr rfl
    exact ⟨_, hm, ha, rfl⟩

theorem staleFree_commit (hs : Sound s) (h : StaleFree s) (refreshed : Bool) :
    StaleFree (step s (.commit refreshed)) ↔ KeepsFresh s (.commit refreshed) := by
  rw [step]
  split
  · rename_i w hw
    split
    · rename_i doomed hdoomed
      constructor
      · intro hafter w' hw' doomed' hdoomed' r hr
        obtain rfl := Option.some.inj (hw.symm.trans hw')
        obtain rfl := Option.some.inj (hdoomed.symm.trans hdoomed')
        by_contra hkept
        -- the row is of a model that was there before the refit's
        have hactive := hafter r (List.mem_append_left _ (List.mem_filter.mpr ⟨hr, decide_eq_true hkept⟩))
        obtain ⟨m, hm, hid⟩ := hs.signalModels r hr
        exact (hs.fresh w hw).2 m hm (hid.trans ((active_commit hs hw).mp hactive).symm)
      · intro hkeeps r hr
        rw [active_commit hs hw]
        rcases List.mem_append.mp hr with hold | hnew
        · obtain ⟨hmem, hkept⟩ := List.mem_filter.mp hold
          exact absurd (hkeeps w hw doomed hdoomed r hmem) (of_decide_eq_true hkept)
        · exact (mem_backfill hnew).2.1.symm
    · rename_i hnone
      refine iff_of_true h ?_
      intro w' hw' doomed hdoomed
      obtain rfl := Option.some.inj (hw.symm.trans hw')
      rw [hnone] at hdoomed
      cases hdoomed
  · rename_i hnone
    refine iff_of_true h ?_
    intro w hw
    rw [hnone] at hw
    cases hw

/-- The table stays free of stale rows by exactly these steps. -/
theorem staleFree_step (s : System) (e : Event) (hs : Sound s) (h : StaleFree s) : StaleFree (step s e) ↔ KeepsFresh s e := by
  cases e with
  | land i => exact staleFree_land h i
  | commit refreshed => exact staleFree_commit hs h refreshed
  | prune i =>
    refine iff_of_true ?_ trivial
    rw [step]
    split
    · exact h.subset rfl (pruneRows_subset _ _)
    · exact h
  | _ =>
    refine iff_of_true (h.subset ?_ ?_) trivial
    all_goals
      unfold step
      dsimp only
      repeat' split
    all_goals first | rfl | exact List.Subset.refl _

end Steps

section Runs
variable {db : Database} {events : List Event}

theorem sound_after (db : Database) (past : List Event) : Sound (after db past) :=
  (Run.of_events past).invariant (fun _ e hs _ => step_sound hs e) (sound_start db)

theorem active_step {s : System} (hs : Sound s) (e : Event) (h : activeModels s.tables ≠ []) :
    activeModels (step s e).tables ≠ [] := by
  rcases models_step s e with hsame | ⟨_, -, w, hw, doomed, -, hcommit⟩
  · rwa [activeModels, hsame]
  · have hactive := active_modelsAfter (hs.demotes w hw)
    rw [hcommit, activeModels]
    exact fun hnone => List.cons_ne_nil _ _ (hactive.symm.trans hnone)

/-- Once a model is active, one is. -/
theorem active_kept (past later : List Event) (h : activeModels (after db past).tables ≠ []) :
    activeModels (after db (past ++ later)).tables ≠ [] := by
  rw [after, List.foldl_append]
  refine Run.rel (I := Sound) (R := fun s t => activeModels s.tables ≠ [] → activeModels t.tables ≠ []) ?_ ?_ ?_ ?_
    (Run.of_events later) (sound_after db past) h
  · exact fun _ => id
  · exact fun _ _ _ hst htu hs => htu (hst hs)
  · exact fun _ e hs _ => step_sound hs e
  · exact fun _ e hs _ => active_step hs e

/-- The steps that keep the table free of stale rows all along a run -/
theorem staleFree_iff (h : StaleFree db.start) :
    (∀ past, past <+: events → StaleFree (after db past)) ↔ Guarded step KeepsFresh db.start events :=
  guarded_iff (I := Sound) (fun _ e hs => step_sound hs e) staleFree_step (sound_start db) h events

theorem active_unique {s : System} (hs : Sound s) {id id' : ℕ} (h : Active s.tables id) (h' : Active s.tables id') : id = id' := by
  obtain ⟨m, hm, ha, rfl⟩ := h
  obtain ⟨m', hm', ha', rfl⟩ := h'
  have hmem : m ∈ activeModels s.tables := List.mem_filter.mpr ⟨hm, ha⟩
  have hmem' : m' ∈ activeModels s.tables := List.mem_filter.mpr ⟨hm', ha'⟩
  obtain ⟨k, hk, rfl⟩ := List.getElem_of_mem hmem
  obtain ⟨k', hk', rfl⟩ := List.getElem_of_mem hmem'
  have hle : (activeModels s.tables).length ≤ 1 := hs.oneActive
  obtain rfl : k = k' := by omega
  rfl

/-- From tables without a stale signal, in every run whose steps meet the condition the switch is atomic. -/
theorem switch_atomic (hfresh : StaleFree db.start) (h : Guarded step Meets db.start events) : SwitchAtomic db events := by
  have hstale : ∀ past, past <+: events → StaleFree (after db past) :=
    (staleFree_iff hfresh).mpr (h.mono fun _ _ hmeets => hmeets.1)
  constructor
  · exact fun past _ => (sound_after db past).oneActive
  · intro past later _ hactive
    have hle : (activeModels (after db (past ++ later)).tables).length ≤ 1 := (sound_after db _).oneActive
    have hne := List.length_pos_iff.mpr (active_kept past later hactive)
    omega
  · intro past e hpast he hreturns
    rcases tables_refit e he with hsame | ⟨refreshed, rfl, w, hw, hdoomed⟩
    · exact hsame
    · cases refreshed with
      | true => exact absurd ⟨rfl, w, hw, hdoomed⟩ hreturns
      | false => cases (h.at_step hpast).2 w hw hdoomed
  · intro past hpast symbol pcId n r hr
    exact hstale past hpast r (history_subset hr)
  · intro past hpast symbol pcId n r hr r' hr'
    exact active_unique (sound_after db past) (hstale past hpast r (history_subset hr))
      (hstale past hpast r' (history_subset hr'))
  · intro past hpast x _ r hr
    exact hstale past hpast r (stateSignals_subset hr)

end Runs

def quote (timestamp : Instant) : Snapshot := ⟨"EURUSD", timestamp, fun _ => some (7 / 100)⟩

def firstWeek : Database where
  tables := ⟨[quote 1, quote 2, quote 3, quote 4, quote 5, quote 6, quote 7], [], [], [], [], fun _ => []⟩
  nextModelId := 0
  nextSignalId := 0
  oneActive := by decide
  modelIds := by simp
  signalIds := by simp
  signalModels := by simp
  referenced := by simp [Tables.Referenced]

def refit (version : ℤ) : List Event := [.startRefit "EURUSD" version, .promote 0, .dropSuperseded, .commit true]

/-- A cycle is computed under the first model, and its signal lands once the second is active. -/
def lateLanding : List Event := refit 1 ++ [.cycle "EURUSD" 8] ++ refit 2 ++ [.land 0]

theorem switch_atomic_two_refits : SwitchAtomic firstWeek (refit 1 ++ [.cycle "EURUSD" 8, .land 0, .openState "EURUSD"] ++
    refit 2 ++ [.readState 0]) :=
  switch_atomic (by decide) (by decide +kernel)

/-- The history has the old model's signal as its latest. -/
theorem not_switch_atomic : ¬ SwitchAtomic firstWeek lateLanding := by
  intro h
  have hstale : ∃ r ∈ history (after firstWeek lateLanding).tables "EURUSD" 1 90,
      ¬ Active (after firstWeek lateLanding).tables r.pcaModelId := by decide +kernel
  obtain ⟨r, hr, hold⟩ := hstale
  exact hold (h.historyActive lateLanding (List.prefix_refl _) "EURUSD" 1 90 r hr)

end FxVol.SignalSeries
