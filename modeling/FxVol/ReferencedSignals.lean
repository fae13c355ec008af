import FxVol.SignalSeries

/-!
# Signals that previews and structures reference

`trade_preview` and `trade_structure` keep the signal a trade was armed from, under a foreign key without an action.
A retention pass leaves these signals out of its delete.  A refit does not: one referenced signal of its symbol makes
its transaction roll back, and so does every refit after it.
-/
namespace FxVol.ReferencedSignals

open ModelSwitch SignalSeries GuardedRuns

/-- Enough clean snapshots of a symbol for a fit -/
def Enough (t : Tables) (symbol : String) : Prop := minObsForFit ≤ (cleanRows t symbol).length

def Served (s : System) : Event → Prop
  | .startRefit symbol version => Enough s.tables symbol → (startRefit s.tables symbol version).isOk = true
  | .promote i => ∀ f ∈ s.fitting[i]?, s.writing = none → (promote s.tables.models s.nextModelId f).isOk = true
  | .dropSuperseded => ∀ w ∈ s.writing, w.doomed = none → (dropSuperseded s.tables w).isOk = true
  | .commit refreshed => ∀ w ∈ s.writing, w.doomed.isSome = true → refreshed = true ∧
      (activeModels (step s (.commit refreshed)).tables).map (·.id) = [w.modelId]
  | .loseFit i => s.fitting[i]? = none
  | .loseWriting => s.writing = none
  | .pruneHistory table cutoff =>
      ∀ timestamp ∈ (step s (.pruneHistory table cutoff)).tables.histories table, cutoff ≤ timestamp
  | .prune i => ∀ p ∈ s.pruning[i]?, ∀ r ∈ (step s (.prune i)).tables.signals, r.id < p.upTo → r.timestamp < p.cutoff →
      s.tables.Referenced r.id
  | _ => True

/-- A run serves every refit and every pass, and loses no referenced signal. -/
structure Unblocked (db : Database) (events : List Event) : Prop where
  served : ∀ past e, past ++ [e] <+: events → Served (after db past) e
  kept : ∀ past, past <+: events → ∀ id, (after db past).tables.Referenced id →
    ∃ r ∈ (after db past).tables.signals, r.id = id

/-- No fit has six clean snapshots; a refit promotes under a version of its own, while the model it has read is the active
one; none of the signals of its symbol is referenced; its database holds; and the signals that a pass is about to delete
have not come to be referenced, or all have. -/
def Meets (s : System) : Event → Prop
  | .startRefit symbol _ => (cleanRows s.tables symbol).length ≠ 6
  | .promote i => ∀ f ∈ s.fitting[i]?, s.writing = none → (∀ m ∈ s.tables.models, m.version ≠ f.version) ∧
      ∀ m ∈ s.tables.models, m.isActive = true → some m.id = f.prev
  | .dropSuperseded => ∀ w ∈ s.writing, w.doomed = none → ∀ r ∈ s.tables.signals, r.symbol = w.symbol →
      ¬ s.tables.Referenced r.id
  | .commit refreshed => ∀ w ∈ s.writing, w.doomed.isSome = true → refreshed = true
  | .loseFit i => s.fitting[i]? = none
  | .loseWriting => s.writing = none
  | .prune i => ∀ p ∈ s.pruning[i]?, (∀ r ∈ s.tables.signals, r ∈ p.doomed → ¬ s.tables.Referenced r.id) ∨
      ∀ r ∈ s.tables.signals, r ∈ p.doomed → s.tables.Referenced r.id
  | _ => True

instance (s : System) : ∀ e, Decidable (Meets s e)
  | .startRefit symbol _ => inferInstanceAs (Decidable ((cleanRows s.tables symbol).length ≠ 6))
  | .promote i => inferInstanceAs (Decidable (∀ f ∈ s.fitting[i]?, _ → _ ∧ _))
  | .dropSuperseded => inferInstanceAs (Decidable (∀ w ∈ s.writing, _ → _))
  | .commit _ => inferInstanceAs (Decidable (∀ w ∈ s.writing, _ → _))
  | .loseFit i => inferInstanceAs (Decidable (s.fitting[i]? = none))
  | .loseWriting => inferInstanceAs (Decidable (s.writing = none))
  | .prune i => inferInstanceAs (Decidable (∀ p ∈ s.pruning[i]?, _ ∨ _))
  | .recordSnapshot _ | .recordHistory _ _ | .cycle _ _ | .land _ | .openState _ | .readState _ | .preview _ | .submit _
  | .pruneHistory _ _ | .scan _ => .isTrue trivial

theorem cleanRows_le (t : Tables) (symbol : String) : (cleanRows t symbol).length ≤ (windowRows t symbol).length :=
  List.length_filter_le _ _

theorem isOk_startRefit (t : Tables) (symbol : String) (version : ℤ) :
    (startRefit t symbol version).isOk = true ↔ 7 ≤ (cleanRows t symbol).length := by
  have hle := cleanRows_le t symbol
  have hobs : minObsForFit = 6 := rfl
  have hcomponents : nComponents = 6 := rfl
  rw [startRefit]
  split_ifs with hrows hclean hfit
  · exact iff_of_false nofun (by omega)
  · exact iff_of_false nofun (by omega)
  · exact iff_of_false nofun (by omega)
  · exact iff_of_true rfl (by omega)

theorem isOk_promote (models : List PcaModel) (newId : ℕ) (f : Refit) : (promote models newId f).isOk = true ↔
    (∀ m ∈ models, m.version ≠ f.version) ∧ ∀ m ∈ models, m.isActive = true → some m.id = f.prev := by
  constructor
  · intro h
    cases hok : promote models newId f with
    | error _ =>
      rw [hok] at h
      cases h
    | ok w =>
      obtain ⟨hversion, hprev, -⟩ := promote_ok hok
      exact ⟨hversion, hprev⟩
  · rintro ⟨hversion, hprev⟩
    rw [promote, if_neg, if_neg]
    · rfl
    · rintro ⟨m', hm', hactive⟩
      obtain ⟨m, hm, rfl⟩ := List.mem_map.mp hm'
      rw [demote] at hactive
      split_ifs at hactive with hdemoted
      exact hdemoted (hprev m hm hactive)
    · rintro ⟨m, hm, hsame⟩
      exact hversion m hm hsame

section Steps
variable {s : System}

/-- Every signal is of an older model than the one of the refit that writes. -/
theorem mem_superseded (hs : Sound s) {w : Writing} (hw : s.writing = some w) {r : PcaSignal} :
    r ∈ superseded s.tables w.symbol w.modelId ↔ r ∈ s.tables.signals ∧ r.symbol = w.symbol := by
  rw [superseded, List.mem_filter]
  constructor
  · rintro ⟨hr, hboth⟩
    exact ⟨hr, (of_decide_eq_true hboth).1⟩
  · rintro ⟨hr, hsymbol⟩
    obtain ⟨m, hm, hid⟩ := hs.signalModels r hr
    exact ⟨hr, decide_eq_true ⟨hsymbol, fun hnew => (hs.fresh w hw).2 m hm (hid.trans hnew)⟩⟩

theorem isOk_dropSuperseded (hs : Sound s) {w : Writing} (hw : s.writing = some w) :
    (dropSuperseded s.tables w).isOk = true ↔
      ∀ r ∈ s.tables.signals, r.symbol = w.symbol → ¬ s.tables.Referenced r.id := by
  rw [dropSuperseded]
  split_ifs with hreferenced
  · refine iff_of_false (by simp [Except.isOk, Except.toBool]) ?_
    obtain ⟨r, hr, hid⟩ := hreferenced
    obtain ⟨hmem, hsymbol⟩ := (mem_superseded hs hw).mp hr
    exact fun hnone => hnone r hmem hsymbol hid
  · refine iff_of_true rfl ?_
    intro r hr hsymbol hid
    exact hreferenced ⟨r, (mem_superseded hs hw).mpr ⟨hr, hsymbol⟩, hid⟩

/-- A refit that commits is the one whose model is active. -/
theorem commit_active (hs : Sound s) {w : Writing} (hw : s.writing = some w) (hdoomed : w.doomed.isSome = true)
    (refreshed : Bool) : (activeModels (step s (.commit refreshed)).tables).map (·.id) = [w.modelId] := by
  obtain ⟨doomed, hsome⟩ := Option.isSome_iff_exists.mp hdoomed
  have hstep : step s (.commit refreshed) = commitWriting s w doomed := by
    rw [step, hw]
    dsimp only
    rw [hsome]
  rw [hstep]
  exact congrArg (List.map (·.id)) (active_modelsAfter (hs.demotes w hw))

theorem prune_served (hs : Sound s) (i : ℕ) : Served s (.prune i) ↔ Meets s (.prune i) := by
  refine forall₂_congr fun p hp => ?_
  have hmem : p ∈ s.pruning := List.mem_of_getElem? hp
  have hstep : (step s (.prune i)).tables.signals = pruneRows s.tables p := by
    rw [step, hp]
  obtain ⟨-, hseen⟩ := hs.seen p hmem
  rw [hstep, pruneRows]
  split_ifs with hrefused
  · obtain ⟨r₀, hr₀, hdoomed₀, hid₀⟩ := hrefused
    constructor
    · intro hserved
      right
      intro r hr hdoomed
      obtain ⟨hlt, hcut⟩ := hs.old p hmem r hdoomed
      exact hserved r hr hlt hcut
    · rintro (hnone | hall)
      · exact absurd hid₀ (hnone r₀ hr₀ hdoomed₀)
      · intro r hr hlt hcut
        by_contra hun
        exact hun (hall r hr (hseen r hr hlt hcut hun))
  · refine iff_of_true ?_ (Or.inl fun r hr hdoomed hid => hrefused ⟨r, hr, hdoomed, hid⟩)
    intro r hr hlt hcut
    obtain ⟨hin, hkept⟩ := List.mem_filter.mp hr
    by_contra hun
    exact of_decide_eq_true hkept (hseen r hin hlt hcut hun)

theorem pruneHistory_served (table : HistoryTable) (cutoff : Instant) : Served s (.pruneHistory table cutoff) := by
  intro timestamp htimestamp
  rw [step] at htimestamp
  dsimp only at htimestamp
  rw [Function.update_self] at htimestamp
  exact not_lt.mp (of_decide_eq_true (List.mem_filter.mp htimestamp).2)

theorem served_iff (s : System) (e : Event) (hs : Sound s) : Served s e ↔ Meets s e := by
  cases e with
  | startRefit symbol version =>
    rw [Served, Meets, Enough, isOk_startRefit, minObsForFit]
    omega
  | promote i => exact forall₂_congr fun f _ => imp_congr_right fun _ => isOk_promote _ _ f
  | dropSuperseded => exact forall₂_congr fun w hw => imp_congr_right fun _ => isOk_dropSuperseded hs hw
  | commit refreshed =>
    refine forall₂_congr fun w hw => imp_congr_right fun hdoomed => ?_
    exact and_iff_left (commit_active hs hw hdoomed refreshed)
  | prune i => exact prune_served hs i
  | pruneHistory table cutoff => exact iff_of_true (pruneHistory_served table cutoff) trivial
  | loseFit _ | loseWriting => exact Iff.rfl
  | _ => exact Iff.rfl

end Steps

/-- Refits and passes are served all along a run, and no referenced signal is lost, just when every step meets the
condition. -/
theorem unblocked_iff (db : Database) (events : List Event) :
    Unblocked db events ↔ Guarded step Meets db.start events := by
  have hserved : (∀ past e, past ++ [e] <+: events → Served (after db past) e) ↔ Guarded step Meets db.start events :=
    guarded_iff_steps (I := Sound) (fun _ e hs _ => step_sound hs e) served_iff (sound_start db) events
  constructor
  · exact fun h => hserved.mp h.served
  · exact fun h => ⟨hserved.mpr h, fun past _ => (sound_after db past).referenced⟩

/-- A preview is armed from the latest signal of the first model, and the refit a week later raises. -/
def traded : List Event := refit 1 ++ [.preview (some 18)] ++ refit 2

theorem not_unblocked : ¬ Unblocked firstWeek traded := by
  intro h
  let armed := refit 1 ++ [.preview (some 18), .startRefit "EURUSD" 2, .promote 0]
  have hrefused : ∃ w ∈ (after firstWeek armed).writing, w.doomed = none ∧
      (dropSuperseded (after firstWeek armed).tables w).isOk = false := by decide +kernel
  obtain ⟨w, hw, hnone, herror⟩ := hrefused
  have hserved := h.served armed .dropSuperseded ⟨[.commit true], rfl⟩ w hw hnone
  exact Bool.false_ne_true (herror.symm.trans hserved)

end FxVol.ReferencedSignals
