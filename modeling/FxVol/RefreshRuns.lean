import FxVol.BookRefreshes

/-!
# Refreshes that overlap

In every order of their statements one snapshot at most is current, and the sessions never all wait.
A refresh that is apart from the others loses no booking, and its snapshot is that of the open
positions; of two that overlap one may take a booking with it, or count too few.
-/
namespace FxVol.BookRefreshes

open PreviewPricing BookState BookingPaths GuardedRuns

def Write.Ok (db : Db) (job : Job) : Write → Prop
  | .completed s row _ =>
    job.structure? = some s ∧ s < db.structures.length ∧ row.state = .fullyFilled
  | .mocked .. => job.structure? = none

/-- What a session has read and written holds of the tables. -/
def Phase.Ok (db : Db) (job : Job) : Phase → Prop
  | .called | .lost => True
  | .read write | .summed write _ | .previous write _ | .updating write _ _ | .updated write _ _
  | .inserted write _ _ => write.Ok db job
  | .closing s row => job.structure? = some s ∧ s < db.structures.length ∧
      row.state = .fullyFilled ∧ (EntryFilled db s → db.isBooked s)
  | .finalising s => job.structure? = some s ∧ Done db s
  | .committed | .nothing => ∀ s, job.structure? = some s → Done db s

section Phases
variable {db db' : Db} {job : Job} {phase : Phase} {st : Store} {others : List Session}
  {hedgeCost : ℚ} {now : Instant}

theorem Write.Ok.keep {write : Write} (h : write.Ok db job) (hkeep : Keeps db db') :
    write.Ok db' job := by
  cases write with
  | completed s row now => exact ⟨h.1, h.2.1.trans_le hkeep.length, h.2.2⟩
  | mocked => exact h

theorem Phase.Ok.keep (h : phase.Ok db job) (hkeep : Keeps db db') : phase.Ok db' job := by
  cases phase with
  | called | lost => trivial
  | read | summed | previous | updating | updated | inserted => exact Write.Ok.keep h hkeep
  | closing s row =>
    obtain ⟨hjob, hlt, hrow, hentry⟩ := h
    refine ⟨hjob, hlt.trans_le hkeep.length, hrow, ?_⟩
    intro hfilled
    rcases hkeep.entry s hfilled with hold | ⟨-, hbooked⟩
    · exact hkeep.booked s (hentry hold)
    · exact hbooked
  | finalising s => exact ⟨h.1, h.2.keep hkeep⟩
  | committed | nothing => exact fun s hs => (h s hs).keep hkeep

theorem Write.Ok.keeps {write : Write} {t : Tables} (h : write.Ok t.db job) :
    Keeps t.db (write.commit t).db := by
  cases write with
  | completed s row now => exact keeps_completed h.2.2
  | mocked legs expiry tolerance rate greeks now => exact keeps_mocked legs expiry tolerance rate now

theorem Write.Ok.done {write : Write} {t : Tables} (h : write.Ok t.db job) {s : ℕ}
    (hs : job.structure? = some s) : Done (write.commit t).db s := by
  intro _
  cases write with
  | completed s' row now =>
    obtain ⟨hjob, hlt, hrow⟩ := h
    obtain rfl : s' = s := Option.some.inj (hjob.symm.trans hs)
    constructor
    · have hset := fullyFilled_setStructure_self hrow hlt
      rwa [Db.fullyFilled, Write.commit, bookPosition_structures]
    · exact isBooked_bookPosition _ _ _ _
  | mocked =>
    rw [Write.Ok, hs] at h
    cases h

/-- The tables after a statement keep what was booked. -/
theorem effect_keeps (hok : phase.Ok st.tables.db job) :
    Keeps st.tables.db (phase.effect st hedgeCost now).tables.db := by
  cases phase with
  | inserted => exact Write.Ok.keeps hok
  | closing s row => exact keeps_closing hok.2.2.1
  | finalising s => exact keeps_afterClose s hedgeCost now
  | called | read | summed | previous | updating | updated | committed | lost | nothing =>
    exact Keeps.refl _

/-- A structure that a statement fills is booked. -/
theorem effect_booked (hkeys : ∀ o ∈ st.tables.db.orders, o.structureId < st.tables.db.structures.length)
    (hbooked : ∀ s, st.tables.db.fullyFilled s → EntryFilled st.tables.db s → st.tables.db.isBooked s)
    (hok : phase.Ok st.tables.db job) {t : ℕ}
    (hfull : (phase.effect st hedgeCost now).tables.db.fullyFilled t)
    (hentry : EntryFilled (phase.effect st hedgeCost now).tables.db t) :
    (phase.effect st hedgeCost now).tables.db.isBooked t := by
  cases phase with
  | inserted write row flips =>
    cases write with
    | completed s row now =>
      simp only [Phase.effect, Write.commit] at hfull hentry ⊢
      by_cases hst : s = t
      · subst hst
        exact isBooked_bookPosition _ _ _ _
      · rw [Db.fullyFilled, bookPosition_structures, ← Db.fullyFilled, fullyFilled_set_ne hst] at hfull
        have horders : (bookPosition (st.tables.db.setStructure s row) s row now).orders =
            st.tables.db.orders := bookPosition_orders _ _ _ _
        exact isBooked_mono s row now (hbooked t hfull ((EntryFilled.congr horders).mp hentry))
    | mocked legs expiry tolerance rate greeks now =>
      have hkeep : Keeps st.tables.db (mockSubmit st.tables.db legs expiry tolerance rate now) :=
        keeps_mocked legs expiry tolerance rate now
      rcases hkeep.entry t hentry with hold | hnew
      · obtain ⟨o, ho, hsid, -⟩ := hold.1
        have hlt := hkeys o ho
        rw [hsid] at hlt
        refine hkeep.booked t (hbooked t ?_ hold)
        simpa [Phase.effect, Write.commit, Db.fullyFilled, mockSubmit, List.getElem?_append_left hlt]
          using hfull
      · exact hnew.2
  | closing s row =>
    obtain ⟨-, -, -, hclosing⟩ := hok
    by_cases hst : s = t
    · subst hst
      exact hclosing hentry
    · simp only [Phase.effect, fullyFilled_set_ne hst] at hfull
      exact hbooked t hfull hentry
  | finalising s =>
    obtain ⟨hstructures, horders, -⟩ := afterClose_frame st.tables.db s hedgeCost now
    refine (keeps_afterClose s hedgeCost now).booked t (hbooked t ?_ ?_)
    · rwa [Phase.effect, Db.fullyFilled, hstructures] at hfull
    · exact (EntryFilled.congr horders).mp hentry
  | called | read | summed | previous | updating | updated | committed | lost | nothing =>
    exact hbooked t hfull hentry

/-- What the first statement of a session finds. -/
theorem firstRead_ok (hkeys : ∀ o ∈ db.orders, o.structureId < db.structures.length)
    (hbooked : ∀ s, db.fullyFilled s → EntryFilled db s → db.isBooked s) :
    (job.firstRead db now).Ok db job := by
  cases job with
  | mockSubmit => exact rfl
  | completion s =>
    simp only [Job.firstRead]
    split
    · next hnone =>
      rintro s' hs' ⟨⟨o, ho, hsid, -⟩, -⟩
      obtain rfl : s = s' := Option.some.inj hs'
      have hlt := hkeys o ho
      rw [hsid] at hlt
      exact absurd (List.getElem?_eq_none_iff.mp hnone) (by omega)
    · next r hr =>
      have hlt := (List.getElem?_eq_some_iff.mp hr).1
      split_ifs with hstop hclosing
      · intro s' hs' hfilled
        obtain rfl : s = s' := Option.some.inj hs'
        rcases hstop with hfull | hunfilled
        · have hfull' : db.fullyFilled s := by simp [Db.fullyFilled, hr, hfull]
          exact ⟨hfull', hbooked s hfull' hfilled⟩
        · exact absurd hfilled (unfilled_of_primary hunfilled).1
      · refine ⟨rfl, hlt, rfl, ?_⟩
        rintro ⟨⟨o, ho, hsid, hrole⟩, -⟩
        rw [Db.ordersOf_rows, List.all_eq_true] at hclosing
        have hall := hclosing o (List.mem_filter.mpr ⟨ho, decide_eq_true hsid⟩)
        rw [hrole] at hall
        cases hall
      · exact ⟨rfl, hlt, rfl⟩

/-- The phase after a statement holds of the tables that it leaves behind. -/
theorem next_ok (hkeys : ∀ o ∈ st.tables.db.orders, o.structureId < st.tables.db.structures.length)
    (hbooked : ∀ s, st.tables.db.fullyFilled s → EntryFilled st.tables.db s → st.tables.db.isBooked s)
    (hok : phase.Ok st.tables.db job) :
    (phase.next st others job now).Ok (phase.effect st hedgeCost now).tables.db job := by
  cases phase with
  | called => exact firstRead_ok hkeys hbooked
  | read | summed | previous => exact hok
  | updating write row targets =>
    simp only [Phase.next]
    split_ifs <;> exact hok
  | updated write row flips =>
    simp only [Phase.next]
    split_ifs
    · exact hok
    · exact hok
    · trivial
  | inserted write row flips => exact fun s hs => Write.Ok.done hok hs
  | closing s row =>
    obtain ⟨hjob, hlt, hrow, hentry⟩ := hok
    refine ⟨hjob, ?_⟩
    intro hfilled
    exact ⟨fullyFilled_setStructure_self hrow hlt, hentry hfilled⟩
  | finalising s =>
    intro s' hs'
    obtain rfl : s = s' := Option.some.inj (hok.1.symm.trans hs')
    exact hok.2.keep (keeps_afterClose s hedgeCost now)
  | committed | nothing => exact hok
  | lost => trivial

end Phases

/-- Whatever the sessions do, in any order. -/
structure Runs (w : World) : Prop where
  keys : ∀ o ∈ w.tables.db.orders, o.structureId < w.tables.db.structures.length
  booked : ∀ s, w.tables.db.fullyFilled s → EntryFilled w.tables.db s → w.tables.db.isBooked s
  ok : ∀ s ∈ w.sessions, s.phase.Ok w.tables.db s.job
  oneInserted : ∀ (i j : ℕ) (a b : Session), w.sessions[i]? = some a → w.sessions[j]? = some b →
    a.phase.isInserted → b.phase.isInserted → i = j
  covered : ∀ s ∈ w.sessions, s.phase.isInserted → ∀ i ∈ currentIds w.snapshots, i ∈ s.phase.flips
  oneCurrent : (currentIds w.snapshots).length ≤ 1

section Runs
variable {w w' : World} {k : ℕ} {s s' other : Session}

theorem mem_set (h : other ∈ w.sessions.set k s') : other = s' ∨ other ∈ w.sessions.eraseIdx k := by
  obtain ⟨i, hi⟩ := List.mem_iff_getElem?.mp h
  by_cases hik : i = k
  · subst hik
    rw [List.getElem?_set_self (by simpa using (List.getElem?_eq_some_iff.mp hi).1)] at hi
    exact .inl (Option.some.inj hi).symm
  · rw [List.getElem?_set_ne (Ne.symm hik)] at hi
    exact .inr (List.mem_eraseIdx_iff_getElem?.mpr ⟨i, hik, hi⟩)

/-- A statement that commits a snapshot is the commit of a refresh. -/
theorem effect_snapshots (phase : Phase) (st : Store) (hedgeCost : ℚ) (now : Instant) :
    (phase.isInserted = false ∧ (phase.effect st hedgeCost now).snapshots = st.snapshots) ∨
      ∃ write row flips, phase = .inserted write row flips ∧
        (phase.effect st hedgeCost now).snapshots = replaceCurrent st.snapshots flips row := by
  cases phase with
  | inserted write row flips => exact .inr ⟨write, row, flips, rfl, rfl⟩
  | called | read | summed | previous | updating | updated | closing | finalising | committed | lost
  | nothing => exact .inl ⟨rfl, rfl⟩

/-- A session inserts where no other has inserted, over rows that it has all taken back. -/
theorem next_inserted {phase : Phase} {st : Store} {others : List Session} {job : Job} {now : Instant}
    (h : (phase.next st others job now).isInserted) : (∀ other ∈ others, ¬ other.phase.isInserted) ∧
      (∀ hedgeCost, phase.effect st hedgeCost now = st) ∧
      ∀ i ∈ currentIds st.snapshots, i ∈ (phase.next st others job now).flips := by
  cases phase with
  | updated write row flips =>
    simp only [Phase.next] at h ⊢
    split_ifs at h ⊢ with hwait hfree
    · cases h
    · refine ⟨?_, fun _ => rfl, ?_⟩
      · intro other hother hinserted
        exact hwait (.inl (List.any_eq_true.mpr ⟨other, hother, hinserted⟩))
      · intro i hi
        by_contra hnot
        exact (List.filter_eq_nil_iff.mp hfree) i hi (decide_eq_true hnot)
    · cases h
  | called =>
    simp only [Phase.next] at h
    unfold Job.firstRead at h
    split at h
    · cases h
    · split at h
      · cases h
      · dsimp only at h
        split_ifs at h <;> cases h
  | updating write row targets =>
    simp only [Phase.next] at h
    split_ifs at h <;> cases h
  | read | summed | previous | inserted | closing | finalising | committed | lost | nothing => cases h

theorem Start.runs (h : Start w) : Runs w where
  keys := h.keys
  booked := h.booked
  ok := by
    intro s hs
    rw [h.called s hs]
    trivial
  oneInserted := by
    intro i j a b ha _ hinserted
    rw [h.called a (List.mem_of_getElem? ha)] at hinserted
    cases hinserted
  covered := by
    intro s hs hinserted
    rw [h.called s hs] at hinserted
    cases hinserted
  oneCurrent := h.oneCurrent

theorem Runs.run (h : Runs w) (hs : w.sessions[k]? = some s) (hedgeCost : ℚ) (now : Instant) :
    Runs (refreshStep w (.run k hedgeCost now)) := by
  have hmem : s ∈ w.sessions := List.mem_of_getElem? hs
  have hkeep : Keeps w.tables.db (s.phase.effect w.toStore hedgeCost now).tables.db :=
    effect_keeps (h.ok s hmem)
  have hok : (s.phase.next w.toStore (w.sessions.eraseIdx k) s.job now).Ok
      (s.phase.effect w.toStore hedgeCost now).tables.db s.job :=
    next_ok h.keys h.booked (h.ok s hmem)
  have hother {other : Session} (ho : other ∈ w.sessions.eraseIdx k) : other ∈ w.sessions :=
    List.mem_of_mem_eraseIdx ho
  simp only [refreshStep, hs]
  constructor
  · exact hkeep.keys h.keys
  · intro t hfull hentry
    exact effect_booked h.keys h.booked (h.ok s hmem) hfull hentry
  · intro other ho
    rcases mem_set ho with rfl | ho
    · exact hok
    · exact (h.ok other (hother ho)).keep hkeep
  · -- a session inserts only where no other has
    have hnew {j : ℕ} {b : Session} (hb : w.sessions[j]? = some b) (hj : j ≠ k)
        (hinb : b.phase.isInserted) :
        ¬ (s.phase.next w.toStore (w.sessions.eraseIdx k) s.job now).isInserted := by
      intro hins
      exact (next_inserted hins).1 b (List.mem_eraseIdx_iff_getElem?.mpr ⟨j, hj, hb⟩) hinb
    have hself {a : Session} (ha : (w.sessions.set k
        { s with phase := s.phase.next w.toStore (w.sessions.eraseIdx k) s.job now })[k]? = some a) :
        a.phase = s.phase.next w.toStore (w.sessions.eraseIdx k) s.job now := by
      rw [List.getElem?_set_self (List.getElem?_eq_some_iff.mp hs).1] at ha
      rw [← Option.some.inj ha]
    intro i j a b ha hb hina hinb
    by_cases hi : i = k
    · by_cases hj : j = k
      · rw [hi, hj]
      · rw [List.getElem?_set_ne (Ne.symm hj)] at hb
        rw [hi] at ha
        rw [hself ha] at hina
        exact absurd hina (hnew hb hj hinb)
    · rw [List.getElem?_set_ne (Ne.symm hi)] at ha
      by_cases hj : j = k
      · rw [hj] at hb
        rw [hself hb] at hinb
        exact absurd hinb (hnew ha hi hina)
      · rw [List.getElem?_set_ne (Ne.symm hj)] at hb
        exact h.oneInserted i j a b ha hb hina hinb
  · intro other ho hinserted
    rcases mem_set ho with rfl | ho
    · obtain ⟨-, hsame, hcover⟩ := next_inserted hinserted
      rw [hsame]
      exact hcover
    · rcases effect_snapshots s.phase w.toStore hedgeCost now with ⟨-, hsame⟩ | ⟨write, row, flips, hphase, -⟩
      · rw [hsame]
        exact h.covered other (hother ho) hinserted
      · -- only one session has inserted, and that one commits
        obtain ⟨j, hjk, hj⟩ := List.mem_eraseIdx_iff_getElem?.mp ho
        exact absurd (h.oneInserted j k other s hj hs hinserted (by rw [hphase]; rfl)) hjk
  · rcases effect_snapshots s.phase w.toStore hedgeCost now with ⟨-, hsame⟩ | ⟨write, row, flips, hphase, hnew⟩
    · rw [hsame]
      exact h.oneCurrent
    · rw [hnew]
      apply oneCurrent_replace
      have hcover := h.covered s hmem (by rw [hphase]; rfl)
      rwa [hphase] at hcover

theorem Runs.fail (h : Runs w) (hs : w.sessions[k]? = some s) (hphase : s.phase.refreshing) :
    Runs (refreshStep w (.fail k)) := by
  simp only [refreshStep, hs, if_pos hphase]
  have hold {i : ℕ} {a : Session} (ha : (w.sessions.set k { s with phase := .lost })[i]? = some a)
      (hina : a.phase.isInserted) : w.sessions[i]? = some a := by
    by_cases hi : i = k
    · rw [hi, List.getElem?_set_self (List.getElem?_eq_some_iff.mp hs).1] at ha
      rw [← Option.some.inj ha] at hina
      cases hina
    · rwa [List.getElem?_set_ne (Ne.symm hi)] at ha
  refine ⟨h.keys, h.booked, ?_, ?_, ?_, h.oneCurrent⟩
  · intro other ho
    rcases mem_set ho with rfl | ho
    · trivial
    · exact h.ok other (List.mem_of_mem_eraseIdx ho)
  · intro i j a b ha hb hina hinb
    exact h.oneInserted i j a b (hold ha hina) (hold hb hinb) hina hinb
  · intro other ho hinserted
    obtain ⟨i, hi⟩ := List.mem_iff_getElem?.mp ho
    exact h.covered other (List.mem_of_getElem? (hold hi hinserted)) hinserted

theorem Runs.step (w : World) (e : RefreshEvent) (h : Runs w) : Runs (refreshStep w e) := by
  cases e with
  | run k hedgeCost now =>
    cases hs : w.sessions[k]? with
    | none => simpa only [refreshStep, hs] using h
    | some s => exact h.run hs hedgeCost now
  | fail k =>
    cases hs : w.sessions[k]? with
    | none => simpa only [refreshStep, hs] using h
    | some s =>
      by_cases hphase : s.phase.refreshing
      · exact h.fail hs hphase
      · simpa only [refreshStep, hs, if_neg hphase] using h

theorem firstRead_ne_called (job : Job) (db : Db) (now : Instant) : job.firstRead db now ≠ .called := by
  cases job with
  | mockSubmit => exact Phase.noConfusion
  | completion s =>
    simp only [Job.firstRead]
    split
    · exact Phase.noConfusion
    · split_ifs <;> exact Phase.noConfusion

theorem mem_flips {phase : Phase} {i : ℕ} (h : i ∈ phase.flips) :
    phase.isInserted ∨ ∃ write row flips, phase = .updated write row flips ∧ i ∈ flips := by
  cases phase with
  | inserted => exact .inl rfl
  | updated write row flips => exact .inr ⟨write, row, flips, rfl, h⟩
  | called | read | summed | previous | updating | closing | finalising | committed | lost | nothing =>
    cases h

/-- Where none has inserted, a session whose update took back every current row inserts. -/
theorem updated_moves {write : Write} {row : Snapshot} {flips : List ℕ} {st : Store}
    {others : List Session} (job : Job) (now : Instant)
    (hnone : ∀ other ∈ others, ¬ other.phase.isInserted)
    (hfree : ∀ i ∈ currentIds st.snapshots, i ∉ flips → ¬ locked others i) :
    (Phase.updated write row flips).next st others job now ≠ .updated write row flips := by
  have hwait : ¬ ((others.any (·.phase.isInserted)) = true ∨
      (((currentIds st.snapshots).filter fun i => i ∉ flips).any (locked others)) = true) := by
    rintro (hins | hlock)
    · obtain ⟨other, hother, hinserted⟩ := List.any_eq_true.mp hins
      exact hnone other hother hinserted
    · obtain ⟨i, hi, hlocked⟩ := List.any_eq_true.mp hlock
      obtain ⟨hcurrent, hnot⟩ := List.mem_filter.mp hi
      exact hfree i hcurrent (of_decide_eq_true hnot) hlocked
  simp only [Phase.next, if_neg hwait]
  split_ifs <;> exact Phase.noConfusion

/-- The sessions never all wait. -/
theorem Runs.advances (h : Runs w) (hopen : ∃ s ∈ w.sessions, ¬ s.phase.ended) :
    ∃ (k : ℕ) (s : Session), w.sessions[k]? = some s ∧ ¬ s.phase.ended ∧
      ∀ now, s.phase.next w.toStore (w.sessions.eraseIdx k) s.job now ≠ s.phase := by
  by_cases hins : ∃ s ∈ w.sessions, s.phase.isInserted
  · -- the one that has inserted commits
    obtain ⟨s, hs, hinserted⟩ := hins
    obtain ⟨k, hk⟩ := List.mem_iff_getElem?.mp hs
    refine ⟨k, s, hk, ?_, ?_⟩
    all_goals
      revert hinserted
      cases s.phase with
      | inserted => exact fun _ => by simp [Phase.ended, Phase.next]
      | called | read | summed | previous | updating | updated | closing | finalising | committed
      | lost | nothing => exact fun h => by cases h
  · push Not at hins
    have hnone (k : ℕ) : ∀ other ∈ w.sessions.eraseIdx k, ¬ other.phase.isInserted :=
      fun other hother => hins other (List.mem_of_mem_eraseIdx hother)
    by_cases hupd : ∃ s ∈ w.sessions, ∃ i, i ∈ s.phase.flips ∧ i ∈ currentIds w.snapshots
    · -- one whose update took the current row back has nothing to wait for
      obtain ⟨s, hs, i, hflip, hi⟩ := hupd
      obtain ⟨k, hk⟩ := List.mem_iff_getElem?.mp hs
      rcases mem_flips hflip with hinserted | ⟨write, row, flips, hphase, hmem⟩
      · exact absurd hinserted (hins s hs)
      refine ⟨k, s, hk, by simp [hphase, Phase.ended], ?_⟩
      intro now
      rw [hphase]
      refine updated_moves s.job now (hnone k) ?_
      intro j hj hnot
      have hone : j = i := current_unique h.oneCurrent hj hi
      exact absurd (hone ▸ hmem) hnot
    · push Not at hupd
      obtain ⟨s, hs, hopen⟩ := hopen
      by_cases hany : ∃ t ∈ w.sessions, t.phase.flips ≠ []
      · -- no current row is taken back, so an update that is done goes on
        obtain ⟨t, ht, hflips⟩ := hany
        obtain ⟨k, hk⟩ := List.mem_iff_getElem?.mp ht
        obtain ⟨i, hi⟩ := List.exists_mem_of_ne_nil _ hflips
        rcases mem_flips hi with hinserted | ⟨write, row, flips, hphase, -⟩
        · exact absurd hinserted (hins t ht)
        refine ⟨k, t, hk, by simp [hphase, Phase.ended], ?_⟩
        intro now
        rw [hphase]
        refine updated_moves t.job now (hnone k) ?_
        intro j hj _ hlocked
        obtain ⟨other, hother, hflip⟩ := List.any_eq_true.mp hlocked
        exact hupd other (List.mem_of_mem_eraseIdx hother) j (of_decide_eq_true hflip) hj
      · -- nothing is locked
        push Not at hany
        obtain ⟨k, hk⟩ := List.mem_iff_getElem?.mp hs
        have hunlocked (i : ℕ) : ¬ locked (w.sessions.eraseIdx k) i := by
          intro hlocked
          obtain ⟨other, hother, hflip⟩ := List.any_eq_true.mp hlocked
          have hmem := of_decide_eq_true hflip
          rw [hany other (List.mem_of_mem_eraseIdx hother)] at hmem
          cases hmem
        refine ⟨k, s, hk, hopen, ?_⟩
        intro now
        cases hphase : s.phase with
        | called => exact firstRead_ne_called s.job _ now
        | updating write row targets =>
          have hfree : ¬ (targets.any (locked (w.sessions.eraseIdx k))) = true := by
            intro hlocked
            obtain ⟨i, -, hi⟩ := List.any_eq_true.mp hlocked
            exact hunlocked i hi
          simp only [Phase.next, if_neg hfree]
          exact Phase.noConfusion
        | updated write row flips =>
          exact updated_moves s.job now (hnone k) fun i _ _ => hunlocked i
        | read | summed | previous | inserted | closing | finalising => exact Phase.noConfusion
        | committed | lost | nothing => exact absurd (by rw [hphase]; rfl) hopen

end Runs

section Totals
variable {t t' : Tables}

def Write.added (t : Tables) : Write → List PositionRow
  | .completed s row now =>
    if t.db.bookedPositions.any fun p => p.structureId = s then []
    else [⟨⟨s, now, row.totalPremiumPaidUsd.getD 0, row.totalEntryCostUsd.getD 0, .open⟩, liveGreeks⟩]
  | .mocked legs _ _ commissionPerContract greeks now =>
    [⟨⟨t.db.structures.length, now,
      (mockStructure commissionPerContract now legs).totalPremiumPaidUsd.getD 0,
      (mockStructure commissionPerContract now legs).totalEntryCostUsd.getD 0, .open⟩, greeks⟩]

theorem commit_rows (write : Write) (t : Tables) :
    (write.commit t).rows = t.rows ++ write.added t := by
  cases write with
  | completed s row now =>
    by_cases h : t.db.bookedPositions.any fun p => p.structureId = s
    · have hbook : (bookPosition (t.db.setStructure s row) s row now).bookedPositions =
          t.db.bookedPositions := by
        rw [bookPosition, if_pos (by exact h)]
        rfl
      simp only [Tables.rows, Write.commit, Write.added, if_pos h, hbook, List.append_nil]
    · have hbook : (bookPosition (t.db.setStructure s row) s row now).bookedPositions =
          t.db.bookedPositions ++
            [⟨s, now, row.totalPremiumPaidUsd.getD 0, row.totalEntryCostUsd.getD 0, .open⟩] := by
        rw [bookPosition, if_neg (by exact h)]
        rfl
      simp only [Tables.rows, Write.commit, Write.added, if_neg h, hbook]
      rw [List.zipWith_append t.parallel.symm]
      rfl
  | mocked legs expiry tolerance rate greeks now =>
    simp only [Tables.rows, Write.commit, Write.added, mockSubmit]
    rw [List.zipWith_append t.parallel.symm]
    rfl

/-- The totals are those of the open positions. -/
theorem bookTotals_open {rows rows' : List PositionRow}
    (h : rows'.filter (·.state = .open) = rows.filter (·.state = .open)) :
    bookTotals rows' = bookTotals rows := by
  rw [bookTotals, bookTotals, h]

/-- The open positions, and what else a session that books reads, are the same. -/
structure SameBook (t t' : Tables) : Prop where
  openRows : t'.rows.filter (·.state = .open) = t.rows.filter (·.state = .open)
  structureIds : t'.db.bookedPositions.map (·.structureId) = t.db.bookedPositions.map (·.structureId)
  length : t'.db.structures.length = t.db.structures.length

theorem SameBook.totals (h : SameBook t t') (write : Write) :
    bookTotals (write.commit t').rows = bookTotals (write.commit t).rows := by
  have hany (s : ℕ) : (t'.db.bookedPositions.any fun p => p.structureId = s) =
      t.db.bookedPositions.any fun p => p.structureId = s := by
    have hcongr := congrArg (List.any · fun id => decide (id = s)) h.structureIds
    simpa only [List.any_map, Function.comp_def] using hcongr
  have hadded : write.added t' = write.added t := by
    cases write with
    | completed s row now => simp only [Write.added, hany]
    | mocked => simp only [Write.added, h.length]
  apply bookTotals_open
  rw [commit_rows, commit_rows, List.filter_append, List.filter_append, h.openRows, hadded]

/-- A position that was not open and is not open now leaves the open ones as they are. -/
theorem openRows_set (positions : List BookedPosition) (greeks : List EntryGreeks) (i : ℕ)
    {pos pos' : BookedPosition} (hpos : positions[i]? = some pos) (hstate : pos.state ≠ .open)
    (hstate' : pos'.state ≠ .open) :
    (List.zipWith PositionRow.mk (positions.set i pos') greeks).filter (·.state = .open) =
      (List.zipWith PositionRow.mk positions greeks).filter (·.state = .open) := by
  induction positions generalizing i greeks with
  | nil => rfl
  | cons p positions ih =>
    cases greeks with
    | nil => rw [List.zipWith_nil_right, List.zipWith_nil_right]
    | cons g greeks =>
      cases i with
      | zero =>
        obtain rfl : p = pos := Option.some.inj hpos
        simp [hstate, hstate']
      | succ i =>
        rw [List.set_cons_succ, List.zipWith_cons_cons, List.zipWith_cons_cons, List.filter_cons,
          List.filter_cons, ih greeks i hpos]

end Totals

/-- A session past its sum has summed what its commit will leave, and has taken the current row
back. -/
def Phase.Fresh (st : Store) : Phase → Prop
  | .summed write totals => totals = bookTotals (write.commit st.tables).rows
  | .previous write row => row.totals = bookTotals (write.commit st.tables).rows ∧ row.isCurrent
  | .updating write row targets => row.totals = bookTotals (write.commit st.tables).rows ∧
      row.isCurrent ∧ targets = currentIds st.snapshots
  | .updated write row flips | .inserted write row flips =>
    row.totals = bookTotals (write.commit st.tables).rows ∧ row.isCurrent ∧
      flips = currentIds st.snapshots
  | .lost => False
  | _ => True

section Fresh
variable {phase : Phase} {st st' : Store} {w : World} {others : List Session} {job : Job} {k : ℕ}
  {s : Session} {hedgeCost : ℚ} {now : Instant}

theorem Phase.Fresh.ne_lost (h : phase.Fresh st) : phase ≠ .lost := by
  rintro rfl
  exact h

theorem Phase.Fresh.congr (h : phase.Fresh st) (hsnapshots : st'.snapshots = st.snapshots)
    (hbook : SameBook st.tables st'.tables) : phase.Fresh st' := by
  cases phase with
  | summed write totals => exact h.trans (hbook.totals write).symm
  | previous write row => exact ⟨h.1.trans (hbook.totals write).symm, h.2⟩
  | updating write row ids | updated write row ids | inserted write row ids =>
    exact ⟨h.1.trans (hbook.totals write).symm, h.2.1, h.2.2.trans (by rw [hsnapshots])⟩
  | called | read | closing | finalising | committed | nothing => trivial
  | lost => exact h

/-- Before the sum there is nothing to go stale. -/
theorem Phase.Fresh.of_not_pastSum (h : phase.Fresh st) (hsum : ¬ phase.pastSum) :
    phase.Fresh st' := by
  cases phase with
  | summed | previous | updating | updated | inserted => exact absurd rfl hsum
  | called | read | closing | finalising | committed | nothing => trivial
  | lost => exact h

theorem sameBook_refl (t : Tables) : SameBook t t := ⟨rfl, rfl, rfl⟩

/-- A statement that is not the commit of a refresh leaves the book as it is. -/
theorem effect_sameBook (hins : phase.isInserted = false)
    (hopen : ∀ structureId, phase = .finalising structureId →
      (alertedPosition st.tables.db structureId).all (·.state ≠ .open)) :
    SameBook st.tables (phase.effect st hedgeCost now).tables := by
  cases phase with
  | inserted => cases hins
  | closing s row => exact ⟨rfl, rfl, List.length_set⟩
  | finalising s =>
    obtain ⟨hstructures, -, hpositions⟩ := afterClose_frame st.tables.db s hedgeCost now
    rcases hpositions with hsame | ⟨i, pos, halert, hpos, hset⟩
    · refine ⟨?_, ?_, by rw [Phase.effect, hstructures]⟩
      · simp only [Tables.rows, Phase.effect, hsame]
      · rw [Phase.effect, hsame]
    · have hstate : pos.state ≠ .open := by
        have hall := hopen s rfl
        rw [halert] at hall
        exact of_decide_eq_true hall
      refine ⟨?_, ?_, by rw [Phase.effect, hstructures]⟩
      · simp only [Tables.rows, Phase.effect, hset]
        exact openRows_set _ _ i hpos hstate PositionState.noConfusion
      · simp only [Phase.effect, hset]
        exact structureIds_set hpos
  | called | read | summed | previous | updating | updated | committed | lost | nothing =>
    exact sameBook_refl _

/-- The next phase of a session is as fresh. -/
theorem next_fresh (h : phase.Fresh st) : (phase.next st others job now).Fresh st ∨
    (phase.isInserted ∧ phase.next st others job now = .committed) := by
  cases phase with
  | called =>
    left
    have hfirst : (job.firstRead st.tables.db now).Fresh st := by
      cases job with
      | mockSubmit => trivial
      | completion s =>
        simp only [Job.firstRead]
        split
        · trivial
        · split_ifs <;> trivial
    exact hfirst
  | read write => exact .inl rfl
  | summed write totals => exact .inl ⟨h, rfl⟩
  | previous write row => exact .inl ⟨h.1, h.2, rfl⟩
  | updating write row targets =>
    left
    simp only [Phase.next]
    split_ifs
    · exact h
    · refine ⟨h.1, h.2.1, ?_⟩
      rw [h.2.2]
      exact List.filter_eq_self.mpr fun i hi => decide_eq_true hi
  | updated write row flips =>
    left
    have hconflicts : ((currentIds st.snapshots).filter fun i => i ∉ flips) = [] := by
      rw [List.filter_eq_nil_iff, h.2.2]
      exact fun i hi hnot => of_decide_eq_true hnot hi
    simp only [Phase.next, hconflicts, if_true]
    split_ifs <;> exact h
  | inserted => exact .inr ⟨rfl, rfl⟩
  | closing | finalising | committed | nothing => exact .inl trivial
  | lost => exact .inl h

theorem next_committed (h : phase.next st others job now = .committed) :
    phase.isInserted ∨ phase = .committed := by
  cases phase with
  | inserted => exact .inl rfl
  | committed => exact .inr rfl
  | called =>
    exfalso
    simp only [Phase.next] at h
    cases job with
    | mockSubmit => cases h
    | completion s =>
      simp only [Job.firstRead] at h
      split at h
      · cases h
      · split_ifs at h
  | updating | updated =>
    simp only [Phase.next] at h
    split_ifs at h
  | read | summed | previous | closing | finalising | lost | nothing => cases h

/-- The book state is that of the open positions once a refresh is committed. -/
structure Accurate (w : World) : Prop where
  fresh : ∀ s ∈ w.sessions, s.phase.Fresh w.toStore
  current : (∃ s ∈ w.sessions, s.phase = .committed) →
    ∃ row ∈ w.snapshots, row.isCurrent ∧ row.totals = bookTotals w.tables.rows

theorem Accurate.run (h : Accurate w) (hs : w.sessions[k]? = some s)
    (hguard : Separate w (.run k hedgeCost now)) : Accurate (refreshStep w (.run k hedgeCost now)) := by
  have hmem : s ∈ w.sessions := List.mem_of_getElem? hs
  have hfresh := h.fresh s hmem
  obtain ⟨halone, hclose⟩ := hguard s hs
  simp only [refreshStep, hs]
  cases hins : s.phase.isInserted with
  | true =>
    -- the commit of a refresh, with no other past its sum
    rcases effect_snapshots s.phase w.toStore hedgeCost now with
      ⟨hnot, -⟩ | ⟨write, row, flips, hphase, -⟩
    · rw [hins] at hnot
      cases hnot
    rw [hphase] at hfresh
    simp only [hphase, Phase.effect, Phase.next]
    constructor
    · intro other ho
      rcases mem_set ho with rfl | ho
      · trivial
      · exact (h.fresh other (List.mem_of_mem_eraseIdx ho)).of_not_pastSum (halone hins other ho)
    · intro _
      exact ⟨row, List.mem_append_right _ List.mem_cons_self, hfresh.2.1, hfresh.1⟩
  | false =>
    have hbook : SameBook w.tables (s.phase.effect w.toStore hedgeCost now).tables :=
      effect_sameBook hins hclose
    have hsnapshots : (s.phase.effect w.toStore hedgeCost now).snapshots = w.snapshots := by
      rcases effect_snapshots s.phase w.toStore hedgeCost now with ⟨-, hsame⟩ | ⟨_, _, _, hphase, -⟩
      · exact hsame
      · rw [hphase] at hins
        cases hins
    constructor
    · intro other ho
      rcases mem_set ho with rfl | ho
      · have hnext : (s.phase.next w.toStore (w.sessions.eraseIdx k) s.job now).Fresh w.toStore ∨
            s.phase.isInserted ∧
              s.phase.next w.toStore (w.sessions.eraseIdx k) s.job now = .committed := next_fresh hfresh
        rcases hnext with hnext | ⟨hnot, -⟩
        · exact hnext.congr hsnapshots hbook
        · rw [hins] at hnot
          cases hnot
      · exact (h.fresh other (List.mem_of_mem_eraseIdx ho)).congr hsnapshots hbook
    · rintro ⟨other, ho, hcommitted⟩
      have hold : ∃ t ∈ w.sessions, t.phase = .committed := by
        rcases mem_set ho with rfl | ho
        · rcases next_committed hcommitted with hnot | hphase
          · rw [hins] at hnot
            cases hnot
          · exact ⟨s, hmem, hphase⟩
        · exact ⟨other, List.mem_of_mem_eraseIdx ho, hcommitted⟩
      obtain ⟨row, hrow, hcurrent, htotals⟩ := h.current hold
      refine ⟨row, ?_, hcurrent, ?_⟩
      · rw [hsnapshots]
        exact hrow
      · rw [htotals, bookTotals_open hbook.openRows]

theorem Accurate.step (w : World) (e : RefreshEvent) (h : Accurate w) (hguard : Separate w e) :
    Accurate (refreshStep w e) := by
  cases e with
  | run k hedgeCost now =>
    cases hs : w.sessions[k]? with
    | none => simpa only [refreshStep, hs] using h
    | some s => exact h.run hs hguard
  | fail k =>
    cases hs : w.sessions[k]? with
    | none => simpa only [refreshStep, hs] using h
    | some s => simpa only [refreshStep, hs, if_neg (hguard s hs)] using h

theorem Start.accurate (h : Start w) : Accurate w where
  fresh := by
    intro s hs
    rw [h.called s hs]
    trivial
  current := by
    rintro ⟨s, hs, hcommitted⟩
    rw [h.called s hs] at hcommitted
    cases hcommitted

end Fresh

/-- Whatever the order, one snapshot at most is current and the sessions do not all wait.  In a run of
separate refreshes none loses its booking, every filled structure is completed and booked, and the
current snapshot comes to be that of the open positions. -/
theorem completions_independent (w : World) (h : Start w) :
    (∀ w', Run refreshStep (fun _ _ => True) w w' → (currentIds w'.snapshots).length ≤ 1) ∧
      ∀ w', Run refreshStep Separate w w' → Independent w' := by
  have hruns (w' : World) (hrun : Run refreshStep (fun _ _ => True) w w') : Runs w' :=
    hrun.invariant (fun w e hw _ => hw.step w e) h.runs
  refine ⟨fun w' hrun => (hruns w' hrun).oneCurrent, ?_⟩
  intro w' hrun
  have hall := hruns w' (hrun.mono fun _ _ _ => trivial)
  have haccurate : Accurate w' := hrun.invariant Accurate.step h.accurate
  have hkept (s : Session) (hs : s ∈ w'.sessions) : s.phase ≠ .lost := (haccurate.fresh s hs).ne_lost
  refine ⟨?_, hkept, hall.oneCurrent, fun _ => haccurate.current, hall.advances⟩
  intro s hs structureId hjob hended
  have hok := hall.ok s hs
  have hstructure : s.job.structure? = some structureId := by rw [hjob]; rfl
  have hlost := hkept s hs
  revert hok hended hlost
  cases s.phase with
  | committed | nothing => exact fun _ hok _ => hok structureId hstructure
  | lost => exact fun _ _ hlost => absurd rfl hlost
  | called | read | summed | previous | updating | updated | inserted | closing | finalising =>
    exact fun hended => by cases hended

/-- Two structures whose one leg is filled. -/
def Phase.finalises : Phase → Option ℕ
  | .finalising structureId => some structureId
  | _ => none

theorem finalises_iff {phase : Phase} {structureId : ℕ} :
    phase.finalises = some structureId ↔ phase = .finalising structureId := by
  cases phase <;> simp [Phase.finalises]

instance (w : World) : ∀ e, Decidable (Separate w e)
  | .run k _ _ => decidable_of_iff (∀ s ∈ w.sessions[k]?,
      (s.phase.isInserted → ∀ other ∈ w.sessions.eraseIdx k, ¬ other.phase.pastSum) ∧
      ∀ structureId ∈ s.phase.finalises,
        (alertedPosition w.tables.db structureId).all (·.state ≠ .open)) <| by
    simp only [Separate, Option.mem_def, finalises_iff]
  | .fail k => decidable_of_iff (∀ s ∈ w.sessions[k]?, ¬ s.phase.refreshing) <| by
    simp only [Separate, Option.mem_def]

def filledLeg (structureId : ℕ) : StructureOrder :=
  { StructureOrder.new structureId 0 .entry .buy 1 0 with
    state := .filled
    qtyFilled := 1
    avgFillPrice := some (1 / 100) }

def twoFilled : World where
  tables :=
    { db := { Db.empty with
        structures := [TradeStructure.new 0, TradeStructure.new 0]
        orders := [filledLeg 0, filledLeg 1] }
      entryGreeks := []
      parallel := rfl }
  snapshots := [newSnapshot [] (bookTotals [])]
  sessions := [⟨.completion 0, .called⟩, ⟨.completion 1, .called⟩]

theorem start_twoFilled : Start twoFilled where
  called := by simp [twoFilled]
  distinct := by decide
  keys := by simp [twoFilled, filledLeg, StructureOrder.new]
  booked := by
    intro s hfull
    obtain ⟨row, hrow, hstate⟩ := (Option.any_eq_true _ _).mp hfull
    have hmem := List.mem_of_getElem? hrow
    simp only [twoFilled, List.mem_cons, List.not_mem_nil, or_false, or_self] at hmem
    rw [hmem] at hstate
    cases of_decide_eq_true hstate
  oneCurrent := by decide +kernel

/-- `n` statements of a session -/
def statements (k n : ℕ) : List RefreshEvent := List.replicate n (.run k 0 1)

theorem completions_independent_inTurn :
    Independent ((statements 0 7 ++ statements 1 7).foldl refreshStep twoFilled) := by
  have hguard : Guarded refreshStep Separate twoFilled (statements 0 7 ++ statements 1 7) := by
    decide +kernel
  exact (completions_independent twoFilled start_twoFilled).2 _ (Run.of_foldl _ hguard)

/-- The second update waits for the first, and finds nothing. -/
def overlapping : List RefreshEvent := statements 1 4 ++ statements 0 7 ++ statements 1 2

/-- The second session sums before the first commits, and updates after. -/
def stale : List RefreshEvent := statements 1 2 ++ statements 0 7 ++ statements 1 5

/-- Of two completions that overlap one is lost: the legs of its structure are filled, and it is
neither completed nor booked.  Where only the sum is early, the current snapshot misses a position. -/
theorem second_completion_lost :
    ((overlapping.foldl refreshStep twoFilled).tables.db.structures.map (·.state),
      (overlapping.foldl refreshStep twoFilled).tables.rows.map (·.structureId)) =
        ([.fullyFilled, .submitted], [0]) ∧
    EntryFilled (overlapping.foldl refreshStep twoFilled).tables.db 1 ∧
    (((stale.foldl refreshStep twoFilled).snapshots.filter (·.isCurrent)).map
        (·.totals.nOpenStructures),
      (bookTotals (stale.foldl refreshStep twoFilled).tables.rows).nOpenStructures) = ([1], 2) ∧
    ¬ ∀ w', Run refreshStep (fun _ _ => True) twoFilled w' → Independent w' := by
  refine ⟨by decide +kernel, ?_, by decide +kernel, ?_⟩
  · unfold EntryFilled
    decide +kernel
  · intro hall
    have hindependent := hall _ (Run.of_events overlapping)
    have hlost : (overlapping.foldl refreshStep twoFilled).sessions.any
        (fun s => s.phase matches .lost) = true := by decide +kernel
    obtain ⟨s, hs, hphase⟩ := List.any_eq_true.mp hlost
    refine hindependent.kept s hs ?_
    revert hphase
    cases s.phase <;> simp

end FxVol.BookRefreshes
