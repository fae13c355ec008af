import FxVol.PositionSync
import FxVol.GuardedRuns

/-!
# Is the mirror what IB reports

A pass on a reporting account leaves exactly the reported positions in the mirror, except when
IB reports none while the mirror has rows: the snapshot of a flat account is not trusted, and
nothing is deleted.
-/
namespace FxVol

open GuardedRuns KeyedLog

namespace AccountSnapshot
variable {s : AccountSnapshot} {k : String} {p : ReportedPosition}

theorem reported_spec (h : s.reported k = some p) :
    k ≠ "" ∧ p ∈ s.active ∧ p.localSymbol = k := by
  unfold reported at h
  split_ifs at h with hk
  have hmem := List.mem_of_getLast? h
  rw [List.mem_filter, decide_eq_true_eq] at hmem
  exact ⟨hk, hmem.1, hmem.2⟩

theorem mem_keys : k ∈ s.keys ↔ ∃ p, s.reported k = some p := by
  have hlog := key_mem_recordAll id []
    ((s.active.map (·.localSymbol)).filter fun k => k ≠ "") k
  simp only [List.map_id, List.not_mem_nil, false_or] at hlog
  rw [keys, hlog, List.mem_filter, decide_eq_true_eq, List.mem_map]
  constructor
  · rintro ⟨⟨p, hp, hsym⟩, hk⟩
    have hmem : p ∈ s.active.filter fun p => p.localSymbol = k :=
      List.mem_filter.mpr ⟨hp, decide_eq_true hsym⟩
    refine ⟨(s.active.filter fun p => p.localSymbol = k).getLast (List.ne_nil_of_mem hmem), ?_⟩
    rw [reported, if_neg hk, List.getLast?_eq_some_getLast]
  · rintro ⟨p, hp⟩
    obtain ⟨hk, hactive, hsym⟩ := reported_spec hp
    exact ⟨⟨p, hactive, hsym⟩, hk⟩

theorem keys_nodup (s : AccountSnapshot) : s.keys.Nodup := by
  have hnodup := nodup_recordAll (id : String → String) []
    ((s.active.map (·.localSymbol)).filter fun k => k ≠ "") List.nodup_nil
  rwa [List.map_id] at hnodup

theorem reported_none (h : s.active = []) (k : String) : s.reported k = none := by
  simp [reported, h]

end AccountSnapshot

/-- What every pass leaves: one row for a symbol, and keys of their own. -/
structure Mirror.WellFormed (m : Mirror) : Prop where
  keyed : ∀ r ∈ m.rows, r.localSymbol ≠ ""
  one : (m.rows.map (·.localSymbol)).Nodup
  ids : (m.rows.map (·.id)).Nodup
  fresh : ∀ r ∈ m.rows, r.id < m.nextId

namespace Mirror
variable {m : Mirror} {r : MirrorRow} {k : String}

theorem mem_rowsAt : r ∈ m.rowsAt k ↔ r ∈ m.rows ∧ r.localSymbol = k := by
  simp [rowsAt]

theorem WellFormed.empty : WellFormed .empty where
  keyed := nofun
  one := List.nodup_nil
  ids := List.nodup_nil
  fresh := nofun

theorem WellFormed.rowsAt_mem (h : m.WellFormed) (hr : r ∈ m.rows) :
    m.rowsAt r.localSymbol = [r] := filter_key h.one hr

theorem WellFormed.byKey_mem (h : m.WellFormed) (hr : r ∈ m.rows) :
    m.byKey r.localSymbol = some r := by
  rw [byKey, if_neg (h.keyed r hr), h.rowsAt_mem hr]
  rfl

theorem byKey_spec (h : m.byKey k = some r) : r ∈ m.rows ∧ r.localSymbol = k := by
  unfold byKey at h
  split_ifs at h
  exact mem_rowsAt.mp (List.mem_of_getLast? h)

theorem WellFormed.byKey_none (h : m.WellFormed) :
    m.byKey k = none ↔ ∀ r ∈ m.rows, r.localSymbol ≠ k := by
  constructor
  · rintro hnone r hr rfl
    rw [h.byKey_mem hr] at hnone
    cases hnone
  · intro hall
    cases hk : m.byKey k with
    | none => rfl
    | some r =>
      obtain ⟨hr, hsym⟩ := byKey_spec hk
      exact absurd hsym (hall r hr)

end Mirror

section Pass
variable {db : Db} {s : AccountSnapshot} {now : Instant} {m : Mirror}

@[simp] theorem upsertRow_id (r : MirrorRow) : (upsertRow db s m r).id = r.id := by
  unfold upsertRow
  split
  · split_ifs <;> rfl
  · rfl

@[simp] theorem upsertRow_localSymbol (r : MirrorRow) :
    (upsertRow db s m r).localSymbol = r.localSymbol := by
  unfold upsertRow
  split
  · split_ifs <;> rfl
  · rfl

theorem upsertRow_reported (h : m.WellFormed) {r : MirrorRow} (hr : r ∈ m.rows)
    {p : ReportedPosition} (hp : s.reported r.localSymbol = some p) :
    upsertRow db s m r = r.refresh p (legToTrade db r.localSymbol) := by
  simp only [upsertRow, hp, h.byKey_mem hr, if_true]

theorem mem_newKeys (h : m.WellFormed) {k : String} :
    k ∈ newKeys s m ↔ k ∈ s.keys ∧ ∀ r ∈ m.rows, r.localSymbol ≠ k := by
  rw [newKeys, List.mem_filter, decide_eq_true_eq, h.byKey_none]

def addedRows (db : Db) (s : AccountSnapshot) (now : Instant) (base : ℕ) (ks : List String)
    (offset : ℕ) : List MirrorRow :=
  (ks.zipIdx offset).filterMap fun x => newRow db s now x.1 (base + x.2)

theorem newRow_spec {k : String} {id : ℕ} {r : MirrorRow} (h : newRow db s now k id = some r) :
    r.id = id ∧ r.localSymbol = k ∧
      ∃ p, s.reported k = some p ∧ r.side = p.side ∧ r.quantity = |p.position| := by
  obtain ⟨p, hp, rfl⟩ := Option.map_eq_some_iff.mp h
  exact ⟨rfl, rfl, p, hp, rfl, rfl⟩

variable (db now) in
/-- Added rows have the keys they were added for and consecutive ids. -/
theorem addedRows_columns {ks : List String} (hall : ∀ k ∈ ks, k ∈ s.keys) (base offset : ℕ) :
    (addedRows db s now base ks offset).map (·.localSymbol) = ks ∧
    (addedRows db s now base ks offset).map (·.id) = List.range' (base + offset) ks.length := by
  induction ks generalizing offset with
  | nil => exact ⟨rfl, rfl⟩
  | cons k ks ih =>
    obtain ⟨hk, hks⟩ := List.forall_mem_cons.mp hall
    obtain ⟨hsyms, hids⟩ := ih hks (offset + 1)
    obtain ⟨p, hp⟩ := AccountSnapshot.mem_keys.mp hk
    obtain ⟨r, hrow⟩ : ∃ r, newRow db s now k (base + offset) = some r :=
      ⟨_, Option.map_eq_some_iff.mpr ⟨p, hp, rfl⟩⟩
    obtain ⟨hid, hsym, -⟩ := newRow_spec hrow
    have hcons : addedRows db s now base (k :: ks) offset =
        r :: addedRows db s now base ks (offset + 1) := by
      simp [addedRows, List.zipIdx_cons, hrow]
    rw [hcons]
    refine ⟨?_, ?_⟩
    · rw [List.map_cons, hsyms, hsym]
    · rw [List.map_cons, hids, hid, List.length_cons, List.range'_succ, Nat.add_assoc]

theorem mem_addedRows {ks : List String} {base offset : ℕ} {r : MirrorRow}
    (h : r ∈ addedRows db s now base ks offset) :
    r.localSymbol ∈ ks ∧
      ∃ p, s.reported r.localSymbol = some p ∧ r.side = p.side ∧ r.quantity = |p.position| := by
  obtain ⟨⟨k, i⟩, hmem, hrow⟩ := List.mem_filterMap.mp h
  obtain ⟨-, rfl, hp⟩ := newRow_spec hrow
  exact ⟨(List.mem_zipIdx hmem).2.2 ▸ List.getElem_mem _, hp⟩

theorem upserts_rows : (upserts db s now m).rows =
    m.rows.map (upsertRow db s m) ++ addedRows db s now m.nextId (newKeys s m) 0 := rfl

variable (db s now) in
/-- Upserts leave a table with one row a symbol. -/
theorem Mirror.WellFormed.upserts (h : m.WellFormed) :
    (FxVol.upserts db s now m).WellFormed := by
  have hkeys : ∀ k ∈ newKeys s m, k ∈ s.keys := fun k hk => ((mem_newKeys h).mp hk).1
  obtain ⟨hsyms, hids⟩ := addedRows_columns db now hkeys m.nextId 0
  have hold : ∀ r, r ∈ m.rows.map (upsertRow db s m) →
      ∃ r' ∈ m.rows, r'.localSymbol = r.localSymbol ∧ r'.id = r.id := by
    intro r hr
    obtain ⟨r', hr', rfl⟩ := List.mem_map.mp hr
    exact ⟨r', hr', by simp, by simp⟩
  constructor
  · intro r hr
    rcases List.mem_append.mp (upserts_rows ▸ hr) with hr | hr
    · obtain ⟨r', hr', hsym, -⟩ := hold r hr
      exact hsym ▸ h.keyed r' hr'
    · obtain ⟨hmem, p, hp, -⟩ := mem_addedRows hr
      exact (AccountSnapshot.reported_spec hp).1
  · rw [upserts_rows, List.map_append, hsyms, List.map_map, List.nodup_append]
    have hcolumn : (fun r : MirrorRow => r.localSymbol) ∘ upsertRow db s m =
        fun r => r.localSymbol := by
      funext r
      exact upsertRow_localSymbol r
    rw [hcolumn]
    refine ⟨h.one, s.keys_nodup.filter _, ?_⟩
    rintro a ha b hb rfl
    obtain ⟨r, hr, hsym⟩ := List.mem_map.mp ha
    exact ((mem_newKeys h).mp hb).2 r hr hsym
  · rw [upserts_rows, List.map_append, hids, List.map_map, List.nodup_append]
    have hcolumn : (fun r : MirrorRow => r.id) ∘ upsertRow db s m = fun r => r.id := by
      funext r
      exact upsertRow_id r
    rw [hcolumn]
    refine ⟨h.ids, List.nodup_range', ?_⟩
    rintro a ha b hb rfl
    obtain ⟨r, hr, hid⟩ := List.mem_map.mp ha
    have hfresh := h.fresh r hr
    have hrange := List.mem_range'_1.mp hb
    omega
  · intro r hr
    rcases List.mem_append.mp (upserts_rows ▸ hr) with hr | hr
    · obtain ⟨r', hr', -, hid⟩ := hold r hr
      have hfresh := h.fresh r' hr'
      change r.id < m.nextId + _
      omega
    · have hid : r.id ∈ List.range' (m.nextId + 0) (newKeys s m).length :=
        hids ▸ List.mem_map_of_mem hr
      have hrange := List.mem_range'_1.mp hid
      change r.id < m.nextId + _
      omega

variable (db now) in
/-- Every reported symbol has its row after the upserts, with the side and size reported. -/
theorem upserts_reported (h : m.WellFormed) {k : String} {p : ReportedPosition}
    (hp : s.reported k = some p) :
    ∃ r ∈ (upserts db s now m).rows, r.localSymbol = k ∧ r.side = p.side ∧
      r.quantity = |p.position| := by
  by_cases hrow : ∃ r ∈ m.rows, r.localSymbol = k
  · obtain ⟨r, hr, rfl⟩ := hrow
    refine ⟨upsertRow db s m r, ?_, by simp, ?_⟩
    · rw [upserts_rows]
      exact List.mem_append_left _ (List.mem_map_of_mem hr)
    · rw [upsertRow_reported h hr hp]
      exact ⟨rfl, rfl⟩
  · have hnew : k ∈ newKeys s m := by
      refine (mem_newKeys h).mpr ⟨AccountSnapshot.mem_keys.mpr ⟨p, hp⟩, ?_⟩
      exact fun r hr hsym => hrow ⟨r, hr, hsym⟩
    have hkeys : ∀ k ∈ newKeys s m, k ∈ s.keys := fun k hk => ((mem_newKeys h).mp hk).1
    obtain ⟨hsyms, -⟩ := addedRows_columns db now hkeys m.nextId 0
    obtain ⟨r, hr, hsym⟩ := List.mem_map.mp (hsyms ▸ hnew)
    obtain ⟨-, p', hp', hside, hqty⟩ := mem_addedRows hr
    rw [hsym] at hp'
    obtain rfl := Option.some.inj (hp.symm.trans hp')
    exact ⟨r, upserts_rows ▸ List.mem_append_right _ hr, hsym, hside, hqty⟩

/-- A row whose symbol IB does not report is as it was. -/
theorem upserts_unreported {r : MirrorRow} (hr : r ∈ (upserts db s now m).rows)
    (hk : r.localSymbol ∉ s.keys) : r ∈ m.rows := by
  rcases List.mem_append.mp (upserts_rows ▸ hr) with hr | hr
  · obtain ⟨r', hr', rfl⟩ := List.mem_map.mp hr
    rw [upsertRow_localSymbol] at hk
    have hnone : s.reported r'.localSymbol = none := by
      cases hp : s.reported r'.localSymbol with
      | none => rfl
      | some p => exact absurd (AccountSnapshot.mem_keys.mpr ⟨p, hp⟩) hk
    simpa only [upsertRow, hnone] using hr'
  · obtain ⟨-, p, hp, -⟩ := mem_addedRows hr
    exact absurd (AccountSnapshot.mem_keys.mpr ⟨p, hp⟩) hk

variable (db now m) in
theorem syncPositions_sublist (hc : s.connected = true) :
    (syncPositions db s now m).rows.Sublist (upserts db s now m).rows ∧
      (syncPositions db s now m).nextId = (upserts db s now m).nextId := by
  unfold syncPositions
  rw [if_neg (by simp [hc])]
  split_ifs
  · exact ⟨List.filter_sublist, rfl⟩
  · exact ⟨List.Sublist.refl _, rfl⟩

variable (db s now) in
theorem Mirror.WellFormed.sync (h : m.WellFormed) : (syncPositions db s now m).WellFormed := by
  cases hc : s.connected with
  | false => simpa [syncPositions, hc] using h
  | true =>
    obtain ⟨hsub, hnext⟩ := syncPositions_sublist db now m hc
    have hup := h.upserts db s now
    constructor
    · exact fun r hr => hup.keyed r (hsub.subset hr)
    · exact (hsub.map _).nodup hup.one
    · exact (hsub.map _).nodup hup.ids
    · exact fun r hr => hnext ▸ hup.fresh r (hsub.subset hr)

/-- What a pass leaves under each symbol is what IB reports there. -/
def Faithful (s : AccountSnapshot) (m : Mirror) : Prop :=
  ∀ k, match s.reported k with
    | some p => ∃ r, m.rowsAt k = [r] ∧ r.side = p.side ∧ r.quantity = |p.position|
    | none => m.rowsAt k = []

theorem Faithful.none_left (h : Faithful s m) {k : String} (hk : s.reported k = none) :
    m.rowsAt k = [] := by
  have hat := h k
  rwa [hk] at hat

/-- The account is reporting and holds nothing, but the mirror has rows. -/
def FlatUnseen (s : AccountSnapshot) (m : Mirror) : Prop :=
  s.reporting ∧ s.active = [] ∧ m.rows ≠ []

instance (s : AccountSnapshot) (m : Mirror) : Decidable (FlatUnseen s m) :=
  inferInstanceAs (Decidable (_ ∧ _ ∧ _))

theorem reporting_connected (h : s.reporting = true) : s.connected = true := by
  simp only [AccountSnapshot.reporting, Bool.and_eq_true] at h
  exact h.1

theorem trustworthy_iff (h : m.WellFormed) :
    trustworthy s m = true ↔ s.reporting = true ∧ ¬ FlatUnseen s m := by
  have hrows : (∃ r ∈ m.rows, r.localSymbol ≠ "") ↔ m.rows ≠ [] := by
    constructor
    · rintro ⟨r, hr, -⟩
      exact List.ne_nil_of_mem hr
    · intro hne
      obtain ⟨r, hr⟩ := List.exists_mem_of_ne_nil _ hne
      exact ⟨r, hr, h.keyed r hr⟩
  simp only [trustworthy, decide_eq_true_eq, FlatUnseen, hrows]
  tauto

variable (db now) in
/-- Where the snapshot is trusted, the rows left are those of the reported symbols. -/
theorem mem_sync_trusted (h : m.WellFormed) (ht : trustworthy s m = true) {r : MirrorRow} :
    r ∈ (syncPositions db s now m).rows ↔
      r ∈ (upserts db s now m).rows ∧ r.localSymbol ∈ s.keys := by
  have hc := reporting_connected ((trustworthy_iff h).mp ht).1
  simp only [syncPositions, hc, ht, not_true_eq_false, if_false, if_true, List.mem_filter,
    decide_eq_true_eq]
  refine and_congr_right fun hr => ?_
  simp only [goneAtIb, decide_eq_true_eq, not_and, not_not]
  constructor
  · intro himp
    by_contra hk
    have hold := upserts_unreported hr hk
    exact hk (himp (by simp [h.byKey_mem hold]))
  · exact fun hk _ => hk

variable (db now) in
theorem sync_untrusted (hc : s.connected = true) (ht : trustworthy s m = false) :
    syncPositions db s now m = upserts db s now m := by
  simp [syncPositions, hc, ht]

/-- A trusted pass leaves exactly what IB reports. -/
theorem faithful_trusted (h : m.WellFormed) (ht : trustworthy s m = true) :
    Faithful s (syncPositions db s now m) := by
  intro k
  have hwell := h.sync db s now
  cases hp : s.reported k with
  | some p =>
    obtain ⟨r, hr, rfl, hside, hqty⟩ := upserts_reported db now h hp
    have hmem := (mem_sync_trusted db now h ht).mpr
      ⟨hr, AccountSnapshot.mem_keys.mpr ⟨p, hp⟩⟩
    exact ⟨r, hwell.rowsAt_mem hmem, hside, hqty⟩
  | none =>
    apply List.eq_nil_iff_forall_not_mem.mpr
    intro r hr
    obtain ⟨hmem, rfl⟩ := Mirror.mem_rowsAt.mp hr
    obtain ⟨p, hp'⟩ := AccountSnapshot.mem_keys.mp ((mem_sync_trusted db now h ht).mp hmem).2
    rw [hp] at hp'
    cases hp'

/-- A flat account deletes nothing, so the mirror keeps what IB does not hold. -/
theorem not_faithful_flat (h : m.WellFormed) (hflat : FlatUnseen s m) :
    ¬ Faithful s (syncPositions db s now m) := by
  intro hfaithful
  have hc := reporting_connected hflat.1
  have hnot : trustworthy s m = false := by
    cases ht : trustworthy s m with
    | false => rfl
    | true => exact absurd hflat ((trustworthy_iff h).mp ht).2
  obtain ⟨r, hr⟩ := List.exists_mem_of_ne_nil _ hflat.2.2
  have hmem : upsertRow db s m r ∈ (syncPositions db s now m).rows := by
    rw [sync_untrusted _ _ hc hnot, upserts_rows]
    exact List.mem_append_left _ (List.mem_map_of_mem hr)
  have hnone := hfaithful.none_left (AccountSnapshot.reported_none hflat.2.1 r.localSymbol)
  have hat := Mirror.mem_rowsAt.mpr ⟨hmem, upsertRow_localSymbol r⟩
  rw [hnone] at hat
  cases hat

/-- Without a reporting account no row goes away. -/
theorem sync_keeps (h : m.WellFormed) (hrep : s.reporting = false) {r : MirrorRow}
    (hr : r ∈ m.rows) :
    ∃ r' ∈ (syncPositions db s now m).rows, r'.id = r.id ∧ r'.localSymbol = r.localSymbol := by
  cases hc : s.connected with
  | false => exact ⟨r, by simpa [syncPositions, hc] using hr, rfl, rfl⟩
  | true =>
    have hnot : trustworthy s m = false := by
      cases ht : trustworthy s m with
      | false => rfl
      | true =>
        have hyes := ((trustworthy_iff h).mp ht).1
        rw [hrep] at hyes
        cases hyes
    refine ⟨upsertRow db s m r, ?_, upsertRow_id r, upsertRow_localSymbol r⟩
    rw [sync_untrusted _ _ hc hnot, upserts_rows]
    exact List.mem_append_left _ (List.mem_map_of_mem hr)

/-- A row an upsert has written is what a further refresh from the same snapshot writes. -/
theorem upserts_settled (h : m.WellFormed) {r : MirrorRow} (hr : r ∈ (upserts db s now m).rows)
    {p : ReportedPosition} (hp : s.reported r.localSymbol = some p) :
    r.refresh p (legToTrade db r.localSymbol) = r := by
  rcases List.mem_append.mp (upserts_rows ▸ hr) with hr | hr
  · obtain ⟨r', hr', rfl⟩ := List.mem_map.mp hr
    rw [upsertRow_localSymbol] at hp ⊢
    rw [upsertRow_reported h hr' hp]
    rfl
  · obtain ⟨⟨k, i⟩, -, hrow⟩ := List.mem_filterMap.mp hr
    obtain ⟨p', hp', rfl⟩ := Option.map_eq_some_iff.mp hrow
    obtain rfl := Option.some.inj (hp.symm.trans hp')
    rfl

variable (db now) in
theorem sync_reported (h : m.WellFormed) (hc : s.connected = true) {k : String}
    {p : ReportedPosition} (hp : s.reported k = some p) :
    ∃ r ∈ (syncPositions db s now m).rows, r.localSymbol = k := by
  obtain ⟨r, hr, hsym, -⟩ := upserts_reported db now h hp
  refine ⟨r, ?_, hsym⟩
  cases ht : trustworthy s m with
  | true =>
    exact (mem_sync_trusted db now h ht).mpr ⟨hr, hsym ▸ AccountSnapshot.mem_keys.mpr ⟨p, hp⟩⟩
  | false => exact sync_untrusted db now hc ht ▸ hr

/-- After a pass, a trusted pass on the same snapshot finds no row to delete. -/
theorem sync_all_reported (h : m.WellFormed)
    (ht : trustworthy s (syncPositions db s now m) = true) {r : MirrorRow}
    (hr : r ∈ (syncPositions db s now m).rows) : r.localSymbol ∈ s.keys := by
  obtain ⟨hrep, hseen⟩ := (trustworthy_iff (h.sync _ _ _)).mp ht
  cases hfirst : trustworthy s m with
  | true => exact ((mem_sync_trusted db now h hfirst).mp hr).2
  | false =>
    have hflat : FlatUnseen s m := by
      by_contra hnot
      have hyes := (trustworthy_iff h).mpr ⟨hrep, hnot⟩
      rw [hfirst] at hyes
      cases hyes
    exact absurd ⟨hrep, hflat.2.1, List.ne_nil_of_mem hr⟩ hseen

/-- A second pass on the same snapshot, with the same trades, changes nothing. -/
theorem sync_twice (h : m.WellFormed) (now' : Instant) :
    syncPositions db s now' (syncPositions db s now m) = syncPositions db s now m := by
  cases hc : s.connected with
  | false => simp [syncPositions, hc]
  | true =>
    have hwell := h.sync db s now
    obtain ⟨hsub, -⟩ := syncPositions_sublist db now m hc
    have hnew : newKeys s (syncPositions db s now m) = [] := by
      apply List.eq_nil_iff_forall_not_mem.mpr
      intro k hk
      obtain ⟨hkey, hno⟩ := (mem_newKeys hwell).mp hk
      obtain ⟨p, hp⟩ := AccountSnapshot.mem_keys.mp hkey
      obtain ⟨r, hr, hsym⟩ := sync_reported db now h hc hp
      exact hno r hr hsym
    have hsame : (syncPositions db s now m).rows.map
        (upsertRow db s (syncPositions db s now m)) = (syncPositions db s now m).rows := by
      conv_rhs => rw [← List.map_id (syncPositions db s now m).rows]
      apply List.map_congr_left
      intro r hr
      cases hp : s.reported r.localSymbol with
      | none => simp only [upsertRow, hp, id_eq]
      | some p =>
        rw [upsertRow_reported hwell hr hp]
        exact upserts_settled h (hsub.subset hr) hp
    have hup : upserts db s now' (syncPositions db s now m) = syncPositions db s now m := by
      rw [upserts, hnew, hsame]
      simp
    rw [syncPositions, if_neg (by simp [hc])]
    split_ifs with ht
    · rw [hup]
      have hkeep : (syncPositions db s now m).rows.filter
          (fun r => ¬ goneAtIb s (syncPositions db s now m) r) =
          (syncPositions db s now m).rows := by
        rw [List.filter_eq_self]
        intro r hr
        have hk := sync_all_reported h ht hr
        simp [goneAtIb, hk]
      rw [hkeep]
    · exact hup

end Pass

structure SyncPass where
  tables : Db
  snapshot : AccountSnapshot
  now : Instant

def syncStep (m : Mirror) (e : SyncPass) : Mirror := syncPositions e.tables e.snapshot e.now m

structure PassRight (m : Mirror) (e : SyncPass) : Prop where
  faithful : e.snapshot.reporting = true → Faithful e.snapshot (syncStep m e)
  keeps : e.snapshot.reporting = false → ∀ r ∈ m.rows,
    ∃ r' ∈ (syncStep m e).rows, r'.id = r.id ∧ r'.localSymbol = r.localSymbol
  twice : ∀ now, syncStep (syncStep m e) { e with now := now } = syncStep m e

theorem passRight_iff {m : Mirror} (h : m.WellFormed) (e : SyncPass) :
    PassRight m e ↔ ¬ FlatUnseen e.snapshot m := by
  constructor
  · intro hright hflat
    exact not_faithful_flat h hflat (hright.faithful hflat.1)
  · intro hseen
    constructor
    · exact fun hrep => faithful_trusted h ((trustworthy_iff h).mpr ⟨hrep, hseen⟩)
    · exact fun hrep r hr => sync_keeps h hrep hr
    · exact fun now => sync_twice h now

/-- **The mirror is faithful exactly where a flat account finds it empty.**  Over every sequence
of passes, each leaves what a reporting account reports, deletes nothing without one, and is
settled by itself, just when no pass meets a reporting account that holds nothing while the
mirror has rows. -/
theorem mirror_faithful_iff (m : Mirror) (h : m.WellFormed) (passes : List SyncPass) :
    Guarded syncStep PassRight m passes ↔
      Guarded syncStep (fun m e => ¬ FlatUnseen e.snapshot m) m passes :=
  Guarded.congr (I := Mirror.WellFormed) (fun _ _ hm => hm.sync _ _ _)
    (fun _ e hm => passRight_iff hm e) h passes

def reportedFuture (position : ℚ) : ReportedPosition where
  symbol := "EUR"
  secType := "FUT"
  expiry := some "20261214"
  strike := none
  right := none
  localSymbol := "6EZ6"
  position := position
  conId := some 1

def reportedCall (position : ℚ) : ReportedPosition where
  symbol := "EUR"
  secType := "FOP"
  expiry := some "20261204"
  strike := some (116 / 100)
  right := some "C"
  localSymbol := "EUUZ6 C1160"
  position := position
  conId := some 2

/-- A spread comes in, its call is sold; the account goes quiet for a pass in between. -/
def spreadPasses : List SyncPass :=
  [⟨.empty, ⟨true, true, [reportedFuture (-7), reportedCall 10]⟩, 0⟩,
   ⟨.empty, ⟨true, false, []⟩, 1⟩,
   ⟨.empty, ⟨true, true, [reportedFuture (-7), reportedCall 0]⟩, 2⟩]

theorem mirror_faithful_spread :
    Guarded syncStep PassRight .empty spreadPasses :=
  (mirror_faithful_iff .empty Mirror.WellFormed.empty spreadPasses).mpr (by decide +kernel)

/-- The account then closes the future as well, and the row of the future stays. -/
theorem flat_account_kept :
    ¬ Guarded syncStep PassRight .empty
      (spreadPasses ++ [⟨.empty, ⟨true, true, [reportedFuture 0]⟩, 3⟩]) := by
  rintro ⟨-, -, -, hflat, -⟩
  have hnone := (hflat.faithful rfl).none_left (k := "6EZ6") (by decide +kernel)
  revert hnone
  decide +kernel

end FxVol
