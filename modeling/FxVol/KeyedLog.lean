import Mathlib.Data.List.Nodup

/-!
# Logs with one entry for each key

Recording an entry whose key the log already has does nothing.  If deliveries of one key
carry one content, the log that a list of deliveries leaves depends, up to order, only on
the set of entries delivered, and a further delivery of any of them changes nothing.
-/
namespace FxVol.KeyedLog

variable {α κ : Type*} [DecidableEq κ] (key : α → κ)

def record (log : List α) (x : α) : List α :=
  if key x ∈ log.map key then log else log ++ [x]

def recordAll (log xs : List α) : List α := xs.foldl (record key) log

/-- One key, one content. -/
def Coherent (xs : List α) : Prop := ∀ x ∈ xs, ∀ y ∈ xs, key x = key y → x = y

variable {key} {log xs ys : List α} {x y : α}

theorem record_seen (h : key x ∈ log.map key) : record key log x = log := if_pos h

theorem record_new (h : key x ∉ log.map key) : record key log x = log ++ [x] := if_neg h

theorem mem_record : y ∈ record key log x ↔ y ∈ log ∨ (y = x ∧ key x ∉ log.map key) := by
  by_cases h : key x ∈ log.map key
  · rw [record_seen h]
    constructor
    · exact Or.inl
    · rintro (hy | ⟨_, hnew⟩)
      · exact hy
      · exact absurd h hnew
  · rw [record_new h, List.mem_append, List.mem_singleton]
    constructor
    · rintro (hy | hy)
      · exact .inl hy
      · exact .inr ⟨hy, h⟩
    · rintro (hy | ⟨hy, _⟩)
      · exact .inl hy
      · exact .inr hy

theorem key_mem_record (k : κ) :
    k ∈ (record key log x).map key ↔ k ∈ log.map key ∨ k = key x := by
  by_cases h : key x ∈ log.map key
  · rw [record_seen h]
    constructor
    · exact Or.inl
    · rintro (hk | rfl)
      · exact hk
      · exact h
  · simp [record_new h, List.map_append]

theorem nodup_record (h : (log.map key).Nodup) : ((record key log x).map key).Nodup := by
  by_cases hx : key x ∈ log.map key
  · rwa [record_seen hx]
  · rw [record_new hx, List.map_append, List.map_singleton, List.nodup_append]
    refine ⟨h, List.nodup_singleton _, ?_⟩
    rintro a ha b hb rfl
    rw [List.mem_singleton.mp hb] at ha
    exact hx ha

variable (key log xs) in
theorem nodup_recordAll (h : (log.map key).Nodup) : ((recordAll key log xs).map key).Nodup := by
  induction xs generalizing log with
  | nil => exact h
  | cons x xs ih => exact ih _ (nodup_record h)

variable (key log xs) in
theorem key_mem_recordAll (k : κ) :
    k ∈ (recordAll key log xs).map key ↔ k ∈ log.map key ∨ k ∈ xs.map key := by
  induction xs generalizing log with
  | nil => simp [recordAll]
  | cons x xs ih =>
    have hcons : recordAll key log (x :: xs) = recordAll key (record key log x) xs := rfl
    rw [hcons, ih, key_mem_record, List.map_cons, List.mem_cons, or_assoc]

/-- The entries of the final log: the old ones, and the delivered ones with a new key. -/
theorem mem_recordAll (hc : Coherent key xs) :
    y ∈ recordAll key log xs ↔ y ∈ log ∨ (y ∈ xs ∧ key y ∉ log.map key) := by
  induction xs generalizing log with
  | nil => simp [recordAll]
  | cons x xs ih =>
    have hcons : recordAll key log (x :: xs) = recordAll key (record key log x) xs := rfl
    have hc' : Coherent key xs := fun a ha b hb =>
      hc a (List.mem_cons_of_mem _ ha) b (List.mem_cons_of_mem _ hb)
    rw [hcons, ih hc', mem_record, key_mem_record, List.mem_cons]
    constructor
    · rintro ((hy | ⟨rfl, hnew⟩) | ⟨hy, hnew⟩)
      · exact .inl hy
      · exact .inr ⟨.inl rfl, hnew⟩
      · exact .inr ⟨.inr hy, fun h => hnew (.inl h)⟩
    · rintro (hy | ⟨rfl | hy, hnew⟩)
      · exact .inl (.inl hy)
      · exact .inl (.inr ⟨rfl, hnew⟩)
      · by_cases hk : key y = key x
        · have hyx : y = x := hc y (List.mem_cons_of_mem _ hy) x List.mem_cons_self hk
          exact .inl (.inr ⟨hyx, hk ▸ hnew⟩)
        · refine .inr ⟨hy, ?_⟩
          rintro (h | h)
          · exact hnew h
          · exact hk h

theorem mem_of_mem_recordAll (h : y ∈ recordAll key log xs) : y ∈ log ∨ y ∈ xs := by
  induction xs generalizing log with
  | nil => exact .inl h
  | cons x xs ih =>
    rcases ih h with hy | hy
    · rcases mem_record.mp hy with hy | ⟨rfl, -⟩
      · exact .inl hy
      · exact .inr List.mem_cons_self
    · exact .inr (List.mem_cons_of_mem _ hy)

/-- Two coherent lists with the same entries leave the same log, up to order. -/
theorem recordAll_perm (hn : (log.map key).Nodup) (hx : Coherent key xs)
    (hset : ∀ y, y ∈ xs ↔ y ∈ ys) : (recordAll key log xs).Perm (recordAll key log ys) := by
  have hy : Coherent key ys := fun a ha b hb =>
    hx a ((hset a).mpr ha) b ((hset b).mpr hb)
  have hd : (recordAll key log xs).Nodup := (nodup_recordAll _ _ _ hn).of_map
  have hd' : (recordAll key log ys).Nodup := (nodup_recordAll _ _ _ hn).of_map
  apply (List.perm_ext_iff_of_nodup hd hd').mpr
  intro y
  rw [mem_recordAll hx, mem_recordAll hy, hset]

/-- In a log with unique keys, an entry is all there is under its key. -/
theorem filter_key (h : (log.map key).Nodup) (hx : x ∈ log) :
    log.filter (fun y => key y = key x) = [x] := by
  induction log with
  | nil => cases hx
  | cons a log ih =>
    rw [List.map_cons, List.nodup_cons] at h
    rcases List.mem_cons.mp hx with rfl | hmem
    · have hrest : log.filter (fun y => key y = key x) = [] := by
        apply List.filter_eq_nil_iff.mpr
        intro y hy hk
        exact h.1 (List.mem_map.mpr ⟨y, hy, by simpa using hk⟩)
      rw [List.filter_cons_of_pos (by simp), hrest]
    · have hne : key a ≠ key x := fun heq => h.1 (heq ▸ List.mem_map_of_mem hmem)
      rw [List.filter_cons_of_neg (by simpa using hne), ih h.2 hmem]

theorem recordAll_append : recordAll key log (xs ++ ys) = recordAll key (recordAll key log xs) ys :=
  List.foldl_append ..

/-- What is added to a log are some of the deliveries, in their order. -/
theorem recordAll_eq_append (key : α → κ) (log xs : List α) : ∃ new, new.Sublist xs ∧ recordAll key log xs = log ++ new := by
  induction xs generalizing log with
  | nil => exact ⟨[], List.Sublist.refl _, (List.append_nil log).symm⟩
  | cons x xs ih =>
    have hcons : recordAll key log (x :: xs) = recordAll key (record key log x) xs := rfl
    by_cases hx : key x ∈ log.map key
    · obtain ⟨new, hsub, heq⟩ := ih log
      exact ⟨new, hsub.cons x, by rw [hcons, record_seen hx, heq]⟩
    · obtain ⟨new, hsub, heq⟩ := ih (log ++ [x])
      exact ⟨x :: new, hsub.cons_cons x, by rw [hcons, record_new hx, heq, List.append_assoc]; rfl⟩

/-- Deliveries of keys that the log has leave it. -/
theorem recordAll_seen (h : ∀ x ∈ xs, key x ∈ log.map key) : recordAll key log xs = log := by
  induction xs with
  | nil => rfl
  | cons x xs ih =>
    obtain ⟨hx, hxs⟩ := List.forall_mem_cons.mp h
    have hcons : recordAll key log (x :: xs) = recordAll key (record key log x) xs := rfl
    rw [hcons, record_seen hx, ih hxs]

/-- A log of the deliveries alone carries all that they add to a log. -/
theorem recordAll_recordAll : recordAll key log (recordAll key ys xs) = recordAll key (recordAll key log ys) xs := by
  induction xs generalizing ys with
  | nil => rfl
  | cons x xs ih =>
    have hcons : ∀ l, recordAll key l (x :: xs) = recordAll key (record key l x) xs := fun _ => rfl
    rw [hcons, hcons, ih]
    congr 1
    by_cases hx : key x ∈ ys.map key
    · rw [record_seen hx, record_seen ((key_mem_recordAll key log ys (key x)).mpr (.inr hx))]
    · rw [record_new hx, recordAll_append]
      rfl

/-- Under a key, a log holds what came first. -/
theorem find?_recordAll (k : κ) :
    (recordAll key log xs).find? (fun y => key y = k) = (log ++ xs).find? fun y => key y = k := by
  induction xs generalizing log with
  | nil => rw [List.append_nil]; rfl
  | cons x xs ih =>
    have hcons : recordAll key log (x :: xs) = recordAll key (record key log x) xs := rfl
    rw [hcons, ih]
    by_cases hx : key x ∈ log.map key
    · rw [record_seen hx, List.find?_append, List.find?_append]
      cases hfind : log.find? (fun y => key y = k) with
      | some y => rfl
      | none =>
        have hne : key x ≠ k := by
          rintro rfl
          obtain ⟨y, hy, hyx⟩ := List.mem_map.mp hx
          simpa [hyx] using List.find?_eq_none.mp hfind y hy
        rw [List.find?_cons_of_neg (by simpa using hne)]
    · rw [record_new hx, List.append_assoc]
      rfl

/-- A log of translated deliveries is the translated log, where the translation keeps which keys are the same. -/
theorem recordAll_map {β ι : Type*} [DecidableEq ι] {key' : β → ι} {f : α → β}
    (hf : ∀ a b, key' (f a) = key' (f b) ↔ key a = key b) :
    recordAll key' (log.map f) (xs.map f) = (recordAll key log xs).map f := by
  induction xs generalizing log with
  | nil => rfl
  | cons x xs ih =>
    have hmem : key' (f x) ∈ (log.map f).map key' ↔ key x ∈ log.map key := by
      simp only [List.mem_map, exists_exists_and_eq_and, hf]
    have hrecord : record key' (log.map f) (f x) = (record key log x).map f := by
      by_cases hx : key x ∈ log.map key
      · rw [record_seen hx, record_seen (hmem.mpr hx)]
      · rw [record_new hx, record_new (fun h => hx (hmem.mp h)), List.map_append]
        rfl
    rw [List.map_cons]
    exact (congrArg (fun l => recordAll key' l (xs.map f)) hrecord).trans ih

end FxVol.KeyedLog
