import Mathlib.Algebra.BigOperators.Group.List.Basic
import Mathlib.Data.List.Induction
import Mathlib.Data.List.MinMax
import Mathlib.Data.List.Nodup
import Mathlib.Data.List.Sort

/-!
# Rows by group, each with the one before

A list is grouped by a key into one summary for each; the summaries, in the order of their keys, are
made into rows that look back at the summary before; rows replace those of a table that have their
keys.
-/
namespace FxVol.GroupedRows

variable {α β γ δ κ : Type*} [LinearOrder κ]

section Order
variable {keyOf : β → κ}

/-- In strictly increasing order of the keys -/
def Increasing (keyOf : β → κ) (groups : List β) : Prop := groups.Pairwise fun g g' => keyOf g < keyOf g'

theorem Increasing.nodup {groups : List β} (h : Increasing keyOf groups) : (groups.map keyOf).Nodup :=
  List.pairwise_map.mpr (h.imp ne_of_lt)

/-- Lists in order with the same elements are the same. -/
theorem Increasing.eq_of_perm {groups groups' : List β} (h : Increasing keyOf groups)
    (h' : Increasing keyOf groups') (hperm : groups.Perm groups') : groups = groups' :=
  hperm.eq_of_pairwise (fun _ _ _ _ hlt hgt => absurd hlt hgt.asymm) h h'

theorem Increasing.ext {groups groups' : List β} (h : Increasing keyOf groups)
    (h' : Increasing keyOf groups') (hmem : ∀ g, g ∈ groups ↔ g ∈ groups') : groups = groups' :=
  h.eq_of_perm h' ((List.perm_ext_iff_of_nodup (List.Nodup.of_map _ h.nodup) (List.Nodup.of_map _ h'.nodup)).mpr
    hmem)

theorem Increasing.split {groups : List β} (h : Increasing keyOf groups) (k : κ) :
    groups = (groups.filter fun g => keyOf g < k) ++ groups.filter fun g => k ≤ keyOf g := by
  induction groups with
  | nil => rfl
  | cons g gs ih =>
    obtain ⟨hhead, htail⟩ := List.pairwise_cons.mp h
    by_cases hg : keyOf g < k
    · rw [List.filter_cons_of_pos (by simpa using hg), List.filter_cons_of_neg (by simpa using hg),
        List.cons_append, ← ih htail]
    · have hnone : gs.filter (fun g => keyOf g < k) = [] := by
        refine List.filter_eq_nil_iff.mpr fun g' hg' => ?_
        have hle := (not_lt.mp hg).trans (hhead g' hg').le
        simpa using hle
      have hall : gs.filter (fun g => k ≤ keyOf g) = gs := by
        refine List.filter_eq_self.mpr fun g' hg' => ?_
        have hle := (not_lt.mp hg).trans (hhead g' hg').le
        simpa using hle
      rw [List.filter_cons_of_neg (by simpa using hg), List.filter_cons_of_pos (by simpa using hg), hnone,
        hall, List.nil_append]

/-- The last of a list in order has the greatest key, in whatever order a table holds it. -/
theorem Increasing.argmax_eq [DecidableEq β] {groups table : List β} (h : Increasing keyOf groups)
    (hperm : table.Perm groups) : table.argmax keyOf = groups.getLast? := by
  cases hlast : groups.getLast? with
  | none =>
    rw [List.getLast?_eq_none_iff] at hlast
    rw [hlast] at hperm
    rw [hperm.eq_nil]
    rfl
  | some g =>
    obtain ⟨gs, rfl⟩ := List.getLast?_eq_some_iff.mp hlast
    have hbefore : ∀ g' ∈ gs, keyOf g' < keyOf g := by
      intro g' hg'
      exact (List.pairwise_append.mp h).2.2 g' hg' g (List.mem_singleton_self g)
    have hmem : ∀ g' ∈ table, g' ∈ gs ∨ g' = g := by
      intro g' hg'
      simpa using hperm.mem_iff.mp hg'
    rw [← Option.mem_def, List.mem_argmax_iff]
    refine ⟨hperm.mem_iff.mpr (by simp), fun g' hg' => ?_, fun g' hg' hle => ?_⟩
    · rcases hmem g' hg' with hold | rfl
      · exact (hbefore g' hold).le
      · exact le_rfl
    · rcases hmem g' hg' with hold | rfl
      · exact absurd hle (not_le.mpr (hbefore g' hold))
      · exact le_rfl

end Order

theorem filter_orderedInsert (r : α → α → Prop) [DecidableRel r] (p : α → Bool) (x : α) {xs : List α}
    [IsTrans α r] (h : xs.Pairwise r) : (xs.orderedInsert r x).filter p =
      if p x then (xs.filter p).orderedInsert r x else xs.filter p := by
  induction xs with
  | nil => cases hx : p x <;> simp [hx]
  | cons y ys ih =>
    obtain ⟨hhead, htail⟩ := List.pairwise_cons.mp h
    rw [List.orderedInsert_cons]
    by_cases hxy : r x y
    · rw [if_pos hxy]
      cases hx : p x with
      | false => rw [List.filter_cons_of_neg (by simp [hx]), if_neg (by simp)]
      | true =>
        have hall : ∀ z ∈ (y :: ys).filter p, r x z := by
          intro z hz
          rcases List.mem_cons.mp (List.mem_filter.mp hz).1 with rfl | hz
          · exact hxy
          · exact Trans.trans hxy (hhead z hz)
        rw [List.filter_cons_of_pos hx, if_pos rfl]
        cases hys : (y :: ys).filter p with
        | nil => rfl
        | cons z zs => rw [List.orderedInsert_cons, if_pos (hall z (hys ▸ List.mem_cons_self))]
    · rw [if_neg hxy]
      cases hy : p y with
      | false => rw [List.filter_cons_of_neg (by simp [hy]), List.filter_cons_of_neg (by simp [hy]), ih htail]
      | true =>
        rw [List.filter_cons_of_pos hy, List.filter_cons_of_pos hy, ih htail]
        split_ifs
        · rw [List.orderedInsert_cons, if_neg hxy]
        · rfl

theorem filter_insertionSort (r : α → α → Prop) [DecidableRel r] [IsTrans α r] [Std.Total r] (p : α → Bool)
    (xs : List α) : (xs.insertionSort r).filter p = (xs.filter p).insertionSort r := by
  induction xs with
  | nil => rfl
  | cons x xs ih =>
    rw [List.insertionSort_cons, filter_orderedInsert r p x (List.pairwise_insertionSort r xs), ih]
    cases hx : p x with
    | false => rw [List.filter_cons_of_neg (by simp [hx]), if_neg (by simp)]
    | true => rw [List.filter_cons_of_pos hx, if_pos rfl, List.insertionSort_cons]

structure Grouping (α β κ : Type*) where
  key : α → κ
  keyOf : β → κ
  start : α → β
  extend : β → α → β
  start_key : ∀ x, keyOf (start x) = key x
  extend_key : ∀ g x, keyOf (extend g x) = keyOf g

namespace Grouping

variable (G : Grouping α β κ)

def addTo (groups : List β) (x : α) : List β :=
  if G.key x ∈ groups.map G.keyOf then groups.map fun g => if G.keyOf g = G.key x then G.extend g x else g
  else groups ++ [G.start x]

def groupsOf (xs : List α) : List β :=
  (xs.foldl G.addTo []).insertionSort fun g g' => G.keyOf g ≤ G.keyOf g'

/-- What the elements of one key come to -/
def summary : List α → Option β
  | [] => none
  | x :: xs => some (xs.foldl G.extend (G.start x))

variable {G}

omit [LinearOrder κ] in
theorem summary_snoc (xs : List α) (x : α) :
    G.summary (xs ++ [x]) = some ((G.summary xs).elim (G.start x) fun g => G.extend g x) := by
  cases xs with
  | nil => rfl
  | cons y ys => simp [summary, List.foldl_append]

omit [LinearOrder κ] in
theorem summary_eq_none {xs : List α} : G.summary xs = none ↔ xs = [] := by
  cases xs <;> simp [summary]

omit [LinearOrder κ] in
theorem summary_key {xs : List α} {k : κ} (hkeys : ∀ x ∈ xs, G.key x = k) {g : β}
    (h : G.summary xs = some g) : G.keyOf g = k := by
  have hfold : ∀ (ys : List α) (g : β), G.keyOf (ys.foldl G.extend g) = G.keyOf g := by
    intro ys
    induction ys with
    | nil => exact fun g => rfl
    | cons y ys ih => exact fun g => (ih _).trans (G.extend_key g y)
  cases xs with
  | nil => cases h
  | cons x xs =>
    obtain rfl := Option.some.inj h
    rw [hfold, G.start_key]
    exact hkeys x List.mem_cons_self

variable (G)

/-- Nothing but the summary of its key is in the groups. -/
structure Grouped (xs : List α) (groups : List β) : Prop where
  nodup : (groups.map G.keyOf).Nodup
  mem : ∀ g, g ∈ groups ↔ G.summary (xs.filter fun x => G.key x = G.keyOf g) = some g

variable {G}

theorem Grouped.add {xs : List α} {groups : List β} (h : G.Grouped xs groups) (x : α) :
    G.Grouped (xs ++ [x]) (G.addTo groups x) := by
  have hfilter : ∀ k, (xs ++ [x]).filter (fun y => G.key y = k) =
      xs.filter (fun y => G.key y = k) ++ if G.key x = k then [x] else [] := by
    intro k
    rw [List.filter_append]
    by_cases hk : G.key x = k
    · simp [hk]
    · simp [hk]
  have hkey : ∀ g, G.keyOf (if G.keyOf g = G.key x then G.extend g x else g) = G.keyOf g := by
    intro g
    split_ifs
    · exact G.extend_key g x
    · rfl
  rw [addTo]
  split_ifs with hseen
  · refine ⟨?_, fun g => ?_⟩
    · have hsame : (groups.map fun g => if G.keyOf g = G.key x then G.extend g x else g).map G.keyOf =
          groups.map G.keyOf := by
        rw [List.map_map]
        exact List.map_congr_left fun g _ => hkey g
      rw [hsame]
      exact h.nodup
    · rw [hfilter]
      by_cases hg : G.key x = G.keyOf g
      · -- the group of the new element
        obtain ⟨old, hold, holdKey⟩ := List.mem_map.mp hseen
        have hsummary := (h.mem old).mp hold
        rw [holdKey, hg] at hsummary
        rw [if_pos hg, summary_snoc, hsummary, Option.elim_some, Option.some_inj]
        constructor
        · intro hmem
          obtain ⟨g', hg', rfl⟩ := List.mem_map.mp hmem
          rw [hkey] at hg
          have hsame : g' = old := List.inj_on_of_nodup_map h.nodup hg' hold (hg.symm.trans holdKey.symm)
          rw [hsame, if_pos holdKey]
        · rintro rfl
          exact List.mem_map.mpr ⟨old, hold, if_pos holdKey⟩
      · rw [if_neg hg, List.append_nil, ← h.mem]
        constructor
        · intro hmem
          obtain ⟨g', hg', rfl⟩ := List.mem_map.mp hmem
          rw [hkey] at hg
          rw [if_neg (Ne.symm hg)]
          exact hg'
        · exact fun hmem => List.mem_map.mpr ⟨g, hmem, if_neg (Ne.symm hg)⟩
  · have hnone : xs.filter (fun y => G.key y = G.key x) = [] := by
      rw [← summary_eq_none (G := G), Option.eq_none_iff_forall_ne_some]
      intro g hg
      have hgKey := summary_key (fun y hy => of_decide_eq_true (List.mem_filter.mp hy).2) hg
      refine hseen (List.mem_map.mpr ⟨g, ?_, hgKey⟩)
      rw [h.mem, hgKey]
      exact hg
    refine ⟨?_, fun g => ?_⟩
    · rw [List.map_append, List.map_singleton, G.start_key, List.nodup_append']
      refine ⟨h.nodup, List.nodup_singleton _, fun k hk hk' => ?_⟩
      rw [List.mem_singleton.mp hk'] at hk
      exact hseen hk
    · rw [hfilter, List.mem_append, List.mem_singleton]
      by_cases hg : G.key x = G.keyOf g
      · rw [← hg, if_pos rfl, hnone, List.nil_append, summary, List.foldl_nil, Option.some_inj]
        constructor
        · rintro (hmem | rfl)
          · exact absurd (List.mem_map.mpr ⟨g, hmem, hg.symm⟩) hseen
          · rfl
        · exact fun heq => .inr heq.symm
      · rw [if_neg hg, List.append_nil, ← h.mem]
        constructor
        · rintro (hmem | rfl)
          · exact hmem
          · exact absurd (G.start_key x).symm hg
        · exact .inl

theorem grouped_fold (xs : List α) : G.Grouped xs (xs.foldl G.addTo []) := by
  induction xs using List.reverseRecOn with
  | nil => exact ⟨List.nodup_nil, fun g => by simp [summary]⟩
  | append_singleton xs x ih =>
    rw [List.foldl_append]
    exact ih.add x

theorem groupsOf_grouped (xs : List α) : G.Grouped xs (G.groupsOf xs) := by
  have h := grouped_fold (G := G) xs
  have hperm := List.perm_insertionSort (fun g g' => G.keyOf g ≤ G.keyOf g') (xs.foldl G.addTo [])
  exact ⟨((hperm.map G.keyOf).nodup_iff).mpr h.nodup, fun g => hperm.mem_iff.trans (h.mem g)⟩

theorem groupsOf_increasing (xs : List α) : Increasing G.keyOf (G.groupsOf xs) := by
  have hsorted : (G.groupsOf xs).Pairwise fun g g' => G.keyOf g ≤ G.keyOf g' :=
    haveI : Std.Total fun g g' : β => G.keyOf g ≤ G.keyOf g' := ⟨fun g g' => le_total _ _⟩
    haveI : IsTrans β fun g g' => G.keyOf g ≤ G.keyOf g' := ⟨fun _ _ _ => le_trans⟩
    List.pairwise_insertionSort _ _
  have hnodup := (groupsOf_grouped (G := G) xs).nodup
  exact (hsorted.and (List.pairwise_map.mp hnodup)).imp fun h => lt_of_le_of_ne h.1 h.2

/-- Grouping part of the keys gives part of the groups. -/
theorem groupsOf_filter (p : κ → Prop) [DecidablePred p] (xs : List α) :
    G.groupsOf (xs.filter fun x => p (G.key x)) = (G.groupsOf xs).filter fun g => p (G.keyOf g) := by
  refine (groupsOf_increasing _).ext ((groupsOf_increasing xs).filter _) fun g => ?_
  rw [(groupsOf_grouped _).mem, List.mem_filter, (groupsOf_grouped xs).mem, List.filter_filter,
    decide_eq_true_iff]
  by_cases hp : p (G.keyOf g)
  · have hsame : xs.filter (fun x => decide (G.key x = G.keyOf g) && decide (p (G.key x))) =
        xs.filter fun x => G.key x = G.keyOf g := by
      refine List.filter_congr fun x _ => ?_
      by_cases hx : G.key x = G.keyOf g
      · simp [hx, hp]
      · simp [hx]
    rw [hsame]
    exact (and_iff_left hp).symm
  · have hnone : xs.filter (fun x => decide (G.key x = G.keyOf g) && decide (p (G.key x))) = [] := by
      refine List.filter_eq_nil_iff.mpr fun x _ => ?_
      by_cases hx : G.key x = G.keyOf g
      · simp [hx, hp]
      · simp [hx]
    rw [hnone]
    exact iff_of_false (fun h => nomatch h) fun h => hp h.2

/-- Every key of an element has its group, and every group an element with its key. -/
theorem key_mem_groupsOf {xs : List α} {x : α} (h : x ∈ xs) : ∃ g ∈ G.groupsOf xs, G.keyOf g = G.key x := by
  have hmem : x ∈ xs.filter fun y => G.key y = G.key x := List.mem_filter.mpr ⟨h, by simp⟩
  cases hsummary : G.summary (xs.filter fun y => G.key y = G.key x) with
  | none =>
    rw [summary_eq_none.mp hsummary] at hmem
    cases hmem
  | some g =>
    have hkey := summary_key (fun y hy => of_decide_eq_true (List.mem_filter.mp hy).2) hsummary
    refine ⟨g, ((groupsOf_grouped xs).mem g).mpr ?_, hkey⟩
    rw [hkey]
    exact hsummary

theorem mem_groupsOf_key {xs : List α} {g : β} (h : g ∈ G.groupsOf xs) : ∃ x ∈ xs, G.key x = G.keyOf g := by
  have hsummary := ((groupsOf_grouped xs).mem g).mp h
  cases hxs : xs.filter fun x => G.key x = G.keyOf g with
  | nil =>
    rw [hxs] at hsummary
    cases hsummary
  | cons x ys =>
    have hmem : x ∈ xs.filter fun x => G.key x = G.keyOf g := hxs ▸ List.mem_cons_self
    exact ⟨x, (List.mem_filter.mp hmem).1, of_decide_eq_true (List.mem_filter.mp hmem).2⟩

end Grouping

section Chain
variable (row : Option δ → β → γ) (close : β → δ)

def chain : Option δ → List β → List γ
  | _, [] => []
  | before, g :: gs => row before g :: chain (some (close g)) gs

/-- What a row after the list looks back at -/
def lastClose (before : Option δ) (gs : List β) : Option δ := (gs.getLast?.map close).or before

variable {row close}

theorem chain_append (before : Option δ) (gs gs' : List β) : chain row close before (gs ++ gs') =
    chain row close before gs ++ chain row close (lastClose close before gs) gs' := by
  induction gs generalizing before with
  | nil => rfl
  | cons g gs ih =>
    rw [List.cons_append, chain, chain, ih, List.cons_append]
    cases gs with
    | nil => rfl
    | cons g' gs =>
      have hlast : lastClose close (some (close g)) (g' :: gs) = lastClose close before (g :: g' :: gs) := by
        simp [lastClose, List.getLast?_eq_getLast_of_ne_nil]
      rw [hlast]

/-- A column that does not look back -/
theorem chain_map {ε : Type*} {col : γ → ε} {f : β → ε} (h : ∀ before g, col (row before g) = f g)
    (before : Option δ) (gs : List β) : (chain row close before gs).map col = gs.map f := by
  induction gs generalizing before with
  | nil => rfl
  | cons g gs ih => rw [chain, List.map_cons, List.map_cons, h, ih]

theorem chain_congr {row' : Option δ → β → γ} {gs : List β} (h : ∀ g ∈ gs, ∀ before, row before g = row' before g)
    (before : Option δ) : chain row close before gs = chain row' close before gs := by
  induction gs generalizing before with
  | nil => rfl
  | cons g gs ih => rw [chain, chain, h g List.mem_cons_self, ih fun g' hg' => h g' (List.mem_cons_of_mem _ hg')]

/-- Differences of closes add up to the difference of the last and the first. -/
theorem chain_telescopes {δ : Type*} [AddCommGroup δ] {row : Option δ → β → γ} {close : β → δ} {diff : γ → δ}
    (h : ∀ x g, diff (row (some x) g) = close g - x) (x : δ) (gs : List β) :
    ((chain row close (some x) gs).map diff).sum = (lastClose close (some x) gs).getD x - x := by
  induction gs generalizing x with
  | nil => simp [chain, lastClose]
  | cons g gs ih =>
    rw [chain, List.map_cons, List.sum_cons, h, ih]
    cases gs with
    | nil => simp [lastClose]
    | cons g' gs => simp [lastClose, List.getLast?_eq_getLast_of_ne_nil]

theorem chain_increasing {keyOf : β → κ} {col : γ → κ} (h : ∀ before g, col (row before g) = keyOf g)
    {gs : List β} (hgs : Increasing keyOf gs) (before : Option δ) :
    Increasing col (chain row close before gs) := by
  rw [Increasing, ← List.pairwise_map (f := col) (R := (· < ·)), chain_map h, List.pairwise_map]
  exact hgs

end Chain

section Tables
variable (col : γ → κ)

/-- The rows replace those with their keys. -/
def upsert (rows table : List γ) : List γ := (table.filter fun r => col r ∉ rows.map col) ++ rows

def lastBefore (closeCol : γ → δ) (k : κ) (table : List γ) : Option δ :=
  ((table.filter fun r => col r < k).argmax col).map closeCol

variable {col} {row row' : Option δ → β → γ} {close : β → δ} {closeCol : γ → δ} {keyOf : β → κ}
  {groups old new : List β} {table : List γ} {k : κ}

theorem upsert_nodup {rows table : List γ} (hrows : (rows.map col).Nodup) (htable : (table.map col).Nodup) :
    ((upsert col rows table).map col).Nodup := by
  rw [upsert, List.map_append, List.nodup_append]
  refine ⟨htable.sublist (List.filter_sublist.map _), hrows, fun k hk k' hk' heq => ?_⟩
  obtain ⟨r, hr, rfl⟩ := List.mem_map.mp hk
  exact absurd (heq ▸ hk') (of_decide_eq_true (List.mem_filter.mp hr).2)

theorem chain_split (hgroups : Increasing keyOf groups) (k : κ) : chain row close none groups =
    chain row close none (groups.filter fun g => keyOf g < k) ++
      chain row close (lastClose close none (groups.filter fun g => keyOf g < k))
        (groups.filter fun g => k ≤ keyOf g) := by
  rw [← chain_append, ← hgroups.split]

omit [LinearOrder κ] in
theorem chain_keys (hcol : ∀ before g, col (row before g) = keyOf g) (close : β → δ) (before : Option δ)
    (groups : List β) {p : κ → Prop} (h : ∀ g ∈ groups, p (keyOf g)) : ∀ r ∈ chain row close before groups, p (col r) := by
  intro r hr
  have hkey : col r ∈ (chain row close before groups).map col := List.mem_map_of_mem hr
  rw [chain_map hcol] at hkey
  obtain ⟨g, hg, heq⟩ := List.mem_map.mp hkey
  rw [← heq]
  exact h g hg

/-- The rows before a key are those of the groups before it. -/
theorem filter_chain (hcol : ∀ before g, col (row before g) = keyOf g) (hgroups : Increasing keyOf groups)
    (k : κ) : (chain row close none groups).filter (fun r => col r < k) =
      chain row close none (groups.filter fun g => keyOf g < k) := by
  have hlow := chain_keys (p := (· < k)) hcol close none (groups.filter fun g => keyOf g < k)
    fun g hg => of_decide_eq_true (List.mem_filter.mp hg).2
  have hhigh := chain_keys (p := (k ≤ ·)) hcol close
    (lastClose close none (groups.filter fun g => keyOf g < k)) (groups.filter fun g => k ≤ keyOf g)
    fun g hg => of_decide_eq_true (List.mem_filter.mp hg).2
  have hall : (chain row close none (groups.filter fun g => keyOf g < k)).filter (fun r => col r < k) =
      chain row close none (groups.filter fun g => keyOf g < k) :=
    List.filter_eq_self.mpr fun r hr => by simpa using hlow r hr
  have hnone : (chain row close (lastClose close none (groups.filter fun g => keyOf g < k))
      (groups.filter fun g => k ≤ keyOf g)).filter (fun r => col r < k) = [] :=
    List.filter_eq_nil_iff.mpr fun r hr => by simpa using hhigh r hr
  rw [chain_split hgroups k, List.filter_append, hall, hnone, List.append_nil]

/-- What a refresh of the keys from `k` on makes of a table of the older groups: it is the table of the
newer ones just where the rows before `k` are the same. -/
theorem refresh_perm_iff [DecidableEq γ] (hcol : ∀ before g, col (row before g) = keyOf g)
    (hcol' : ∀ before g, col (row' before g) = keyOf g)
    (hclose : ∀ before g, closeCol (row before g) = close g)
    (hclose' : ∀ before g, closeCol (row' before g) = close g)
    (hold : Increasing keyOf old) (hnew : Increasing keyOf new)
    (hkeys : ∀ g ∈ old, keyOf g ∈ new.map keyOf)
    (htable : table.Perm (chain row' close none old)) :
    (upsert col (chain row close (lastBefore col closeCol k table) (new.filter fun g => k ≤ keyOf g))
      table).Perm (chain row close none new) ↔
      chain row' close none (old.filter fun g => keyOf g < k) =
        chain row close none (new.filter fun g => keyOf g < k) := by
  have hlow : (table.filter fun r => col r < k).Perm
      (chain row' close none (old.filter fun g => keyOf g < k)) := by
    rw [← filter_chain hcol' hold]
    exact htable.filter _
  have hlast : lastBefore col closeCol k table =
      lastClose close none (old.filter fun g => keyOf g < k) := by
    rw [lastBefore, (chain_increasing hcol' (hold.filter _) none).argmax_eq hlow, ← List.getLast?_map,
      chain_map hclose', List.getLast?_map, lastClose, Option.or_none]
  rw [hlast]
  generalize hrows : chain row close (lastClose close none (old.filter fun g => keyOf g < k))
    (new.filter fun g => k ≤ keyOf g) = rows
  have hrowKeys : rows.map col = (new.filter fun g => k ≤ keyOf g).map keyOf := by
    rw [← hrows, chain_map hcol]
  have hlate : ∀ key ∈ rows.map col, k ≤ key := by
    rw [hrowKeys]
    intro key hkey
    obtain ⟨g, hg, rfl⟩ := List.mem_map.mp hkey
    exact of_decide_eq_true (List.mem_filter.mp hg).2
  constructor
  · intro hperm
    have hfilter := hperm.filter fun r => col r < k
    have hkept : (table.filter fun r => col r ∉ rows.map col).filter (fun r => col r < k) =
        table.filter fun r => col r < k := by
      rw [List.filter_filter]
      refine List.filter_congr fun r _ => ?_
      by_cases hr : col r < k
      · have hfree : col r ∉ rows.map col := fun hmem => absurd (hlate _ hmem) (not_le.mpr hr)
        simp [hr, hfree]
      · simp [hr]
    have hnone : rows.filter (fun r => col r < k) = [] :=
      List.filter_eq_nil_iff.mpr fun r hr => by simpa using hlate _ (List.mem_map_of_mem hr)
    rw [upsert, List.filter_append, hkept, hnone, List.append_nil, filter_chain hcol hnew] at hfilter
    exact (chain_increasing hcol' (hold.filter _) none).eq_of_perm
      (chain_increasing hcol (hnew.filter _) none) (hlow.symm.trans hfilter)
  · intro hsame
    have hcloses : lastClose close none (old.filter fun g => keyOf g < k) =
        lastClose close none (new.filter fun g => keyOf g < k) := by
      have h := congrArg (fun rs => (rs.map closeCol).getLast?) hsame
      simp only [chain_map hclose, chain_map hclose', List.getLast?_map] at h
      rw [lastClose, lastClose, h]
    have hstale : (chain row' close none old).filter (fun r => col r ∉ rows.map col) =
        chain row' close none (old.filter fun g => keyOf g < k) := by
      have hbefore := chain_keys (p := (· < k)) hcol' close none (old.filter fun g => keyOf g < k)
        fun g hg => of_decide_eq_true (List.mem_filter.mp hg).2
      have hafter := chain_keys (p := (· ∈ rows.map col)) hcol' close
        (lastClose close none (old.filter fun g => keyOf g < k)) (old.filter fun g => k ≤ keyOf g) <| by
          intro g hg
          obtain ⟨hmem, hle⟩ := List.mem_filter.mp hg
          obtain ⟨g', hg', heq⟩ := List.mem_map.mp (hkeys g hmem)
          rw [hrowKeys, ← heq]
          rw [← heq] at hle
          exact List.mem_map_of_mem (List.mem_filter.mpr ⟨hg', hle⟩)
      have hall : (chain row' close none (old.filter fun g => keyOf g < k)).filter
          (fun r => col r ∉ rows.map col) = chain row' close none (old.filter fun g => keyOf g < k) := by
        refine List.filter_eq_self.mpr fun r hr => decide_eq_true fun hmem => ?_
        exact absurd (hlate _ hmem) (not_le.mpr (hbefore r hr))
      have hnone : (chain row' close (lastClose close none (old.filter fun g => keyOf g < k))
          (old.filter fun g => k ≤ keyOf g)).filter (fun r => col r ∉ rows.map col) = [] := by
        refine List.filter_eq_nil_iff.mpr fun r hr hfree => ?_
        exact of_decide_eq_true hfree (hafter r hr)
      rw [chain_split hold k, List.filter_append, hall, hnone, List.append_nil]
    have hupsert : (upsert col rows table).Perm
        (chain row' close none (old.filter fun g => keyOf g < k) ++ rows) := by
      rw [← hstale]
      exact (htable.filter _).append_right rows
    rw [chain_split hnew k, ← hsame, ← hcloses, hrows]
    exact hupsert

end Tables

end FxVol.GroupedRows
