import FxVol.GuardedRuns
import Mathlib.Data.List.Basic
import Mathlib.Data.List.Range

/-!
# Versions of the trading configuration

Updates and reverts insert a row each, with the number after the highest one; a call reads the current
row, reads the highest number and commits in statements of their own, between which other calls commit.
-/
namespace FxVol.ConfigVersions

open GuardedRuns

mutual
/-- A JSON value; what is no mapping is a leaf. -/
inductive Json (L : Type)
  | leaf (value : L)
  | mapping (entries : Entries L)
/-- A mapping, in the order of its keys -/
inductive Entries (L : Type)
  | nil
  | cons (key : String) (value : Json L) (rest : Entries L)
end

deriving instance DecidableEq for Json, Entries

namespace Entries

variable {L : Type}

def get : Entries L → String → Option (Json L)
  | nil, _ => none
  | cons key value rest, k => if key = k then some value else rest.get k

def set : Entries L → String → Json L → Entries L
  | nil, k, v => cons k v nil
  | cons key value rest, k, v => if key = k then cons key v rest else cons key value (rest.set k v)

theorem get_set (entries : Entries L) (k k' : String) (v : Json L) :
    (entries.set k v).get k' = if k = k' then some v else entries.get k' := by
  induction entries using Entries.rec (motive_1 := fun _ => True) with
  | leaf => trivial
  | mapping => trivial
  | nil => rfl
  | cons key value rest _ ih =>
    rw [set]
    by_cases hkey : key = k
    · subst hkey
      simp only [if_pos, get]
      split_ifs <;> rfl
    · rw [if_neg hkey, get, ih, get]
      split_ifs with h h'
      · exact absurd (h.trans h'.symm) hkey
      · rfl
      · rfl
      · rfl

end Entries

variable {L : Type}

mutual
def deepMerge (base : Entries L) : Entries L → Entries L
  | .nil => base
  | .cons key value rest => deepMerge (base.set key (mergeValue (base.get key) value)) rest
def mergeValue (old : Option (Json L)) : Json L → Json L
  | .leaf value => .leaf value
  | .mapping patch =>
    match old with
    | some (.mapping base) => .mapping (deepMerge base patch)
    | _ => .mapping patch
end

/-- What the patch does not name is kept. -/
theorem deepMerge_get (base patch : Entries L) {key : String} (h : patch.get key = none) :
    (deepMerge base patch).get key = base.get key := by
  induction patch using Entries.rec (motive_1 := fun _ => True) generalizing base with
  | leaf => trivial
  | mapping => trivial
  | nil => rfl
  | cons key' value rest _ ih =>
    rw [Entries.get] at h
    split_ifs at h with hkey
    rw [deepMerge, ih _ h, Entries.get_set, if_neg hkey]

/-- The Pydantic model; what it dumps, it takes back. -/
structure Schema (L Config : Type) where
  validate : Entries L → Option Config
  dump : Config → Entries L
  defaults : Config
  dump_valid : ∀ config, (validate (dump config)).isSome

/-- A row of `config_vol_engine`; `caller` is the call that made it, and is not read. -/
structure Row (L : Type) where
  version : ℕ
  config : Entries L
  caller : Option ℕ
  deriving DecidableEq

inductive Call (L : Type)
  | update (patch : Entries L)
  | revert (target : ℕ)

/-- Where a call is: before its first read, with the config to store, with its number too, after the commit,
or ended; `read` counts the rows at its first read. -/
inductive Phase (L : Type)
  | called
  | prepared (read : ℕ) (config : Entries L)
  | numbered (read : ℕ) (config : Entries L) (version : ℕ)
  | committed (config : Entries L) (version : ℕ)
  | returned (version : ℕ)
  | raised

structure World (L : Type) where
  rows : List (Row L)
  sessions : List (Call L × Phase L)

/-- `coalesce(max(version), 0)` -/
def maxVersion (rows : List (Row L)) : ℕ := (rows.map (·.version)).foldr max 0

def current (rows : List (Row L)) : Option (Row L) := rows.find? fun row => row.version = maxVersion rows

section Steps
variable {Config : Type} (S : Schema L Config)

def readConfig : Entries L → Option Config
  | .nil => some S.defaults
  | .cons key value rest => S.validate (.cons key value rest)

def merged (base : Option (Row L)) (patch : Entries L) : Option (Entries L) := do
  let config ← match base with
    | none => some S.defaults
    | some row => readConfig S row.config
  let validated ← S.validate (deepMerge (S.dump config) patch)
  some (S.dump validated)

/-- The config to store: `get_current` and the merge, or the row of the target. -/
def prepare (rows : List (Row L)) : Call L → Option (Entries L)
  | .update patch => merged S (current rows) patch
  | .revert target => (rows.find? fun row => row.version = target).map (·.config)

/-- The next statement of a call; the primary key refuses a number that is taken, and after the commit the
config is read back. -/
def Phase.next (rows : List (Row L)) (call : Call L) : Phase L → Phase L
  | .called =>
    match prepare S rows call with
    | none => .raised
    | some config => .prepared rows.length config
  | .prepared read config => .numbered read config (maxVersion rows + 1)
  | .numbered _ config version => if version ∈ rows.map (·.version) then .raised else .committed config version
  | .committed config version => if (readConfig S config).isSome then .returned version else .raised
  | .returned version => .returned version
  | .raised => .raised

def Phase.stores (rows : List (Row L)) (k : ℕ) : Phase L → List (Row L)
  | .numbered _ config version => if version ∈ rows.map (·.version) then [] else [⟨version, config, some k⟩]
  | .called | .prepared _ _ | .committed _ _ | .returned _ | .raised => []

/-- The statement in progress raises: a read, the refresh after the commit or the publish. -/
def Phase.failed : Phase L → Phase L
  | .returned version => .returned version
  | .called | .prepared _ _ | .numbered _ _ _ | .committed _ _ | .raised => .raised

/-- A call comes, a call takes its next step, its statement fails with no effect, or its commit takes effect
and raises. -/
inductive Event (L : Type)
  | call (c : Call L)
  | advance (k : ℕ)
  | fails (k : ℕ)
  | commitLost (k : ℕ)

def step (w : World L) : Event L → World L
  | .call c => { w with sessions := w.sessions ++ [(c, .called)] }
  | .advance k =>
    match w.sessions[k]? with
    | none => w
    | some (call, phase) =>
      ⟨w.rows ++ phase.stores w.rows k, w.sessions.set k (call, phase.next S w.rows call)⟩
  | .fails k =>
    match w.sessions[k]? with
    | none => w
    | some (call, phase) => ⟨w.rows, w.sessions.set k (call, phase.failed)⟩
  | .commitLost k =>
    match w.sessions[k]? with
    | some (call, .numbered read config version) =>
      ⟨w.rows ++ (Phase.numbered read config version).stores w.rows k, w.sessions.set k (call, .raised)⟩
    | _ => w

end Steps

/-- The versions are numbered from 1, and no call has come yet. -/
structure Start (w : World L) : Prop where
  versions : w.rows.map (·.version) = List.range' 1 w.rows.length
  callers : ∀ row ∈ w.rows, row.caller = none
  sessions : w.sessions = []

def World.callOf (w : World L) (k : ℕ) : Option (Call L) := w.sessions[k]?.map (·.1)

section Claim
variable {Config : Type} (S : Schema L Config)

/-- The chain of versions: every update is merged onto the version before it and every revert repeats an
earlier version; a call that returns has stored its version, and one that raises has stored none. -/
structure Serialised (w : World L) : Prop where
  versions : w.rows.map (·.version) = List.range' 1 w.rows.length
  updates : ∀ i row k patch, w.rows[i]? = some row → row.caller = some k → w.callOf k = some (.update patch) →
    merged S (w.rows.take i).getLast? patch = some row.config
  reverts : ∀ i row k target, w.rows[i]? = some row → row.caller = some k → w.callOf k = some (.revert target) →
    ∃ r ∈ w.rows.take i, r.version = target ∧ r.config = row.config
  returned : ∀ k call version, w.sessions[k]? = some (call, .returned version) →
    ∃ row ∈ w.rows, row.caller = some k ∧ row.version = version
  raised : ∀ k call, w.sessions[k]? = some (call, .raised) → ∀ row ∈ w.rows, row.caller ≠ some k

/-- Where an update commits its number, no version has been committed since it read the current one, or its patch gives
the same config on the version that was current then and on the one that is now; and a revert that has committed can
read back the config of its target. -/
def Phase.Sound (rows : List (Row L)) : Call L → Phase L → Prop
  | .update patch, .numbered read _ version => version ∈ rows.map (·.version) ∨ read = rows.length ∨
      merged S (current (rows.take read)) patch = merged S (current rows) patch
  | .revert _, .committed config _ => (readConfig S config).isSome
  | _, _ => True

/-- What may fail with nothing stored -/
def Phase.Unstored : Phase L → Prop
  | .committed _ _ => False
  | _ => True

/-- What stores nothing when it commits -/
def Phase.Refused (rows : List (Row L)) : Phase L → Prop
  | .numbered _ _ version => version ∈ rows.map (·.version)
  | _ => True

/-- The statements that advance are sound, and none fails after a commit that has taken effect. -/
def Sound (w : World L) : Event L → Prop
  | .call _ => True
  | .advance k => ∀ session ∈ w.sessions[k]?, session.2.Sound S w.rows session.1
  | .fails k => ∀ session ∈ w.sessions[k]?, session.2.Unstored
  | .commitLost k => ∀ session ∈ w.sessions[k]?, session.2.Refused w.rows

variable [DecidableEq L]

instance (rows : List (Row L)) : ∀ (call : Call L) (phase : Phase L), Decidable (phase.Sound S rows call)
  | .update _, .numbered _ _ _ => inferInstanceAs (Decidable (_ ∨ _ ∨ _))
  | .revert _, .committed config _ => inferInstanceAs (Decidable ((readConfig S config).isSome = true))
  | .update _, .called | .update _, .prepared _ _ | .update _, .committed _ _ | .update _, .returned _
  | .update _, .raised | .revert _, .called | .revert _, .prepared _ _ | .revert _, .numbered _ _ _
  | .revert _, .returned _ | .revert _, .raised => .isTrue trivial

instance : ∀ phase : Phase L, Decidable phase.Unstored
  | .committed _ _ => .isFalse id
  | .called | .prepared _ _ | .numbered _ _ _ | .returned _ | .raised => .isTrue trivial

instance (rows : List (Row L)) : ∀ phase : Phase L, Decidable (phase.Refused rows)
  | .numbered _ _ version => inferInstanceAs (Decidable (version ∈ rows.map (·.version)))
  | .called | .prepared _ _ | .committed _ _ | .returned _ | .raised => .isTrue trivial

instance (w : World L) : ∀ e, Decidable (Sound S w e)
  | .call _ => .isTrue trivial
  | .advance _ | .fails _ | .commitLost _ => inferInstanceAs (Decidable (∀ session ∈ w.sessions[_]?, _))

end Claim

section Numbers
variable {rows : List (Row L)}

theorem maxVersion_eq (h : rows.map (·.version) = List.range' 1 rows.length) : maxVersion rows = rows.length := by
  have hmax : ∀ n, (List.range' 1 n).foldr max 0 = n := by
    intro n
    induction n with
    | zero => rfl
    | succ n ih =>
      have hfold : ∀ (xs : List ℕ) a, xs.foldr max a = max (xs.foldr max 0) a := by
        intro xs a
        induction xs with
        | nil => simp
        | cons x xs ih => rw [List.foldr_cons, ih, List.foldr_cons, max_assoc]
      rw [List.range'_concat, List.foldr_append, hfold, ih]
      simp only [List.foldr_cons, List.foldr_nil]
      omega
  rw [maxVersion, h, hmax]

theorem version_getElem (h : rows.map (·.version) = List.range' 1 rows.length) {i : ℕ} {row : Row L}
    (hi : rows[i]? = some row) : row.version = i + 1 := by
  have hlt := (List.getElem?_eq_some_iff.mp hi).1
  have hmap : (rows.map (·.version))[i]? = some row.version := by rw [List.getElem?_map, hi]; rfl
  rw [h, List.getElem?_range' hlt] at hmap
  have := Option.some.inj hmap
  omega

theorem mem_versions (h : rows.map (·.version) = List.range' 1 rows.length) {version : ℕ} :
    version ∈ rows.map (·.version) ↔ 1 ≤ version ∧ version ≤ rows.length := by
  rw [h, List.mem_range'_1]
  omega

/-- The row of the highest version is the last. -/
theorem current_eq (h : rows.map (·.version) = List.range' 1 rows.length) : current rows = rows.getLast? := by
  rw [current, maxVersion_eq h]
  induction rows using List.reverseRecOn with
  | nil => rfl
  | append_singleton rows last _ =>
    have hlast : (rows ++ [last])[rows.length]? = some last := by simp
    have hversion := version_getElem h hlast
    have hnone : rows.find? (fun row => row.version = (rows ++ [last]).length) = none := by
      rw [List.find?_eq_none]
      intro row hrow
      obtain ⟨i, hi⟩ := List.mem_iff_getElem?.mp hrow
      have hlt := (List.getElem?_eq_some_iff.mp hi).1
      have hrow' : (rows ++ [last])[i]? = some row := by rw [List.getElem?_append_left hlt, hi]
      have := version_getElem h hrow'
      simp only [List.length_append, List.length_singleton, decide_eq_true_eq]
      omega
    rw [List.find?_append, hnone, List.getLast?_concat]
    simp [hversion]

end Numbers

section Invariant
variable {Config : Type} {S : Schema L Config} {w : World L} {rows : List (Row L)} {k read : ℕ} {call : Call L}
  {config : Entries L} {phase phase' : Phase L} {row : Row L}

/-- Nothing is stored by the call, and its config is what it prepares from the rows of its first read. -/
structure Pending (S : Schema L Config) (rows : List (Row L)) (k : ℕ) (call : Call L) (read : ℕ) (config : Entries L) :
    Prop where
  unstored : ∀ row ∈ rows, row.caller ≠ some k
  read_le : read ≤ rows.length
  prepared : prepare S (rows.take read) call = some config

def PhaseOk (S : Schema L Config) (rows : List (Row L)) (k : ℕ) (call : Call L) : Phase L → Prop
  | .called => ∀ row ∈ rows, row.caller ≠ some k
  | .prepared read config => Pending S rows k call read config
  | .numbered read config version => Pending S rows k call read config ∧ 1 ≤ version ∧ version ≤ rows.length + 1
  | .committed config version => (∃ row ∈ rows, row.caller = some k ∧ row.version = version) ∧
      ∀ patch, call = .update patch → (readConfig S config).isSome
  | .returned version => ∃ row ∈ rows, row.caller = some k ∧ row.version = version
  | .raised => True

structure Inv (S : Schema L Config) (w : World L) : Prop where
  versions : w.rows.map (·.version) = List.range' 1 w.rows.length
  callers : ∀ row ∈ w.rows, ∀ k ∈ row.caller, k < w.sessions.length
  phases : ∀ k call phase, w.sessions[k]? = some (call, phase) → PhaseOk S w.rows k call phase
  reverts : ∀ i row k target, w.rows[i]? = some row → row.caller = some k → w.callOf k = some (.revert target) →
    ∃ r ∈ w.rows.take i, r.version = target ∧ r.config = row.config

theorem Inv.start (h : Start w) : Inv S w where
  versions := h.versions
  callers row hrow k hk := by simp [h.callers row hrow] at hk
  phases k call phase hk := by simp [h.sessions] at hk
  reverts i row k target hi hk := by simp [h.callers row (List.mem_of_getElem? hi)] at hk

theorem Pending.append (h : Pending S rows k call read config) (hrow : row.caller ≠ some k) :
    Pending S (rows ++ [row]) k call read config where
  unstored r hr := by
    rcases List.mem_append.mp hr with hold | hnew
    · exact h.unstored r hold
    · rwa [List.mem_singleton.mp hnew]
  read_le := by
    rw [List.length_append]
    exact Nat.le_add_right_of_le h.read_le
  prepared := by
    rw [List.take_append_of_le_length h.read_le]
    exact h.prepared

/-- A revert prepares the config of its target. -/
theorem Pending.target {target : ℕ} (h : Pending S rows k (.revert target) read config) :
    ∃ row ∈ rows, row.version = target ∧ row.config = config := by
  obtain ⟨row, hrow, hconfig⟩ := Option.map_eq_some_iff.mp h.prepared
  have hversion := List.find?_some hrow
  exact ⟨row, List.mem_of_mem_take (List.mem_of_find?_eq_some hrow), of_decide_eq_true hversion, hconfig⟩

theorem merged_dump {base : Option (Row L)} {patch : Entries L} (h : merged S base patch = some config) :
    ∃ validated, S.dump validated = config := by
  cases base with
  | none =>
    obtain ⟨validated, -, hdump⟩ := Option.bind_eq_some_iff.mp h
    exact ⟨validated, Option.some.inj hdump⟩
  | some row =>
    obtain ⟨current, -, hrest⟩ := Option.bind_eq_some_iff.mp h
    obtain ⟨validated, -, hdump⟩ := Option.bind_eq_some_iff.mp hrest
    exact ⟨validated, Option.some.inj hdump⟩

/-- An update stores what a validated config dumps, which can be read back. -/
theorem Pending.readable {patch : Entries L} (h : Pending S rows k (.update patch) read config) :
    (readConfig S config).isSome := by
  have hmerged : merged S (current (rows.take read)) patch = some config := h.prepared
  obtain ⟨validated, rfl⟩ := merged_dump hmerged
  have hvalid := S.dump_valid validated
  cases hentries : S.dump validated with
  | nil => rfl
  | cons key value rest => rwa [hentries] at hvalid

/-- Where an update commits first, or nothing that its patch leaves has changed, what it has prepared is the merge onto
the row that is the last at its commit. -/
theorem Pending.merged_iff {patch : Entries L} (h : Pending S rows k (.update patch) read config) :
    merged S (current rows) patch = some config ↔
      read = rows.length ∨ merged S (current (rows.take read)) patch = merged S (current rows) patch := by
  have hmerged : merged S (current (rows.take read)) patch = some config := h.prepared
  constructor
  · intro hnow
    exact .inr (hmerged.trans hnow.symm)
  · rintro (rfl | hsame)
    · rwa [List.take_length] at hmerged
    · rw [← hsame, hmerged]

/-- A row of another call -/
theorem PhaseOk.append (h : PhaseOk S rows k call phase) (hrow : row.caller ≠ some k) :
    PhaseOk S (rows ++ [row]) k call phase := by
  have hstored : ∀ version, (∃ row ∈ rows, row.caller = some k ∧ row.version = version) →
      ∃ r ∈ rows ++ [row], r.caller = some k ∧ r.version = version := by
    rintro version ⟨r, hr, hrest⟩
    exact ⟨r, List.mem_append_left _ hr, hrest⟩
  cases phase with
  | called =>
    intro r hr
    rcases List.mem_append.mp hr with hold | hnew
    · exact h r hold
    · rwa [List.mem_singleton.mp hnew]
  | prepared read config => exact Pending.append h hrow
  | numbered read config version =>
    obtain ⟨hpending, hone, hle⟩ := h
    exact ⟨hpending.append hrow, hone, by rw [List.length_append]; omega⟩
  | committed config version => exact ⟨hstored version h.1, h.2⟩
  | returned version => exact hstored version h
  | raised => trivial

theorem callOf_set (hk : w.sessions[k]? = some (call, phase)) (rows : List (Row L)) (j : ℕ) :
    World.callOf ⟨rows, w.sessions.set k (call, phase')⟩ j = w.callOf j := by
  have hlt := (List.getElem?_eq_some_iff.mp hk).1
  unfold World.callOf
  by_cases hj : k = j
  · subst hj
    rw [List.getElem?_set_self hlt, hk]
    rfl
  · rw [List.getElem?_set_ne hj]

theorem callOf_self (hk : w.sessions[k]? = some (call, phase)) : w.callOf k = some call := by
  rw [World.callOf, hk]
  rfl

/-- A step of a call that stores nothing -/
theorem Inv.move (h : Inv S w) (hk : w.sessions[k]? = some (call, phase)) (hok : PhaseOk S w.rows k call phase') :
    Inv S ⟨w.rows, w.sessions.set k (call, phase')⟩ where
  versions := h.versions
  callers row hrow j hj := by
    rw [List.length_set]
    exact h.callers row hrow j hj
  phases j call' phase'' hj := by
    have hlt := (List.getElem?_eq_some_iff.mp hk).1
    dsimp only at hj
    by_cases hjk : k = j
    · subst hjk
      rw [List.getElem?_set_self hlt] at hj
      cases hj
      exact hok
    · rw [List.getElem?_set_ne hjk] at hj
      exact h.phases j call' phase'' hj
  reverts i row j target hi hj hcall := by
    rw [callOf_set hk] at hcall
    exact h.reverts i row j target hi hj hcall

theorem last_of_singleton {α : Type*} {x y : α} {i n : ℕ} (hn : n ≤ i) (h : [x][i - n]? = some y) :
    i = n ∧ y = x := by
  obtain ⟨hlt, hget⟩ := List.getElem?_eq_some_iff.mp h
  rw [List.length_singleton] at hlt
  refine ⟨by omega, ?_⟩
  rw [← hget]
  simp

/-- A commit -/
theorem Inv.store {version : ℕ} (h : Inv S w)
    (hk : w.sessions[k]? = some (call, .numbered read config version)) (hfree : version ∉ w.rows.map (·.version))
    (hphase : phase' = .committed config version ∨ phase' = .raised) :
    Inv S ⟨w.rows ++ [⟨version, config, some k⟩], w.sessions.set k (call, phase')⟩ := by
  obtain ⟨hpending, hone, hle⟩ := h.phases k call _ hk
  have hversion : version = w.rows.length + 1 := by
    rw [mem_versions h.versions] at hfree
    omega
  have hlt := (List.getElem?_eq_some_iff.mp hk).1
  refine ⟨?_, fun row hrow j hj => ?_, fun j call' phase'' hj => ?_, fun i row j target hi hj hcall => ?_⟩
  · rw [List.map_append, h.versions, List.length_append, List.length_singleton, List.range'_concat]
    simp [hversion, Nat.add_comm]
  · rw [List.length_set]
    rcases List.mem_append.mp hrow with hold | hnew
    · exact h.callers row hold j hj
    · rw [List.mem_singleton.mp hnew] at hj
      cases hj
      exact hlt
  · dsimp only at hj
    by_cases hjk : k = j
    · subst hjk
      rw [List.getElem?_set_self hlt] at hj
      cases hj
      rcases hphase with rfl | rfl
      · refine ⟨⟨_, List.mem_append_right _ (List.mem_singleton_self _), rfl, rfl⟩, fun patch hpatch => ?_⟩
        subst hpatch
        exact hpending.readable
      · trivial
    · rw [List.getElem?_set_ne hjk] at hj
      exact (h.phases j call' phase'' hj).append (by simpa using hjk)
  · rw [callOf_set hk] at hcall
    rcases Nat.lt_or_ge i w.rows.length with hold | hnew
    · dsimp only at hi ⊢
      rw [List.getElem?_append_left hold] at hi
      rw [List.take_append_of_le_length (Nat.le_of_lt hold)]
      exact h.reverts i row j target hi hj hcall
    · dsimp only at hi ⊢
      rw [List.getElem?_append_right hnew] at hi
      obtain ⟨rfl, rfl⟩ := last_of_singleton hnew hi
      cases hj
      rw [callOf_self hk] at hcall
      obtain rfl := Option.some.inj hcall
      rw [List.take_left]
      exact hpending.target

/-- A call comes. -/
theorem Inv.come (h : Inv S w) (c : Call L) : Inv S ⟨w.rows, w.sessions ++ [(c, .called)]⟩ where
  versions := h.versions
  callers row hrow j hj := by
    rw [List.length_append]
    exact Nat.lt_add_right _ (h.callers row hrow j hj)
  phases j call phase hj := by
    dsimp only at hj
    rcases Nat.lt_or_ge j w.sessions.length with hold | hnew
    · rw [List.getElem?_append_left hold] at hj
      exact h.phases j call phase hj
    · rw [List.getElem?_append_right hnew] at hj
      obtain ⟨hzero, hphase⟩ := List.getElem?_eq_some_iff.mp hj
      rw [List.length_singleton] at hzero
      have hj' : j = w.sessions.length := by omega
      subst hj'
      simp only [Nat.sub_self, List.getElem_cons_zero, Prod.mk.injEq] at hphase
      rw [← hphase.2]
      intro row hrow hcaller
      exact Nat.lt_irrefl _ (h.callers row hrow _ hcaller)
  reverts i row j target hi hj hcall := by
    have hlt := h.callers row (List.mem_of_getElem? hi) j hj
    refine h.reverts i row j target hi hj ?_
    rwa [World.callOf, List.getElem?_append_left hlt] at hcall

theorem callOf_come (h : Inv S w) (c : Call L) (hrow : row ∈ w.rows) (hk : row.caller = some k) :
    World.callOf ⟨w.rows, w.sessions ++ [(c, .called)]⟩ k = w.callOf k := by
  rw [World.callOf, List.getElem?_append_left (h.callers row hrow k hk)]
  rfl

/-- The event is a step of a call that stores no row, sound where no version is left behind a call that raises. -/
def Moves (S : Schema L Config) (w : World L) (e : Event L) : Prop :=
  ∃ k call phase phase', w.sessions[k]? = some (call, phase) ∧
    step S w e = ⟨w.rows, w.sessions.set k (call, phase')⟩ ∧ PhaseOk S w.rows k call phase' ∧
    (Sound S w e ↔ (phase' = .raised → phase = .raised ∨ ∀ row ∈ w.rows, row.caller ≠ some k))

/-- The event is a commit, sound where it does not raise and an update has merged onto the last row. -/
def Commits (S : Schema L Config) (w : World L) (e : Event L) : Prop :=
  ∃ k call read config version phase', w.sessions[k]? = some (call, .numbered read config version) ∧
    version ∉ w.rows.map (·.version) ∧ (phase' = .committed config version ∨ phase' = .raised) ∧
    step S w e = ⟨w.rows ++ [⟨version, config, some k⟩], w.sessions.set k (call, phase')⟩ ∧
    (Sound S w e ↔ phase' ≠ .raised ∧ ∀ patch, call = .update patch → merged S (current w.rows) patch = some config)

theorem step_advance (hk : w.sessions[k]? = some (call, phase)) : step S w (.advance k) =
    ⟨w.rows ++ phase.stores w.rows k, w.sessions.set k (call, phase.next S w.rows call)⟩ := by
  simp only [step, hk]

theorem sound_advance (hk : w.sessions[k]? = some (call, phase)) :
    Sound S w (.advance k) ↔ phase.Sound S w.rows call := by
  simp [Sound, hk]

/-- A statement that stores nothing -/
theorem moves_advance (hk : w.sessions[k]? = some (call, phase)) (hstores : phase.stores w.rows k = [])
    (hok : PhaseOk S w.rows k call (phase.next S w.rows call))
    (hsound : phase.Sound S w.rows call ↔
      (phase.next S w.rows call = .raised → phase = .raised ∨ ∀ row ∈ w.rows, row.caller ≠ some k)) :
    Moves S w (.advance k) := by
  refine ⟨k, call, phase, _, hk, ?_, hok, (sound_advance hk).trans hsound⟩
  rw [step_advance hk, hstores, List.append_nil]

theorem called_moves (hok : PhaseOk S w.rows k call .called) (hk : w.sessions[k]? = some (call, .called)) :
    Moves S w (.advance k) := by
  refine moves_advance hk rfl ?_ (iff_of_true (by cases call <;> trivial) fun _ => .inr hok)
  rw [Phase.next]
  cases hprepare : prepare S w.rows call with
  | none => trivial
  | some config => exact ⟨hok, le_rfl, by rwa [List.take_length]⟩

theorem prepared_moves (h : Inv S w) (hk : w.sessions[k]? = some (call, .prepared read config)) :
    Moves S w (.advance k) := by
  have hpending : Pending S w.rows k call read config := h.phases k call _ hk
  refine moves_advance hk rfl ⟨hpending, Nat.le_add_left 1 _, ?_⟩ (iff_of_true (by cases call <;> trivial) nofun)
  rw [maxVersion_eq h.versions]

/-- The primary key refuses a number that is taken. -/
theorem numbered_cases {version : ℕ} (h : Inv S w) (hk : w.sessions[k]? = some (call, .numbered read config version)) :
    Moves S w (.advance k) ∨ Commits S w (.advance k) := by
  obtain ⟨hpending, -⟩ := h.phases k call _ hk
  by_cases hfree : version ∈ w.rows.map (·.version)
  · have hnext : (Phase.numbered read config version).next S w.rows call = .raised := by rw [Phase.next, if_pos hfree]
    refine .inl (moves_advance hk (by rw [Phase.stores, if_pos hfree]) (by rw [hnext]; trivial) ?_)
    refine iff_of_true ?_ fun _ => .inr hpending.unstored
    cases call with
    | update patch => exact .inl hfree
    | revert target => trivial
  · refine .inr ⟨k, call, read, config, version, .committed config version, hk, hfree, .inl rfl, ?_, ?_⟩
    · rw [step_advance hk, Phase.stores, if_neg hfree, Phase.next, if_neg hfree]
    · rw [sound_advance hk, and_iff_right (by nofun)]
      cases call with
      | update patch =>
        rw [Phase.Sound, or_iff_right hfree, ← hpending.merged_iff]
        exact ⟨fun hmerged _ hpatch => by rwa [← Call.update.inj hpatch], fun hall => hall patch rfl⟩
      | revert target => exact iff_of_true trivial nofun

/-- The config is read back. -/
theorem committed_moves {version : ℕ} (h : Inv S w) (hk : w.sessions[k]? = some (call, .committed config version)) :
    Moves S w (.advance k) := by
  obtain ⟨hstored, hreadable⟩ := h.phases k call _ hk
  by_cases hread : (readConfig S config).isSome = true
  · have hnext : (Phase.committed config version).next S w.rows call = .returned version := by
      rw [Phase.next, if_pos hread]
    refine moves_advance hk rfl (by rw [hnext]; exact hstored) (iff_of_true ?_ (by rw [hnext]; nofun))
    cases call with
    | update patch => trivial
    | revert target => exact hread
  · have hnext : (Phase.committed config version).next S w.rows call = .raised := by rw [Phase.next, if_neg hread]
    refine moves_advance hk rfl (by rw [hnext]; trivial) (iff_of_false ?_ fun hclean => ?_)
    · cases call with
      | update patch => exact absurd (hreadable patch rfl) hread
      | revert target => exact hread
    · obtain ⟨row, hrow, hcaller, -⟩ := hstored
      rcases hclean hnext with hphase | hnone
      · cases hphase
      · exact hnone row hrow hcaller

theorem fails_moves (hok : PhaseOk S w.rows k call phase) (hk : w.sessions[k]? = some (call, phase)) :
    Moves S w (.fails k) := by
  refine ⟨k, call, phase, phase.failed, hk, by simp only [step, hk], ?_, ?_⟩
  · cases phase with
    | returned version => exact hok
    | _ => trivial
  · have hsound : Sound S w (.fails k) ↔ phase.Unstored := by simp [Sound, hk]
    rw [hsound]
    cases phase with
    | called => exact iff_of_true trivial fun _ => .inr hok
    | prepared read config => exact iff_of_true trivial fun _ => .inr hok.unstored
    | numbered read config version => exact iff_of_true trivial fun _ => .inr hok.1.unstored
    | committed config version =>
      obtain ⟨row, hrow, hcaller, -⟩ := hok.1
      refine iff_of_false id fun hclean => ?_
      rcases hclean rfl with hphase | hnone
      · cases hphase
      · exact hnone row hrow hcaller
    | returned version => exact iff_of_true trivial nofun
    | raised => exact iff_of_true trivial fun _ => .inl rfl

/-- A commit that takes effect, or that the primary key refuses, and raises -/
theorem commitLost_cases {version : ℕ} (h : Inv S w) (hk : w.sessions[k]? = some (call, .numbered read config version)) :
    Moves S w (.commitLost k) ∨ Commits S w (.commitLost k) := by
  have hsound : Sound S w (.commitLost k) ↔ version ∈ w.rows.map (·.version) := by simp [Sound, hk, Phase.Refused]
  obtain ⟨hpending, -⟩ := h.phases k call _ hk
  by_cases hfree : version ∈ w.rows.map (·.version)
  · refine .inl ⟨k, call, _, .raised, hk, ?_, trivial, iff_of_true (hsound.mpr hfree) fun _ => .inr hpending.unstored⟩
    simp only [step, hk, Phase.stores, if_pos hfree, List.append_nil]
  · refine .inr ⟨k, call, read, config, version, .raised, hk, hfree, .inr rfl, ?_, ?_⟩
    · simp only [step, hk, Phase.stores, if_neg hfree]
    · exact iff_of_false (fun hsafe => hfree (hsound.mp hsafe)) fun hnot => hnot.1 rfl

/-- A call comes, nothing happens, a call takes a step that stores no row, or it commits. -/
theorem step_cases (h : Inv S w) (e : Event L) :
    (∃ c, e = .call c) ∨ (step S w e = w ∧ Sound S w e) ∨ Moves S w e ∨ Commits S w e := by
  cases e with
  | call c => exact .inl ⟨c, rfl⟩
  | advance k =>
    cases hk : w.sessions[k]? with
    | none => exact .inr (.inl ⟨by simp [step, hk], by simp [Sound, hk]⟩)
    | some session =>
      obtain ⟨call, phase⟩ := session
      have hok := h.phases k call phase hk
      refine .inr (.inr ?_)
      cases phase with
      | called => exact .inl (called_moves hok hk)
      | prepared read config => exact .inl (prepared_moves h hk)
      | numbered read config version => exact numbered_cases h hk
      | committed config version => exact .inl (committed_moves h hk)
      | returned version => exact .inl (moves_advance hk rfl hok (iff_of_true (by cases call <;> trivial) nofun))
      | raised =>
        exact .inl (moves_advance hk rfl trivial (iff_of_true (by cases call <;> trivial) fun _ => .inl rfl))
  | fails k =>
    cases hk : w.sessions[k]? with
    | none => exact .inr (.inl ⟨by simp [step, hk], by simp [Sound, hk]⟩)
    | some session => exact .inr (.inr (.inl (fails_moves (h.phases k _ _ hk) hk)))
  | commitLost k =>
    cases hk : w.sessions[k]? with
    | none => exact .inr (.inl ⟨by simp [step, hk], by simp [Sound, hk]⟩)
    | some session =>
      obtain ⟨call, phase⟩ := session
      cases phase with
      | numbered read config version => exact .inr (.inr (commitLost_cases h hk))
      | _ => exact .inr (.inl ⟨by simp only [step, hk], by simp [Sound, hk, Phase.Refused]⟩)

theorem Inv.step (h : Inv S w) (e : Event L) : Inv S (step S w e) := by
  rcases step_cases h e with ⟨c, rfl⟩ | ⟨heq, -⟩ | ⟨k, call, phase, phase', hk, heq, hok, -⟩ |
    ⟨k, call, read, config, version, phase', hk, hfree, hphase, heq, -⟩
  · exact h.come c
  · rwa [heq]
  · rw [heq]
    exact h.move hk hok
  · rw [heq]
    exact h.store hk hfree hphase

theorem serialised_iff (h : Inv S w) : Serialised S w ↔
    (∀ i row k patch, w.rows[i]? = some row → row.caller = some k → w.callOf k = some (.update patch) →
      merged S (w.rows.take i).getLast? patch = some row.config) ∧
    ∀ k call, w.sessions[k]? = some (call, .raised) → ∀ row ∈ w.rows, row.caller ≠ some k :=
  ⟨fun hs => ⟨hs.updates, hs.raised⟩, fun hs =>
    ⟨h.versions, hs.1, h.reverts, fun k call version hk => h.phases k call (.returned version) hk, hs.2⟩⟩

/-- A step that stores no row keeps the chain unless it raises over a stored version. -/
theorem serialised_move (h : Inv S w) (hs : Serialised S w) (hk : w.sessions[k]? = some (call, phase))
    (hok : PhaseOk S w.rows k call phase') : Serialised S ⟨w.rows, w.sessions.set k (call, phase')⟩ ↔
      (phase' = .raised → phase = .raised ∨ ∀ row ∈ w.rows, row.caller ≠ some k) := by
  have hlt := (List.getElem?_eq_some_iff.mp hk).1
  rw [serialised_iff (h.move hk hok)]
  constructor
  · rintro ⟨-, hraised⟩ rfl
    exact .inr (hraised k call (List.getElem?_set_self hlt))
  · intro hclean
    refine ⟨fun i row j patch hi hj hcall => ?_, fun j call' hj => ?_⟩
    · rw [callOf_set hk] at hcall
      exact hs.updates i row j patch hi hj hcall
    · dsimp only at hj
      by_cases hjk : k = j
      · subst hjk
        rw [List.getElem?_set_self hlt] at hj
        cases hj
        rcases hclean rfl with rfl | hnone
        · exact hs.raised k call hk
        · exact hnone
      · rw [List.getElem?_set_ne hjk] at hj
        exact hs.raised j call' hj

/-- A commit keeps the chain where it does not raise, and an update has merged onto the last row. -/
theorem serialised_store {version : ℕ} (h : Inv S w) (hs : Serialised S w)
    (hk : w.sessions[k]? = some (call, .numbered read config version)) (hfree : version ∉ w.rows.map (·.version))
    (hphase : phase' = .committed config version ∨ phase' = .raised) :
    Serialised S ⟨w.rows ++ [⟨version, config, some k⟩], w.sessions.set k (call, phase')⟩ ↔
      phase' ≠ .raised ∧ ∀ patch, call = .update patch → merged S (current w.rows) patch = some config := by
  have hlt := (List.getElem?_eq_some_iff.mp hk).1
  rw [serialised_iff (h.store hk hfree hphase), current_eq h.versions]
  constructor
  · rintro ⟨hupdates, hraised⟩
    refine ⟨fun hphase' => ?_, fun patch hpatch => ?_⟩
    · subst hphase'
      exact hraised k call (List.getElem?_set_self hlt) _ (List.mem_append_right _ (List.mem_singleton_self _)) rfl
    · have hlast := hupdates w.rows.length ⟨version, config, some k⟩ k patch (by simp) rfl
        (by rw [callOf_set hk, callOf_self hk, hpatch])
      rwa [List.take_left] at hlast
  · rintro ⟨hnot, hmerged⟩
    refine ⟨fun i row j patch hi hj hcall => ?_, fun j call' hj row hrow => ?_⟩
    · rw [callOf_set hk] at hcall
      dsimp only at hi ⊢
      rcases Nat.lt_or_ge i w.rows.length with hold | hnew
      · rw [List.getElem?_append_left hold] at hi
        rw [List.take_append_of_le_length (Nat.le_of_lt hold)]
        exact hs.updates i row j patch hi hj hcall
      · rw [List.getElem?_append_right hnew] at hi
        obtain ⟨rfl, rfl⟩ := last_of_singleton hnew hi
        cases hj
        rw [callOf_self hk] at hcall
        rw [List.take_left]
        exact hmerged patch (Option.some.inj hcall)
    · dsimp only at hj
      have hjk : k ≠ j := by
        rintro rfl
        rw [List.getElem?_set_self hlt] at hj
        cases hj
        exact hnot rfl
      rw [List.getElem?_set_ne hjk] at hj
      rcases List.mem_append.mp hrow with hold | hnew
      · exact hs.raised j call' hj row hold
      · rw [List.mem_singleton.mp hnew]
        simpa using hjk

/-- Every run keeps the chain of versions just where each of its steps is sound. -/
theorem serialised_run_iff (h : Start w) (es : List (Event L)) :
    (∀ past, past <+: es → Serialised S (past.foldl (step S) w)) ↔ Guarded (step S) (Sound S) w es := by
  refine guarded_iff (I := Inv S) (fun _ e hI => hI.step e) (fun w e hI hs => ?_) (Inv.start h) ?_ es
  · rcases step_cases hI e with ⟨c, rfl⟩ | ⟨heq, hsound⟩ | ⟨k, call, phase, phase', hk, heq, hok, hiff⟩ |
      ⟨k, call, read, config, version, phase', hk, hfree, hphase, heq, hiff⟩
    · refine iff_of_true ((serialised_iff (hI.come c)).mpr ⟨fun i row j patch hi hj hcall => ?_, fun j call hj => ?_⟩) trivial
      · rw [callOf_come hI c (List.mem_of_getElem? hi) hj] at hcall
        exact hs.updates i row j patch hi hj hcall
      · dsimp only at hj
        rcases Nat.lt_or_ge j w.sessions.length with hold | hnew
        · rw [List.getElem?_append_left hold] at hj
          exact hs.raised j call hj
        · rw [List.getElem?_append_right hnew] at hj
          have hsession := List.mem_singleton.mp (List.mem_of_getElem? hj)
          cases hsession
    · rw [heq]
      exact iff_of_true hs hsound
    · rw [heq, hiff]
      exact serialised_move hI hs hk hok
    · rw [heq, hiff]
      exact serialised_store hI hs hk hfree hphase
  · refine (serialised_iff (Inv.start h)).mpr ⟨fun i row k patch hi hk => ?_, fun k call hk => ?_⟩
    · rw [h.callers row (List.mem_of_getElem? hi)] at hk
      cases hk
    · rw [h.sessions] at hk
      cases hk

end Invariant

def thresholds : Schema ℕ { raw : Entries ℕ // raw.get "z_threshold_arm" ≠ some (.leaf 9) } where
  validate raw := if h : raw.get "z_threshold_arm" ≠ some (.leaf 9) then some ⟨raw, h⟩ else none
  dump config := config.1
  defaults := ⟨.nil, nofun⟩
  dump_valid config := by rw [dif_pos config.2]; rfl

def seeded : World ℕ where
  rows := [⟨1, .nil, none⟩, ⟨2, .cons "z_threshold_arm" (.leaf 9) .nil, none⟩, ⟨3, .nil, none⟩]
  sessions := []

theorem seeded_start : Start seeded where
  versions := rfl
  callers := by simp [seeded]
  sessions := rfl

/-- The second update commits between the two reads of the first. -/
def crossed : List (Event ℕ) :=
  [.call (.update (.cons "base_size" (.leaf 20) .nil)), .call (.update (.cons "alpha_book" (.leaf 1) .nil)),
    .advance 0, .advance 1, .advance 1, .advance 1, .advance 1, .advance 0, .advance 0, .advance 0]

/-- The publish fails after the commit. -/
def unpublished : List (Event ℕ) :=
  [.call (.update (.cons "base_size" (.leaf 20) .nil)), .advance 0, .advance 0, .advance 0, .fails 0]

/-- A revert to the row that does not validate any more -/
def reverted : List (Event ℕ) := [.call (.revert 2), .advance 0, .advance 0, .advance 0, .advance 0]

/-- Two updates one after the other, and a revert to the first of them -/
def inTurn : List (Event ℕ) :=
  [.call (.update (.cons "base_size" (.leaf 20) .nil)), .advance 0, .advance 0, .advance 0, .advance 0,
    .call (.update (.cons "alpha_book" (.leaf 1) .nil)), .advance 1, .advance 1, .advance 1, .advance 1,
    .call (.revert 4), .advance 2, .advance 2, .advance 2, .advance 2]

theorem serialised_run_iff_seeded :
    (∀ past, past <+: inTurn → Serialised thresholds (past.foldl (step thresholds) seeded)) ∧
      ((∀ past, past <+: crossed → Serialised thresholds (past.foldl (step thresholds) seeded)) ↔
        Guarded (step thresholds) (Sound thresholds) seeded crossed) := by
  refine ⟨(serialised_run_iff seeded_start inTurn).mpr ?_, serialised_run_iff seeded_start crossed⟩
  decide +kernel

theorem not_serialised : ¬ Serialised thresholds (crossed.foldl (step thresholds) seeded) ∧
    ¬ Serialised thresholds (unpublished.foldl (step thresholds) seeded) ∧
    ¬ Serialised thresholds (reverted.foldl (step thresholds) seeded) := by
  refine ⟨fun h => ?_, fun h => ?_, fun h => ?_⟩
  · have hmerged := h.updates 4 ⟨5, .cons "base_size" (.leaf 20) .nil, some 0⟩ 0 _ rfl rfl rfl
    revert hmerged
    decide
  · exact h.raised 0 _ rfl ⟨4, .cons "base_size" (.leaf 20) .nil, some 0⟩ (by decide) rfl
  · exact h.raised 0 _ rfl ⟨4, .cons "z_threshold_arm" (.leaf 9) .nil, some 0⟩ (by decide) rfl

end FxVol.ConfigVersions
