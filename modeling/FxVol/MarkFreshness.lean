import FxVol.ContractSymbols
import FxVol.ExpiringHashes
import FxVol.GuardedRuns
import Mathlib.Data.List.Nodup

/-!
# The marks on the bus

A pass of `publish_portfolio_to_redis` writes, position by position, the marks and the P&L that IB's portfolio shows, and
renews the life of the whole hash.  A value that has become zero is not written, and a contract that a pass does not see
keeps its value as long as another one is published.
-/
namespace FxVol.MarkFreshness

open ExpiringHashes GuardedRuns

/-- `contract_marks:EUR`, `option_marks:EUR` and `unrealized_pnl:EUR` -/
inductive HashKey | contractMarks | optionMarks | unrealizedPnl
  deriving DecidableEq

structure PortfolioItem where
  localSymbol : String
  marketPrice : Option ℚ
  unrealizedPnl : Option ℚ
  deriving DecidableEq

/-- What IB reports for a hash -/
def PortfolioItem.value (p : PortfolioItem) : HashKey → Option ℚ
  | .contractMarks | .optionMarks => p.marketPrice
  | .unrealizedPnl => p.unrealizedPnl

/-- A row of `open_position` -/
structure OpenRow where
  id : ℕ
  localSymbol : String
  deriving DecidableEq

/-- The 600 seconds of a hash -/
def hashTtl : ℤ := 600000000

/-- The mirror and the bus; `written` is when the latest pass that wrote to a hash did so, and `seen` what the latest
pass that saw a symbol was told of it, and when. -/
structure Bus where
  clock : Instant
  nextId : ℕ
  rows : List OpenRow
  hashes : HashKey → ExpiringHash ℕ ℚ
  written : HashKey → Option Instant
  seen : String → Option (Instant × PortfolioItem)

def Bus.start (clock : Instant) : Bus := ⟨clock, 0, [], fun _ => .empty, fun _ => none, fun _ => none⟩

/-- `portfolio_by_key`: of two items of one symbol the later counts. -/
def portfolioByKey (portfolio : List PortfolioItem) (localSymbol : String) : Option PortfolioItem :=
  (portfolio.filter fun p => p.localSymbol = localSymbol ∧ localSymbol ≠ "").getLast?

/-- A number, unless it is zero -/
def nonzero (x : Option ℚ) : Option ℚ := x.filter fun x => x ≠ 0

def isOption (symbol : String) : Bool := (parseLocalSymbol symbol).any fun spec => spec.instrumentType = .option

/-- Whether the positions of a symbol are in a hash -/
def HashKey.Carries (key : HashKey) (symbol : String) : Prop := key = .optionMarks → isOption symbol = true

instance (key : HashKey) (symbol : String) : Decidable (key.Carries symbol) :=
  inferInstanceAs (Decidable (_ → _))

def published (portfolio : List PortfolioItem) (key : HashKey) (symbol : String) : Option ℚ :=
  (portfolioByKey portfolio symbol).bind fun p => if key.Carries symbol then nonzero (p.value key) else none

def mappingOf (rows : List OpenRow) (portfolio : List PortfolioItem) (key : HashKey) : List (ℕ × ℚ) :=
  rows.filterMap fun r => (published portfolio key r.localSymbol).map fun v => (r.id, v)

/-- `hset` and `expire`, unless there is nothing to write -/
def writeHash (h : ExpiringHash ℕ ℚ) (now : Instant) (mapping : List (ℕ × ℚ)) : ExpiringHash ℕ ℚ :=
  if mapping = [] then h else (h.set now fun id => mapping.lookup id).expire now hashTtl

/-- `publish_portfolio_to_redis`, none for the portfolio where IB is not connected or does not tell it -/
def publishPortfolio (s : Bus) (portfolio : Option (List PortfolioItem)) : Bus :=
  match portfolio with
  | none => s
  | some portfolio =>
    if s.rows = [] then s
    else
      { s with
        hashes := fun key => writeHash (s.hashes key) s.clock (mappingOf s.rows portfolio key)
        written := fun key => if mappingOf s.rows portfolio key = [] then s.written key else some s.clock
        seen := fun symbol =>
          match portfolioByKey portfolio symbol with
          | some p => some (s.clock, p)
          | none => s.seen symbol }

/-- `_read_redis_hash_floats`, for a position -/
def Bus.read (s : Bus) (key : HashKey) (id : ℕ) : Option ℚ := (s.hashes key).get s.clock id

inductive Event
  | publish (portfolio : Option (List PortfolioItem))
  | opened (symbol : String)
  | closed (id : ℕ)
  | wait (dt : ℕ)

def step (s : Bus) : Event → Bus
  | .publish portfolio => publishPortfolio s portfolio
  | .opened symbol => { s with nextId := s.nextId + 1, rows := s.rows ++ [⟨s.nextId, symbol⟩] }
  | .closed id => { s with rows := s.rows.filter fun r => r.id ≠ id }
  | .wait dt => { s with clock := s.clock + dt }

/-- How old a mark may be: 600 seconds -/
def maxAge : ℤ := 600000000

/-- What a cycle reads for an open position is what the latest pass that saw its symbol was told, 600 seconds ago at
most. -/
def Current (s : Bus) : Prop :=
  ∀ r ∈ s.rows, ∀ key, ∀ v ∈ s.read key r.id, ∃ t p, s.seen r.localSymbol = some (t, p) ∧ p.value key = some v ∧
    s.clock ≤ t + maxAge

/-- A pass that sees an open position with no value, or zero, finds no value of it in the hash; and until 600 seconds
after the latest pass that wrote to a hash, for whatever position, the symbol of each open position with a value in it
has been seen in the last 600 seconds. -/
def Meets (s : Bus) : Event → Prop
  | .publish portfolio => ∀ items ∈ portfolio, ∀ r ∈ s.rows, ∀ p ∈ portfolioByKey items r.localSymbol, ∀ key,
      nonzero (p.value key) = none → s.read key r.id = none
  | .wait dt => ∀ r ∈ s.rows, ∀ key, s.read key r.id ≠ none →
      ∀ w ∈ s.written key, s.clock + dt < w + maxAge →
        ∀ x ∈ s.seen r.localSymbol, s.clock + dt ≤ x.1 + maxAge
  | .opened _ | .closed _ => True

section Mapping
variable {portfolio : List PortfolioItem} {key : HashKey} {rows : List OpenRow}

theorem mem_mappingOf {x : ℕ × ℚ} : x ∈ mappingOf rows portfolio key ↔
    ∃ r ∈ rows, published portfolio key r.localSymbol = some x.2 ∧ r.id = x.1 := by
  rw [mappingOf, List.mem_filterMap]
  constructor
  · rintro ⟨r, hr, hx⟩
    obtain ⟨v, hv, rfl⟩ := Option.map_eq_some_iff.mp hx
    exact ⟨r, hr, hv, rfl⟩
  · rintro ⟨r, hr, hv, hid⟩
    exact ⟨r, hr, by rw [hv, Option.map_some, hid]⟩

theorem mem_of_lookup {xs : List (ℕ × ℚ)} {id : ℕ} {v : ℚ} (h : xs.lookup id = some v) : (id, v) ∈ xs := by
  obtain ⟨before, after, rfl, -⟩ := List.lookup_eq_some_iff.mp h
  exact List.mem_append_right _ List.mem_cons_self

/-- The rows having ids of their own, what is written for a position is what is published for its symbol. -/
theorem lookup_mappingOf (hnodup : (rows.map (·.id)).Nodup) {r : OpenRow} (hr : r ∈ rows) :
    (mappingOf rows portfolio key).lookup r.id = published portfolio key r.localSymbol := by
  have hown : ∀ v, (mappingOf rows portfolio key).lookup r.id = some v →
      published portfolio key r.localSymbol = some v := by
    intro v hv
    obtain ⟨r', hr', hpublished, hid⟩ := mem_mappingOf.mp (mem_of_lookup hv)
    rwa [← List.inj_on_of_nodup_map hnodup hr' hr hid]
  cases hlookup : (mappingOf rows portfolio key).lookup r.id with
  | some v => exact (hown v hlookup).symm
  | none =>
    cases hpublished : published portfolio key r.localSymbol with
    | none => rfl
    | some v =>
      have hmem := (mem_mappingOf (x := (r.id, v))).mpr ⟨r, hr, hpublished, rfl⟩
      have habsent := List.lookup_eq_none_iff.mp hlookup (r.id, v) hmem
      simp at habsent

theorem published_some {symbol : String} {v : ℚ} (h : published portfolio key symbol = some v) :
    (∃ p, portfolioByKey portfolio symbol = some p ∧ p.value key = some v) ∧ v ≠ 0 ∧ key.Carries symbol := by
  obtain ⟨p, hp, hv⟩ := Option.bind_eq_some_iff.mp h
  split_ifs at hv with hcarries
  obtain ⟨hvalue, hne⟩ := Option.filter_eq_some_iff.mp hv
  exact ⟨⟨p, hp, hvalue⟩, of_decide_eq_true hne, hcarries⟩

end Mapping

theorem get_writeHash (h : ExpiringHash ℕ ℚ) (now : Instant) (mapping : List (ℕ × ℚ)) (id : ℕ) :
    (writeHash h now mapping).get now id = (mapping.lookup id).or (h.get now id) := by
  rw [writeHash]
  split_ifs with hnone
  · rw [hnone]
    rfl
  · exact ExpiringHash.get_set_expire (by decide) _ id

/-- A write renews the life of the whole hash. -/
theorem expiresAt_writeHash (h : ExpiringHash ℕ ℚ) (now : Instant) (mapping : List (ℕ × ℚ)) :
    (writeHash h now mapping).expiresAt = if mapping = [] then h.expiresAt else some (now + hashTtl) := by
  rw [writeHash]
  split_ifs <;> rfl

theorem fields_writeHash {h : ExpiringHash ℕ ℚ} {now : Instant} {mapping : List (ℕ × ℚ)} {id : ℕ} {v : ℚ}
    (hv : (writeHash h now mapping).fields id = some v) : mapping.lookup id = some v ∨ h.fields id = some v := by
  rw [writeHash] at hv
  split_ifs at hv with hnone
  · exact Or.inr hv
  · have hset : (h.set now fun id => mapping.lookup id).fields id = some v := hv
    rw [ExpiringHash.fields_set] at hset
    rcases Option.or_eq_some_iff.mp hset with hnew | ⟨-, hold⟩
    · exact Or.inl hnew
    · exact Or.inr (ExpiringHash.get_alive hold).2

/-- Ids are of one row and used once, a hash has nonzero values of the rows it is for, and one with a value lapses 600
seconds after the latest pass that wrote to it. -/
structure Sound (s : Bus) : Prop where
  nodup : (s.rows.map (·.id)).Nodup
  fresh : ∀ r ∈ s.rows, r.id < s.nextId
  used : ∀ key id v, (s.hashes key).fields id = some v → id < s.nextId ∧ v ≠ 0
  carries : ∀ r ∈ s.rows, ∀ key v, (s.hashes key).fields r.id = some v → key.Carries r.localSymbol
  renewed : ∀ key id v, (s.hashes key).fields id = some v →
    ∃ w, s.written key = some w ∧ (s.hashes key).expiresAt = some (w + hashTtl)

theorem sound_start (clock : Instant) : Sound (.start clock) where
  nodup := List.nodup_nil
  fresh := by simp [Bus.start]
  used := by simp [Bus.start, ExpiringHash.empty]
  carries := by simp [Bus.start]
  renewed := by simp [Bus.start, ExpiringHash.empty]

variable {s : Bus}

theorem publish_sound (hs : Sound s) (portfolio : List PortfolioItem) : Sound (publishPortfolio s (some portfolio)) := by
  rw [publishPortfolio]
  split_ifs with hrows
  · exact hs
  constructor
  · exact hs.nodup
  · exact hs.fresh
  · intro key id v hv
    rcases fields_writeHash hv with hnew | hold
    · obtain ⟨r, hr, hpublished, rfl⟩ := mem_mappingOf.mp (mem_of_lookup hnew)
      exact ⟨hs.fresh r hr, (published_some hpublished).2.1⟩
    · exact hs.used key id v hold
  · intro r hr key v hv
    rcases fields_writeHash hv with hnew | hold
    · rw [lookup_mappingOf hs.nodup hr] at hnew
      exact (published_some hnew).2.2
    · exact hs.carries r hr key v hold
  · intro key id v hv
    simp only [expiresAt_writeHash]
    split_ifs with hnone
    · simp only [writeHash, if_pos hnone] at hv
      exact hs.renewed key id v hv
    · exact ⟨s.clock, rfl, rfl⟩

theorem step_sound (hs : Sound s) (e : Event) : Sound (step s e) := by
  cases e with
  | publish portfolio =>
    cases portfolio with
    | none => exact hs
    | some portfolio => exact publish_sound hs portfolio
  | opened symbol =>
    constructor
    · rw [step, List.map_append, List.map_singleton]
      apply List.Nodup.append hs.nodup (List.nodup_singleton _)
      intro id hid hnew
      obtain ⟨r, hr, rfl⟩ := List.mem_map.mp hid
      exact absurd (List.mem_singleton.mp hnew) (ne_of_lt (hs.fresh r hr))
    · intro r hr
      rcases List.mem_append.mp hr with hold | hnew
      · exact Nat.lt_succ_of_lt (hs.fresh r hold)
      · rw [List.mem_singleton.mp hnew]
        exact Nat.lt_succ_self _
    · intro key id v hv
      obtain ⟨hlt, hne⟩ := hs.used key id v hv
      exact ⟨Nat.lt_succ_of_lt hlt, hne⟩
    · intro r hr key v hv
      rcases List.mem_append.mp hr with hold | hnew
      · exact hs.carries r hold key v hv
      · rw [List.mem_singleton.mp hnew] at hv
        exact absurd (hs.used key _ v hv).1 (lt_irrefl _)
    · exact hs.renewed
  | closed id =>
    constructor
    · exact hs.nodup.sublist (List.filter_sublist.map _)
    · exact fun r hr => hs.fresh r (List.mem_of_mem_filter hr)
    · exact hs.used
    · exact fun r hr => hs.carries r (List.mem_of_mem_filter hr)
    · exact hs.renewed
  | wait dt => exact ⟨hs.nodup, hs.fresh, hs.used, hs.carries, hs.renewed⟩

section Published
variable (items : List PortfolioItem) (hrows : s.rows ≠ [])
include hrows

/-- What a reader finds after a pass is what the pass has written, or else what was there. -/
theorem publish_read (hs : Sound s) {r : OpenRow} (hr : r ∈ s.rows) (key : HashKey) :
    (step s (.publish (some items))).read key r.id = (published items key r.localSymbol).or (s.read key r.id) := by
  rw [step, publishPortfolio, if_neg hrows, Bus.read, get_writeHash, lookup_mappingOf hs.nodup hr]
  rfl

theorem publish_seen (symbol : String) : (step s (.publish (some items))).seen symbol =
    ((portfolioByKey items symbol).map fun p => (s.clock, p)).or (s.seen symbol) := by
  rw [step, publishPortfolio, if_neg hrows]
  dsimp only
  cases portfolioByKey items symbol <;> rfl

theorem publish_frame :
    (step s (.publish (some items))).rows = s.rows ∧ (step s (.publish (some items))).clock = s.clock := by
  rw [step, publishPortfolio, if_neg hrows]
  exact ⟨rfl, rfl⟩

end Published

theorem publish_iff (hs : Sound s) (hcurrent : Current s) (portfolio : Option (List PortfolioItem)) :
    Current (step s (.publish portfolio)) ↔ Meets s (.publish portfolio) := by
  cases portfolio with
  | none => exact iff_of_true hcurrent (by simp [Meets])
  | some items =>
    rcases eq_or_ne s.rows [] with hrows | hrows
    · refine iff_of_true ?_ (by simp [Meets, hrows])
      intro r hr
      rw [step, publishPortfolio, if_pos hrows, hrows] at hr
      cases hr
    obtain ⟨hsame, hclock⟩ := publish_frame items hrows
    constructor
    · intro h items' hitems r hr p hp key hfalsy
      obtain rfl : items = items' := Option.some.inj hitems
      by_contra hold
      obtain ⟨v, hv⟩ := Option.ne_none_iff_exists'.mp hold
      have hunpublished : published items key r.localSymbol = none := by
        simp [published, Option.mem_def.mp hp, hfalsy]
      have hnow := publish_read items hrows hs hr key
      rw [hunpublished, Option.none_or, hv] at hnow
      obtain ⟨t, p', hp', hvalue, -⟩ := h r (hsame ▸ hr) key v hnow
      rw [publish_seen items hrows, Option.mem_def.mp hp, Option.map_some, Option.some_or] at hp'
      obtain rfl : p = p' := congrArg Prod.snd (Option.some.inj hp')
      have hne := (hs.used key r.id v (ExpiringHash.get_alive hv).2).2
      rw [hvalue, nonzero, Option.filter_some, if_pos (by simpa using hne)] at hfalsy
      cases hfalsy
    · intro h r hr key v hv
      rw [hsame] at hr
      rw [publish_seen items hrows, hclock]
      rw [Option.mem_def, publish_read items hrows hs hr key] at hv
      rcases Option.or_eq_some_iff.mp hv with hnew | ⟨hunpublished, hold⟩
      · obtain ⟨⟨p, hp, hvalue⟩, -⟩ := published_some hnew
        refine ⟨s.clock, p, by rw [hp]; rfl, hvalue, ?_⟩
        exact le_add_of_nonneg_right (by decide)
      · cases hp : portfolioByKey items r.localSymbol with
        | none => exact hcurrent r hr key v hold
        | some p =>
          -- the pass saw the symbol and wrote nothing for it, so its value was none or zero
          have hcarries := hs.carries r hr key v (ExpiringHash.get_alive hold).2
          have hfalsy : nonzero (p.value key) = none := by
            simpa [published, hp, hcarries] using hunpublished
          rw [h items rfl r hr p hp key hfalsy] at hold
          cases hold

/-- A value is read for 600 seconds after the latest write to its hash, and no longer. -/
theorem get_wait (hs : Sound s) {later : Instant} (hlater : s.clock ≤ later) {key : HashKey} {id : ℕ} {v : ℚ} :
    (s.hashes key).get later id = some v ↔
      s.read key id = some v ∧ ∀ w ∈ s.written key, later < w + maxAge := by
  constructor
  · intro hv
    refine ⟨ExpiringHash.get_mono hv hlater, fun w hw => ?_⟩
    obtain ⟨halive, hfield⟩ := ExpiringHash.get_alive hv
    obtain ⟨w', hw', hexpires⟩ := hs.renewed key id v hfield
    obtain rfl : w = w' := Option.some.inj (hw.symm.trans hw')
    exact halive (w + hashTtl) hexpires
  · rintro ⟨hv, hyoung⟩
    obtain ⟨-, hfield⟩ := ExpiringHash.get_alive hv
    obtain ⟨w, hw, hexpires⟩ := hs.renewed key id v hfield
    have halive : (s.hashes key).Alive later := by
      intro t ht
      obtain rfl : t = w + hashTtl := Option.some.inj (ht.symm.trans hexpires)
      exact hyoung w hw
    rw [ExpiringHash.get, if_pos halive, hfield]

theorem wait_iff (hs : Sound s) (hcurrent : Current s) (dt : ℕ) :
    Current (step s (.wait dt)) ↔ Meets s (.wait dt) := by
  have hlater : s.clock ≤ s.clock + dt := le_add_of_nonneg_right (Int.natCast_nonneg dt)
  constructor
  · intro h r hr key hsome w hw hyoung x hx
    obtain ⟨v, hv⟩ := Option.ne_none_iff_exists'.mp hsome
    have hstill : (step s (.wait dt)).read key r.id = some v := by
      refine (get_wait hs hlater).mpr ⟨hv, fun w' hw' => ?_⟩
      rwa [← Option.some.inj (hw.symm.trans hw')]
    obtain ⟨t, p, hseen, -, hrecent⟩ := h r hr key v hstill
    obtain rfl : x = (t, p) := Option.some.inj ((Option.mem_def.mp hx).symm.trans hseen)
    exact hrecent
  · intro h r hr key v hv
    obtain ⟨hread, hyoung⟩ := (get_wait hs hlater).mp hv
    obtain ⟨t, p, hseen, hvalue, -⟩ := hcurrent r hr key v hread
    obtain ⟨w, hw, -⟩ := hs.renewed key r.id v (ExpiringHash.get_alive hread).2
    exact ⟨t, p, hseen, hvalue, h r hr key (by simp [hread]) w hw (hyoung w hw) _ hseen⟩

theorem step_iff (s : Bus) (e : Event) (hs : Sound s) (hcurrent : Current s) : Current (step s e) ↔ Meets s e := by
  cases e with
  | publish portfolio => exact publish_iff hs hcurrent portfolio
  | wait dt => exact wait_iff hs hcurrent dt
  | closed id =>
    refine iff_of_true (fun r hr => ?_) trivial
    exact hcurrent r (List.mem_of_mem_filter hr)
  | opened symbol =>
    refine iff_of_true (fun r hr key v hv => ?_) trivial
    rcases List.mem_append.mp hr with hold | hnew
    · exact hcurrent r hold key v hv
    · -- no hash has a value under an id that has not been used
      rw [List.mem_singleton.mp hnew] at hv
      exact absurd (hs.used key _ v (ExpiringHash.get_alive hv).2).1 (lt_irrefl _)

/-- From an empty mirror, what cycles read is current all along a run just when every step meets the condition. -/
theorem marks_current_iff (clock : Instant) (events : List Event) :
    (∀ past, past <+: events → Current (past.foldl step (.start clock))) ↔
      Guarded step Meets (.start clock) events := by
  apply guarded_iff (I := Sound)
  · exact fun s e hs => step_sound hs e
  · exact step_iff
  · exact sound_start clock
  · intro r hr
    cases hr

def calls (unrealizedPnl : ℚ) : PortfolioItem := ⟨"EUUM6 C1085", some (15 / 1000), some unrealizedPnl⟩

def backToZero : List Event :=
  [.opened "EUUM6 C1085", .publish (some [calls 1200]), .wait 2000000, .publish (some [calls 0])]

/-- The portfolio reports a P&L of zero, and cycles go on reading 1 200. -/
theorem not_marks_current : ¬ ∀ (clock : Instant) (events : List Event), Current (events.foldl step (.start clock)) := by
  intro h
  obtain ⟨t, p, hseen, hvalue, -⟩ := h 0 backToZero ⟨0, "EUUM6 C1085"⟩ List.mem_cons_self .unrealizedPnl 1200
    (by decide +kernel)
  have hzero : ((backToZero.foldl step (.start 0)).seen "EUUM6 C1085").map (fun x => x.2.value .unrealizedPnl) =
      some (some 0) := by decide +kernel
  rw [hseen, Option.map_some, hvalue] at hzero
  exact absurd hzero (by decide +kernel)

end FxVol.MarkFreshness
