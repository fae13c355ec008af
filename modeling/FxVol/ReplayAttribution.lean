import FxVol.SessionReplay

/-!
# On which row the replay puts an execution

An IB order covers one leg, or as a BAG several; its reference names one row, the first leg's.
Live executions go to the row of the executed contract, replayed ones to the named row.
`Attributable` says exactly when the replay nevertheless leaves every execution on the row of
its leg and lets none keep the others from being processed.
-/
namespace FxVol

open KeyedLog

/-- An order placed at IB: the structure and row its reference names, and the row of each
contract it covers. -/
structure IbOrder where
  structureId : ℕ
  namedOrder : ℕ
  legs : List (ℕ × ℕ)
  deriving DecidableEq

def IbOrder.ref (p : IbOrder) : String := orderRef p.structureId p.namedOrder

/-- The leg whose contract was executed, under the reference stamped at placement; none for an
execution on the BAG itself. -/
def legOf (placed : List IbOrder) (fill : IbFill) : Option ℕ :=
  (placed.find? fun p => fill.orderRef = some p.ref).bind fun p =>
    (p.legs.find? fun r => r.1 = fill.conId).map (·.2)

def OnRow (db : Db) (i : ℕ) (fill : IbFill) : Prop :=
  ExecId.ib fill.execId ∈ (db.fillsOf i).map (·.ibExecutionId)

instance (db : Db) (i : ℕ) (fill : IbFill) : Decidable (OnRow db i fill) :=
  inferInstanceAs (Decidable (_ ∈ _))

/-- What a reconnect finds: the named rows exist, and an execution id stands for one
execution. -/
structure Reconnected (placed : List IbOrder) (db : Db) (fills : List IbFill) : Prop where
  rows : ∀ p ∈ placed, p.namedOrder < db.orders.length
  coherent : ∀ f ∈ fills, ∀ g ∈ fills, f.execId = g.execId → f = g

/-- The outcome of a replay: no execution was kept from being processed, and each execution of
a leg is persisted once, on the row of that leg. -/
def Attributed (placed : List IbOrder) (fills : List IbFill) (r : Db × List IbFill) : Prop :=
  r.2 = [] ∧ ∀ f ∈ fills, ∀ leg, legOf placed f = some leg →
    (r.1.fills.filter fun row => row.ibExecutionId = .ib f.execId).map (·.orderId) = [leg]

/-- Persisted already, but on another row than the one it is replayed on: it will raise. -/
def Clashes (db : Db) (x : ℕ × IbFill) : Prop :=
  db.Booked (.ib x.2.execId) ∧ ¬ OnRow db x.1 x.2

instance (db : Db) (x : ℕ × IbFill) : Decidable (Clashes db x) :=
  inferInstanceAs (Decidable (_ ∧ _))

/-- The queued executions that have another one, or a spot order, behind them. -/
def followed (db : Db) (fills : List IbFill) : List (ℕ × IbFill) :=
  if spotFills fills = [] then (replayQueue db fills).dropLast else replayQueue db fills

/-- A persisted execution of a leg is on the row of the leg, one that is not yet names that
row, and none that raises has another one behind it. -/
structure Attributable (placed : List IbOrder) (db : Db) (fills : List IbFill) : Prop where
  legs : ∀ f ∈ fills, ∀ leg ∈ legOf placed f,
    if db.Booked (.ib f.execId) then OnRow db leg f else namedOrder f = some (leg : ℤ)
  clear : ∀ x ∈ followed db fills, ¬ Clashes db x

section Rows
variable {db db' : Db} {i j : ℕ} {f : IbFill}

theorem onRow_iff : OnRow db i f ↔
    ∃ row ∈ db.fills, row.orderId = i ∧ row.ibExecutionId = .ib f.execId := by
  simp only [OnRow, Db.fillsOf, List.mem_map, List.mem_filter, decide_eq_true_eq, and_assoc]

theorem OnRow.booked (h : OnRow db i f) : db.Booked (.ib f.execId) := .of_fillsOf h

theorem booked_iff_onRow : db.Booked (.ib f.execId) ↔ ∃ i, OnRow db i f := by
  constructor
  · intro h
    obtain ⟨row, hrow, hid⟩ := List.mem_map.mp h
    exact ⟨row.orderId, onRow_iff.mpr ⟨row, hrow, rfl, hid⟩⟩
  · rintro ⟨i, h⟩
    exact h.booked

theorem OnRow.append {new : List StructureFill} (h : OnRow db i f)
    (hf : db'.fills = db.fills ++ new) : OnRow db' i f := by
  obtain ⟨row, hrow, hi, hid⟩ := onRow_iff.mp h
  exact onRow_iff.mpr ⟨row, by rw [hf]; exact List.mem_append_left _ hrow, hi, hid⟩

theorem onRow_added (hf : db'.fills = db.fills ++ [fillRow i f]) : OnRow db' i f :=
  onRow_iff.mpr ⟨fillRow i f, by rw [hf]; simp, rfl, rfl⟩

/-- An execution that is on a row is persisted once, there. -/
theorem onRow_filter (hu : (db.fills.map (·.ibExecutionId)).Nodup) : OnRow db i f ↔
    (db.fills.filter fun row => row.ibExecutionId = .ib f.execId).map (·.orderId) = [i] := by
  rw [onRow_iff]
  constructor
  · rintro ⟨row, hrow, rfl, hid⟩
    have hone := filter_key hu hrow
    rw [hid] at hone
    rw [hone, List.map_singleton]
  · intro h
    obtain ⟨row, hone, hi⟩ := List.map_eq_singleton_iff.mp h
    have hmem : row ∈ db.fills.filter fun row => row.ibExecutionId = .ib f.execId := by
      rw [hone]
      exact List.mem_singleton_self row
    rw [List.mem_filter, decide_eq_true_eq] at hmem
    exact ⟨row, hmem.1, hi, hmem.2⟩

theorem OnRow.unique (hu : (db.fills.map (·.ibExecutionId)).Nodup) (h : OnRow db i f)
    (h' : OnRow db j f) : i = j := by
  rw [onRow_filter hu] at h h'
  rw [h] at h'
  exact List.head_eq_of_cons_eq h'

theorem nodup_added {row : StructureFill} (hu : (db.fills.map (·.ibExecutionId)).Nodup)
    (hnew : ¬ db.Booked row.ibExecutionId) :
    ((db.fills ++ [row]).map (·.ibExecutionId)).Nodup := by
  have hrec := nodup_record (x := row) hu
  rwa [record_new hnew] at hrec

/-- The reference of a leg's execution names a placed order's row. -/
theorem legOf_named {placed : List IbOrder} {leg : ℕ} (h : legOf placed f = some leg) :
    ∃ p ∈ placed, namedOrder f = some (p.namedOrder : ℤ) := by
  obtain ⟨p, hp, _⟩ := Option.bind_eq_some_iff.mp h
  have href := List.find?_some hp
  simp only [decide_eq_true_eq] at href
  refine ⟨p, List.mem_of_find?_eq_some hp, ?_⟩
  rw [namedOrder, href, IbOrder.ref, parseOrderRef_orderRef, Option.map_some]

end Rows

/-- What the tables hold while `fills` are replayed on `db`: the fills of `db`, and executions
of the list on the rows they name. -/
structure Replaying (db : Db) (fills : List IbFill) (db' : Db) : Prop where
  length : db'.orders.length = db.orders.length
  unique : (db'.fills.map (·.ibExecutionId)).Nodup
  added : ∃ new, db'.fills = db.fills ++ new ∧
    ∀ row ∈ new, ∃ f ∈ fills, ∃ i : ℕ, namedOrder f = some (i : ℤ) ∧ row = fillRow i f

section Replaying
variable {fills : List IbFill} {db db' : Db} {i : ℕ} {f : IbFill} (now : Instant)
  {queue : List (ℕ × IbFill)}

theorem Replaying.refl (hu : (db.fills.map (·.ibExecutionId)).Nodup) : Replaying db fills db :=
  ⟨rfl, hu, [], by simp, by simp⟩

/-- An execution that was persisted before the replay stays where it was. -/
theorem Replaying.onRow_old (h : Replaying db fills db') (hb : db.Booked (.ib f.execId)) :
    OnRow db' i f ↔ OnRow db i f := by
  obtain ⟨new, hnew, _⟩ := h.added
  constructor
  · intro hi
    obtain ⟨j, hj⟩ := booked_iff_onRow.mp hb
    obtain rfl : i = j := OnRow.unique h.unique hi (hj.append hnew)
    exact hj
  · intro hi
    exact hi.append hnew

/-- An execution that the replay persisted is on the row it names. -/
theorem Replaying.onRow_new (h : Replaying db fills db')
    (hc : ∀ f ∈ fills, ∀ g ∈ fills, f.execId = g.execId → f = g) (hf : f ∈ fills)
    (hname : namedOrder f = some (i : ℤ)) (hnew : ¬ db.Booked (.ib f.execId))
    (hb : db'.Booked (.ib f.execId)) : OnRow db' i f := by
  obtain ⟨new, hadd, hrows⟩ := h.added
  obtain ⟨row, hrow, hid⟩ := List.mem_map.mp hb
  rw [hadd] at hrow
  rcases List.mem_append.mp hrow with hold | hmem
  · exact absurd (List.mem_map.mpr ⟨row, hold, hid⟩) hnew
  · obtain ⟨g, hg, j, hgname, rfl⟩ := hrows row hmem
    obtain rfl : g = f := hc g hg f hf (ExecId.ib.inj hid)
    have hij : (j : ℤ) = i := Option.some.inj (hgname.symm.trans hname)
    exact onRow_iff.mpr ⟨fillRow j g, by rw [hadd]; exact hrow, Int.natCast_inj.mp hij, rfl⟩

/-- An execution that does not clash is persisted on the row it names. -/
theorem Replaying.persists (h : Replaying db fills db')
    (hc : ∀ f ∈ fills, ∀ g ∈ fills, f.execId = g.execId → f = g) (hf : f ∈ fills)
    (hname : namedOrder f = some (i : ℤ)) (hi : i < db.orders.length)
    (hclear : ¬ Clashes db (i, f)) :
    ∃ db'' completes, persistFill db' i f now = .ok (db'', completes) ∧
      Replaying db fills (cascade db'' completes now) ∧
      OnRow (cascade db'' completes now) i f ∧
      ∃ new, (cascade db'' completes now).fills = db'.fills ++ new := by
  by_cases hb : db'.Booked (.ib f.execId)
  · have hon : OnRow db' i f := by
      by_cases hold : db.Booked (.ib f.execId)
      · by_contra hnot
        exact hclear ⟨hold, fun hrow => hnot ((h.onRow_old hold).mpr hrow)⟩
      · exact h.onRow_new hc hf hname hold hb
    exact ⟨db', none, persistFill_seen hon, h, hon, [], (List.append_nil _).symm⟩
  · have hi' : i < db'.orders.length := h.length ▸ hi
    refine ⟨_, _, persistFill_new (List.getElem?_eq_getElem hi') hb, ?_⟩
    generalize (if (aggregatesWith db' i db'.orders[i] f).fullyFilled then
      some db'.orders[i].structureId else none) = completes
    obtain ⟨hco, hcf⟩ := cascade_frame (bookFill db' i db'.orders[i] f now) completes now
    rw [bookFill_fills] at hcf
    rw [bookFill_orders] at hco
    obtain ⟨new, hadd, hrows⟩ := h.added
    refine ⟨⟨?_, ?_, new ++ [fillRow i f], ?_, ?_⟩, onRow_added hcf, _, hcf⟩
    · rw [hco, List.length_set, h.length]
    · rw [hcf]
      exact nodup_added h.unique hb
    · rw [hcf, hadd, List.append_assoc]
    · intro row hrow
      rcases List.mem_append.mp hrow with hold | hlast
      · exact hrows row hold
      · exact ⟨f, hf, i, hname, List.mem_singleton.mp hlast⟩

/-- One that clashes raises. -/
theorem Replaying.raises (h : Replaying db fills db') (hclash : Clashes db (i, f)) :
    persistFill db' i f now = .error .integrityError := by
  obtain ⟨hb, hnot⟩ := hclash
  obtain ⟨j, hj⟩ := booked_iff_onRow.mp hb
  have hb' : db'.Booked (.ib f.execId) := ((h.onRow_old hb).mpr hj).booked
  exact persistFill_error (fun hon => hnot ((h.onRow_old hb).mp hon)) (.inr hb')

/-- A queue without a clash is replayed to its end, every execution on the row it names. -/
theorem Replaying.replayAll (h : Replaying db fills db')
    (hc : ∀ f ∈ fills, ∀ g ∈ fills, f.execId = g.execId → f = g)
    (hq : ∀ x ∈ queue, x ∈ replayQueue db fills) (hclear : ∀ x ∈ queue, ¬ Clashes db x) :
    ∃ db₁, replayAll now db' queue = (db₁, none) ∧ Replaying db fills db₁ ∧
      (∀ x ∈ queue, OnRow db₁ x.1 x.2) ∧ ∃ new, db₁.fills = db'.fills ++ new := by
  induction queue generalizing db' with
  | nil => exact ⟨db', rfl, h, by simp, [], (List.append_nil _).symm⟩
  | cons x queue ih =>
    obtain ⟨i, f⟩ := x
    obtain ⟨hf, hname, hi⟩ := mem_replayQueue.mp (hq (i, f) List.mem_cons_self)
    obtain ⟨db'', completes, hok, h'', hon, new, hnew⟩ :=
      h.persists now hc hf hname hi (hclear (i, f) List.mem_cons_self)
    obtain ⟨db₁, hall, h₁, hon₁, new₁, hnew₁⟩ := ih h''
      (fun x hx => hq x (List.mem_cons_of_mem _ hx))
      (fun x hx => hclear x (List.mem_cons_of_mem _ hx))
    refine ⟨db₁, ?_, h₁, ?_, new ++ new₁, by rw [hnew₁, hnew, List.append_assoc]⟩
    · simp only [FxVol.replayAll, hok]
      exact hall
    · intro x hx
      rcases List.mem_cons.mp hx with rfl | hx
      · exact hon.append hnew₁
      · exact hon₁ x hx

/-- The first entry of a list with a property, if any has it. -/
theorem first_with {α : Type*} (P : α → Prop) (l : List α) : (∀ x ∈ l, ¬ P x) ∨
    ∃ init x rest, l = init ++ x :: rest ∧ (∀ y ∈ init, ¬ P y) ∧ P x := by
  induction l with
  | nil => exact .inl (by simp)
  | cons a l ih =>
    by_cases ha : P a
    · exact .inr ⟨[], a, l, rfl, by simp, ha⟩
    · rcases ih with hall | ⟨init, x, rest, rfl, hinit, hx⟩
      · exact .inl (List.forall_mem_cons.mpr ⟨ha, hall⟩)
      · exact .inr ⟨a :: init, x, rest, rfl, List.forall_mem_cons.mpr ⟨ha, hinit⟩, hx⟩

/-- A replay processes its queue up to the first clash, and none of what is behind that. -/
theorem replayFills_cases (hu : (db.fills.map (·.ibExecutionId)).Nodup)
    (hc : ∀ f ∈ fills, ∀ g ∈ fills, f.execId = g.execId → f = g) :
    ∃ db₁ processed, Replaying db fills db₁ ∧ (∀ x ∈ processed, OnRow db₁ x.1 x.2) ∧
      ((processed = replayQueue db fills ∧ (∀ x ∈ processed, ¬ Clashes db x) ∧
        replayFills db fills now = (db₁, [])) ∨
      ∃ x rest, replayQueue db fills = processed ++ x :: rest ∧
        (∀ y ∈ processed, ¬ Clashes db y) ∧ Clashes db x ∧
        replayFills db fills now = (db₁, rest.map (·.2) ++ spotFills fills)) := by
  have hstart : Replaying db fills db := .refl hu
  rcases first_with (Clashes db) (replayQueue db fills) with
    hclear | ⟨init, x, rest, hq, hclear, hx⟩
  · obtain ⟨db₁, hall, h₁, hon, _⟩ := hstart.replayAll now hc (fun _ hx => hx) hclear
    refine ⟨db₁, _, h₁, hon, .inl ⟨rfl, hclear, ?_⟩⟩
    rw [replayFills, hall]
  · have hmem : ∀ y ∈ init, y ∈ replayQueue db fills := by
      intro y hy
      rw [hq]
      exact List.mem_append_left _ hy
    obtain ⟨db₁, hfirst, h₁, hon, _⟩ := hstart.replayAll now hc hmem hclear
    refine ⟨db₁, init, h₁, hon, .inr ⟨x, rest, hq, hclear, hx, ?_⟩⟩
    rw [replayFills, hq, replayAll_append hfirst]
    simp only [FxVol.replayAll, h₁.raises now hx]

end Replaying

section Outcome
variable {placed : List IbOrder} {fills : List IbFill} {db db' db₁ : Db} (now : Instant)

/-- Every execution of a leg is in the queue, under the row its reference names. -/
theorem queued {f : IbFill} {leg : ℕ} (hr : Reconnected placed db fills) (hf : f ∈ fills)
    (hl : legOf placed f = some leg) :
    ∃ i : ℕ, (i, f) ∈ replayQueue db fills ∧ namedOrder f = some (i : ℤ) := by
  obtain ⟨p, hp, hname⟩ := legOf_named hl
  exact ⟨p.namedOrder, mem_replayQueue.mpr ⟨hf, hname, hr.rows p hp⟩, hname⟩

/-- Where the executions that do not clash are on the rows they name, each execution of a leg
is on its row exactly when the condition on the legs held. -/
theorem onLegs_iff (hr : Reconnected placed db fills) (h : Replaying db fills db₁)
    (hon : ∀ x ∈ replayQueue db fills, ¬ Clashes db x → OnRow db₁ x.1 x.2) :
    (∀ f ∈ fills, ∀ leg, legOf placed f = some leg → OnRow db₁ leg f) ↔
    ∀ f ∈ fills, ∀ leg ∈ legOf placed f,
      if db.Booked (.ib f.execId) then OnRow db leg f else namedOrder f = some (leg : ℤ) := by
  apply forall₂_congr
  intro f hf
  apply forall₂_congr
  intro leg hl
  by_cases hb : db.Booked (.ib f.execId)
  · rw [if_pos hb]
    exact h.onRow_old hb
  · rw [if_neg hb]
    obtain ⟨i, hmem, hname⟩ := queued hr hf hl
    have hi : OnRow db₁ i f := hon (i, f) hmem fun hclash => hb hclash.1
    rw [hname, Option.some.injEq, Int.natCast_inj]
    constructor
    · exact hi.unique h.unique
    · rintro rfl
      exact hi

/-- Nothing is behind the first clash exactly when no clash has anything behind it. -/
theorem clear_iff {init rest : List (ℕ × IbFill)} {x : ℕ × IbFill}
    (hq : replayQueue db fills = init ++ x :: rest) (hinit : ∀ y ∈ init, ¬ Clashes db y)
    (hx : Clashes db x) : rest.map (·.2) ++ spotFills fills = [] ↔
      ∀ y ∈ followed db fills, ¬ Clashes db y := by
  rw [List.append_eq_nil_iff, List.map_eq_nil_iff]
  constructor
  · rintro ⟨rfl, hspot⟩
    rwa [followed, if_pos hspot, hq, List.dropLast_concat]
  · intro hclear
    have hspot : spotFills fills = [] := by
      by_contra hspot
      rw [followed, if_neg hspot, hq] at hclear
      exact hclear x (by simp) hx
    rw [followed, if_pos hspot, hq] at hclear
    refine ⟨?_, hspot⟩
    by_contra hrest
    rw [List.dropLast_append_cons, List.dropLast_cons_of_ne_nil hrest] at hclear
    exact hclear x (by simp) hx

/-- The replay of `fills` on `db` is attributed exactly when they are attributable. -/
theorem replayFills_attributed_iff (hr : Reconnected placed db fills)
    (hu : (db.fills.map (·.ibExecutionId)).Nodup) :
    Attributed placed fills (replayFills db fills now) ↔ Attributable placed db fills := by
  obtain ⟨db₁, processed, h₁, hon, hcases⟩ := replayFills_cases now hu hr.coherent
  have houtcome (unprocessed : List IbFill) :
      Attributed placed fills (db₁, unprocessed) ↔ unprocessed = [] ∧
        ∀ f ∈ fills, ∀ leg, legOf placed f = some leg → OnRow db₁ leg f := by
    simp only [Attributed, onRow_filter h₁.unique]
  rcases hcases with ⟨hall, hclear, hres⟩ | ⟨x, rest, hq, hclear, hx, hres⟩
  · rw [hres, houtcome, onLegs_iff hr h₁ fun y hy _ => hon y (hall ▸ hy)]
    have hfollowed : ∀ y ∈ followed db fills, ¬ Clashes db y := by
      intro y hy
      apply hclear
      rw [hall]
      unfold followed at hy
      split_ifs at hy
      · exact List.dropLast_subset _ hy
      · exact hy
    exact ⟨fun h => ⟨h.2, hfollowed⟩, fun h => ⟨rfl, h.legs⟩⟩
  · have hlegs (hnil : rest.map (·.2) ++ spotFills fills = []) := by
      have hrest : rest = [] := List.map_eq_nil_iff.mp (List.append_eq_nil_iff.mp hnil).1
      apply onLegs_iff hr h₁
      intro y hy hyclear
      rw [hq, hrest] at hy
      rcases List.mem_append.mp hy with hy | hy
      · exact hon y hy
      · rw [List.mem_singleton.mp hy] at hyclear
        exact absurd hx hyclear
    rw [hres, houtcome]
    constructor
    · rintro ⟨hnil, hall⟩
      exact ⟨(hlegs hnil).mp hall, (clear_iff hq hclear hx).mp hnil⟩
    · rintro ⟨hcond, hfollowed⟩
      have hnil := (clear_iff hq hclear hx).mpr hfollowed
      exact ⟨hnil, (hlegs hnil).mpr hcond⟩

/-- Attaching the handlers first changes neither the queue nor the rows of the executions. -/
theorem attributable_congr (hlen : db'.orders.length = db.orders.length)
    (hfills : db'.fills = db.fills) :
    Attributable placed db' fills ↔ Attributable placed db fills := by
  have hq : replayQueue db' fills = replayQueue db fills := by
    simp only [replayQueue, knownOrder, hlen]
  have hon : ∀ i f, OnRow db' i f ↔ OnRow db i f := by
    intro i f
    rw [onRow_iff, onRow_iff, hfills]
  have hb : ∀ id, db'.Booked id ↔ db.Booked id := by
    intro id
    rw [Db.Booked, Db.Booked, hfills]
  have hcl : ∀ x, Clashes db' x ↔ Clashes db x := by
    intro x
    rw [Clashes, Clashes, hb, hon]
  constructor
  · rintro ⟨hlegs, hclear⟩
    simp only [hb, hon] at hlegs
    simp only [followed, hq, hcl] at hclear
    exact ⟨hlegs, hclear⟩
  · rintro ⟨hlegs, hclear⟩
    refine ⟨?_, ?_⟩
    · simp only [hb, hon]
      exact hlegs
    · simp only [followed, hq, hcl]
      exact hclear

/-- A reconnect puts every replayed execution on the row of its leg exactly when the
executions are attributable. -/
theorem replay_attribution (hdb : Reachable db) (hr : Reconnected placed db fills)
    (openTrades : List IbTrade) :
    Attributed placed fills (rehydrateSession db openTrades fills now) ↔
      Attributable placed db fills := by
  have hlen := reconnect_length db openTrades now
  have hfills := reconnect_fills db openTrades now
  have hr' : Reconnected placed (attachOptionHandlers db openTrades now) fills :=
    ⟨fun p hp => hlen ▸ hr.rows p hp, hr.coherent⟩
  have hu : ((attachOptionHandlers db openTrades now).fills.map (·.ibExecutionId)).Nodup := by
    rw [hfills]
    exact hdb.wellFormed.fillsOk.unique
  rw [rehydrateSession, replayFills_attributed_iff now hr' hu, attributable_congr hlen hfills]

end Outcome

/-- Two legs placed as one BAG, under the reference of the first. -/
def placedCombo : List IbOrder := [⟨0, 0, [(1, 0), (2, 1)]⟩]

def comboExecution (execId : String) (conId : ℕ) : IbFill :=
  { execution execId "BOT" 4 none with orderRef := some (orderRef 0 0), conId := conId }

def comboLive : List Event :=
  [.submitPreview [callLeg .buy 10, callLeg .sell 10] 0, .execution 0 (comboExecution "a" 1) 1]

def comboReplay : List IbFill := [comboExecution "a" 1, comboExecution "b" 1]

/-- Executions of the leg the reference names, one of them persisted before. -/
theorem replay_attribution_comboReplay :
    Attributed placedCombo comboReplay
      (rehydrateSession (comboLive.foldl step Db.empty) [] comboReplay 5) :=
  (replay_attribution 5 (reachable_events comboLive)
    ⟨by decide +kernel, by decide +kernel⟩ []).mpr ⟨by decide +kernel, by decide +kernel⟩

/-- An execution of the second leg is replayed onto the first. -/
theorem replay_misattributed : ¬ ∀ placed db fills openTrades now, Reachable db →
    Reconnected placed db fills → Attributed placed fills (rehydrateSession db openTrades fills now)
    := by
  intro h
  have hout := (h placedCombo (comboLive.foldl step Db.empty) [comboExecution "c" 2] [] 5
    (reachable_events comboLive) ⟨by decide +kernel, by decide +kernel⟩).2
  have hrow := hout (comboExecution "c" 2) List.mem_cons_self 1 (by decide +kernel)
  revert hrow
  decide +kernel

end FxVol
