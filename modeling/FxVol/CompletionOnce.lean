import FxVol.CascadeCalls
import FxVol.RowUpdates

/-!
# Structures complete once

A structure whose orders are all filled is completed by the cascade of its last fill, and a
closing structure then closes the position of its alert.  What is due is done or under way,
whatever the order of the fills and of the cascades; a crash that drops a cascade which is due,
or two finalisers at once, break it.
-/
namespace FxVol

open RowUpdates

def EntryFilled (db : Db) (s : ℕ) : Prop :=
  (∃ o ∈ db.orders, o.structureId = s ∧ o.orderRole = .entry) ∧
    ∀ o ∈ db.orders, o.structureId = s → o.orderRole = .entry → o.state = .filled

/-- The structure has closing legs only. -/
def ClosingOnly (db : Db) (s : ℕ) : Prop :=
  ∀ o ∈ db.orders, o.structureId = s → o.orderRole = .closing

def ClosingFilled (db : Db) (s : ℕ) : Prop :=
  (∃ o ∈ db.orders, o.structureId = s) ∧
    ∀ o ∈ db.orders, o.structureId = s → o.orderRole = .closing ∧ o.state = .filled

/-- One position is booked for a filled structure; the position of the alert that a filled closing
structure is linked to is closed, by one commit. -/
structure CompletesOnce (w : CascadeWorld) (s : ℕ) : Prop where
  entry : EntryFilled w.db s → w.db.bookedPositions.countP (·.structureId = s) = 1 ∧
    w.db.fullyFilled s
  closing : ClosingFilled w.db s → ∀ a ∈ w.db.exitAlerts, a.closingStructureId = some s →
    w.db.positionClosed a.positionId ∧ w.closed.countP (·.1 = a.positionId) = 1

def Db.isBooked (db : Db) (s : ℕ) : Prop := s ∈ db.bookedPositions.map (·.structureId)

inductive CascadeMove (w : CascadeWorld) (s : ℕ) :
    CascadePc → CascadeWorld → Option CascadePc → Prop
  | done (h : w.db.structures[s]? = none ∨ w.db.fullyFilled s) : CascadeMove w s .called w none
  | check : CascadeMove w s .called w (some .checked)
  | unfilled (hentry : ¬ EntryFilled w.db s) (hclosing : ¬ ClosingFilled w.db s) :
      CascadeMove w s .checked w none
  | count (orders : List StructureOrder) (now : Instant)
      (horders : orders = primaryOrders ((w.db.ordersOf s).map (·.1)))
      (hopening : ∃ o ∈ w.db.orders, o.structureId = s ∧ o.orderRole ≠ .closing) :
      CascadeMove w s .checked w (some (.counting orders now))
  | complete (orders : List StructureOrder) (now : Instant)
      (horders : orders = primaryOrders ((w.db.ordersOf s).map (·.1)))
      (hsome : ∃ o ∈ w.db.orders, o.structureId = s) (hclosing : ClosingOnly w.db s) :
      CascadeMove w s .checked w (some (.completing orders now))
  | counted (orders : List StructureOrder) (now : Instant) (existing : Bool)
      (h : existing → w.db.isBooked s) :
      CascadeMove w s (.counting orders now) w (some (.booking orders now existing))
  | lost (pc : CascadePc) (h : w.db.structures[s]? = none) : CascadeMove w s pc w none
  | raised (orders : List StructureOrder) (now : Instant) (h : w.db.isBooked s) :
      CascadeMove w s (.booking orders now false) w none
  | rebooked (orders : List StructureOrder) (now : Instant) (r : TradeStructure)
      (hr : w.db.structures[s]? = some r) :
      CascadeMove w s (.booking orders now true)
        { w with db := w.db.setStructure s (r.completed orders now) } none
  | booked (orders : List StructureOrder) (now : Instant) (r : TradeStructure)
      (hr : w.db.structures[s]? = some r) (hfree : ¬ w.db.isBooked s) :
      CascadeMove w s (.booking orders now false)
        { w with
          db := bookPosition (w.db.setStructure s (r.completed orders now)) s
            (r.completed orders now) now } none
  | completed (orders : List StructureOrder) (now : Instant) (r : TradeStructure)
      (hr : w.db.structures[s]? = some r) :
      CascadeMove w s (.completing orders now)
        { w with db := w.db.setStructure s (r.completed orders now) } (some .finalising)
  | nothing (h : w.db.fullyFilled s = false ∨
        (∀ a ∈ w.db.exitAlerts, a.closingStructureId ≠ some s) ∨
        ∃ (k : ℕ) (a : ExitAlert), w.db.exitAlerts[k]? = some a ∧ a.closingStructureId = some s ∧
          (w.db.bookedPositions[a.positionId]? = none ∨ w.db.positionClosed a.positionId)) :
      CascadeMove w s .finalising w none
  | found (k : ℕ) (a : ExitAlert) (stamp : CloseStamp) (ha : w.db.exitAlerts[k]? = some a)
      (hlink : a.closingStructureId = some s) (hopen : ¬ w.db.positionClosed a.positionId) :
      CascadeMove w s .finalising w (some (.closing k a.positionId stamp))
  | close (k p : ℕ) (stamp : CloseStamp) :
      CascadeMove w s (.closing k p stamp)
        { w with db := closePosition w.db k p, closed := w.closed ++ [(p, stamp)] } none

section Moves
variable {w w' : CascadeWorld} {s : ℕ} {pc : CascadePc} {next : Option CascadePc}

theorem isBooked_iff {db : Db} {s : ℕ} :
    db.isBooked s ↔ (db.bookedPositions.any fun p => p.structureId = s) = true := by
  simp [Db.isBooked]

/-- The cascade goes on where the entry legs, or the legs of a closing structure, are filled. -/
theorem unfilled_of_primary {db : Db} (h : primaryOrders ((db.ordersOf s).map (·.1)) = [] ∨
      ¬ ((primaryOrders ((db.ordersOf s).map (·.1))).all fun o => o.state = .filled)) :
    ¬ EntryFilled db s ∧ ¬ ClosingFilled db s := by
  rw [Db.ordersOf_rows] at h
  constructor
  · rintro ⟨⟨o, ho, hsid, hrole⟩, hfilled⟩
    have hprimary : primaryOrders (db.orders.filter fun o => o.structureId = s) =
        (db.orders.filter fun o => o.structureId = s).filter fun o => o.orderRole = .entry := by
      rw [primaryOrders, if_neg]
      simp only [List.all_eq_true, List.mem_filter, decide_eq_true_eq, not_forall]
      exact ⟨o, ⟨ho, hsid⟩, by rw [hrole]; decide⟩
    rw [hprimary] at h
    rcases h with h | h
    · have hmem : o ∈ (db.orders.filter fun o => o.structureId = s).filter fun o =>
          o.orderRole = .entry := by
        simp [ho, hsid, hrole]
      rw [h] at hmem
      cases hmem
    · apply h
      simp only [List.all_eq_true, List.mem_filter, decide_eq_true_eq]
      exact fun o ho => hfilled o ho.1.1 ho.1.2 ho.2
  · rintro ⟨⟨o, ho, hsid⟩, hfilled⟩
    have hprimary : primaryOrders (db.orders.filter fun o => o.structureId = s) =
        (db.orders.filter fun o => o.structureId = s).filter fun o => o.orderRole = .closing := by
      rw [primaryOrders, if_pos]
      simp only [List.all_eq_true, List.mem_filter, decide_eq_true_eq]
      exact fun o ho => (hfilled o ho.1 ho.2).1
    rw [hprimary] at h
    rcases h with h | h
    · have hmem : o ∈ (db.orders.filter fun o => o.structureId = s).filter fun o =>
          o.orderRole = .closing := by
        simp [ho, hsid, (hfilled o ho hsid).1]
      rw [h] at hmem
      cases hmem
    · apply h
      simp only [List.all_eq_true, List.mem_filter, decide_eq_true_eq]
      exact fun o ho => (hfilled o ho.1.1 ho.1.2).2

theorem cascadeStep_move (hedgeCost : ℚ) (now : Instant) (w : CascadeWorld) (s : ℕ)
    (pc : CascadePc) : CascadeMove w s pc (cascadeStep hedgeCost now w s pc).1
      (cascadeStep hedgeCost now w s pc).2 := by
  cases pc with
  | called =>
    simp only [cascadeStep]
    split
    · next h => exact .done (.inl h)
    · next r hr =>
      split_ifs with hfull
      · exact .done (.inr (by simp [Db.fullyFilled, hr, hfull]))
      · exact .check
  | checked =>
    simp only [cascadeStep]
    split_ifs with hprimary hclosing
    · obtain ⟨hentry, hcl⟩ := unfilled_of_primary hprimary
      exact .unfilled hentry hcl
    · rw [Db.ordersOf_rows] at hclosing hprimary
      simp only [List.all_eq_true, List.mem_filter, decide_eq_true_eq] at hclosing
      refine .complete _ _ rfl ?_ fun o ho hsid => hclosing o ⟨ho, hsid⟩
      obtain ⟨o, ho⟩ := List.exists_mem_of_ne_nil _ (not_or.mp hprimary).1
      have hmem := List.mem_of_mem_filter (List.mem_of_mem_filter ho)
      exact ⟨o, hmem, of_decide_eq_true (List.mem_filter.mp (List.mem_of_mem_filter ho)).2⟩
    · rw [Db.ordersOf_rows] at hclosing
      simp only [List.all_eq_true, List.mem_filter, decide_eq_true_eq, not_forall] at hclosing
      obtain ⟨o, ⟨ho, hsid⟩, hrole⟩ := hclosing
      exact .count _ _ rfl ⟨o, ho, hsid, hrole⟩
  | counting orders at_ => exact .counted orders at_ _ isBooked_iff.mpr
  | booking orders at_ existing =>
    simp only [cascadeStep]
    split
    · next h => exact .lost _ h
    · next r hr =>
      cases existing with
      | true => exact .rebooked orders at_ r hr
      | false =>
        simp only [Bool.false_eq_true, if_false]
        split_ifs with hany
        · exact .raised orders at_ (isBooked_iff.mpr hany)
        · exact .booked orders at_ r hr fun hbooked => hany (isBooked_iff.mp hbooked)
  | completing orders at_ =>
    simp only [cascadeStep]
    split
    · next h => exact .lost _ h
    · next r hr => exact .completed orders at_ r hr
  | finalising =>
    simp only [cascadeStep]
    split
    · next h => exact .lost _ h
    · next r hr =>
      split_ifs with hfull
      · exact .nothing (.inl (by simp [Db.fullyFilled, hr, hfull]))
      · split
        · next halert =>
          refine .nothing (.inr (.inl ?_))
          intro a ha hlink
          obtain ⟨k, hk⟩ := List.mem_iff_getElem?.mp ha
          have hmem : (a, k) ∈ w.db.exitAlerts.zipIdx := List.mem_zipIdx_iff_getElem?.mpr hk
          exact List.find?_eq_none.mp halert _ hmem (decide_eq_true hlink)
        · next a k halert =>
          have hk : w.db.exitAlerts[k]? = some a :=
            List.mem_zipIdx_iff_getElem?.mp (List.mem_of_find?_eq_some halert)
          have hlink : a.closingStructureId = some s := by
            simpa using List.find?_some halert
          split
          · next hpos => exact .nothing (.inr (.inr ⟨k, a, hk, hlink, .inl hpos⟩))
          · next pos hpos =>
            split_ifs with hclosed
            · refine .nothing (.inr (.inr ⟨k, a, hk, hlink, .inr ?_⟩))
              simp [Db.positionClosed, hpos, hclosed]
            · exact .found k a _ hk hlink (by simp [Db.positionClosed, hpos, hclosed])
  | closing k p stamp => exact .close k p stamp

end Moves

def CascadePc.finalises : CascadePc → Bool
  | .finalising | .closing .. => true
  | _ => false

def CascadePc.Holds (db : Db) (s : ℕ) : CascadePc → Prop
  | .called | .checked => True
  | .counting .. => ∃ o ∈ db.orders, o.structureId = s ∧ o.orderRole ≠ .closing
  | .booking _ _ existing => (∃ o ∈ db.orders, o.structureId = s ∧ o.orderRole ≠ .closing) ∧
      (existing → db.isBooked s)
  | .completing .. => (∃ o ∈ db.orders, o.structureId = s) ∧ ClosingOnly db s
  | .finalising => ClosingOnly db s ∧ db.fullyFilled s
  | .closing _ p _ => ClosingOnly db s ∧ db.fullyFilled s ∧ p < db.bookedPositions.length ∧
      ∀ a ∈ db.exitAlerts, a.closingStructureId = some s → a.positionId = p

/-- Alerts are about booked positions, and a closing structure has one alert at most. -/
structure AlertsLinked (db : Db) : Prop where
  positions : ∀ a ∈ db.exitAlerts, a.positionId < db.bookedPositions.length
  known : ∀ a ∈ db.exitAlerts, ∀ s ∈ a.closingStructureId, s < db.structures.length
  once : ∀ (k k' s : ℕ) (a a' : ExitAlert), db.exitAlerts[k]? = some a →
    db.exitAlerts[k']? = some a' → a.closingStructureId = some s → a'.closingStructureId = some s →
      k = k'

/-- The tables of the cascade agree: what is booked is fully filled, and conversely. -/
structure TradesConsistent (db : Db) : Prop where
  known : ∀ o ∈ db.orders, o.structureId < db.structures.length
  once : (db.bookedPositions.map (·.structureId)).Nodup
  filled : ∀ s, db.isBooked s → db.fullyFilled s
  booked : ∀ s, db.fullyFilled s → (∃ o ∈ db.orders, o.structureId = s ∧ o.orderRole = .entry) →
    db.isBooked s
  alerts : AlertsLinked db

/-- What is due is done or under way. -/
structure CascadesDue (w : CascadeWorld) : Prop where
  tables : TradesConsistent w.db
  holds : ∀ s pc, (s, pc) ∈ w.tasks → pc.Holds w.db s
  entry : ∀ s, EntryFilled w.db s → w.db.isBooked s ∨ ∃ pc, (s, pc) ∈ w.tasks
  closing : ∀ s, ClosingFilled w.db s → ∀ a ∈ w.db.exitAlerts, a.closingStructureId = some s →
    w.db.positionClosed a.positionId ∨ ∃ pc, (s, pc) ∈ w.tasks
  finalised : ∀ s, w.db.fullyFilled s → ClosingOnly w.db s → ∀ a ∈ w.db.exitAlerts,
    a.closingStructureId = some s →
      w.db.positionClosed a.positionId ∨ ∃ pc, pc.finalises ∧ (s, pc) ∈ w.tasks

/-- A position is closed by one commit. -/
def ClosesOnce (w : CascadeWorld) : Prop :=
  ∀ p, w.closed.countP (·.1 = p) = if w.db.positionClosed p then 1 else 0

structure CascadeInvariant (w : CascadeWorld) : Prop extends CascadesDue w where
  closes : ClosesOnce w

/-- Some structure is owed its position, or the close of one. -/
def Owed (w : CascadeWorld) : Prop :=
  (∃ o ∈ w.db.orders, EntryFilled w.db o.structureId ∧ ¬ w.db.isBooked o.structureId) ∨
    ∃ a ∈ w.db.exitAlerts, ∃ s ∈ a.closingStructureId, ¬ w.db.positionClosed a.positionId ∧
      (ClosingFilled w.db s ∨ ClosingOnly w.db s ∧ w.db.fullyFilled s)

def CascadePc.StillOpen (db : Db) : CascadePc → Prop
  | .closing _ p _ => ¬ db.positionClosed p
  | _ => True

def DropsNothing (w : CascadeWorld) : CascadeEvent → Prop
  | .book e => Trades w.db e
  | .raiseAlert positionId _ => positionId < w.db.bookedPositions.length
  | .run .. => True
  | .crash => ¬ Owed w

/-- Crashes drop no cascade that is owed, and a finaliser commits before another has closed its
position. -/
def CompletesInPeace (w : CascadeWorld) : CascadeEvent → Prop
  | .book e => Trades w.db e
  | .raiseAlert positionId _ => positionId < w.db.bookedPositions.length
  | .run k _ _ => ∀ task ∈ w.tasks[k]?, task.2.StillOpen w.db
  | .crash => ¬ Owed w

section Book
variable {w : CascadeWorld} {db : Db} {e : Event} {s : ℕ}

theorem entryFilled_step (he : Trades db e)
    (hk : ∀ o ∈ db.orders, o.structureId < db.structures.length)
    (h : EntryFilled (step db e) s) : EntryFilled db s ∨ s ∈ cascadesOf db e := by
  obtain ⟨⟨o', ho', hsid, hrole⟩, hall⟩ := h
  have hlt := filled_known hk ho' (hall o' ho' hsid hrole)
  obtain ⟨i, o, ho, _, hsid', hrole'⟩ := step_oldRow he ho' hlt
  have hentry : ∃ o ∈ db.orders, o.structureId = s ∧ o.orderRole = .entry :=
    ⟨o, List.mem_of_getElem? ho, hsid'.symm.trans hsid, hrole'.symm.trans hrole⟩
  exact (filled_or_called he (p := (· = .entry)) hall).imp (fun hold => ⟨hentry, hold⟩) id

theorem closingOnly_step (he : Trades db e) (hs : s < db.structures.length) :
    ClosingOnly (step db e) s ↔ ClosingOnly db s := by
  constructor
  · intro h o ho hsid
    obtain ⟨o', ho', hsid', hrole⟩ := step_keptRow e ho
    exact hrole.symm.trans (h o' ho' (hsid'.trans hsid))
  · intro h o' ho' hsid
    obtain ⟨i, o, ho, _, hsid', hrole⟩ := step_oldRow he ho' (hsid ▸ hs)
    exact hrole.trans (h o (List.mem_of_getElem? ho) (hsid'.symm.trans hsid))

theorem closingFilled_step (he : Trades db e)
    (hk : ∀ o ∈ db.orders, o.structureId < db.structures.length)
    (h : ClosingFilled (step db e) s) : ClosingFilled db s ∨ s ∈ cascadesOf db e := by
  obtain ⟨⟨o', ho', hsid⟩, hall⟩ := h
  have hlt := filled_known hk ho' (hall o' ho' hsid).2
  obtain ⟨i, o, ho, _, hsid', _⟩ := step_oldRow he ho' hlt
  have honly : ClosingOnly db s :=
    (closingOnly_step he (hsid ▸ hlt)).mp fun o ho hsid => (hall o ho hsid).1
  rcases filled_or_called he (p := fun _ => True) fun o ho hsid _ => (hall o ho hsid).2 with
    hold | hcalled
  · refine .inl ⟨⟨o, List.mem_of_getElem? ho, hsid'.symm.trans hsid⟩, ?_⟩
    exact fun o ho hsid => ⟨honly o ho hsid, hold o ho hsid trivial⟩
  · exact .inr hcalled

theorem fullyFilled_known (h : db.fullyFilled s) : s < db.structures.length := by
  by_contra hge
  rw [Db.fullyFilled, List.getElem?_eq_none (by omega)] at h
  cases h

/-- An alert row after a transaction: the same, or linked to a new structure. -/
theorem Relinks.row {db' : Db} (h : Relinks db db') {j : ℕ} {a' : ExitAlert}
    (ha' : db'.exitAlerts[j]? = some a') : ∃ a, db.exitAlerts[j]? = some a ∧
      a'.positionId = a.positionId ∧ (a' = a ∨
        a'.closingStructureId = some db.structures.length ∧
          db.structures.length < db'.structures.length) := by
  rcases h with h | ⟨hlen, k, g, h, hg⟩
  · rw [h] at ha'
    exact ⟨a', ha', rfl, .inl rfl⟩
  · rw [h] at ha'
    by_cases hk : j = k
    · subst hk
      rw [List.getElem?_modify_eq] at ha'
      obtain ⟨a, ha, rfl⟩ := Option.map_eq_some_iff.mp ha'
      exact ⟨a, ha, (hg a).1, .inr ⟨(hg a).2, hlen⟩⟩
    · rw [List.getElem?_modify_ne _ _ (Ne.symm hk)] at ha'
      exact ⟨a', ha', rfl, .inl rfl⟩

/-- An alert linked to an older structure was so before. -/
theorem Relinks.old {db' : Db} (h : Relinks db db') {j : ℕ} {a' : ExitAlert}
    (ha' : db'.exitAlerts[j]? = some a') (hlink : a'.closingStructureId = some s)
    (hs : s < db.structures.length) : db.exitAlerts[j]? = some a' := by
  obtain ⟨a, ha, _, rfl | ⟨hnew, _⟩⟩ := h.row ha'
  · exact ha
  · rw [hlink] at hnew
    have heq := Option.some.inj hnew
    omega

/-- One row is linked to the new structure. -/
theorem Relinks.new_once {db' : Db} (h : Relinks db db') (ho : AlertsLinked db) {j j' : ℕ}
    {a a' : ExitAlert} (ha : db'.exitAlerts[j]? = some a) (ha' : db'.exitAlerts[j']? = some a')
    (hlink : a.closingStructureId = some db.structures.length)
    (hlink' : a'.closingStructureId = some db.structures.length) : j = j' := by
  have unlinked {i : ℕ} {b : ExitAlert} (hb : db.exitAlerts[i]? = some b)
      (hl : b.closingStructureId = some db.structures.length) : False := by
    have hlt := ho.known b (List.mem_of_getElem? hb) _ hl
    omega
  rcases h with h | ⟨_, k, g, h, _⟩
  · rw [h] at ha
    exact (unlinked ha hlink).elim
  · rw [h] at ha ha'
    have at_k {i : ℕ} {b : ExitAlert} (hb : (db.exitAlerts.modify k g)[i]? = some b)
        (hl : b.closingStructureId = some db.structures.length) : i = k := by
      by_contra hne
      rw [List.getElem?_modify_ne _ _ (Ne.symm hne)] at hb
      exact unlinked hb hl
    rw [at_k ha hlink, at_k ha' hlink']

theorem TradeFrame.positions_length {db' : Db} (h : TradeFrame db db') :
    db'.bookedPositions.length = db.bookedPositions.length := by
  simpa using congrArg List.length h.positions

theorem AlertsLinked.frame {db' : Db} (h : AlertsLinked db) (hf : TradeFrame db db') :
    AlertsLinked db' := by
  refine ⟨?_, ?_, ?_⟩
  · intro a' ha'
    obtain ⟨j, hj⟩ := List.mem_iff_getElem?.mp ha'
    obtain ⟨a, ha, hpos, _⟩ := hf.alerts.row hj
    rw [hf.positions_length, hpos]
    exact h.positions a (List.mem_of_getElem? ha)
  · intro a' ha' s hs
    obtain ⟨j, hj⟩ := List.mem_iff_getElem?.mp ha'
    obtain ⟨a, ha, _, rfl | ⟨hnew, hlt⟩⟩ := hf.alerts.row hj
    · exact (h.known a' (List.mem_of_getElem? ha) s hs).trans_le hf.length
    · obtain rfl := Option.some.inj (hnew.symm.trans hs)
      exact hlt
  · intro k k' s a a' ha ha' hlink hlink'
    by_cases hs : s < db.structures.length
    · exact h.once k k' s a a' (hf.alerts.old ha hlink hs) (hf.alerts.old ha' hlink' hs) hlink
        hlink'
    · -- only the row linked just now names a structure that was not there
      have hnew : s = db.structures.length := by
        obtain ⟨b, hb, _, rfl | ⟨hnew, _⟩⟩ := hf.alerts.row ha
        · exact absurd (h.known a (List.mem_of_getElem? hb) s hlink) hs
        · exact Option.some.inj (hlink.symm.trans hnew)
      subst hnew
      exact hf.alerts.new_once h ha ha' hlink hlink'

theorem TradeFrame.isBooked {db' : Db} (h : TradeFrame db db') (s : ℕ) :
    db'.isBooked s ↔ db.isBooked s := by
  rw [Db.isBooked, h.positions, Db.isBooked]

theorem TradesConsistent.step (h : TradesConsistent db) (he : Trades db e) :
    TradesConsistent (FxVol.step db e) := by
  have hf := step_tradeFrame he
  refine ⟨?_, ?_, ?_, ?_, h.alerts.frame hf⟩
  · intro o' ho'
    obtain ⟨i, hi⟩ := List.mem_iff_getElem?.mp ho'
    rcases step_row_cases hi with ⟨o, ho, hchange⟩ | ⟨hnew, -⟩
    · rw [leg_structureId hchange.leg]
      exact (h.known o (List.mem_of_getElem? ho)).trans_le hf.length
    · obtain ⟨hsid, hlt⟩ := step_newStructure he hnew hi
      omega
  · rw [hf.positions]
    exact h.once
  · intro s hs
    rw [hf.structures]
    exact h.filled s ((hf.isBooked s).mp hs)
  · rintro s hs ⟨o', ho', hsid, hrole⟩
    rw [hf.structures] at hs
    have hlt := fullyFilled_known hs
    obtain ⟨i, o, ho, _, hsid', hrole'⟩ := step_oldRow he ho' (hsid ▸ hlt)
    exact (hf.isBooked s).mpr (h.booked s hs ⟨o, List.mem_of_getElem? ho, hsid'.symm.trans hsid,
      hrole'.symm.trans hrole⟩)

theorem CascadePc.Holds.step {pc : CascadePc} (h : pc.Holds db s) (ht : TradesConsistent db)
    (he : Trades db e) : pc.Holds (FxVol.step db e) s := by
  have hf := step_tradeFrame he
  have only (hfull : db.fullyFilled s) (hclosing : ClosingOnly db s) :
      ClosingOnly (FxVol.step db e) s ∧ (FxVol.step db e).fullyFilled s :=
    ⟨(closingOnly_step he (fullyFilled_known hfull)).mpr hclosing, hf.structures s ▸ hfull⟩
  have opening (hopening : ∃ o ∈ db.orders, o.structureId = s ∧ o.orderRole ≠ .closing) :
      ∃ o ∈ (FxVol.step db e).orders, o.structureId = s ∧ o.orderRole ≠ .closing := by
    obtain ⟨o, ho, hsid, hrole⟩ := hopening
    obtain ⟨o', ho', hsid', hrole'⟩ := step_keptRow e ho
    exact ⟨o', ho', hsid'.trans hsid, hrole' ▸ hrole⟩
  cases pc with
  | called | checked => trivial
  | counting orders now => exact opening h
  | booking orders now existing =>
    exact ⟨opening h.1, fun hex => (hf.isBooked s).mpr (h.2 hex)⟩
  | completing orders now =>
    obtain ⟨⟨o, ho, hsid⟩, hclosing⟩ := h
    obtain ⟨o', ho', hsid', _⟩ := step_keptRow e ho
    have hlt : s < db.structures.length := hsid ▸ ht.known o ho
    exact ⟨⟨o', ho', hsid'.trans hsid⟩, (closingOnly_step he hlt).mpr hclosing⟩
  | finalising => exact only h.2 h.1
  | closing k p stamp =>
    obtain ⟨hclosing, hfull, hp, halerts⟩ := h
    obtain ⟨hclosing', hfull'⟩ := only hfull hclosing
    refine ⟨hclosing', hfull', hf.positions_length.symm ▸ hp, ?_⟩
    intro a ha hlink
    obtain ⟨j, hj⟩ := List.mem_iff_getElem?.mp ha
    exact halerts a (List.mem_of_getElem? (hf.alerts.old hj hlink (fullyFilled_known hfull))) hlink

/-- A transaction of the book calls the cascades that it makes due. -/
theorem CascadesDue.book (h : CascadesDue w) (he : Trades w.db e) :
    CascadesDue (cascadeWorldStep w (.book e)) := by
  have hf := step_tradeFrame he
  have kept {s : ℕ} {pc : CascadePc} (hpc : (s, pc) ∈ w.tasks) :
      (s, pc) ∈ (cascadeWorldStep w (.book e)).tasks := List.mem_append_left _ hpc
  have called {s : ℕ} (hs : s ∈ cascadesOf w.db e) :
      (s, CascadePc.called) ∈ (cascadeWorldStep w (.book e)).tasks :=
    List.mem_append_right _ (List.mem_map_of_mem hs)
  refine ⟨h.tables.step he, ?_, ?_, ?_, ?_⟩
  · intro s pc hpc
    rcases List.mem_append.mp hpc with hold | hnew
    · exact (h.holds s pc hold).step h.tables he
    · obtain ⟨s', _, heq⟩ := List.mem_map.mp hnew
      obtain ⟨rfl, rfl⟩ := Prod.mk.inj heq
      trivial
  · intro s hs
    rcases entryFilled_step he h.tables.known hs with hold | hcalled
    · rcases h.entry s hold with hbooked | ⟨pc, hpc⟩
      · exact .inl ((hf.isBooked s).mpr hbooked)
      · exact .inr ⟨pc, kept hpc⟩
    · exact .inr ⟨_, called hcalled⟩
  · intro s hs a ha hlink
    rcases closingFilled_step he h.tables.known hs with hold | hcalled
    · obtain ⟨⟨o, ho, hsid⟩, _⟩ := hold
      obtain ⟨j, hj⟩ := List.mem_iff_getElem?.mp ha
      have hrow := hf.alerts.old hj hlink (hsid ▸ h.tables.known o ho)
      rcases h.closing s ⟨⟨o, ho, hsid⟩, by assumption⟩ a (List.mem_of_getElem? hrow) hlink with
        hclosed | ⟨pc, hpc⟩
      · exact .inl (hf.closed a.positionId ▸ hclosed)
      · exact .inr ⟨pc, kept hpc⟩
    · exact .inr ⟨_, called hcalled⟩
  · intro s hs honly a ha hlink
    have hs' : w.db.fullyFilled s := hf.structures s ▸ hs
    have hlt := fullyFilled_known hs'
    obtain ⟨j, hj⟩ := List.mem_iff_getElem?.mp ha
    have hrow := hf.alerts.old hj hlink hlt
    rcases h.finalised s hs' ((closingOnly_step he hlt).mp honly) a (List.mem_of_getElem? hrow)
      hlink with hclosed | ⟨pc, hfin, hpc⟩
    · exact .inl (hf.closed a.positionId ▸ hclosed)
    · exact .inr ⟨pc, hfin, kept hpc⟩

end Book

/-- The tables the cascades write only ever advance. -/
structure TradesAdvance (db db' : Db) : Prop where
  orders : db'.orders = db.orders
  structures : db'.structures.length = db.structures.length
  filled : ∀ s, db.fullyFilled s → db'.fullyFilled s
  booked : ∀ s, db.isBooked s → db'.isBooked s
  positions : db.bookedPositions.length ≤ db'.bookedPositions.length
  closed : ∀ p, db.positionClosed p → db'.positionClosed p
  alerts : db'.exitAlerts.map (fun a => (a.positionId, a.closingStructureId)) =
    db.exitAlerts.map fun a => (a.positionId, a.closingStructureId)

/-- The tasks once the one at hand has gone on or ended. -/
structure Resumed (tasks tasks' : List (ℕ × CascadePc)) (s : ℕ) (pc : CascadePc)
    (next : Option CascadePc) : Prop where
  sub : ∀ task ∈ tasks', task ∈ tasks ∨ ∃ pc' ∈ next, task = (s, pc')
  keep : ∀ task ∈ tasks, task ≠ (s, pc) → task ∈ tasks'
  goes : ∀ pc' ∈ next, (s, pc') ∈ tasks'

section Step
variable {w w' : CascadeWorld} {db db' : Db} {s : ℕ} {pc : CascadePc} {next : Option CascadePc}
  {tasks : List (ℕ × CascadePc)}

theorem TradesAdvance.refl (db : Db) : TradesAdvance db db :=
  ⟨rfl, rfl, fun _ => id, fun _ => id, le_rfl, fun _ => id, rfl⟩

theorem TradesAdvance.alert (h : TradesAdvance db db') {j : ℕ} {a' : ExitAlert}
    (ha' : db'.exitAlerts[j]? = some a') : ∃ a, db.exitAlerts[j]? = some a ∧
      a.positionId = a'.positionId ∧ a.closingStructureId = a'.closingStructureId := by
  have hrow := congrArg (·[j]?) h.alerts
  simp only [List.getElem?_map, ha', Option.map_some] at hrow
  obtain ⟨a, ha, heq⟩ := Option.map_eq_some_iff.mp hrow.symm
  exact ⟨a, ha, congrArg Prod.fst heq, congrArg Prod.snd heq⟩

theorem TradesAdvance.mem_alert (h : TradesAdvance db db') {a' : ExitAlert} (ha' : a' ∈ db'.exitAlerts) :
    ∃ a ∈ db.exitAlerts, a.positionId = a'.positionId ∧
      a.closingStructureId = a'.closingStructureId := by
  obtain ⟨j, hj⟩ := List.mem_iff_getElem?.mp ha'
  obtain ⟨a, ha, hp, hl⟩ := h.alert hj
  exact ⟨a, List.mem_of_getElem? ha, hp, hl⟩

theorem TradesAdvance.linked (h : TradesAdvance db db') (hl : AlertsLinked db) : AlertsLinked db' := by
  refine ⟨?_, ?_, ?_⟩
  · intro a' ha'
    obtain ⟨a, ha, hp, _⟩ := h.mem_alert ha'
    exact (hp ▸ hl.positions a ha).trans_le h.positions
  · intro a' ha' s hs
    obtain ⟨a, ha, _, hlink⟩ := h.mem_alert ha'
    rw [h.structures]
    exact hl.known a ha s (hlink.trans hs)
  · intro k k' s a₁ a₂ h₁ h₂ hlink₁ hlink₂
    obtain ⟨b₁, hb₁, _, hl₁⟩ := h.alert h₁
    obtain ⟨b₂, hb₂, _, hl₂⟩ := h.alert h₂
    exact hl.once k k' s b₁ b₂ hb₁ hb₂ (hl₁.trans hlink₁) (hl₂.trans hlink₂)

theorem CascadePc.Holds.advance (h : pc.Holds db s) (ha : TradesAdvance db db') : pc.Holds db' s := by
  cases pc with
  | called | checked => trivial
  | counting orders now =>
    unfold Holds
    rw [ha.orders]
    exact h
  | booking orders now existing =>
    exact ⟨ha.orders.symm ▸ h.1, fun hex => ha.booked s (h.2 hex)⟩
  | completing orders now =>
    refine ⟨ha.orders.symm ▸ h.1, ?_⟩
    unfold ClosingOnly
    rw [ha.orders]
    exact h.2
  | finalising =>
    refine ⟨?_, ha.filled s h.2⟩
    unfold ClosingOnly
    rw [ha.orders]
    exact h.1
  | closing k p stamp =>
    obtain ⟨hclosing, hfull, hp, halerts⟩ := h
    refine ⟨?_, ha.filled s hfull, hp.trans_le ha.positions, ?_⟩
    · unfold ClosingOnly
      rw [ha.orders]
      exact hclosing
    · intro a' ha' hlink
      obtain ⟨a, hmem, hpos, hlink'⟩ := ha.mem_alert ha'
      exact hpos.symm.trans (halerts a hmem (hlink'.trans hlink))

/-- One cascade goes on or ends: the others see what they have seen, and its own structure is
owed nothing that is not under way. -/
theorem CascadesDue.advance (h : CascadesDue w) (w' : CascadeWorld)
    (ha : TradesAdvance w.db w'.db)
    (ht : TradesConsistent w'.db) (hr : Resumed w.tasks tasks s pc next)
    (hnext : ∀ pc' ∈ next, pc'.Holds w'.db s)
    (hother : ∀ s', s' ≠ s → w'.db.fullyFilled s' → w.db.fullyFilled s')
    (hentry : EntryFilled w.db s → w'.db.isBooked s ∨ ∃ pc', (s, pc') ∈ tasks)
    (hclosing : ClosingFilled w.db s → ∀ a ∈ w.db.exitAlerts, a.closingStructureId = some s →
      w'.db.positionClosed a.positionId ∨ ∃ pc', (s, pc') ∈ tasks)
    (hfinalised : w'.db.fullyFilled s → ClosingOnly w.db s → ∀ a ∈ w.db.exitAlerts,
      a.closingStructureId = some s →
        w'.db.positionClosed a.positionId ∨ ∃ pc', pc'.finalises ∧ (s, pc') ∈ tasks) :
    CascadesDue { w' with tasks := tasks } := by
  have other {s' : ℕ} {pc' : CascadePc} (hne : s' ≠ s) (hpc : (s', pc') ∈ w.tasks) :
      (s', pc') ∈ tasks :=
    hr.keep _ hpc fun heq => hne (congrArg Prod.fst heq)
  refine ⟨ht, ?_, ?_, ?_, ?_⟩
  · intro s' pc' hpc
    rcases hr.sub _ hpc with hold | ⟨pc'', hmem, heq⟩
    · exact (h.holds s' pc' hold).advance ha
    · obtain ⟨rfl, rfl⟩ := Prod.mk.inj heq
      exact hnext pc' hmem
  · intro s' hs'
    have hs : EntryFilled w.db s' := by
      unfold EntryFilled at hs' ⊢
      rwa [ha.orders] at hs'
    by_cases heq : s' = s
    · subst heq
      exact hentry hs
    · exact (h.entry s' hs).imp (ha.booked s') fun ⟨pc', hpc⟩ => ⟨pc', other heq hpc⟩
  · intro s' hs' a' ha' hlink
    have hs : ClosingFilled w.db s' := by
      unfold ClosingFilled at hs' ⊢
      rwa [ha.orders] at hs'
    obtain ⟨a, hmem, hpos, hlink'⟩ := ha.mem_alert ha'
    rw [← hpos]
    rw [← hlink'] at hlink
    by_cases heq : s' = s
    · subst heq
      exact hclosing hs a hmem hlink
    · exact (h.closing s' hs a hmem hlink).imp (ha.closed _) fun ⟨pc', hpc⟩ =>
        ⟨pc', other heq hpc⟩
  · intro s' hs' honly' a' ha' hlink
    have honly : ClosingOnly w.db s' := by
      unfold ClosingOnly at honly' ⊢
      rwa [ha.orders] at honly'
    obtain ⟨a, hmem, hpos, hlink'⟩ := ha.mem_alert ha'
    rw [← hpos]
    rw [← hlink'] at hlink
    by_cases heq : s' = s
    · subst heq
      exact hfinalised hs' honly a hmem hlink
    · exact (h.finalised s' (hother s' heq hs') honly a hmem hlink).imp (ha.closed _)
        fun ⟨pc', hfin, hpc⟩ => ⟨pc', hfin, other heq hpc⟩

/-- A step that only reads and goes on. -/
theorem CascadesDue.goes {pc' : CascadePc} (h : CascadesDue w)
    (hr : Resumed w.tasks tasks s pc (some pc')) (hholds : pc'.Holds w.db s)
    (hfin : pc.finalises → pc'.finalises) : CascadesDue { w with tasks := tasks } := by
  have hgoes : (s, pc') ∈ tasks := hr.goes pc' rfl
  refine h.advance w (.refl w.db) h.tables hr ?_ (fun _ _ => id) ?_ ?_ ?_
  · rintro _ ⟨⟩
    exact hholds
  · exact fun _ => .inr ⟨pc', hgoes⟩
  · exact fun _ _ _ _ => .inr ⟨pc', hgoes⟩
  · intro hfull honly a ha hlink
    refine (h.finalised s hfull honly a ha hlink).imp id ?_
    rintro ⟨pc'', hfin'', hpc''⟩
    by_cases heq : pc'' = pc
    · exact ⟨pc', hfin (heq ▸ hfin''), hgoes⟩
    · exact ⟨pc'', hfin'', hr.keep _ hpc'' fun h => heq (congrArg Prod.snd h)⟩

/-- A cascade that ends with nothing written, its structure being owed nothing but what another
cascade does. -/
theorem CascadesDue.ends (h : CascadesDue w) (hr : Resumed w.tasks tasks s pc none)
    (hentry : EntryFilled w.db s → w.db.isBooked s)
    (hclosing : ClosingFilled w.db s → w.db.fullyFilled s)
    (hfin : pc.finalises → ∀ a ∈ w.db.exitAlerts, a.closingStructureId = some s →
      w.db.positionClosed a.positionId) : CascadesDue { w with tasks := tasks } := by
  have hfinalised (hfull : w.db.fullyFilled s) (honly : ClosingOnly w.db s) (a : ExitAlert)
      (ha : a ∈ w.db.exitAlerts) (hlink : a.closingStructureId = some s) :
      w.db.positionClosed a.positionId ∨ ∃ pc', pc'.finalises ∧ (s, pc') ∈ tasks := by
    rcases h.finalised s hfull honly a ha hlink with hclosed | ⟨pc', hfin', hpc'⟩
    · exact .inl hclosed
    · by_cases heq : pc' = pc
      · exact .inl (hfin (heq ▸ hfin') a ha hlink)
      · exact .inr ⟨pc', hfin', hr.keep _ hpc' fun h => heq (congrArg Prod.snd h)⟩
  refine h.advance w (.refl w.db) h.tables hr nofun (fun _ _ => id)
    (fun hs => .inl (hentry hs)) ?_ hfinalised
  intro hs a ha hlink
  refine (hfinalised (hclosing hs) (fun o ho hsid => (hs.2 o ho hsid).1) a ha hlink).imp id ?_
  exact fun ⟨pc', _, hpc'⟩ => ⟨pc', hpc'⟩

end Step

section Commits
variable {w w' : CascadeWorld} {db : Db} {s k p : ℕ} {pc : CascadePc} {next : Option CascadePc}
  {tasks : List (ℕ × CascadePc)} {r r' : TradeStructure} {orders : List StructureOrder}
  {now : Instant}

theorem fullyFilled_set (hr : db.structures[s]? = some r) (hr' : r'.state = .fullyFilled)
    (s' : ℕ) : (db.setStructure s r').fullyFilled s' ↔ s' = s ∨ db.fullyFilled s' := by
  have hlt := (List.getElem?_eq_some_iff.mp hr).1
  by_cases heq : s' = s
  · subst heq
    simp [Db.fullyFilled, Db.setStructure, hlt, hr']
  · simp [Db.fullyFilled, Db.setStructure, Ne.symm heq, heq]

theorem advances_set (hr : db.structures[s]? = some r) (hr' : r'.state = .fullyFilled) :
    TradesAdvance db (db.setStructure s r') := by
  refine ⟨rfl, List.length_set .., ?_, fun _ => id, le_rfl, fun _ => id, rfl⟩
  intro s' hs'
  exact (fullyFilled_set hr hr' s').mpr (.inr hs')

/-- The structure is fully filled, and is booked or has no entry leg. -/
theorem TradesConsistent.set (h : TradesConsistent db) (hr : db.structures[s]? = some r)
    (hr' : r'.state = .fullyFilled)
    (hs : (∃ o ∈ db.orders, o.structureId = s ∧ o.orderRole = .entry) → db.isBooked s) :
    TradesConsistent (db.setStructure s r') := by
  have ha := advances_set hr hr'
  refine ⟨?_, h.once, fun s' hs' => ha.filled s' (h.filled s' hs'), ?_, ha.linked h.alerts⟩
  · intro o ho
    rw [ha.structures]
    exact h.known o ho
  · intro s' hs' hentry
    rcases (fullyFilled_set hr hr' s').mp hs' with rfl | hold
    · exact hs hentry
    · exact h.booked s' hold hentry

theorem isBooked_book (hfree : ¬ db.isBooked s) (s' : ℕ) :
    (bookPosition (db.setStructure s r') s r' now).isBooked s' ↔ db.isBooked s' ∨ s' = s := by
  have hany : ¬ (db.bookedPositions.any fun p => p.structureId = s) :=
    fun h => hfree (isBooked_iff.mpr h)
  simp [bookPosition, Db.setStructure, hany, Db.isBooked]

theorem advances_book (now : Instant) (hr : db.structures[s]? = some r) (hr' : r'.state = .fullyFilled)
    (hfree : ¬ db.isBooked s) :
    TradesAdvance db (bookPosition (db.setStructure s r') s r' now) ∧
      (∀ s', (bookPosition (db.setStructure s r') s r' now).fullyFilled s' =
        (db.setStructure s r').fullyFilled s') ∧
      ∀ p, (bookPosition (db.setStructure s r') s r' now).positionClosed p =
        db.positionClosed p := by
  have hany : ¬ (db.bookedPositions.any fun p => p.structureId = s) :=
    fun h => hfree (isBooked_iff.mpr h)
  have hbook : bookPosition (db.setStructure s r') s r' now =
      { db.setStructure s r' with bookedPositions := db.bookedPositions ++
        [⟨s, now, r'.totalPremiumPaidUsd.getD 0, r'.totalEntryCostUsd.getD 0, .open⟩] } :=
    if_neg hany
  have hclosed (p : ℕ) : (bookPosition (db.setStructure s r') s r' now).positionClosed p =
      db.positionClosed p := by
    rw [hbook, Db.positionClosed, Db.positionClosed]
    rcases Nat.lt_trichotomy p db.bookedPositions.length with hlt | rfl | hgt
    · rw [List.getElem?_append_left hlt]
    · simp
    · rw [List.getElem?_eq_none (by simp; omega), List.getElem?_eq_none (by omega)]
  have hfull (s' : ℕ) : (bookPosition (db.setStructure s r') s r' now).fullyFilled s' =
      (db.setStructure s r').fullyFilled s' := by
    rw [hbook]
    rfl
  refine ⟨⟨?_, ?_, ?_, ?_, ?_, ?_, ?_⟩, hfull, hclosed⟩
  · rw [hbook]
    rfl
  · rw [hbook]
    exact List.length_set ..
  · intro s' hs'
    rw [hfull]
    exact (advances_set hr hr').filled s' hs'
  · exact fun s' hs' => (isBooked_book hfree s').mpr (.inl hs')
  · rw [hbook]
    simp
  · exact fun p hp => hclosed p ▸ hp
  · rw [hbook]
    rfl

theorem TradesConsistent.book (h : TradesConsistent db) (hr : db.structures[s]? = some r)
    (hr' : r'.state = .fullyFilled) (hfree : ¬ db.isBooked s) :
    TradesConsistent (bookPosition (db.setStructure s r') s r' now) := by
  obtain ⟨ha, hfull, _⟩ := advances_book now hr hr' hfree
  have hany : ¬ (db.bookedPositions.any fun p => p.structureId = s) :=
    fun h => hfree (isBooked_iff.mpr h)
  refine ⟨?_, ?_, ?_, ?_, ha.linked h.alerts⟩
  · intro o ho
    rw [ha.orders] at ho
    rw [ha.structures]
    exact h.known o ho
  · have hmap : (bookPosition (db.setStructure s r') s r' now).bookedPositions.map
        (·.structureId) = db.bookedPositions.map (·.structureId) ++ [s] := by
      simp [bookPosition, Db.setStructure, hany]
    rw [hmap]
    exact h.once.append (List.nodup_singleton s) (by simpa [Db.isBooked] using hfree)
  · intro s' hs'
    rw [hfull, fullyFilled_set hr hr']
    rcases (isBooked_book hfree s').mp hs' with hold | rfl
    · exact .inr (h.filled s' hold)
    · exact .inl rfl
  · intro s' hs' hentry
    rw [hfull, fullyFilled_set hr hr'] at hs'
    rw [ha.orders] at hentry
    rcases hs' with rfl | hold
    · exact (isBooked_book hfree _).mpr (.inr rfl)
    · exact (isBooked_book hfree s').mpr (.inl (h.booked s' hold hentry))

theorem done_link (a : ExitAlert) :
    a.done.positionId = a.positionId ∧ a.done.closingStructureId = a.closingStructureId := by
  unfold ExitAlert.done
  split_ifs <;> exact ⟨rfl, rfl⟩

theorem positionClosed_close (hp : p < db.bookedPositions.length) (p' : ℕ) :
    (closePosition db k p).positionClosed p' ↔ p' = p ∨ db.positionClosed p' := by
  by_cases heq : p' = p
  · subst heq
    simp [Db.positionClosed, closePosition, hp]
  · simp [Db.positionClosed, closePosition, Ne.symm heq, heq]

theorem close_booked : (closePosition db k p).bookedPositions.map (·.structureId) =
    db.bookedPositions.map (·.structureId) := by
  apply map_modify_same
  exact fun _ => rfl

theorem advances_close (hp : p < db.bookedPositions.length) :
    TradesAdvance db (closePosition db k p) := by
  refine ⟨rfl, rfl, fun _ => id, ?_, ?_, ?_, ?_⟩
  · intro s hs
    rwa [Db.isBooked, close_booked]
  · simp [closePosition]
  · exact fun p' hp' => (positionClosed_close hp p').mpr (.inr hp')
  · exact map_modify_same (fun a => Prod.ext (done_link a).1 (done_link a).2) _ _

theorem TradesConsistent.close (h : TradesConsistent db) (hp : p < db.bookedPositions.length) :
    TradesConsistent (closePosition db k p) := by
  refine ⟨h.known, ?_, ?_, ?_, (advances_close hp).linked h.alerts⟩
  · rw [close_booked]
    exact h.once
  · intro s hs
    rw [Db.isBooked, close_booked] at hs
    exact h.filled s hs
  · intro s hs hentry
    rw [Db.isBooked, close_booked]
    exact h.booked s hs hentry

/-- The commit that fills a closing structure, or fills again one that is booked. -/
theorem CascadesDue.set (h : CascadesDue w) (hr : w.db.structures[s]? = some r)
    (hr' : r'.state = .fullyFilled) (hres : Resumed w.tasks tasks s pc next)
    (hnext : ∀ pc' ∈ next, pc'.Holds (w.db.setStructure s r') s)
    (hs : (∃ o ∈ w.db.orders, o.structureId = s ∧ o.orderRole = .entry) → w.db.isBooked s)
    (hfin : ClosingOnly w.db s → ∃ pc', pc'.finalises ∧ (s, pc') ∈ tasks) :
    CascadesDue { w with db := w.db.setStructure s r', tasks := tasks } := by
  refine h.advance { w with db := w.db.setStructure s r' }
    (advances_set hr hr') (h.tables.set hr hr' hs) hres hnext ?_ ?_ ?_ ?_
  · intro s' hne hs'
    exact ((fullyFilled_set hr hr' s').mp hs').resolve_left hne
  · exact fun hentry => .inl (hs hentry.1)
  · intro hclosing a _ _
    obtain ⟨pc', _, hpc'⟩ := hfin fun o ho hsid => (hclosing.2 o ho hsid).1
    exact .inr ⟨pc', hpc'⟩
  · exact fun _ honly _ _ _ => .inr (hfin honly)

/-- The commit that books the position of a structure with entry legs. -/
theorem CascadesDue.bookPosition (h : CascadesDue w)
    (hr : w.db.structures[s]? = some r) (hr' : r'.state = .fullyFilled)
    (hfree : ¬ w.db.isBooked s) (hres : Resumed w.tasks tasks s pc none)
    (hopening : ∃ o ∈ w.db.orders, o.structureId = s ∧ o.orderRole ≠ .closing) :
    CascadesDue { w with
      db := FxVol.bookPosition (w.db.setStructure s r') s r' now, tasks := tasks } := by
  obtain ⟨ha, hfull, _⟩ := advances_book now hr hr' hfree
  have notOnly : ¬ ClosingOnly w.db s := by
    obtain ⟨o, ho, hsid, hrole⟩ := hopening
    exact fun honly => hrole (honly o ho hsid)
  refine h.advance { w with db := FxVol.bookPosition (w.db.setStructure s r') s r' now }
    ha (h.tables.book hr hr' hfree) hres nofun ?_ ?_ ?_ ?_
  · intro s' hne hs'
    dsimp only at hs'
    rw [hfull] at hs'
    exact ((fullyFilled_set hr hr' s').mp hs').resolve_left hne
  · exact fun _ => .inl ((isBooked_book hfree s).mpr (.inr rfl))
  · exact fun hclosing => absurd (fun o ho hsid => (hclosing.2 o ho hsid).1) notOnly
  · exact fun _ honly => absurd honly notOnly

/-- The commit that closes the position of the alert. -/
theorem CascadesDue.close (h : CascadesDue w) {stamp : CloseStamp}
    (hholds : (CascadePc.closing k p stamp).Holds w.db s)
    (hres : Resumed w.tasks tasks s (.closing k p stamp) none) :
    CascadesDue { w with
      db := closePosition w.db k p, tasks := tasks, closed := w.closed ++ [(p, stamp)] } := by
  obtain ⟨honly, hfull, hp, halerts⟩ := hholds
  have hdone (a : ExitAlert) (ha : a ∈ w.db.exitAlerts) (hlink : a.closingStructureId = some s) :
      (closePosition w.db k p).positionClosed a.positionId :=
    (positionClosed_close hp _).mpr (.inl (halerts a ha hlink))
  refine h.advance { w with db := closePosition w.db k p, closed := w.closed ++ [(p, stamp)] }
    (advances_close hp) (h.tables.close hp) hres nofun (fun _ _ => id) ?_ ?_ ?_
  · rintro ⟨⟨o, ho, hsid, hrole⟩, _⟩
    have hclosing := honly o ho hsid
    rw [hrole] at hclosing
    cases hclosing
  · exact fun _ a ha hlink => .inl (hdone a ha hlink)
  · exact fun _ _ a ha hlink => .inl (hdone a ha hlink)

end Commits

section Runs
variable {w w' : CascadeWorld} {s : ℕ} {pc : CascadePc} {next : Option CascadePc}
  {tasks : List (ℕ × CascadePc)}

/-- Every step of a cascade keeps what is due done or under way. -/
theorem CascadeMove.due (hm : CascadeMove w s pc w' next) (h : CascadesDue w)
    (hpc : (s, pc) ∈ w.tasks) (hres : Resumed w.tasks tasks s pc next) :
    CascadesDue { w' with tasks := tasks } := by
  have hholds := h.holds s pc hpc
  have opening (hopening : ∃ o ∈ w.db.orders, o.structureId = s ∧ o.orderRole ≠ .closing) :
      ¬ ClosingOnly w.db s := by
    obtain ⟨o, ho, hsid, hrole⟩ := hopening
    exact fun honly => hrole (honly o ho hsid)
  have noEntry (honly : ClosingOnly w.db s) :
      ¬ ∃ o ∈ w.db.orders, o.structureId = s ∧ o.orderRole = .entry := by
    rintro ⟨o, ho, hsid, hrole⟩
    have hclosing := honly o ho hsid
    rw [hrole] at hclosing
    cases hclosing
  cases hm with
  | done hdone =>
    refine h.ends hres ?_ ?_ nofun
    · rintro ⟨⟨o, ho, hsid, hrole⟩, hall⟩
      rcases hdone with hnone | hfull
      · have hlt := h.tables.known o ho
        have hge := List.getElem?_eq_none_iff.mp hnone
        omega
      · exact h.tables.booked s hfull ⟨o, ho, hsid, hrole⟩
    · rintro ⟨⟨o, ho, hsid⟩, hall⟩
      rcases hdone with hnone | hfull
      · have hlt := h.tables.known o ho
        have hge := List.getElem?_eq_none_iff.mp hnone
        omega
      · exact hfull
  | check => exact h.goes hres trivial nofun
  | unfilled hentry hclosing =>
    exact h.ends hres (fun hs => absurd hs hentry) (fun hs => absurd hs hclosing) nofun
  | count orders now horders hopening => exact h.goes hres hopening nofun
  | complete orders now horders hsome honly => exact h.goes hres ⟨hsome, honly⟩ nofun
  | counted orders now existing hbooked => exact h.goes hres ⟨hholds, hbooked⟩ nofun
  | lost pc hnone =>
    have unknown (hs : ∃ o ∈ w.db.orders, o.structureId = s) : False := by
      obtain ⟨o, ho, hsid⟩ := hs
      have hlt := h.tables.known o ho
      have hge := List.getElem?_eq_none_iff.mp hnone
      omega
    refine h.ends hres ?_ (fun hs => (unknown hs.1).elim) ?_
    · rintro ⟨⟨o, ho, hsid, _⟩, _⟩
      exact (unknown ⟨o, ho, hsid⟩).elim
    · intro hfin a ha hlink
      have hlt := h.tables.alerts.known a ha s hlink
      have hge := List.getElem?_eq_none_iff.mp hnone
      omega
  | raised orders now hbooked =>
    refine h.ends hres (fun _ => hbooked) ?_ nofun
    intro hs
    exact absurd (fun o ho hsid => (hs.2 o ho hsid).1) (opening hholds.1)
  | rebooked orders now r hr =>
    refine h.set hr rfl hres nofun (fun _ => hholds.2 rfl) ?_
    exact fun honly => absurd honly (opening hholds.1)
  | booked orders now r hr hfree => exact h.bookPosition hr rfl hfree hres hholds.1
  | completed orders now r hr =>
    have hfin : (s, CascadePc.finalising) ∈ tasks := hres.goes _ rfl
    refine h.set hr rfl hres ?_ (fun hentry => absurd hentry (noEntry hholds.2))
      fun _ => ⟨_, rfl, hfin⟩
    rintro _ ⟨⟩
    exact ⟨hholds.2, (fullyFilled_set hr rfl s).mpr (.inl rfl)⟩
  | nothing hnothing =>
    refine h.ends hres (fun hs => absurd hs.1 (noEntry hholds.1)) (fun _ => hholds.2) ?_
    intro _ a ha hlink
    rcases hnothing with hfull | hnone | ⟨k, a', ha', hlink', hclosed⟩
    · rw [hholds.2] at hfull
      cases hfull
    · exact absurd hlink (hnone a ha)
    · obtain ⟨j, hj⟩ := List.mem_iff_getElem?.mp ha
      obtain rfl := h.tables.alerts.once k j s a' a ha' hj hlink' hlink
      obtain rfl := Option.some.inj (ha'.symm.trans hj)
      rcases hclosed with hnone | hclosed
      · have hlt := h.tables.alerts.positions a' ha
        have hge := List.getElem?_eq_none_iff.mp hnone
        omega
      · exact hclosed
  | found k a stamp ha hlink =>
    refine h.goes hres ⟨hholds.1, hholds.2, ?_, ?_⟩ fun _ => rfl
    · exact h.tables.alerts.positions a (List.mem_of_getElem? ha)
    · intro a' ha' hlink'
      obtain ⟨j, hj⟩ := List.mem_iff_getElem?.mp ha'
      obtain rfl := h.tables.alerts.once k j s a a' ha hj hlink hlink'
      rw [Option.some.inj (ha.symm.trans hj)]
  | close k p stamp => exact h.close hholds hres

/-- A commit that closes a position closes it anew, if it was still open. -/
theorem CascadeMove.closesOnce (hm : CascadeMove w s pc w' next) (h : ClosesOnce w)
    (hholds : pc.Holds w.db s) (hopen : pc.StillOpen w.db) : ClosesOnce w' := by
  cases hm with
  | booked orders now r hr hfree =>
    have hfilled : (r.completed orders now).state = .fullyFilled := rfl
    obtain ⟨_, _, hclosed⟩ := advances_book now hr hfilled hfree
    intro p
    dsimp only
    rw [hclosed]
    exact h p
  | close k p stamp =>
    intro p'
    have hiff := positionClosed_close (k := k) hholds.2.2.1 p'
    have hnot : ¬ w.db.positionClosed p := hopen
    dsimp only
    rw [List.countP_append, h p']
    by_cases heq : p' = p
    · subst heq
      simp [hiff, hnot]
    · simp [hiff, heq, Ne.symm heq]
  | _ => exact h

theorem resumed_set {k : ℕ} {pc' : CascadePc} (hk : w.tasks[k]? = some (s, pc)) :
    Resumed w.tasks (w.tasks.set k (s, pc')) s pc (some pc') := by
  have hlt := (List.getElem?_eq_some_iff.mp hk).1
  refine ⟨?_, ?_, ?_⟩
  · intro task htask
    exact (List.mem_or_eq_of_mem_set htask).imp id fun heq => ⟨pc', rfl, heq⟩
  · intro task htask hne
    obtain ⟨j, hj⟩ := List.mem_iff_getElem?.mp htask
    have hjk : k ≠ j := by
      rintro rfl
      exact hne (Option.some.inj (hj.symm.trans hk))
    exact List.mem_of_getElem? ((List.getElem?_set_ne hjk).trans hj)
  · rintro _ ⟨⟩
    exact List.mem_set hlt _

theorem resumed_erase {k : ℕ} (hk : w.tasks[k]? = some (s, pc)) :
    Resumed w.tasks (w.tasks.eraseIdx k) s pc none := by
  refine ⟨?_, ?_, nofun⟩
  · exact fun task htask => .inl (List.mem_of_mem_eraseIdx htask)
  · intro task htask hne
    obtain ⟨j, hj⟩ := List.mem_iff_getElem?.mp htask
    have hjk : j ≠ k := by
      rintro rfl
      exact hne (Option.some.inj (hj.symm.trans hk))
    exact List.mem_eraseIdx_iff_getElem?.mpr ⟨j, hjk, hj⟩

theorem cascadeStep_tasks (hedgeCost : ℚ) (now : Instant) (w : CascadeWorld) (s : ℕ)
    (pc : CascadePc) : (cascadeStep hedgeCost now w s pc).1.tasks = w.tasks := by
  have hm := cascadeStep_move hedgeCost now w s pc
  revert hm
  generalize cascadeStep hedgeCost now w s pc = r
  rintro hm
  obtain ⟨w', next⟩ := r
  cases hm <;> rfl

/-- A new alert is linked to no closing structure. -/
theorem CascadesDue.raiseAlert (h : CascadesDue w) {p : ℕ} (rule : String)
    (hp : p < w.db.bookedPositions.length) :
    CascadesDue (cascadeWorldStep w (.raiseAlert p rule)) := by
  have old {a : ExitAlert} (ha : a ∈ w.db.exitAlerts ++ [ExitAlert.new p rule]) {s : ℕ}
      (hlink : a.closingStructureId = some s) : a ∈ w.db.exitAlerts := by
    rcases List.mem_append.mp ha with hold | hnew
    · exact hold
    · rw [List.mem_singleton.mp hnew] at hlink
      cases hlink
  have oldRow {k s : ℕ} {a : ExitAlert} (ha : (w.db.exitAlerts ++ [ExitAlert.new p rule])[k]? =
      some a) (hlink : a.closingStructureId = some s) : w.db.exitAlerts[k]? = some a := by
    by_cases hk : k < w.db.exitAlerts.length
    · rwa [List.getElem?_append_left hk] at ha
    · rw [List.getElem?_append_right (by omega)] at ha
      rw [List.mem_singleton.mp (List.mem_of_getElem? ha)] at hlink
      cases hlink
  refine ⟨⟨h.tables.known, h.tables.once, h.tables.filled, h.tables.booked, ⟨?_, ?_, ?_⟩⟩, ?_,
    h.entry, ?_, ?_⟩
  · intro a ha
    rcases List.mem_append.mp ha with hold | hnew
    · exact h.tables.alerts.positions a hold
    · rw [List.mem_singleton.mp hnew]
      exact hp
  · exact fun a ha s hlink => h.tables.alerts.known a (old ha hlink) s hlink
  · intro k k' s a a' ha ha' hlink hlink'
    exact h.tables.alerts.once k k' s a a' (oldRow ha hlink) (oldRow ha' hlink') hlink hlink'
  · intro s pc hpc
    have hholds := h.holds s pc hpc
    cases pc with
    | closing k p' stamp =>
      obtain ⟨honly, hfull, hp', halerts⟩ := hholds
      exact ⟨honly, hfull, hp', fun a ha hlink => halerts a (old ha hlink) hlink⟩
    | _ => exact hholds
  · exact fun s hs a ha hlink => h.closing s hs a (old ha hlink) hlink
  · exact fun s hs honly a ha hlink => h.finalised s hs honly a (old ha hlink) hlink

/-- A crash that owes nothing. -/
theorem CascadesDue.crash (h : CascadesDue w) (howed : ¬ Owed w) :
    CascadesDue { w with tasks := [] } := by
  have closed {s : ℕ} {a : ExitAlert} (ha : a ∈ w.db.exitAlerts)
      (hlink : a.closingStructureId = some s)
      (hs : ClosingFilled w.db s ∨ ClosingOnly w.db s ∧ w.db.fullyFilled s) :
      w.db.positionClosed a.positionId := by
    by_contra hopen
    exact howed (.inr ⟨a, ha, s, hlink, hopen, hs⟩)
  refine ⟨h.tables, nofun, ?_, ?_, ?_⟩
  · intro s hs
    by_contra hnot
    obtain ⟨o, ho, hsid, _⟩ := hs.1
    subst hsid
    exact howed (.inl ⟨o, ho, hs, fun hbooked => hnot (.inl hbooked)⟩)
  · exact fun s hs a ha hlink => .inl (closed ha hlink (.inl hs))
  · exact fun s hs honly a ha hlink => .inl (closed ha hlink (.inr ⟨honly, hs⟩))

theorem cascadeWorldStep_due (h : CascadesDue w) {e : CascadeEvent} (hg : DropsNothing w e) :
    CascadesDue (cascadeWorldStep w e) := by
  cases e with
  | book e => exact h.book hg
  | raiseAlert p rule => exact h.raiseAlert rule hg
  | run k hedgeCost now =>
    simp only [cascadeWorldStep]
    split
    · exact h
    · next s pc hk =>
      have hm := cascadeStep_move hedgeCost now w s pc
      have htasks := cascadeStep_tasks hedgeCost now w s pc
      have hpc := List.mem_of_getElem? hk
      split
      · next w' pc' heq =>
        rw [heq] at hm htasks
        rw [htasks]
        exact hm.due h hpc (resumed_set hk)
      · next w' heq =>
        rw [heq] at hm htasks
        rw [htasks]
        exact hm.due h hpc (resumed_erase hk)
  | crash => exact h.crash hg

theorem CompletesInPeace.dropsNothing {e : CascadeEvent} (hg : CompletesInPeace w e) :
    DropsNothing w e := by
  cases e with
  | run k hedgeCost now => trivial
  | _ => exact hg

theorem cascadeWorldStep_closes (h : CascadeInvariant w) {e : CascadeEvent}
    (hg : CompletesInPeace w e) : ClosesOnce (cascadeWorldStep w e) := by
  cases e with
  | book e =>
    intro p
    have hclosed : (step w.db e).positionClosed p = w.db.positionClosed p :=
      (step_tradeFrame hg).closed p
    exact (h.closes p).trans (by rw [← hclosed]; rfl)
  | raiseAlert | crash => exact h.closes
  | run k hedgeCost now =>
    simp only [cascadeWorldStep]
    split
    · exact h.closes
    · next s pc hk =>
      have hcloses := (cascadeStep_move hedgeCost now w s pc).closesOnce h.closes
        (h.holds s pc (List.mem_of_getElem? hk)) (hg _ hk)
      split <;> next heq => rw [heq] at hcloses; exact hcloses

theorem cascadeWorldStep_invariant (h : CascadeInvariant w) {e : CascadeEvent}
    (hg : CompletesInPeace w e) : CascadeInvariant (cascadeWorldStep w e) :=
  ⟨cascadeWorldStep_due h.toCascadesDue hg.dropsNothing, cascadeWorldStep_closes h hg⟩

theorem cascadeInvariant_empty : CascadeInvariant CascadeWorld.empty where
  tables := by
    refine ⟨by simp [CascadeWorld.empty, Db.empty], by simp [CascadeWorld.empty, Db.empty], ?_, ?_,
      ⟨?_, ?_, ?_⟩⟩
    all_goals simp [CascadeWorld.empty, Db.empty, Db.isBooked, Db.fullyFilled]
  holds s pc hpc := by cases hpc
  closes p := by simp [CascadeWorld.empty, Db.empty, Db.positionClosed]
  entry s hs := by simp [CascadeWorld.empty, Db.empty, EntryFilled] at hs
  closing s hs a ha := by cases ha
  finalised s hs := by cases hs

/-- With no cascade under way, every structure is complete. -/
theorem CascadeInvariant.completes (h : CascadeInvariant w) (hidle : w.tasks = []) (s : ℕ) :
    CompletesOnce w s := by
  have idle {s : ℕ} : ¬ ∃ pc, (s, pc) ∈ w.tasks := by simp [hidle]
  constructor
  · intro hs
    have hbooked := (h.entry s hs).resolve_right idle
    refine ⟨?_, h.tables.filled s hbooked⟩
    have hcount := List.count_eq_one_of_mem h.tables.once hbooked
    rw [List.count, List.countP_map] at hcount
    rw [← hcount]
    apply List.countP_congr
    intro p _
    simp
  · intro hs a ha hlink
    have hclosed := (h.closing s hs a ha hlink).resolve_right idle
    refine ⟨hclosed, ?_⟩
    rw [h.closes, if_pos hclosed]

end Runs

end FxVol
