import FxVol.ClaimColumns
import FxVol.ClaimProtocol

/-!
# At most one IB order for each row

The placement calls are workers of the claim protocol: a structure's claim guards its entry
legs and its BAG, the claim of any other row guards that row.  Every step of a call and of the
book is a sequence of protocol steps, so no row is placed twice and no claim is given back
once an order under it reached IB.
-/
namespace FxVol

open ClaimProtocol

def IbPlacement.guard : IbPlacement → ClaimKey
  | .leg s _ => .structure s
  | .bag s _ => .structure s
  | .row _ i => .row (.order i)
  | .hedge h => .row (.hedge h)

def IbPlacement.covers : IbPlacement → PlacedRow → Bool
  | .leg _ i, .order j => i = j
  | .bag _ ids, .order j => j ∈ ids
  | .row _ i, .order j => i = j
  | .hedge h, .hedge h' => h = h'
  | _, _ => false

def IbPlacement.isBagOf (s : ℕ) : IbPlacement → Bool
  | .bag s' _ => s' = s
  | _ => false

/-- Two orders under one claim that must not both be placed: for one row, or both BAGs. -/
def IbPlacement.Excludes (x y : IbPlacement) : Prop :=
  x.guard = y.guard ∧
    ((∃ r, x.covers r ∧ y.covers r) ∨ ∃ s, x.isBagOf s ∧ y.isBagOf s)

def placementRules : Rules ClaimKey IbPlacement where
  guard := IbPlacement.guard
  Excludes := IbPlacement.Excludes
  same_guard := fun _ _ h => h.1

abbrev Placer := Worker ClaimKey IbPlacement

def PlacePc.worker (r : PlacedRow) : PlacePc → Option Placer
  | .start => none
  | .claimed | .releasing => some ⟨.row r, [], true⟩
  | .sent _ => some ⟨.row r, [], false⟩

def PlaceNext.worker (r : PlacedRow) : PlaceNext → Option Placer
  | .running pc => pc.worker r
  | .alreadyClaimed | .raised | .placed => none

/-- A submit that holds its claim; it plans one order for each leg until it chooses a BAG. -/
def SubmitPc.worker (s : ℕ) : SubmitPc → Option Placer
  | .start | .checked | .failed => none
  | .claimed | .aborting => some ⟨.structure s, [], true⟩
  | .selected legs | .prepared legs => some ⟨.structure s, (legs.map (·.2)).map (.leg s), true⟩
  | .bagReady legs => some ⟨.structure s, [.bag s (legs.map (·.2))], true⟩
  | .bagSent _ _ => some ⟨.structure s, [], false⟩
  | .placing legs placed =>
    some ⟨.structure s, (legs.map (·.orderId)).map (.leg s), placed.isEmpty⟩
  | .legSent _ _ rest _ => some ⟨.structure s, (rest.map (·.orderId)).map (.leg s), false⟩

def RollbackPc.worker : RollbackPc → Option Placer
  | .placing i pc _ => pc.worker (.order i)
  | .start | .unwinding _ _ | .qualifying _ _ => none

def HedgePc.worker (h : ℕ) : HedgePc → Option Placer
  | .start => none
  | .placing pc => pc.worker (.hedge h)

def Call.worker : Call → Option Placer
  | .submit s _ pc => pc.worker s
  | .rollback _ pc => pc.worker
  | .close i pc => pc.worker (.order i)
  | .hedge h pc => pc.worker h
  | .done => none

def World.claimed (w : World) (k : ClaimKey) : Bool := (w.submitClaim k).isSome

def World.protocol (w : World) : State ClaimKey IbPlacement where
  claimed := w.claimed
  workers := fun c => (w.calls[c]?).bind Call.worker
  made := w.sent

section Claims
variable {w w' : World} {k : ClaimKey}

/-- Worlds with the same claim columns have the same claims. -/
theorem claimed_congr (hs : w'.db.structureClaim = w.db.structureClaim)
    (ho : w'.db.orderClaim = w.db.orderClaim)
    (hh : ∀ h : ℕ, (w'.hedges[h]?).bind (·.submitClaimedAt) =
      (w.hedges[h]?).bind (·.submitClaimedAt)) : w'.claimed = w.claimed := by
  have hkey : ∀ k, w'.submitClaim k = w.submitClaim k := by
    intro k
    match k with
    | .structure s => exact congrFun hs s
    | .row (.order i) => exact congrFun ho i
    | .row (.hedge h) => exact hh h
  funext k
  rw [World.claimed, hkey, World.claimed]

theorem claimable_free (h : w.claimable k = true) : w.claimed k = false := by
  match k with
  | .structure s =>
    simp only [World.claimable, Option.any_eq_true, decide_eq_true_eq] at h
    obtain ⟨r, hr, hnone⟩ := h
    simp [World.claimed, World.submitClaim, hr, hnone]
  | .row (.order i) =>
    simp only [World.claimable, Option.any_eq_true, decide_eq_true_eq] at h
    obtain ⟨o, ho, hnone, _⟩ := h
    simp [World.claimed, World.submitClaim, ho, hnone]
  | .row (.hedge i) =>
    simp only [World.claimable, Option.any_eq_true, decide_eq_true_eq] at h
    obtain ⟨r, hr, hnone, _⟩ := h
    simp [World.claimed, World.submitClaim, hr, hnone]

theorem submitClaim_setClaim_ne {v : Option Instant} {k' : ClaimKey} (h : k' ≠ k) :
    (w.setClaim v k).submitClaim k' = w.submitClaim k' := by
  match k, k' with
  | .structure s, .structure s' =>
    have hs : s ≠ s' := fun heq => h (by rw [heq])
    simp [World.setClaim, World.submitClaim, hs]
  | .row (.order i), .row (.order i') =>
    have hi : i' ≠ i := fun heq => h (by rw [heq])
    simp only [World.setClaim, World.submitClaim, Db.updateOrder_getElem?_ne _ _ _ hi]
  | .row (.hedge i), .row (.hedge i') =>
    have hi : i ≠ i' := fun heq => h (by rw [heq])
    simp [World.setClaim, World.submitClaim, hi]
  | .structure _, .row (.order _) | .structure _, .row (.hedge _) => rfl
  | .row (.order _), .structure _ | .row (.order _), .row (.hedge _) => rfl
  | .row (.hedge _), .structure _ | .row (.hedge _), .row (.order _) => rfl

theorem claimed_setClaim_none : (w.setClaim none k).claimed = Function.update w.claimed k false := by
  funext k'
  by_cases hk : k' = k
  · subst hk
    rw [Function.update_self]
    match k' with
    | .structure s =>
      simp [World.claimed, World.submitClaim, World.setClaim, Option.bind_map]
    | .row (.order i) =>
      simp [World.claimed, World.submitClaim, World.setClaim, Option.bind_map]
    | .row (.hedge h) =>
      simp [World.claimed, World.submitClaim, World.setClaim, Option.bind_map]
  · rw [Function.update_of_ne hk, World.claimed, submitClaim_setClaim_ne hk, World.claimed]

theorem claimed_setClaim_some {now : Instant} (h : w.claimable k = true) :
    (w.setClaim (some now) k).claimed = Function.update w.claimed k true := by
  funext k'
  by_cases hk : k' = k
  · subst hk
    rw [Function.update_self]
    match k' with
    | .structure s =>
      simp only [World.claimable, Option.any_eq_true] at h
      obtain ⟨r, hr, _⟩ := h
      simp [World.claimed, World.submitClaim, World.setClaim, hr]
    | .row (.order i) =>
      simp only [World.claimable, Option.any_eq_true] at h
      obtain ⟨o, ho, _⟩ := h
      simp [World.claimed, World.submitClaim, World.setClaim, ho]
    | .row (.hedge i) =>
      simp only [World.claimable, Option.any_eq_true] at h
      obtain ⟨r, hr, _⟩ := h
      simp [World.claimed, World.submitClaim, World.setClaim, hr]
  · rw [Function.update_of_ne hk, World.claimed, submitClaim_setClaim_ne hk, World.claimed]

theorem orderClaim_updateOrder (db : Db) (i : ℕ) {g : StructureOrder → StructureOrder}
    (h : ∀ o, (g o).submitClaimedAt = o.submitClaimedAt) :
    (db.updateOrder i g).orderClaim = db.orderClaim := by
  funext j
  exact column_modify (·.submitClaimedAt) db.orders i g h j

theorem claimed_stamp (ids : IbIds) (now : Instant) (r : PlacedRow) :
    (w.stamp ids now r).claimed = w.claimed := by
  match r with
  | .order i =>
    exact claimed_congr rfl (orderClaim_updateOrder w.db i fun o => rfl) fun h => rfl
  | .hedge i =>
    exact claimed_congr rfl rfl
      fun h => column_modify HedgeOrder.submitClaimedAt w.hedges i _ (by intro r; rfl) h

theorem claimed_startRollback (s : ℕ) (startedAt : Option Instant) :
    (w.startRollback s startedAt).claimed = w.claimed := by
  refine claimed_congr ?_ rfl fun h => rfl
  funext s'
  exact column_modify TradeStructure.submitClaimedAt w.db.structures s _ (by intro r; rfl) s'

theorem claimed_setHedgeState (h : ℕ) (state : HedgeState) :
    (w.setHedgeState h state).claimed = w.claimed :=
  claimed_congr rfl rfl
    fun h' => column_modify HedgeOrder.submitClaimedAt w.hedges h _ (by intro r; rfl) h'

theorem orderClaim_stampLives (f : Db → ℕ → Db)
    (hf : ∀ db i, (f db i).orderClaim = db.orderClaim ∧ (f db i).structures = db.structures)
    (ids : List ℕ) (db : Db) : (ids.foldl f db).orderClaim = db.orderClaim ∧
      (ids.foldl f db).structures = db.structures :=
  ⟨KeyedPasses.foldl_frame Db.orderClaim f (fun db i => (hf db i).1) ids db,
    KeyedPasses.foldl_frame Db.structures f (fun db i => (hf db i).2) ids db⟩

end Claims

/-- A step of a call takes the protocol from one state of its worker to another. -/
def Simulates (w w' : World) (before after : Option Placer) : Prop :=
  ∀ c workers, workers c = before → Steps placementRules ⟨w.claimed, workers, w.sent⟩
    ⟨w'.claimed, Function.update workers c after, w'.sent⟩

section Steps
variable {w w' : World} {before after : Option Placer} {k : ClaimKey} {x : IbPlacement}
  {items rest : List IbPlacement} (cfg : SubmitConfig) (a : Answer)

/-- Nothing that the protocol sees happens. -/
theorem Simulates.quiet (hc : w'.claimed = w.claimed) (hs : w'.sent = w.sent) :
    Simulates w w' before before := by
  rintro c workers rfl
  rw [Function.update_eq_self, hc, hs]
  exact Relation.ReflTransGen.refl

theorem Simulates.leaves (hc : w'.claimed = w.claimed) (hs : w'.sent = w.sent) :
    Simulates w w' before none := by
  intro c workers _
  rw [hc, hs]
  exact Relation.ReflTransGen.single (.leave c)

theorem Simulates.acquires {now : Instant} (h : w.claimable k = true) :
    Simulates w (w.setClaim (some now) k) none (some ⟨k, [], true⟩) := by
  intro c workers hidle
  rw [claimed_setClaim_some h]
  have hsent : (w.setClaim (some now) k).sent = w.sent := by
    match k with
    | .structure _ | .row (.order _) | .row (.hedge _) => rfl
  have hstep : Step placementRules ⟨w.claimed, workers, w.sent⟩ _ :=
    .acquire c k (claimable_free h) hidle
  rw [hsent]
  exact Relation.ReflTransGen.single hstep

theorem Simulates.releases : Simulates w (w.setClaim none k) (some ⟨k, items, true⟩) none := by
  intro c workers hw
  rw [claimed_setClaim_none]
  have hsent : (w.setClaim none k).sent = w.sent := by
    match k with
    | .structure _ | .row (.order _) | .row (.hedge _) => rfl
  have hstep : Step placementRules ⟨w.claimed, workers, w.sent⟩ _ :=
    .release c ⟨k, items, true⟩ hw rfl
  rw [hsent]
  exact Relation.ReflTransGen.single hstep

theorem Simulates.plans (hplan : placementRules.Plan k rest) :
    Simulates w w (some ⟨k, items, true⟩) (some ⟨k, rest, true⟩) := by
  intro c workers hw
  have hstep : Step placementRules ⟨w.claimed, workers, w.sent⟩ _ :=
    .plan c ⟨k, items, true⟩ rest hw rfl hplan
  exact Relation.ReflTransGen.single hstep

theorem Simulates.makes {fresh : Bool} :
    Simulates w (w.send x) (some ⟨k, x :: rest, fresh⟩) (some ⟨k, rest, false⟩) := by
  intro c workers hw
  have hstep : Step placementRules ⟨w.claimed, workers, w.sent⟩ _ :=
    .make c ⟨k, x :: rest, fresh⟩ x rest hw rfl
  exact Relation.ReflTransGen.single hstep

theorem Simulates.trans {w'' : World} {middle : Option Placer} (h : Simulates w w' before middle)
    (h' : Simulates w' w'' middle after) : Simulates w w'' before after := by
  intro c workers hw
  have hfirst := h c workers hw
  have hsecond := h' c (Function.update workers c middle) (Function.update_self ..)
  rw [Function.update_idem] at hsecond
  exact hfirst.trans hsecond

theorem plan_singleton : placementRules.Plan x.guard [x] := by
  refine ⟨?_, List.pairwise_singleton ..⟩
  intro y hy
  rw [List.mem_singleton.mp hy]
  rfl

/-- One order for each leg of a structure is a plan. -/
theorem plan_legs (s : ℕ) {ids : List ℕ} (hd : ids.Nodup) :
    placementRules.Plan (.structure s) (ids.map (.leg s)) := by
  constructor
  · intro x hx
    obtain ⟨i, _, rfl⟩ := List.mem_map.mp hx
    rfl
  · rw [List.pairwise_map]
    apply hd.imp
    intro i j hne hex
    rcases hex.2 with ⟨r, hi, hj⟩ | ⟨s', hi, _⟩
    · match r with
      | .order l =>
        simp only [IbPlacement.covers, decide_eq_true_eq] at hi hj
        exact hne (hi.trans hj.symm)
      | .hedge h => cases hi
    · cases hi

theorem placeStep_simulates (r : PlacedRow) (pc : PlacePc) :
    Simulates w (placeStep a w r pc).1 (pc.worker r) ((placeStep a w r pc).2.worker r) := by
  cases pc with
  | start =>
    simp only [placeStep]
    split_ifs with hfree
    · exact .acquires hfree
    · exact .quiet rfl rfl
  | claimed =>
    have hguard : (w.rowPlacement r).guard = .row r := by cases r <;> rfl
    simp only [placeStep]
    cases a.placed with
    | none => exact .quiet rfl rfl
    | some ids => exact (Simulates.plans (hguard ▸ plan_singleton)).trans .makes
  | releasing => exact .releases
  | sent ids =>
    apply Simulates.leaves (claimed_stamp ids a.now r)
    cases r <;> rfl

theorem claimed_stampLives (ids : List ℕ) (ib : IbIds) (limit : Option ℚ) (now : Instant) {db : Db}
    (hdb : ids.foldl (fun db i => stampLive db i ib.orderId ib.permId limit now) w.db = db) :
    World.claimed { w with db := db } = w.claimed := by
  subst hdb
  obtain ⟨ho, hs⟩ := orderClaim_stampLives
    (fun db i => stampLive db i ib.orderId ib.permId limit now)
    (fun db i => ⟨orderClaim_updateOrder db i fun o => rfl, rfl⟩) ids w.db
  exact claimed_congr (structureClaim_congr hs) ho fun h => rfl

theorem submitStep_simulates (s : ℕ) (useCombo : Bool) (pc : SubmitPc) :
    Simulates w (submitStep cfg a w s useCombo pc).1 (pc.worker s)
      ((submitStep cfg a w s useCombo pc).2.bind (SubmitPc.worker s)) := by
  cases pc with
  | start =>
    simp only [submitStep]
    split_ifs
    · exact .quiet rfl rfl
    · exact .leaves rfl rfl
  | checked =>
    simp only [submitStep]
    split_ifs with hfree
    · exact .acquires hfree
    · exact .leaves rfl rfl
  | claimed =>
    simp only [submitStep]
    split_ifs
    · exact .plans (plan_legs s (eligibleLegs_nodup w.db s))
    · exact .quiet rfl rfl
    · exact .leaves rfl rfl
  | aborting => exact .releases
  | selected legs =>
    have habort : placementRules.Plan (.structure s) [] := ⟨by simp, List.Pairwise.nil⟩
    simp only [submitStep]
    split_ifs
    · cases prepareCombo legs a.qualify with
      | error e => exact .plans habort
      | ok _ => exact .plans plan_singleton
    · cases prepareLegs legs a.qualify with
      | error e => exact .plans habort
      | ok _ => exact .quiet rfl rfl
    · exact .leaves rfl rfl
  | bagReady legs =>
    simp only [submitStep]
    cases a.placed with
    | none => exact .leaves rfl rfl
    | some ids => exact .makes
  | bagSent legs ids =>
    simp only [submitStep]
    split_ifs
    · exact .leaves (claimed_stampLives _ ids none a.now rfl) rfl
    · exact .leaves rfl rfl
  | prepared legs =>
    simp only [submitStep]
    cases hgate : gateLegs cfg a.quote legs with
    | error e => exact .plans ⟨by simp, List.Pairwise.nil⟩
    | ok prepared =>
      simp only [Option.bind_some, SubmitPc.worker, gateLegs_ids hgate, List.isEmpty_nil]
      exact .quiet rfl rfl
  | placing legs placed =>
    cases legs with
    | nil => exact .leaves rfl rfl
    | cons leg rest =>
      simp only [submitStep]
      split_ifs
      · cases a.placed with
        | none => exact .leaves rfl rfl
        | some ids => exact .makes
      · exact .leaves rfl rfl
  | legSent leg ids rest placed =>
    simp only [submitStep]
    split_ifs
    · have hplaced : (placed ++ [leg.orderId]).isEmpty = false := by simp
      simp only [Option.bind_some, SubmitPc.worker, hplaced]
      exact .quiet (claimed_stampLives [leg.orderId] ids leg.limit a.now rfl) rfl
    · exact .leaves rfl rfl
  | failed =>
    simp only [submitStep]
    split
    · exact .leaves rfl rfl
    · next r hr =>
      exact .leaves (claimed_congr (structureClaim_set w.db _ hr rfl) rfl fun h => rfl) rfl

theorem insertOrder_ok {db db' : Db} {o : StructureOrder} (h : db.insertOrder o = .ok db') :
    db' = db.addOrder o := by
  unfold Db.insertOrder at h
  split_ifs at h
  exact (Except.ok.inj h).symm

theorem claimed_insertOrder {db : Db} {o : StructureOrder} (ho : o.submitClaimedAt = none)
    (h : w.db.insertOrder o = .ok db) : World.claimed { w with db := db } = w.claimed := by
  obtain rfl := insertOrder_ok h
  refine claimed_congr rfl ?_ fun h => rfl
  funext i
  exact column_append (·.submitClaimedAt) w.db.orders ho i

theorem rollbackStep_simulates (s : ℕ) (pc : RollbackPc) :
    Simulates w (rollbackStep a w s pc).1 pc.worker
      ((rollbackStep a w s pc).2.bind RollbackPc.worker) := by
  cases pc with
  | start =>
    simp only [rollbackStep]
    split_ifs
    · exact .leaves rfl rfl
    · exact .leaves (claimed_startRollback s _) rfl
    · exact .quiet rfl rfl
  | unwinding startedAt rest =>
    match rest with
    | [] => exact .leaves (claimed_startRollback s startedAt) rfl
    | (_, none) :: rest => exact .quiet rfl rfl
    | (u, some entry) :: rest =>
      simp only [rollbackStep]
      split_ifs
      · exact .quiet rfl rfl
      · split
        · exact .leaves rfl rfl
        · next db hok =>
          have hclaims := claimed_insertOrder rfl hok
          exact .quiet ((claimed_startRollback s startedAt).trans hclaims) rfl
  | qualifying i rest =>
    simp only [rollbackStep]
    split_ifs
    · exact .quiet rfl rfl
    · exact .quiet rfl rfl
    · exact .leaves rfl rfl
  | placing i pc rest =>
    have hplace := placeStep_simulates (w := w) a (.order i) pc
    simp only [rollbackStep]
    revert hplace
    rcases placeStep a w (.order i) pc with ⟨w', _ | _ | _ | _⟩ <;> exact id

theorem hedgeStep_simulates (h : ℕ) (pc : HedgePc) :
    Simulates w (hedgeStep a w h pc).1 (pc.worker h)
      ((hedgeStep a w h pc).2.bind (HedgePc.worker h)) := by
  cases pc with
  | start =>
    simp only [hedgeStep]
    split_ifs
    · exact .leaves rfl rfl
    · exact .leaves (claimed_setHedgeState h .failed) rfl
    · exact .quiet rfl rfl
  | placing pc =>
    have hplace := placeStep_simulates (w := w) a (.hedge h) pc
    simp only [hedgeStep]
    revert hplace
    rcases placeStep a w (.hedge h) pc with ⟨w', _ | _ | _ | _⟩ <;> exact id

theorem callStep_simulates (call : Call) :
    Simulates w (callStep cfg a w call).1 call.worker (callStep cfg a w call).2.worker := by
  cases call with
  | submit s useCombo pc =>
    have hsubmit := submitStep_simulates (w := w) cfg a s useCombo pc
    simp only [callStep]
    revert hsubmit
    rcases submitStep cfg a w s useCombo pc with ⟨w', _ | pc'⟩ <;> exact id
  | rollback s pc =>
    have hrollback := rollbackStep_simulates (w := w) a s pc
    simp only [callStep]
    revert hrollback
    rcases rollbackStep a w s pc with ⟨w', _ | pc'⟩ <;> exact id
  | close i pc =>
    have hplace := placeStep_simulates (w := w) a (.order i) pc
    simp only [callStep]
    revert hplace
    rcases placeStep a w (.order i) pc with ⟨w', _ | _ | _ | _⟩ <;> exact id
  | hedge h pc =>
    have hhedge := hedgeStep_simulates (w := w) a h pc
    simp only [callStep]
    revert hhedge
    rcases hedgeStep a w h pc with ⟨w', _ | pc'⟩ <;> exact id
  | done => exact .quiet rfl rfl

end Steps

section World
variable {w : World} (cfg : SubmitConfig)

/-- The workers once call `c` goes on as `call`. -/
theorem workers_set (calls : List Call) (call : Call) {c : ℕ}
    (h : c < calls.length ∨ call.worker = none) :
    (fun c' => ((calls.set c call)[c']?).bind Call.worker) =
      Function.update (fun c' => (calls[c']?).bind Call.worker) c call.worker := by
  funext c'
  by_cases hc : c' = c
  · subst hc
    rw [Function.update_self]
    rcases h with h | h
    · rw [List.getElem?_set_self h, Option.bind_some]
    · by_cases hlt : c' < calls.length
      · rw [List.getElem?_set_self hlt, Option.bind_some]
      · have hnone : (calls.set c' call)[c']? = none := List.getElem?_eq_none (by simp; omega)
        rw [hnone, h, Option.bind_none]
  · rw [Function.update_of_ne hc, List.getElem?_set_ne (Ne.symm hc)]

theorem World.protocol_congr {w' : World} (hclaims : w'.claimed = w.claimed)
    (hcalls : w'.calls = w.calls) (hsent : w'.sent = w.sent) : w'.protocol = w.protocol := by
  rw [World.protocol, hclaims, hcalls, hsent, World.protocol]

theorem World.protocol_start {call : Call} (h : call.worker = none) :
    (w.start call).protocol = w.protocol := by
  have hworkers : (w.start call).protocol.workers = w.protocol.workers := by
    funext c
    exact column_append Call.worker w.calls h c
  rw [World.protocol, World.protocol] at hworkers ⊢
  simp only at hworkers
  rw [hworkers]
  rfl

end World

/-- Rows stay, with their role and their structure. -/
def KeepsLegs (db db' : Db) : Prop :=
  ∀ (i : ℕ) (o : StructureOrder), db.orders[i]? = some o →
    ∃ o' : StructureOrder, db'.orders[i]? = some o' ∧ o'.leg = o.leg

def EntryOf (db : Db) (s i : ℕ) : Prop :=
  ∃ o, db.orders[i]? = some o ∧ o.orderRole = .entry ∧ o.structureId = s

def OwnClaim (db : Db) (i : ℕ) : Prop := ∃ o, db.orders[i]? = some o ∧ o.orderRole ≠ .entry

def IbPlacement.Grounded (db : Db) : IbPlacement → Prop
  | .leg s i => EntryOf db s i
  | .bag s ids => ∀ i ∈ ids, EntryOf db s i
  | .row _ i => OwnClaim db i
  | .hedge _ => True

def SubmitPc.Grounded (db : Db) (s : ℕ) : SubmitPc → Prop
  | .selected legs | .bagReady legs | .prepared legs => ∀ i ∈ legs.map (·.2), EntryOf db s i
  | .placing legs _ | .legSent _ _ legs _ => ∀ i ∈ legs.map (·.orderId), EntryOf db s i
  | _ => True

def RollbackPc.Grounded (db : Db) : RollbackPc → Prop
  | .qualifying i _ | .placing i _ _ => OwnClaim db i
  | .start | .unwinding _ _ => True

/-- What a call that goes on has to go on with. -/
def Continues {α : Type} (p : α → Prop) : Option α → Prop
  | none => True
  | some pc => p pc

def Call.Grounded (db : Db) : Call → Prop
  | .submit s _ pc => pc.Grounded db s
  | .rollback _ pc => pc.Grounded db
  | .close i _ => OwnClaim db i
  | .hedge _ _ | .done => True

structure World.Grounded (w : World) : Prop where
  sent : ∀ x ∈ w.sent, x.Grounded w.db
  calls : ∀ call ∈ w.calls, call.Grounded w.db

section Legs
variable {db db' : Db} {s i : ℕ}

theorem KeepsLegs.rfl (db : Db) : KeepsLegs db db := fun _ o ho => ⟨o, ho, .refl _⟩

theorem KeepsLegs.trans {db'' : Db} (h : KeepsLegs db db') (h' : KeepsLegs db' db'') :
    KeepsLegs db db'' := by
  intro i o ho
  obtain ⟨o', ho', hleg⟩ := h i o ho
  obtain ⟨o'', ho'', hleg'⟩ := h' i o' ho'
  exact ⟨o'', ho'', hleg'.trans hleg⟩

theorem KeepsLegs.of_orders (h : db'.orders = db.orders) : KeepsLegs db db' := by
  intro i o ho
  exact ⟨o, by rw [h, ho], .refl _⟩

theorem keepsLegs_step (db : Db) (e : Event) : KeepsLegs db (step db e) := by
  intro i o ho
  obtain ⟨o', ho', hleg, _⟩ := step_evolves db e i o ho
  exact ⟨o', ho', hleg⟩

theorem keepsLegs_updateOrder (db : Db) (i : ℕ) {g : StructureOrder → StructureOrder}
    (h : ∀ o, (g o).leg = o.leg) : KeepsLegs db (db.updateOrder i g) := by
  intro j o ho
  refine ⟨_, updateOrder_row g ho, ?_⟩
  split_ifs
  · exact h o
  · exact .refl _

theorem keepsLegs_addOrder (db : Db) (o : StructureOrder) : KeepsLegs db (db.addOrder o) := by
  intro i o' ho'
  have hi := (List.getElem?_eq_some_iff.mp ho').1
  refine ⟨o', ?_, .refl _⟩
  rw [Db.addOrder, List.getElem?_append_left hi, ho']

theorem keepsLegs_foldl (f : Db → ℕ → Db) (hf : ∀ db i, KeepsLegs db (f db i)) (ids : List ℕ)
    (db : Db) : KeepsLegs db (ids.foldl f db) := by
  induction ids generalizing db with
  | nil => exact .rfl db
  | cons i ids ih => exact (hf db i).trans (ih (f db i))

theorem leg_role {o o' : StructureOrder} (h : o'.leg = o.leg) :
    o'.structureId = o.structureId ∧ o'.orderRole = o.orderRole := by
  simp only [StructureOrder.leg, Prod.mk.injEq] at h
  exact ⟨h.1, h.2.1⟩

theorem EntryOf.mono (h : EntryOf db s i) (hk : KeepsLegs db db') : EntryOf db' s i := by
  obtain ⟨o, ho, hrole, hs⟩ := h
  obtain ⟨o', ho', hleg⟩ := hk i o ho
  obtain ⟨hs', hrole'⟩ := leg_role hleg
  exact ⟨o', ho', hrole'.trans hrole, hs'.trans hs⟩

theorem OwnClaim.mono (h : OwnClaim db i) (hk : KeepsLegs db db') : OwnClaim db' i := by
  obtain ⟨o, ho, hrole⟩ := h
  obtain ⟨o', ho', hleg⟩ := hk i o ho
  exact ⟨o', ho', by rwa [(leg_role hleg).2]⟩

theorem IbPlacement.Grounded.mono {x : IbPlacement} (h : x.Grounded db) (hk : KeepsLegs db db') :
    x.Grounded db' := by
  cases x with
  | leg s i => exact EntryOf.mono h hk
  | bag s ids => exact fun i hi => (h i hi).mono hk
  | row s i => exact OwnClaim.mono h hk
  | hedge => trivial

theorem SubmitPc.Grounded.mono {pc : SubmitPc} (h : pc.Grounded db s) (hk : KeepsLegs db db') :
    pc.Grounded db' s := by
  cases pc with
  | selected | bagReady | prepared | placing | legSent => exact fun i hi => (h i hi).mono hk
  | _ => trivial

theorem RollbackPc.Grounded.mono {pc : RollbackPc} (h : pc.Grounded db) (hk : KeepsLegs db db') :
    pc.Grounded db' := by
  cases pc with
  | qualifying | placing => exact OwnClaim.mono h hk
  | _ => trivial

theorem Call.Grounded.mono {call : Call} (h : call.Grounded db) (hk : KeepsLegs db db') :
    call.Grounded db' := by
  cases call with
  | submit => exact SubmitPc.Grounded.mono h hk
  | rollback => exact RollbackPc.Grounded.mono h hk
  | close => exact OwnClaim.mono h hk
  | _ => trivial

end Legs

/-- What a step of a call does to the rows, the calls and the orders at IB. -/
structure Advances (w w' : World) : Prop where
  keeps : KeepsLegs w.db w'.db
  calls : w'.calls = w.calls
  sent : ∀ x ∈ w'.sent, x ∈ w.sent ∨ x.Grounded w'.db

section Advances
variable {w w' : World} {s i : ℕ} (cfg : SubmitConfig) (a : Answer)

theorem Advances.refl (w : World) : Advances w w := ⟨.rfl w.db, rfl, fun _ hx => .inl hx⟩

theorem Advances.keep (hk : KeepsLegs w.db w'.db) (hc : w'.calls = w.calls)
    (hs : w'.sent = w.sent) : Advances w w' := ⟨hk, hc, fun _ hx => .inl (hs ▸ hx)⟩

theorem Advances.send {x : IbPlacement} (hx : x.Grounded w.db) : Advances w (w.send x) := by
  refine ⟨.rfl w.db, rfl, ?_⟩
  intro y hy
  rcases List.mem_append.mp hy with hy | hy
  · exact .inl hy
  · rw [List.mem_singleton.mp hy]
    exact .inr hx

theorem Advances.setClaim (v : Option Instant) (k : ClaimKey) : Advances w (w.setClaim v k) := by
  match k with
  | .structure s => exact .keep (.of_orders rfl) rfl rfl
  | .row (.order i) => exact .keep (keepsLegs_updateOrder w.db i fun o => rfl) rfl rfl
  | .row (.hedge h) => exact .keep (.rfl w.db) rfl rfl

def PlacedRow.Grounded (db : Db) : PlacedRow → Prop
  | .order i => OwnClaim db i
  | .hedge _ => True

theorem placeStep_advances {r : PlacedRow} (hr : r.Grounded w.db) (pc : PlacePc) :
    Advances w (placeStep a w r pc).1 := by
  cases pc with
  | start =>
    simp only [placeStep]
    split_ifs
    · exact .setClaim ..
    · exact .refl w
  | claimed =>
    simp only [placeStep]
    cases a.placed with
    | none => exact .refl w
    | some ids =>
      apply Advances.send
      cases r with
      | order i => exact hr
      | hedge => trivial
  | releasing => exact .setClaim ..
  | sent ids =>
    cases r with
    | order i => exact .keep (keepsLegs_updateOrder w.db i fun o => rfl) rfl rfl
    | hedge => exact .keep (.rfl w.db) rfl rfl

theorem stampLives_advances (ids : List ℕ) (ib : IbIds) (limit : Option ℚ) (now : Instant) {db : Db}
    (hdb : ids.foldl (fun db i => stampLive db i ib.orderId ib.permId limit now) w.db = db) :
    Advances w { w with db := db } := by
  subst hdb
  have hkeep := keepsLegs_foldl (fun db i => stampLive db i ib.orderId ib.permId limit now)
    (fun db i => keepsLegs_updateOrder db i fun o => rfl) ids w.db
  exact .keep hkeep rfl rfl

theorem eligibleLegs_entry (db : Db) (s : ℕ) :
    ∀ i ∈ (eligibleLegs db s).map (·.2), EntryOf db s i := by
  intro i hi
  obtain ⟨p, hp, rfl⟩ := List.mem_map.mp hi
  obtain ⟨ho, hs, hrole, _⟩ := mem_eligibleLegs.mp hp
  exact ⟨p.1, ho, hrole, hs⟩

theorem submitStep_advances {pc : SubmitPc} (useCombo : Bool) (h : pc.Grounded w.db s) :
    Advances w (submitStep cfg a w s useCombo pc).1 ∧
      Continues (SubmitPc.Grounded w.db s) (submitStep cfg a w s useCombo pc).2 := by
  cases pc with
  | start =>
    simp only [submitStep]
    split_ifs <;> exact ⟨.refl w, trivial⟩
  | checked =>
    simp only [submitStep]
    split_ifs
    · exact ⟨Advances.setClaim (some a.now) (.structure s), trivial⟩
    · exact ⟨.refl w, trivial⟩
  | claimed =>
    simp only [submitStep]
    split_ifs
    · exact ⟨.refl w, eligibleLegs_entry w.db s⟩
    · exact ⟨.refl w, trivial⟩
    · exact ⟨.refl w, trivial⟩
  | aborting => exact ⟨Advances.setClaim none (.structure s), trivial⟩
  | selected legs =>
    simp only [submitStep]
    split_ifs
    · cases prepareCombo legs a.qualify with
      | error e => exact ⟨.refl w, trivial⟩
      | ok _ => exact ⟨.refl w, h⟩
    · cases prepareLegs legs a.qualify with
      | error e => exact ⟨.refl w, trivial⟩
      | ok _ => exact ⟨.refl w, h⟩
    · exact ⟨.refl w, trivial⟩
  | bagReady legs =>
    simp only [submitStep]
    cases a.placed with
    | none => exact ⟨.refl w, trivial⟩
    | some ids =>
      have hbag : (IbPlacement.bag s (legs.map (·.2))).Grounded w.db := h
      exact ⟨.send hbag, trivial⟩
  | bagSent legs ids =>
    simp only [submitStep]
    split_ifs
    · exact ⟨stampLives_advances _ ids none a.now rfl, trivial⟩
    · exact ⟨.refl w, trivial⟩
  | prepared legs =>
    simp only [submitStep]
    cases hgate : gateLegs cfg a.quote legs with
    | error e => exact ⟨.refl w, trivial⟩
    | ok prepared =>
      refine ⟨.refl w, ?_⟩
      rw [Continues, SubmitPc.Grounded, gateLegs_ids hgate]
      exact h
  | placing legs placed =>
    cases legs with
    | nil => exact ⟨.refl w, trivial⟩
    | cons leg rest =>
      have hleg : EntryOf w.db s leg.orderId := h _ List.mem_cons_self
      have hrest : ∀ i ∈ rest.map (·.orderId), EntryOf w.db s i :=
        fun i hi => h i (List.mem_cons_of_mem _ hi)
      simp only [submitStep]
      split_ifs
      · cases a.placed with
        | none => exact ⟨.refl w, trivial⟩
        | some ids => exact ⟨Advances.send (x := .leg s leg.orderId) hleg, hrest⟩
      · exact ⟨.refl w, trivial⟩
  | legSent leg ids rest placed =>
    simp only [submitStep]
    split_ifs
    · exact ⟨stampLives_advances [leg.orderId] ids leg.limit a.now rfl, h⟩
    · exact ⟨.refl w, trivial⟩
  | failed =>
    simp only [submitStep]
    split
    · exact ⟨.refl w, trivial⟩
    · exact ⟨.keep (.of_orders rfl) rfl rfl, trivial⟩

theorem keepsLegs_insert {db : Db} {o : StructureOrder} (h : w.db.insertOrder o = .ok db) :
    KeepsLegs w.db db ∧ db.orders[w.db.orders.length]? = some o := by
  obtain rfl := insertOrder_ok h
  refine ⟨keepsLegs_addOrder w.db o, ?_⟩
  simp [Db.addOrder]

theorem rollbackStep_advances {pc : RollbackPc} (h : pc.Grounded w.db) :
    Advances w (rollbackStep a w s pc).1 ∧
      Continues (RollbackPc.Grounded (rollbackStep a w s pc).1.db) (rollbackStep a w s pc).2 := by
  cases pc with
  | start =>
    simp only [rollbackStep]
    split_ifs
    · exact ⟨.refl w, trivial⟩
    · exact ⟨.keep (.of_orders rfl) rfl rfl, trivial⟩
    · exact ⟨.refl w, trivial⟩
  | unwinding startedAt rest =>
    match rest with
    | [] => exact ⟨.keep (.of_orders rfl) rfl rfl, trivial⟩
    | (_, none) :: rest => exact ⟨.refl w, trivial⟩
    | (u, some entry) :: rest =>
      simp only [rollbackStep]
      split_ifs
      · exact ⟨.refl w, trivial⟩
      · split
        · exact ⟨.refl w, trivial⟩
        · next db hok =>
          obtain ⟨hkeep, hnew⟩ := keepsLegs_insert hok
          exact ⟨.keep (hkeep.trans (.of_orders rfl)) rfl rfl, _, hnew, by simp [unwindOrder,
            StructureOrder.new]⟩
  | qualifying i rest =>
    simp only [rollbackStep]
    split_ifs
    · exact ⟨.refl w, h⟩
    · exact ⟨.refl w, trivial⟩
    · exact ⟨.refl w, trivial⟩
  | placing i pc rest =>
    have hplace := placeStep_advances a (r := .order i) h pc
    have hown := OwnClaim.mono h hplace.keeps
    simp only [rollbackStep]
    revert hplace hown
    rcases placeStep a w (.order i) pc with ⟨w', _ | _ | _ | _⟩
    · exact fun hplace hown => ⟨hplace, hown⟩
    · exact fun hplace _ => ⟨hplace, trivial⟩
    · exact fun hplace _ => ⟨hplace, trivial⟩
    · exact fun hplace _ => ⟨hplace, trivial⟩

theorem hedgeStep_advances (h : ℕ) (pc : HedgePc) : Advances w (hedgeStep a w h pc).1 := by
  cases pc with
  | start =>
    simp only [hedgeStep]
    split_ifs
    · exact .refl w
    · exact .keep (.rfl w.db) rfl rfl
    · exact .refl w
  | placing pc =>
    have hplace := placeStep_advances (w := w) a (r := .hedge h) trivial pc
    simp only [hedgeStep]
    revert hplace
    rcases placeStep a w (.hedge h) pc with ⟨w', _ | _ | _ | _⟩ <;> exact id

/-- A step of a call places grounded orders and goes on grounded. -/
theorem callStep_advances {call : Call} (h : call.Grounded w.db) :
    Advances w (callStep cfg a w call).1 ∧
      (callStep cfg a w call).2.Grounded (callStep cfg a w call).1.db := by
  cases call with
  | submit s useCombo pc =>
    obtain ⟨hadv, hnext⟩ := submitStep_advances cfg a useCombo h
    simp only [callStep]
    revert hadv hnext
    rcases submitStep cfg a w s useCombo pc with ⟨w', _ | pc'⟩
    · exact fun hadv _ => ⟨hadv, trivial⟩
    · exact fun hadv hnext => ⟨hadv, SubmitPc.Grounded.mono hnext hadv.keeps⟩
  | rollback s pc =>
    obtain ⟨hadv, hnext⟩ := rollbackStep_advances (s := s) a h
    simp only [callStep]
    revert hadv hnext
    rcases rollbackStep a w s pc with ⟨w', _ | pc'⟩
    · exact fun hadv _ => ⟨hadv, trivial⟩
    · exact fun hadv hnext => ⟨hadv, hnext⟩
  | close i pc =>
    have hplace := placeStep_advances a (r := .order i) h pc
    have hown := OwnClaim.mono h hplace.keeps
    simp only [callStep]
    revert hplace hown
    rcases placeStep a w (.order i) pc with ⟨w', _ | _ | _ | _⟩
    · exact fun hplace hown => ⟨hplace, hown⟩
    · exact fun hplace _ => ⟨hplace, trivial⟩
    · exact fun hplace _ => ⟨hplace, trivial⟩
    · exact fun hplace _ => ⟨hplace, trivial⟩
  | hedge i pc =>
    have hadv := hedgeStep_advances (w := w) a i pc
    simp only [callStep]
    revert hadv
    rcases hedgeStep a w i pc with ⟨w', _ | pc'⟩
    · exact fun hadv => ⟨hadv, trivial⟩
    · exact fun hadv => ⟨hadv, trivial⟩
  | done => exact ⟨.refl w, trivial⟩

end Advances

section Runs
variable {w : World} (cfg : SubmitConfig)

theorem Advances.grounded {w' : World} (h : Advances w w') (hw : w.Grounded) : w'.Grounded where
  sent := by
    intro x hx
    rcases h.sent x hx with hold | hnew
    · exact (hw.sent x hold).mono h.keeps
    · exact hnew
  calls := by
    intro call hcall
    rw [h.calls] at hcall
    exact (hw.calls call hcall).mono h.keeps

theorem World.Grounded.setCall (hw : w.Grounded) {call : Call} (h : call.Grounded w.db) (c : ℕ) :
    World.Grounded { w with calls := w.calls.set c call } where
  sent := hw.sent
  calls := by
    intro call' hcall
    rcases List.mem_or_eq_of_mem_set hcall with hold | rfl
    · exact hw.calls call' hold
    · exact h

theorem World.Grounded.start (hw : w.Grounded) {call : Call} (h : call.Grounded w.db) :
    (w.start call).Grounded where
  sent := hw.sent
  calls := by
    intro call' hcall
    rcases List.mem_append.mp hcall with hold | hnew
    · exact hw.calls call' hold
    · rw [List.mem_singleton.mp hnew]
      exact h

theorem worldStep_grounded (hw : w.Grounded) (e : WorldEvent) : (worldStep cfg w e).Grounded := by
  cases e with
  | book e => exact Advances.grounded (.keep (keepsLegs_step w.db e) rfl rfl) hw
  | newHedge side qty => exact Advances.grounded (.keep (.rfl w.db) rfl rfl) hw
  | hedgeFilled h => exact Advances.grounded (.keep (.rfl w.db) rfl rfl) hw
  | startSubmit s useCombo => exact hw.start trivial
  | startRollback s => exact hw.start trivial
  | startHedge h => exact hw.start trivial
  | startClose i =>
    simp only [worldStep]
    split_ifs with hclosing
    · simp only [Option.any_eq_true, decide_eq_true_eq] at hclosing
      obtain ⟨o, ho, hrole⟩ := hclosing
      have hstart : (Call.close i .start).Grounded w.db := ⟨o, ho, by rw [hrole]; decide⟩
      exact hw.start hstart
    · exact hw
  | run c a =>
    simp only [worldStep]
    split
    · exact hw
    · next call hcall =>
      obtain ⟨hadv, hnext⟩ := callStep_advances cfg a (hw.calls call (List.mem_of_getElem? hcall))
      exact (hadv.grounded hw).setCall hnext c
  | crash c =>
    have hdone : Call.done.Grounded w.db := trivial
    exact hw.setCall hdone c

/-- Every step of the world is a sequence of protocol steps. -/
theorem worldStep_simulates (hw : w.Grounded) (e : WorldEvent) :
    Steps placementRules w.protocol (worldStep cfg w e).protocol := by
  have same {w' : World} (h : w'.protocol = w.protocol) :
      Steps placementRules w.protocol w'.protocol := h ▸ Relation.ReflTransGen.refl
  cases e with
  | book e =>
    have hclaims : (worldStep cfg w (.book e)).claimed = w.claimed :=
      claimed_congr (step_structureClaim w.db e) (step_orderClaim w.db e) fun h => rfl
    exact same (World.protocol_congr hclaims rfl rfl)
  | newHedge side qty =>
    have hclaims : (worldStep cfg w (.newHedge side qty)).claimed = w.claimed :=
      claimed_congr rfl rfl (column_append HedgeOrder.submitClaimedAt w.hedges rfl)
    exact same (World.protocol_congr hclaims rfl rfl)
  | hedgeFilled h => exact same (World.protocol_congr (claimed_setHedgeState h .filled) rfl rfl)
  | startSubmit s useCombo => exact same (World.protocol_start rfl)
  | startRollback s => exact same (World.protocol_start rfl)
  | startHedge h => exact same (World.protocol_start rfl)
  | startClose i =>
    simp only [worldStep]
    split_ifs
    · exact same (World.protocol_start rfl)
    · exact same rfl
  | run c a =>
    simp only [worldStep]
    split
    · exact same rfl
    · next call hcall =>
      have hc : c < w.calls.length := (List.getElem?_eq_some_iff.mp hcall).1
      have hadv := (callStep_advances cfg a (hw.calls call (List.mem_of_getElem? hcall))).1
      have hworker : w.protocol.workers c = call.worker := by
        simp only [World.protocol, hcall, Option.bind_some]
      have hsim := callStep_simulates (w := w) cfg a call c w.protocol.workers hworker
      have hworkers := workers_set w.calls (callStep cfg a w call).2 (.inl hc)
      rw [World.protocol, World.protocol, hadv.calls, hworkers]
      exact hsim
  | crash c =>
    have hworkers := workers_set w.calls .done (c := c) (.inr rfl)
    have hstep : Step placementRules w.protocol _ := .leave c
    have hcrash : (worldStep cfg w (.crash c)).protocol =
        { w.protocol with workers := Function.update w.protocol.workers c none } := by
      rw [World.protocol, worldStep, hworkers]
      rfl
    rw [hcrash]
    exact Relation.ReflTransGen.single hstep

/-- The invariant of the protocol and of the rows, in every world that events lead to. -/
theorem reached (es : List WorldEvent) :
    Invariant placementRules (es.foldl (worldStep cfg) .empty).protocol ∧
      (es.foldl (worldStep cfg) .empty).Grounded := by
  apply (GuardedRuns.Run.of_events es).invariant
    (I := fun w : World => Invariant placementRules w.protocol ∧ w.Grounded)
  · intro w e h _
    exact ⟨h.1.steps (worldStep_simulates cfg h.2 e), worldStep_grounded cfg h.2 e⟩
  · exact ⟨.initial (fun c => rfl) rfl, ⟨by simp [World.empty], by simp [World.empty]⟩⟩

def Db.rowClaim (db : Db) : PlacedRow → ClaimKey
  | .order i =>
    match db.orders[i]? with
    | some o => if o.orderRole = .entry then .structure o.structureId else .row (.order i)
    | none => .row (.order i)
  | .hedge h => .row (.hedge h)

theorem IbPlacement.Grounded.guard_eq {db : Db} {x : IbPlacement} {r : PlacedRow}
    (h : x.Grounded db) (hr : x.covers r = true) : x.guard = db.rowClaim r := by
  have entry {s i : ℕ} (hentry : EntryOf db s i) : db.rowClaim (.order i) = .structure s := by
    obtain ⟨o, ho, hrole, rfl⟩ := hentry
    simp only [Db.rowClaim, ho, if_pos hrole]
  match x, r with
  | .leg s i, .order j =>
    simp only [IbPlacement.covers, decide_eq_true_eq] at hr
    subst hr
    exact (entry h).symm
  | .bag s ids, .order j =>
    simp only [IbPlacement.covers, decide_eq_true_eq] at hr
    exact (entry (h j hr)).symm
  | .row s i, .order j =>
    simp only [IbPlacement.covers, decide_eq_true_eq] at hr
    subst hr
    obtain ⟨o, ho, hrole⟩ := h
    simp only [Db.rowClaim, ho, if_neg hrole, IbPlacement.guard]
  | .hedge h, .hedge h' =>
    simp only [IbPlacement.covers, decide_eq_true_eq] at hr
    rw [hr, IbPlacement.guard, Db.rowClaim]
  | .hedge _, .order _ | .leg _ _, .hedge _ | .bag _ _, .hedge _ | .row _ _, .hedge _ => cases hr

theorem length_le_one {α : Type*} {R : α → α → Prop} {l : List α} (h : l.Pairwise R)
    (hno : ∀ x ∈ l, ∀ y ∈ l, ¬ R x y) : l.length ≤ 1 := by
  match l with
  | [] => simp
  | [_] => simp
  | x :: y :: l =>
    have hxy : R x y := (List.pairwise_cons.mp h).1 y List.mem_cons_self
    exact absurd hxy (hno x List.mem_cons_self y (List.mem_cons_of_mem _ List.mem_cons_self))

/-- At most one order at IB for each row, and one BAG for each structure. -/
structure World.PlacedOnce (w : World) : Prop where
  row : ∀ r, (w.sent.filter (·.covers r)).length ≤ 1
  bag : ∀ s, (w.sent.filter (·.isBagOf s)).length ≤ 1

/-- A claim that a step gives back guards no row, and no structure, with an order at IB. -/
def ReleasedUnplaced (w w' : World) : Prop :=
  ∀ k, w.claimed k = true → w'.claimed k = false →
    (∀ x ∈ w'.sent, x.guard ≠ k) ∧
      ∀ r, w'.db.rowClaim r = k → ∀ x ∈ w'.sent, x.covers r = false

theorem isBagOf_guard {x : IbPlacement} {s : ℕ} (h : x.isBagOf s = true) :
    x.guard = .structure s := by
  cases x with
  | bag s' ids =>
    simp only [IbPlacement.isBagOf, decide_eq_true_eq] at h
    rw [IbPlacement.guard, h]
  | _ => cases h

/-- After any events, with any calls in any interleaving and crashed anywhere, every row has at
most one order at IB, and the next step gives back no claim under which one was placed. -/
theorem placed_at_most_once (es : List WorldEvent) :
    (es.foldl (worldStep cfg) .empty).PlacedOnce ∧
      ∀ e, ReleasedUnplaced (es.foldl (worldStep cfg) .empty)
        (worldStep cfg (es.foldl (worldStep cfg) .empty) e) := by
  obtain ⟨hinv, hground⟩ := reached cfg es
  refine ⟨⟨?_, ?_⟩, ?_⟩
  · intro r
    apply length_le_one (hinv.once.filter _)
    intro x hx y hy hno
    rw [List.mem_filter] at hx hy
    have hguard : x.guard = y.guard := by
      rw [(hground.sent x hx.1).guard_eq hx.2, (hground.sent y hy.1).guard_eq hy.2]
    exact hno ⟨hguard, .inl ⟨r, hx.2, hy.2⟩⟩
  · intro s
    apply length_le_one (hinv.once.filter _)
    intro x hx y hy hno
    rw [List.mem_filter] at hx hy
    have hguard : x.guard = y.guard := by rw [isBagOf_guard hx.2, isBagOf_guard hy.2]
    exact hno ⟨hguard, .inr ⟨s, hx.2, hy.2⟩⟩
  · intro e k _ hfree
    have hinv' := hinv.steps (worldStep_simulates cfg hground e)
    have hground' := worldStep_grounded cfg hground e
    have hnone := hinv'.free hfree
    refine ⟨hnone, ?_⟩
    intro r hr x hx
    by_contra hcovers
    have hguard := (hground'.sent x hx).guard_eq (Bool.eq_true_of_not_eq_false hcovers)
    exact hnone x hx (hguard.trans hr)

end Runs

/-- Two submits of one structure race, and the one that wins crashes before it stamps its
second leg. -/
def answer (now : Instant) (ids : Option IbIds) : Answer where
  now := now
  connected := true
  qualify := fun _ => ⟨true, false⟩
  quote := fun _ => ⟨some (1 / 100), some (1 / 100), none⟩
  hedgeLimit := none
  placed := ids
  committed := true

def racingSubmits : List WorldEvent :=
  [.book (.submitPreview [callLeg .buy 10, callLeg .sell 10] 0), .startSubmit 0 false,
    .startSubmit 0 false] ++
  (List.replicate 4 [.run 0 (answer 1 none), .run 1 (answer 1 none)]).flatten ++
  [.run 0 (answer 2 none), .run 0 (answer 3 (some ⟨some 11, none⟩)), .run 0 (answer 4 none),
    .run 0 (answer 5 (some ⟨some 12, none⟩)), .crash 0, .startSubmit 0 true,
    .run 2 (answer 6 none), .run 2 (answer 7 none)]

example : (racingSubmits.foldl (worldStep ⟨["EUR"], 1 / 2⟩) .empty).sent =
    [.leg 0 0, .leg 0 1] := by decide +kernel

end FxVol
