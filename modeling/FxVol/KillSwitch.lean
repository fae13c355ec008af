import FxVol.PlacementSystem

/-!
# The kill switch

A request that would place orders reads the halt flag when it comes in, and places after a number of
answers of the database and of IB. A halt sets the flag and then cancels once what works at IB.
-/
namespace FxVol.KillSwitch

open GuardedRuns

/-- The routes under `require_not_halted`. A ticket for cash has its row written first; a close by symbol
that has no row qualifies a contract without an exchange, and asks for a quote of an option. -/
inductive Route
  | submitStructure (structureId : ℕ) (useCombo : Bool)
  | rollbackStructure (structureId : ℕ)
  | submitHedge (hedgeId : ℕ)
  | placeOrder (cash : Bool)
  | closePosition
  | closeBySymbol (noExchange isOption : Bool)
  | closeOrder (orderId : ℕ)
  deriving DecidableEq

/-- A request before its flag is read, past `require_not_halted`, or waiting for an answer, with so many
more to come before its order is placed -/
inductive Request
  | entered (r : Route)
  | admitted (r : Route)
  | waiting (answers : ℕ)
  | over
  deriving DecidableEq

inductive EngineOrder
  | placed (p : IbPlacement)
  | manual (request : ℕ)
  deriving DecidableEq

/-- The engine and its IB session. `halted` is the flag in the database, `working` what works at IB, and
`final` holds from the end of a `cancel_all_open` under the flag until the flag is cleared. -/
structure Engine where
  world : World
  requests : List Request
  halted : Bool
  working : List EngineOrder
  final : Bool

namespace Engine

def empty : Engine := ⟨.empty, [], false, [], false⟩

def setRequest (e : Engine) (k : ℕ) (r : Request) : Engine := { e with requests := e.requests.set k r }

/-- The order of a request without a row is placed after its last answer. -/
def goOn (e : Engine) (k : ℕ) : ℕ → Engine
  | 0 => { e.setRequest k .over with working := e.working ++ [.manual k] }
  | answers + 1 => e.setRequest k (.waiting answers)

def startCall (e : Engine) (k : ℕ) (c : Call) : Engine :=
  { e.setRequest k .over with world := e.world.start c }

/-- The body of a route, up to its first answer -/
def begin (e : Engine) (k : ℕ) : Route → Engine
  | .submitStructure s useCombo => e.startCall k (.submit s useCombo .start)
  | .rollbackStructure s => e.startCall k (.rollback s .start)
  | .submitHedge h => e.startCall k (.hedge h .start)
  | .placeOrder cash => e.goOn k (1 + cash.toNat)
  | .closePosition => e.goOn k 0
  | .closeBySymbol noExchange isOption => e.goOn k (noExchange.toNat + isOption.toNat)
  | .closeOrder i => e.startCall k (.close i .start)

end Engine

inductive EngineEvent
  | arrive (r : Route)
  | readFlag (request : ℕ) (readable : Bool)
  | enter (request : ℕ) (ready : Bool)
  | answer (request : ℕ) (raised : Bool)
  | run (call : ℕ) (a : FxVol.Answer)
  | crash (call : ℕ)
  | book (ev : Event)
  | newHedge (side : Side) (qty : ℕ)
  | hedgeFilled (hedgeId : ℕ)
  | leave (o : EngineOrder)
  | setHalt (halted : Bool)
  | cancelAllOpen

def Engine.worldStep (cfg : SubmitConfig) (e : Engine) (ev : WorldEvent) : Engine :=
  let w := FxVol.worldStep cfg e.world ev
  { e with world := w, working := e.working ++ (w.sent.drop e.world.sent.length).map .placed }

def step (cfg : SubmitConfig) (e : Engine) : EngineEvent → Engine
  | .arrive r => { e with requests := e.requests ++ [.entered r] }
  | .readFlag k readable =>
    match e.requests[k]? with
    -- a flag that cannot be read refuses as well
    | some (.entered r) => e.setRequest k (if readable ∧ ¬ e.halted then .admitted r else .over)
    | _ => e
  | .enter k ready =>
    match e.requests[k]? with
    | some (.admitted r) => if ready then e.begin k r else e.setRequest k .over
    | _ => e
  | .answer k raised =>
    match e.requests[k]? with
    | some (.waiting answers) => if raised then e.setRequest k .over else e.goOn k answers
    | _ => e
  | .run c a => e.worldStep cfg (.run c a)
  | .crash c => e.worldStep cfg (.crash c)
  | .book ev => e.worldStep cfg (.book ev)
  | .newHedge side qty => e.worldStep cfg (.newHedge side qty)
  | .hedgeFilled h => e.worldStep cfg (.hedgeFilled h)
  | .leave o => { e with working := e.working.filter (· ≠ o) }
  | .setHalt halted => { e with halted := halted, final := e.final && halted }
  | .cancelAllOpen => { e with working := [], final := e.halted }

def PlacePc.mayPlace : PlacePc → Bool
  | .start | .claimed => true
  | .releasing | .sent _ => false

def SubmitPc.mayPlace : SubmitPc → Bool
  | .start | .checked | .claimed | .selected _ | .bagReady _ | .prepared _ => true
  | .placing rest _ | .legSent _ _ rest _ => rest ≠ []
  | .aborting | .bagSent _ _ | .failed => false

def unwindsLeft (rest : List (UnwindAction × Option StructureOrder)) : Bool :=
  rest.any fun p => p.2.any fun entry => 0 < (orPrice entry.previewPrice entry.limitPrice).getD 0

def RollbackPc.mayPlace : RollbackPc → Bool
  | .start | .qualifying _ _ => true
  | .unwinding _ rest => unwindsLeft rest
  | .placing _ pc rest => PlacePc.mayPlace pc ∨ pc ≠ .releasing ∧ unwindsLeft rest

def HedgePc.mayPlace : HedgePc → Bool
  | .start => true
  | .placing pc => PlacePc.mayPlace pc

def Call.mayPlace : Call → Bool
  | .submit _ _ pc => SubmitPc.mayPlace pc
  | .rollback _ pc => RollbackPc.mayPlace pc
  | .close _ pc => PlacePc.mayPlace pc
  | .hedge _ pc => HedgePc.mayPlace pc
  | .done => false

/-- A request that was let in before the flag, with its order not placed yet -/
def Request.mayPlace : Request → Bool
  | .admitted _ | .waiting _ => true
  | .entered _ | .over => false

/-- Every request that was let in has ended or is past its last placement. -/
structure Settled (e : Engine) : Prop where
  requests : ∀ r ∈ e.requests, Request.mayPlace r = false
  calls : ∀ c ∈ e.world.calls, Call.mayPlace c = false

/-- What a halt needs when it cancels: no request that was let in may still place. -/
def SettledCancel (e : Engine) : EngineEvent → Prop
  | .cancelAllOpen => e.halted = true → Settled e
  | _ => True

section Quiet
variable (cfg : SubmitConfig) (a : FxVol.Answer) (w : World)

/-- Nothing is sent, and no call goes on. -/
def Still (w w' : World) : Prop := w'.sent = w.sent ∧ w'.calls = w.calls

theorem Still.refl (w : World) : Still w w := ⟨rfl, rfl⟩

theorem still_setClaim (now : Option Instant) (key : ClaimKey) : Still w (w.setClaim now key) := by
  rcases key with s | (i | h) <;> exact ⟨rfl, rfl⟩

theorem still_stamp (ids : IbIds) (now : Instant) (r : PlacedRow) : Still w (w.stamp ids now r) := by
  cases r <;> exact ⟨rfl, rfl⟩

/-- A still step, to a place from which nothing is sent -/
def Quiet {α : Type} (mayPlace : α → Bool) (r : World × Option α) : Prop :=
  Still w r.1 ∧ ∀ pc, r.2 = some pc → mayPlace pc = false

theorem Quiet.leaves {w w' : World} {α : Type} {mayPlace : α → Bool} (h : Still w w') :
    Quiet w mayPlace (w', none) := ⟨h, nofun⟩

theorem Quiet.goes {w w' : World} {α : Type} {mayPlace : α → Bool} {pc : α} (h : Still w w')
    (hpc : mayPlace pc = false) : Quiet w mayPlace (w', some pc) := by
  refine ⟨h, fun pc' hpc' => ?_⟩
  cases hpc'
  exact hpc

theorem submitStep_quiet (s : ℕ) (useCombo : Bool) {pc : SubmitPc} (h : SubmitPc.mayPlace pc = false) :
    Quiet w SubmitPc.mayPlace (submitStep cfg a w s useCombo pc) := by
  cases pc with
  | start | checked | claimed | selected | bagReady | prepared => cases h
  | aborting => exact .leaves (still_setClaim _ _ _)
  | bagSent legs ids =>
    rw [submitStep]
    split_ifs <;> exact .leaves ⟨rfl, rfl⟩
  | placing rest placed =>
    obtain rfl : rest = [] := by simpa [SubmitPc.mayPlace] using h
    exact .leaves ⟨rfl, rfl⟩
  | legSent leg ids rest placed =>
    obtain rfl : rest = [] := by simpa [SubmitPc.mayPlace] using h
    rw [submitStep]
    split_ifs <;> exact .goes ⟨rfl, rfl⟩ rfl
  | failed =>
    rw [submitStep]
    split <;> exact .leaves ⟨rfl, rfl⟩

/-- A placement that is released or stamped is over after its step. -/
theorem placeStep_quiet (r : PlacedRow) {pc : PlacePc} (h : PlacePc.mayPlace pc = false) :
    Still w (placeStep a w r pc).1 ∧ ((placeStep a w r pc).2 = .raised ∨
      pc ≠ .releasing ∧ (placeStep a w r pc).2 = .placed) := by
  cases pc with
  | start | claimed => cases h
  | releasing => exact ⟨still_setClaim _ _ _, .inl rfl⟩
  | sent ids => exact ⟨still_stamp _ _ _ _, .inr ⟨nofun, rfl⟩⟩

theorem unwinding_quiet (s : ℕ) (startedAt : Option Instant) {rest : List (UnwindAction × Option StructureOrder)}
    (h : unwindsLeft rest = false) :
    Quiet w RollbackPc.mayPlace (rollbackStep a w s (.unwinding startedAt rest)) := by
  cases rest with
  | nil => exact .leaves ⟨rfl, rfl⟩
  | cons p rest =>
    rw [unwindsLeft, List.any_cons, Bool.or_eq_false_iff] at h
    obtain ⟨hfirst, hrest⟩ := h
    rcases p with ⟨u, _ | entry⟩
    · exact .goes ⟨rfl, rfl⟩ hrest
    · have hlimit : (orPrice entry.previewPrice entry.limitPrice).getD 0 ≤ 0 := by simpa using hfirst
      rw [rollbackStep, if_pos hlimit]
      exact .goes ⟨rfl, rfl⟩ hrest

theorem rollbackStep_quiet (s : ℕ) {pc : RollbackPc} (h : RollbackPc.mayPlace pc = false) :
    Quiet w RollbackPc.mayPlace (rollbackStep a w s pc) := by
  cases pc with
  | start | qualifying => cases h
  | unwinding startedAt rest => exact unwinding_quiet a w s startedAt h
  | placing i pc rest =>
    have hboth : PlacePc.mayPlace pc = false ∧ (pc ≠ .releasing → unwindsLeft rest = false) := by
      simpa [RollbackPc.mayPlace] using h
    obtain ⟨hstill, hnext⟩ := placeStep_quiet a w (.order i) hboth.1
    rw [rollbackStep]
    rcases hstep : placeStep a w (.order i) pc with ⟨w', next⟩
    rw [hstep] at hstill hnext
    rcases hnext with rfl | ⟨hpc, rfl⟩
    · exact .leaves hstill
    · exact .goes hstill (hboth.2 hpc)

theorem hedgeStep_quiet (h : ℕ) {pc : HedgePc} (hpc : HedgePc.mayPlace pc = false) :
    Quiet w HedgePc.mayPlace (hedgeStep a w h pc) := by
  cases pc with
  | start => cases hpc
  | placing pc =>
    obtain ⟨hstill, hnext⟩ := placeStep_quiet a w (.hedge h) hpc
    rw [hedgeStep]
    rcases hstep : placeStep a w (.hedge h) pc with ⟨w', next⟩
    rw [hstep] at hstill hnext
    rcases hnext with rfl | ⟨-, rfl⟩ <;> exact .leaves hstill

theorem callStep_quiet {c : Call} (h : Call.mayPlace c = false) :
    Still w (callStep cfg a w c).1 ∧ Call.mayPlace (callStep cfg a w c).2 = false := by
  cases c with
  | submit s useCombo pc =>
    obtain ⟨hstill, hpc⟩ := submitStep_quiet cfg a w s useCombo h
    rw [callStep]
    rcases hstep : submitStep cfg a w s useCombo pc with ⟨w', _ | pc'⟩
    · rw [hstep] at hstill
      exact ⟨hstill, rfl⟩
    · rw [hstep] at hstill hpc
      exact ⟨hstill, hpc pc' rfl⟩
  | rollback s pc =>
    obtain ⟨hstill, hpc⟩ := rollbackStep_quiet a w s h
    rw [callStep]
    rcases hstep : rollbackStep a w s pc with ⟨w', _ | pc'⟩
    · rw [hstep] at hstill
      exact ⟨hstill, rfl⟩
    · rw [hstep] at hstill hpc
      exact ⟨hstill, hpc pc' rfl⟩
  | close i pc =>
    obtain ⟨hstill, hnext⟩ := placeStep_quiet a w (.order i) h
    rw [callStep]
    rcases hstep : placeStep a w (.order i) pc with ⟨w', next⟩
    rw [hstep] at hstill hnext
    rcases hnext with rfl | ⟨-, rfl⟩ <;> exact ⟨hstill, rfl⟩
  | hedge i pc =>
    obtain ⟨hstill, hpc⟩ := hedgeStep_quiet a w i h
    rw [callStep]
    rcases hstep : hedgeStep a w i pc with ⟨w', _ | pc'⟩
    · rw [hstep] at hstill
      exact ⟨hstill, rfl⟩
    · rw [hstep] at hstill hpc
      exact ⟨hstill, hpc pc' rfl⟩
  | done => exact ⟨.refl w, rfl⟩

end Quiet

variable (cfg : SubmitConfig)

/-- After a cancel-all under the flag nothing works at IB, and nothing that was let in is left. -/
structure Halted (e : Engine) : Prop where
  flag : e.halted = true
  settled : Settled e
  working : e.working = []

theorem Halted.setRequest {e : Engine} (h : Halted e) (k : ℕ) {r : Request} (hr : Request.mayPlace r = false) :
    Halted (e.setRequest k r) := by
  refine ⟨h.flag, ⟨?_, h.settled.calls⟩, h.working⟩
  intro r' hr'
  rcases List.mem_or_eq_of_mem_set hr' with hold | rfl
  · exact h.settled.requests r' hold
  · exact hr

/-- A step of the world that sends nothing, and leaves calls that send nothing -/
theorem Halted.world {e : Engine} (h : Halted e) {ev : WorldEvent} (hsent : (worldStep cfg e.world ev).sent = e.world.sent)
    (hcalls : ∀ c ∈ (worldStep cfg e.world ev).calls, Call.mayPlace c = false) : Halted (e.worldStep cfg ev) := by
  refine ⟨h.flag, ⟨h.settled.requests, hcalls⟩, ?_⟩
  rw [Engine.worldStep]
  dsimp only
  rw [h.working, hsent, List.drop_length]
  rfl

theorem Halted.setCall {e : Engine} (h : Halted e) (k : ℕ) {c : Call} (hc : Call.mayPlace c = false) :
    ∀ c' ∈ e.world.calls.set k c, Call.mayPlace c' = false := by
  intro c' hc'
  rcases List.mem_or_eq_of_mem_set hc' with hold | rfl
  · exact h.settled.calls c' hold
  · exact hc

theorem Halted.run {e : Engine} (h : Halted e) (k : ℕ) (a : FxVol.Answer) : Halted (e.worldStep cfg (.run k a)) := by
  cases hc : e.world.calls[k]? with
  | none =>
    have hsame : worldStep cfg e.world (.run k a) = e.world := by rw [FxVol.worldStep, hc]
    exact h.world cfg (by rw [hsame]) (by rw [hsame]; exact h.settled.calls)
  | some call =>
    obtain ⟨⟨hsent, hcalls⟩, hcall⟩ := callStep_quiet cfg a e.world (h.settled.calls call (List.mem_of_getElem? hc))
    have hrun : worldStep cfg e.world (.run k a) =
        { (callStep cfg a e.world call).1 with
          calls := (callStep cfg a e.world call).1.calls.set k (callStep cfg a e.world call).2 } := by
      rw [FxVol.worldStep, hc]
    refine h.world cfg ?_ ?_
    · rw [hrun]
      exact hsent
    · rw [hrun]
      dsimp only
      rw [hcalls]
      exact h.setCall k hcall

/-- Every step under the flag keeps the halt. -/
theorem Halted.step {e : Engine} (h : Halted e) (ev : EngineEvent) (hflag : ev ≠ .setHalt false) :
    Halted (step cfg e ev) := by
  cases ev with
  | arrive r =>
    refine ⟨h.flag, ⟨?_, h.settled.calls⟩, h.working⟩
    intro r' hr'
    rcases List.mem_append.mp hr' with hold | hnew
    · exact h.settled.requests r' hold
    · rw [List.mem_singleton.mp hnew]
      rfl
  | readFlag k readable =>
    rw [KillSwitch.step]
    split
    · rw [if_neg (by simp [h.flag])]
      exact h.setRequest k rfl
    · exact h
  | enter k ready =>
    rw [KillSwitch.step]
    split
    · next r hr => cases h.settled.requests _ (List.mem_of_getElem? hr)
    · exact h
  | answer k raised =>
    rw [KillSwitch.step]
    split
    · next answers hr => cases h.settled.requests _ (List.mem_of_getElem? hr)
    · exact h
  | run k a => exact h.run cfg k a
  | crash k => exact h.world cfg rfl (h.setCall k rfl)
  | book ev => exact h.world cfg rfl h.settled.calls
  | newHedge side qty => exact h.world cfg rfl h.settled.calls
  | hedgeFilled i => exact h.world cfg rfl h.settled.calls
  | leave o =>
    refine ⟨h.flag, ⟨h.settled.requests, h.settled.calls⟩, ?_⟩
    rw [KillSwitch.step, h.working]
    rfl
  | setHalt halted =>
    cases halted with
    | true => exact ⟨rfl, ⟨h.settled.requests, h.settled.calls⟩, h.working⟩
    | false => exact absurd rfl hflag
  | cancelAllOpen => exact ⟨h.flag, ⟨h.settled.requests, h.settled.calls⟩, rfl⟩

theorem begin_final (e : Engine) (k : ℕ) (r : Route) : (e.begin k r).final = e.final := by
  have hgoOn : ∀ answers, (e.goOn k answers).final = e.final := by
    intro answers
    cases answers <;> rfl
  cases r with
  | placeOrder cash => exact hgoOn _
  | closePosition => exact hgoOn _
  | closeBySymbol noExchange isOption => exact hgoOn _
  | submitStructure | rollbackStructure | submitHedge | closeOrder => rfl

/-- Only the end of a cancel-all makes a halt final. -/
theorem step_final {e : Engine} {ev : EngineEvent} (hcancel : ev ≠ .cancelAllOpen)
    (h : (step cfg e ev).final = true) : e.final = true := by
  cases ev with
  | cancelAllOpen => exact absurd rfl hcancel
  | setHalt halted => exact (Bool.and_eq_true_iff.mp h).1
  | readFlag k readable =>
    rw [step] at h
    split at h <;> exact h
  | enter k ready =>
    rw [step] at h
    split at h
    · split_ifs at h
      · exact (begin_final e k _).symm.trans h
      · exact h
    · exact h
  | answer k raised =>
    rw [step] at h
    split at h
    · next answers hr =>
      split_ifs at h
      · exact h
      · cases answers <;> exact h
    · exact h
  | arrive | run | crash | book | newHedge | hedgeFilled | leave => exact h

/-- A halt that cancels when all is settled stays final until the flag is cleared. -/
theorem finalHalt_step {e : Engine} (h : e.final = true → Halted e) (ev : EngineEvent) (hcancel : SettledCancel e ev) :
    (step cfg e ev).final = true → Halted (step cfg e ev) := by
  intro hfinal
  by_cases hev : ev = .cancelAllOpen
  · subst hev
    have hsettled := hcancel hfinal
    exact ⟨hfinal, ⟨hsettled.requests, hsettled.calls⟩, rfl⟩
  · refine (h (step_final cfg hev hfinal)).step cfg ev ?_
    rintro rfl
    rw [step, Bool.and_false] at hfinal
    cases hfinal

/-- Nothing works at IB from the end of a cancel-all under the flag until it is cleared, where no request that
was let in may still place at any such cancel-all. -/
theorem final_halt {e : Engine} (h : Run (step cfg) SettledCancel Engine.empty e) (hfinal : e.final = true) :
    e.working = [] := by
  have hhalted : e.final = true → Halted e :=
    h.invariant (fun e ev h hcancel => finalHalt_step cfg h ev hcancel) nofun
  exact (hhalted hfinal).working

def deskConfig : SubmitConfig := ⟨["EUR"], 1 / 2⟩

def goodAnswer : FxVol.Answer where
  now := 0
  connected := true
  qualify _ := ⟨true, false⟩
  quote _ := ⟨none, none, none⟩
  hedgeLimit := some (11 / 10)
  placed := some ⟨some 1, some 1⟩
  committed := true

/-- A hedge that is let in and has its contract qualified -/
def hedgeRequest : List EngineEvent :=
  [.newHedge .buy 1, .arrive (.submitHedge 0), .readFlag 0 true, .enter 0 true, .run 0 goodAnswer]

/-- Its claim, its placement and its stamp -/
def hedgePlacement : List EngineEvent := [.run 0 goodAnswer, .run 0 goodAnswer, .run 0 goodAnswer]

def halt : List EngineEvent := [.setHalt true, .cancelAllOpen]

theorem final_halt_placed :
    ((hedgeRequest ++ hedgePlacement ++ halt).foldl (step deskConfig) Engine.empty).working = [] := by
  refine final_halt deskConfig (Run.of_foldl _ ?_) rfl
  refine ⟨trivial, trivial, trivial, trivial, trivial, trivial, trivial, trivial, trivial, fun _ => ?_, trivial⟩
  exact ⟨by decide +kernel, by decide +kernel⟩

/-- A hedge whose contract was qualified before the halt is placed after it. -/
theorem not_final_halt : ¬ ∀ (cfg : SubmitConfig) (es : List EngineEvent),
    (es.foldl (step cfg) Engine.empty).final = true → (es.foldl (step cfg) Engine.empty).working = [] := by
  intro hall
  have hempty := hall deskConfig (hedgeRequest ++ halt ++ hedgePlacement) rfl
  revert hempty
  decide +kernel

end FxVol.KillSwitch
