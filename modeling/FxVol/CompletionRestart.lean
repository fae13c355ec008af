import FxVol.CompletionOnce
import FxVol.SessionReplay

/-!
# Crash, restart, and one full reconciliation pass

After a crash `rehydrate_session` attaches the handlers again and replays the session's
executions, and `reconcile_stuck_orders` repairs what is stuck; each cascade they call runs to
its end.  The pass completes what it calls the cascade for, and looks at nothing else.
-/
namespace FxVol

open GuardedRuns

/-- The steps a cascade has at most still to take. -/
def CascadePc.rank : CascadePc → ℕ
  | .called => 5
  | .checked => 4
  | .counting .. | .completing .. => 3
  | .booking .. | .finalising => 2
  | .closing .. => 1

def totalRank (tasks : List (ℕ × CascadePc)) : ℕ := (tasks.map (·.2.rank)).sum

def settle (hedgeCost : ℚ) (now : Instant) : ℕ → CascadeWorld → CascadeWorld
  | 0, w => w
  | n + 1, w => settle hedgeCost now n (cascadeWorldStep w (.run 0 hedgeCost now))

/-- A transaction, and then the cascades, one after the other. -/
def settled (hedgeCost : ℚ) (now : Instant) (w : CascadeWorld) (e : Event) : CascadeWorld :=
  settle hedgeCost now (totalRank (cascadeWorldStep w (.book e)).tasks)
    (cascadeWorldStep w (.book e))

/-- `_replay_fills`, each execution with its cascade; an execution that raises ends it. -/
def replaySettled (hedgeCost : ℚ) (now : Instant) : CascadeWorld → List (ℕ × IbFill) → CascadeWorld
  | w, [] => w
  | w, (i, fill) :: rest =>
    match persistFill w.db i fill now with
    | .error _ => w
    | .ok _ => replaySettled hedgeCost now (settled hedgeCost now w (.execution i fill now)) rest

/-- A crash, `rehydrate_session`, then `reconcile_stuck_orders`. -/
def restarted (w : CascadeWorld) (trades : List IbTrade) (fills : List IbFill) (hedgeCost : ℚ)
    (now : Instant) : CascadeWorld :=
  let w₁ := settled hedgeCost now (cascadeWorldStep w .crash) (.reconnect trades now)
  settled hedgeCost now (replaySettled hedgeCost now w₁ (replayQueue w₁.db fills)) (.reconcile now)

/-- The first cascade only has begun, and what it is about to close is not closed. -/
structure OneAtATime (w : CascadeWorld) : Prop where
  rest : ∀ task ∈ w.tasks.tail, task.2 = .called
  head : ∀ task ∈ w.tasks.head?, task.2.StillOpen w.db

section Pass
variable {w : CascadeWorld} {hedgeCost : ℚ} {now : Instant}

theorem oneAtATime_idle (h : w.tasks = []) : OneAtATime w :=
  ⟨by simp [h], by simp [h]⟩

theorem OneAtATime.book (h : OneAtATime w) {e : Event} (he : Trades w.db e) :
    OneAtATime (cascadeWorldStep w (.book e)) := by
  have hf := step_tradeFrame he
  have hcalled : ∀ task ∈ (cascadesOf w.db e).map fun s => (s, CascadePc.called),
      task.2 = CascadePc.called := by
    intro task htask
    obtain ⟨s, _, rfl⟩ := List.mem_map.mp htask
    rfl
  cases htasks : w.tasks with
  | nil =>
    refine ⟨?_, ?_⟩
    · intro task htask
      simp only [cascadeWorldStep, htasks, List.nil_append] at htask
      exact hcalled task (List.mem_of_mem_tail htask)
    · intro task hhead
      simp only [cascadeWorldStep, htasks, List.nil_append] at hhead
      rw [hcalled task (List.mem_of_mem_head? hhead)]
      trivial
  | cons task tasks =>
    refine ⟨?_, ?_⟩
    · intro task' htask'
      simp only [cascadeWorldStep, htasks, List.cons_append, List.tail_cons] at htask'
      rcases List.mem_append.mp htask' with hold | hnew
      · exact h.rest task' (by rwa [htasks])
      · exact hcalled task' hnew
    · intro task' hhead
      simp only [cascadeWorldStep, htasks, List.cons_append, List.head?_cons] at hhead
      obtain rfl := Option.some.inj hhead
      have hopen : task.2.StillOpen w.db := h.head task (by rw [htasks]; rfl)
      revert hopen
      cases task.2 with
      | closing k p stamp => exact fun hopen hclosed => hopen (hf.closed p ▸ hclosed)
      | _ => exact id

/-- The first cascade goes on, or it ends and the next comes to the head. -/
theorem run_head (hedgeCost : ℚ) (now : Instant) {s : ℕ} {pc : CascadePc}
    {tasks : List (ℕ × CascadePc)} (h : w.tasks = (s, pc) :: tasks) :
    CascadeMove w s pc (cascadeStep hedgeCost now w s pc).1 (cascadeStep hedgeCost now w s pc).2 ∧
      cascadeWorldStep w (.run 0 hedgeCost now) = { (cascadeStep hedgeCost now w s pc).1 with
        tasks := ((cascadeStep hedgeCost now w s pc).2.map (s, ·)).toList ++ tasks } := by
  refine ⟨cascadeStep_move hedgeCost now w s pc, ?_⟩
  have htasks := cascadeStep_tasks hedgeCost now w s pc
  simp only [cascadeWorldStep, h, List.getElem?_cons_zero]
  rcases hstep : cascadeStep hedgeCost now w s pc with ⟨w', _ | pc'⟩
  · have hsame : w'.tasks = (s, pc) :: tasks := by
      rw [hstep] at htasks
      exact htasks.trans h
    simp [hsame]
  · have hsame : w'.tasks = (s, pc) :: tasks := by
      rw [hstep] at htasks
      exact htasks.trans h
    simp [hsame]

theorem CascadeMove.rank {s : ℕ} {pc : CascadePc} {w' : CascadeWorld} {next : Option CascadePc}
    (hm : CascadeMove w s pc w' next) : next.elim 0 (·.rank) < pc.rank := by
  cases hm with
  | lost pc => cases pc <;> simp [CascadePc.rank]
  | _ => simp [CascadePc.rank]

theorem OneAtATime.run (h : OneAtATime w) :
    OneAtATime (cascadeWorldStep w (.run 0 hedgeCost now)) := by
  cases htasks : w.tasks with
  | nil =>
    have hnone : cascadeWorldStep w (.run 0 hedgeCost now) = w := by
      simp [cascadeWorldStep, htasks]
    rw [hnone]
    exact h
  | cons task tasks =>
    obtain ⟨s, pc⟩ := task
    have hrest : ∀ task ∈ tasks, task.2 = .called := fun task htask =>
      h.rest task (by rwa [htasks])
    obtain ⟨hm, hrun⟩ := run_head hedgeCost now htasks
    rw [hrun]
    revert hm
    generalize (cascadeStep hedgeCost now w s pc).1 = w'
    generalize (cascadeStep hedgeCost now w s pc).2 = next
    intro hm
    cases next with
    | none =>
      refine ⟨fun task htask => hrest task (List.mem_of_mem_tail htask), ?_⟩
      intro task hhead
      rw [hrest task (List.mem_of_mem_head? hhead)]
      trivial
    | some pc' =>
      refine ⟨hrest, ?_⟩
      rintro _ ⟨⟩
      cases hm with
      | found k a stamp ha hlink hopen => exact hopen
      | _ => trivial

/-- The head is all that a step runs, so it closes nothing twice. -/
theorem OneAtATime.inPeace (h : OneAtATime w) :
    CompletesInPeace w (.run 0 hedgeCost now) := by
  intro task hhead
  exact h.head task (by rwa [List.head?_eq_getElem?])

theorem totalRank_cons (s : ℕ) (pc : CascadePc) (tasks : List (ℕ × CascadePc)) :
    totalRank ((s, pc) :: tasks) = pc.rank + totalRank tasks := by
  simp [totalRank]

theorem settle_idle {n : ℕ} (h : totalRank w.tasks ≤ n) :
    (settle hedgeCost now n w).tasks = [] := by
  induction n generalizing w with
  | zero =>
    cases htasks : w.tasks with
    | nil => exact htasks
    | cons task tasks =>
      obtain ⟨s, pc⟩ := task
      have hpos : 0 < pc.rank := by cases pc <;> simp [CascadePc.rank]
      rw [htasks, totalRank_cons] at h
      omega
  | succ n ih =>
    rw [settle]
    apply ih
    cases htasks : w.tasks with
    | nil => simp [cascadeWorldStep, htasks, totalRank]
    | cons task tasks =>
      obtain ⟨s, pc⟩ := task
      obtain ⟨hm, hrun⟩ := run_head hedgeCost now htasks
      have hlt := hm.rank
      rw [hrun]
      rw [htasks, totalRank_cons] at h
      revert hlt
      cases (cascadeStep hedgeCost now w s pc).2 with
      | none =>
        intro hlt
        simp only [Option.elim_none] at hlt
        simp only [Option.map_none, Option.toList_none, List.nil_append]
        omega
      | some pc' =>
        intro hlt
        simp only [Option.elim_some] at hlt
        simp only [Option.map_some, Option.toList_some, List.singleton_append, totalRank_cons]
        omega

theorem CascadeInvariant.settle (h : CascadeInvariant w) (hone : OneAtATime w) (n : ℕ) :
    CascadeInvariant (FxVol.settle hedgeCost now n w) := by
  induction n generalizing w with
  | zero => exact h
  | succ n ih => exact ih (cascadeWorldStep_invariant h hone.inPeace) hone.run

/-- A transaction of the pass and its cascades leave nothing under way. -/
theorem CascadeInvariant.settled (h : CascadeInvariant w) (hidle : w.tasks = []) (hedgeCost : ℚ)
    (now : Instant) {e : Event} (he : Trades w.db e) :
    CascadeInvariant (FxVol.settled hedgeCost now w e) ∧
      (FxVol.settled hedgeCost now w e).tasks = [] := by
  have hbook := cascadeWorldStep_invariant (e := .book e) h he
  exact ⟨hbook.settle ((oneAtATime_idle hidle).book he) _, settle_idle le_rfl⟩

theorem CascadeInvariant.replaySettled (h : CascadeInvariant w) (hidle : w.tasks = [])
    (hedgeCost : ℚ) (now : Instant) (queue : List (ℕ × IbFill)) :
    CascadeInvariant (FxVol.replaySettled hedgeCost now w queue) ∧
      (FxVol.replaySettled hedgeCost now w queue).tasks = [] := by
  induction queue generalizing w with
  | nil => exact ⟨h, hidle⟩
  | cons task queue ih =>
    obtain ⟨i, fill⟩ := task
    rw [FxVol.replaySettled]
    split
    · exact ⟨h, hidle⟩
    · obtain ⟨hnext, hidle'⟩ := h.settled hidle hedgeCost now (e := .execution i fill now) trivial
      exact ih hnext hidle'

theorem CascadeInvariant.restarted (h : CascadeInvariant w) (howed : ¬ Owed w)
    (trades : List IbTrade) (fills : List IbFill) :
    CascadeInvariant (FxVol.restarted w trades fills hedgeCost now) ∧
      (FxVol.restarted w trades fills hedgeCost now).tasks = [] := by
  have hcrash : CascadeInvariant (cascadeWorldStep w .crash) :=
    cascadeWorldStep_invariant (e := .crash) h howed
  obtain ⟨h₁, hidle₁⟩ := hcrash.settled rfl hedgeCost now (e := .reconnect trades now) trivial
  obtain ⟨h₂, hidle₂⟩ := h₁.replaySettled hidle₁ hedgeCost now (replayQueue _ fills)
  exact h₂.settled hidle₂ hedgeCost now trivial

/-- In every run that owes nothing at a crash and closes no position twice: once no cascade is
under way every structure is complete, and so it is after a crash that owes nothing and a full
reconciliation pass. -/
theorem structures_complete_once
    (hrun : Run cascadeWorldStep CompletesInPeace CascadeWorld.empty w) :
    (w.tasks = [] → ∀ s, CompletesOnce w s) ∧
      (¬ Owed w → ∀ trades fills hedgeCost now s,
        CompletesOnce (restarted w trades fills hedgeCost now) s) := by
  have h := hrun.invariant (fun _ _ hinv hg => cascadeWorldStep_invariant hinv hg)
    cascadeInvariant_empty
  refine ⟨h.completes, ?_⟩
  intro howed trades fills hedgeCost now
  obtain ⟨h', hidle⟩ := h.restarted howed trades fills
  exact h'.completes hidle

end Pass

section Decide
variable (db : Db) (w : CascadeWorld) (s : ℕ)

instance : Decidable (db.isBooked s) := inferInstanceAs (Decidable (_ ∈ _))

instance : Decidable (EntryFilled db s) := inferInstanceAs (Decidable (_ ∧ _))

instance : Decidable (ClosingOnly db s) := inferInstanceAs (Decidable (∀ o ∈ db.orders, _ → _))

instance : Decidable (ClosingFilled db s) := inferInstanceAs (Decidable (_ ∧ _))

instance : Decidable (Owed w) := inferInstanceAs (Decidable (_ ∨ _))

instance : ∀ pc, Decidable (CascadePc.StillOpen db pc)
  | .closing _ p _ => inferInstanceAs (Decidable (¬ db.positionClosed p))
  | .called | .checked | .counting .. | .booking .. | .completing .. | .finalising =>
    .isTrue trivial

instance : ∀ e, Decidable (CompletesInPeace w e)
  | .book e => inferInstanceAs (Decidable (Trades w.db e))
  | .raiseAlert p _ => inferInstanceAs (Decidable (p < w.db.bookedPositions.length))
  | .run k _ _ => inferInstanceAs (Decidable (∀ task ∈ w.tasks[k]?, task.2.StillOpen w.db))
  | .crash => inferInstanceAs (Decidable (¬ Owed w))

end Decide

/-- Two calls are bought and sold, booked, and closed on an alert. -/
def bookedSpread : List CascadeEvent :=
  [.book (.submitPreview [callLeg .buy 10, callLeg .sell 10] 0),
    .book (.execution 0 (execution "1" "BOT" 10 (some 0)) 1),
    .book (.execution 1 (execution "2" "SLD" 10 (some 0)) 1)] ++
  List.replicate 6 (.run 0 0 2) ++
  [.raiseAlert 0 "take_profit", .book (.positionClose 0 (some 0) 3),
    .book (.execution 2 (execution "3" "SLD" 10 (some 0)) 4),
    .book (.execution 3 (execution "4" "BOT" 10 (some 0)) 4)]

def closedSpread : List CascadeEvent := bookedSpread ++ List.replicate 10 (.run 0 0 5)

theorem structures_complete_once_closedSpread :
    CompletesOnce (closedSpread.foldl cascadeWorldStep .empty) 1 ∧
      CompletesOnce (restarted (closedSpread.foldl cascadeWorldStep .empty) [] [] 0 6) 1 := by
  have hrun : Run cascadeWorldStep CompletesInPeace .empty _ :=
    Run.of_foldl closedSpread (by decide +kernel)
  obtain ⟨hidle, hpass⟩ := structures_complete_once hrun
  exact ⟨hidle (by decide +kernel) 1, hpass (by decide +kernel) [] [] 0 6 1⟩

/-- Any fills, cascades and crashes. -/
def Happens (w : CascadeWorld) : CascadeEvent → Prop
  | .book e => Trades w.db e
  | .raiseAlert positionId _ => positionId < w.db.bookedPositions.length
  | .run .. | .crash => True

instance (w : CascadeWorld) : ∀ e, Decidable (Happens w e)
  | .book e => inferInstanceAs (Decidable (Trades w.db e))
  | .raiseAlert p _ => inferInstanceAs (Decidable (p < w.db.bookedPositions.length))
  | .run .. | .crash => .isTrue trivial

def filledCall : List CascadeEvent :=
  [.book (.submitPreview [callLeg .buy 10] 0),
    .book (.execution 0 (execution "1" "BOT" 10 (some 0)) 1)]

/-- The two cascades of the closing legs take turns. -/
def racingFinalisers : List CascadeEvent :=
  bookedSpread ++ (List.replicate 4 [.run 0 0 5, .run 1 0 5]).flatten ++
    [.run 0 0 6, .run 0 0 6]

/-- A crash between a last fill and its cascade leaves the structure without its position, whatever
the pass replays; with no crash at all, two finalisers close a position twice. -/
theorem lost_and_doubled_cascades :
    (¬ ∀ w, Run cascadeWorldStep Happens CascadeWorld.empty w →
      ∀ trades fills hedgeCost now s, CompletesOnce (restarted w trades fills hedgeCost now) s) ∧
    ¬ ∀ w, Run cascadeWorldStep Happens CascadeWorld.empty w → w.tasks = [] →
      ∀ s, CompletesOnce w s := by
  constructor
  · intro h
    have hrun : Run cascadeWorldStep Happens .empty _ := Run.of_foldl filledCall (by decide +kernel)
    have hentry := ((h _ hrun [] [{ execution "1" "BOT" 10 (some 0) with
      orderRef := some (orderRef 0 0) }] 0 2 0).entry (by decide +kernel)).1
    revert hentry
    decide +kernel
  · intro h
    have hrun : Run cascadeWorldStep Happens .empty _ :=
      Run.of_foldl racingFinalisers (by decide +kernel)
    have hclosing := ((h _ hrun (by decide +kernel) 1).closing (by decide +kernel) _
      (Option.get_mem (o := (racingFinalisers.foldl cascadeWorldStep .empty).db.exitAlerts.head?)
        (by decide +kernel) |> List.mem_of_mem_head?) (by decide +kernel)).2
    revert hclosing
    decide +kernel

end FxVol
