import Mathlib.Data.List.Flatten
import Mathlib.Data.List.Nodup

/-!
# Work staged in a session, beside a queue

Tasks share the session of one transaction, and push onto a queue that the transaction does not own.
A task may fail at any of its acts; a flush that fails spoils the session, and a spoiled session
raises at every flush after it.
-/
namespace FxVol.StagedWork

inductive Act (ρ ε : Type*)
  | flush
  | add (row : ρ)
  | push (entry : ε)

/-- A task fails instead of the act with that index; at a flush the flush itself may be what fails. -/
structure Fault where
  index : ℕ
  inFlush : Bool
  deriving DecidableEq

structure Session (ρ ε : Type*) where
  staged : List ρ
  queue : List ε
  spoiled : Bool

structure Task (ρ ε : Type*) where
  acts : List (Act ρ ε)
  fault : Option Fault

variable {ρ ε : Type*}

namespace Act

def isFlush : Act ρ ε → Bool
  | .flush => true
  | _ => false

def row? : Act ρ ε → Option ρ
  | .add row => some row
  | _ => none

def entry? : Act ρ ε → Option ε
  | .push entry => some entry
  | _ => none

end Act

def added (acts : List (Act ρ ε)) : List ρ := acts.filterMap Act.row?

def pushed (acts : List (Act ρ ε)) : List ε := acts.filterMap Act.entry?

/-- Every entry is pushed after a row that it refers to; `rows` are those added before. -/
def Backed (Refers : ε → ρ → Prop) : List ρ → List (Act ρ ε) → Prop
  | _, [] => True
  | rows, .flush :: acts => Backed Refers rows acts
  | rows, .add row :: acts => Backed Refers (rows ++ [row]) acts
  | rows, .push entry :: acts => (∃ row ∈ rows, Refers entry row) ∧ Backed Refers rows acts

namespace Session

def act (s : Session ρ ε) (a : Act ρ ε) : Session ρ ε :=
  { s with staged := s.staged ++ a.row?.toList, queue := s.queue ++ a.entry?.toList }

/-- The acts of a task until it fails. -/
def run (s : Session ρ ε) : Option Fault → List (Act ρ ε) → Session ρ ε
  | _, [] => s
  | none, a :: acts => if s.spoiled && a.isFlush then s else (s.act a).run none acts
  | some ⟨0, inFlush⟩, a :: _ =>
    if s.spoiled && a.isFlush then s else { s with spoiled := s.spoiled || (inFlush && a.isFlush) }
  | some ⟨n + 1, inFlush⟩, a :: acts =>
    if s.spoiled && a.isFlush then s else (s.act a).run (some ⟨n, inFlush⟩) acts

def runAll (s : Session ρ ε) (tasks : List (Task ρ ε)) : Session ρ ε :=
  tasks.foldl (fun s task => s.run task.fault task.acts) s

end Session

namespace Task

/-- The fault strikes before the task is done. -/
def Fails (task : Task ρ ε) : Prop := ∃ f ∈ task.fault, f.index < task.acts.length

def FailsFlush (task : Task ρ ε) : Prop :=
  ∃ f ∈ task.fault, f.inFlush ∧ (task.acts.map Act.isFlush)[f.index]? = some true

/-- A task begins with a flush. -/
def Flushes (task : Task ρ ε) : Prop := ∃ acts, task.acts = .flush :: acts

end Task

theorem added_cons (a : Act ρ ε) (acts : List (Act ρ ε)) : added (a :: acts) = a.row?.toList ++ added acts := by
  cases a <;> rfl

theorem pushed_cons (a : Act ρ ε) (acts : List (Act ρ ε)) :
    pushed (a :: acts) = a.entry?.toList ++ pushed acts := by
  cases a <;> rfl

theorem Backed.take {Refers : ε → ρ → Prop} {acts : List (Act ρ ε)} (h : Backed Refers [] acts) (k : ℕ) :
    ∀ x ∈ pushed (acts.take k), ∃ row ∈ added (acts.take k), Refers x row := by
  suffices hrows : ∀ rows, Backed Refers rows acts →
      ∀ x ∈ pushed (acts.take k), ∃ row ∈ rows ++ added (acts.take k), Refers x row from hrows [] h
  clear h
  induction acts generalizing k with
  | nil =>
    intro rows _ x hx
    rw [List.take_nil] at hx
    cases hx
  | cons a acts ih =>
    intro rows h x hx
    cases k with
    | zero => cases hx
    | succ k =>
      rw [List.take_succ_cons, pushed_cons] at hx
      rw [List.take_succ_cons, added_cons]
      cases a with
      | flush => exact ih k rows h x hx
      | add row =>
        rw [← List.append_assoc]
        exact ih k (rows ++ [row]) h x hx
      | push entry =>
        obtain ⟨hhead, hrest⟩ := h
        rcases List.mem_append.mp hx with hx | hx
        · obtain ⟨row, hrow, href⟩ := hhead
          cases List.mem_singleton.mp hx
          exact ⟨row, List.mem_append_left _ hrow, href⟩
        · exact ih k rows hrest x hx

section One
variable {s : Session ρ ε} {fault : Option Fault} {acts : List (Act ρ ε)}

/-- A task does a part of its acts from the first on. -/
theorem run_take (s : Session ρ ε) (fault : Option Fault) (acts : List (Act ρ ε)) :
    ∃ k, (s.run fault acts).staged = s.staged ++ added (acts.take k) ∧
      (s.run fault acts).queue = s.queue ++ pushed (acts.take k) := by
  have hnothing : s.staged = s.staged ++ added ([] : List (Act ρ ε)) ∧
      s.queue = s.queue ++ pushed ([] : List (Act ρ ε)) :=
    ⟨(List.append_nil _).symm, (List.append_nil _).symm⟩
  induction acts generalizing s fault with
  | nil => exact ⟨0, hnothing⟩
  | cons a acts ih =>
    have hlater : ∀ fault', ∃ k, ((s.act a).run fault' acts).staged = s.staged ++ added ((a :: acts).take k) ∧
        ((s.act a).run fault' acts).queue = s.queue ++ pushed ((a :: acts).take k) := by
      intro fault'
      obtain ⟨k, hstaged, hqueue⟩ := ih (s.act a) fault'
        ⟨(List.append_nil _).symm, (List.append_nil _).symm⟩
      refine ⟨k + 1, ?_, ?_⟩
      · rw [hstaged, List.take_succ_cons, added_cons, ← List.append_assoc]
        rfl
      · rw [hqueue, List.take_succ_cons, pushed_cons, ← List.append_assoc]
        rfl
    match fault with
    | none =>
      rw [Session.run]
      split
      · exact ⟨0, hnothing⟩
      · exact hlater none
    | some ⟨0, inFlush⟩ =>
      rw [Session.run]
      split <;> exact ⟨0, hnothing⟩
    | some ⟨n + 1, inFlush⟩ =>
      rw [Session.run]
      split
      · exact ⟨0, hnothing⟩
      · exact hlater (some ⟨n, inFlush⟩)

/-- A task that does not fail does all of its acts. -/
theorem run_complete (hs : s.spoiled = false) (h : ∀ f ∈ fault, acts.length ≤ f.index) :
    s.run fault acts = ⟨s.staged ++ added acts, s.queue ++ pushed acts, false⟩ := by
  induction acts generalizing s fault with
  | nil =>
    rw [Session.run, added, pushed, List.filterMap_nil, List.filterMap_nil, List.append_nil,
      List.append_nil, ← hs]
  | cons a acts ih =>
    have hstep : ∀ fault', (∀ f ∈ fault', acts.length ≤ f.index) → (s.act a).run fault' acts =
        ⟨s.staged ++ added (a :: acts), s.queue ++ pushed (a :: acts), false⟩ := by
      intro fault' h'
      have hkept : (s.act a).spoiled = false := hs
      rw [ih hkept h', added_cons, pushed_cons, ← List.append_assoc, ← List.append_assoc]
      rfl
    match fault with
    | none =>
      rw [Session.run, hs, Bool.false_and, if_neg Bool.false_ne_true]
      exact hstep none fun f hf => nomatch hf
    | some ⟨0, inFlush⟩ => exact absurd (h _ rfl) (by simp)
    | some ⟨n + 1, inFlush⟩ =>
      rw [Session.run, hs, Bool.false_and, if_neg Bool.false_ne_true]
      refine hstep (some ⟨n, inFlush⟩) fun f hf => ?_
      cases hf
      exact Nat.le_of_succ_le_succ (h _ rfl)

/-- A task spoils the session just where a flush of it fails. -/
theorem run_spoiled (hs : s.spoiled = false) : (s.run fault acts).spoiled = true ↔
    ∃ f ∈ fault, f.inFlush ∧ (acts.map Act.isFlush)[f.index]? = some true := by
  induction acts generalizing s fault with
  | nil => simp [Session.run, hs]
  | cons a acts ih =>
    have hkept : (s.act a).spoiled = false := hs
    match fault with
    | none =>
      rw [Session.run, hs, Bool.false_and, if_neg Bool.false_ne_true, ih hkept]
      simp
    | some ⟨0, inFlush⟩ =>
      rw [Session.run, hs, Bool.false_and, if_neg Bool.false_ne_true]
      simp
    | some ⟨n + 1, inFlush⟩ =>
      rw [Session.run, hs, Bool.false_and, if_neg Bool.false_ne_true, ih hkept]
      simp

theorem run_blocked (hs : s.spoiled = true) (h : ∃ rest, acts = .flush :: rest) : s.run fault acts = s := by
  obtain ⟨rest, rfl⟩ := h
  match fault with
  | none | some ⟨0, _⟩ | some ⟨_ + 1, _⟩ =>
    rw [Session.run, hs]
    exact if_pos rfl

end One

section All
variable {s : Session ρ ε} {tasks : List (Task ρ ε)}

theorem runAll_blocked (hs : s.spoiled = true) (h : ∀ task ∈ tasks, task.Flushes) : s.runAll tasks = s := by
  rw [Session.runAll]
  induction tasks with
  | nil => rfl
  | cons task tasks ih =>
    rw [List.foldl_cons, run_blocked hs (h task List.mem_cons_self)]
    exact ih fun t ht => h t (List.mem_cons_of_mem _ ht)

theorem runAll_spoiled (hs : s.spoiled = false) (h : ∀ task ∈ tasks, task.Flushes) :
    (s.runAll tasks).spoiled = true ↔ ∃ task ∈ tasks, task.FailsFlush := by
  induction tasks generalizing s with
  | nil => simp [Session.runAll, hs]
  | cons task tasks ih =>
    have hrest : ∀ t ∈ tasks, t.Flushes := fun t ht => h t (List.mem_cons_of_mem _ ht)
    have hhead : (s.run task.fault task.acts).spoiled = true ↔ task.FailsFlush := run_spoiled hs
    have hcons : s.runAll (task :: tasks) = (s.run task.fault task.acts).runAll tasks := rfl
    rw [hcons]
    cases hspoiled : (s.run task.fault task.acts).spoiled with
    | true =>
      rw [runAll_blocked hspoiled hrest, hspoiled]
      exact iff_of_true rfl ⟨task, List.mem_cons_self, hhead.mp hspoiled⟩
    | false =>
      have hfine : ¬ task.FailsFlush := fun hfail => by
        rw [hhead.mpr hfail] at hspoiled
        cases hspoiled
      rw [ih hspoiled hrest]
      constructor
      · rintro ⟨t, ht, hfail⟩
        exact ⟨t, List.mem_cons_of_mem _ ht, hfail⟩
      · rintro ⟨t, ht, hfail⟩
        rcases List.mem_cons.mp ht with rfl | ht
        · exact absurd hfail hfine
        · exact ⟨t, ht, hfail⟩

/-- Tasks without faults do all of their acts. -/
theorem runAll_complete (hs : s.spoiled = false) (h : ∀ task ∈ tasks, task.fault = none) :
    s.runAll tasks = ⟨s.staged ++ tasks.flatMap fun task => added task.acts,
      s.queue ++ tasks.flatMap fun task => pushed task.acts, false⟩ := by
  induction tasks generalizing s with
  | nil =>
    rw [List.flatMap_nil, List.flatMap_nil, List.append_nil, List.append_nil, ← hs]
    rfl
  | cons task tasks ih =>
    have hnone := h task List.mem_cons_self
    have hhead : s.run task.fault task.acts = ⟨s.staged ++ added task.acts, s.queue ++ pushed task.acts, false⟩ := by
      refine run_complete hs fun f hf => ?_
      rw [hnone] at hf
      cases hf
    have hcons : s.runAll (task :: tasks) = (s.run task.fault task.acts).runAll tasks := rfl
    rw [hcons, hhead, ih rfl fun t ht => h t (List.mem_cons_of_mem _ ht), List.flatMap_cons,
      List.flatMap_cons, List.append_assoc, List.append_assoc]

/-- What is staged and queued is a part of what the tasks would add and push, and what is new in the
queue refers to what is staged. -/
theorem runAll_parts {Refers : ε → ρ → Prop} (s : Session ρ ε)
    (h : ∀ task ∈ tasks, Backed Refers [] task.acts) : ∃ rows entries,
      (s.runAll tasks).staged = s.staged ++ rows ∧ (s.runAll tasks).queue = s.queue ++ entries ∧
      rows.Sublist (tasks.flatMap fun task => added task.acts) ∧
      entries.Sublist (tasks.flatMap fun task => pushed task.acts) ∧
      ∀ x ∈ entries, ∃ row ∈ rows, Refers x row := by
  induction tasks generalizing s with
  | nil =>
    exact ⟨[], [], (List.append_nil _).symm, (List.append_nil _).symm, .slnil, .slnil,
      fun x hx => nomatch hx⟩
  | cons task tasks ih =>
    obtain ⟨k, hstaged, hqueue⟩ := run_take s task.fault task.acts
    obtain ⟨rows, entries, hrows, hentries, hsub, hsub', hrefers⟩ :=
      ih (s.run task.fault task.acts) fun t ht => h t (List.mem_cons_of_mem _ ht)
    refine ⟨added (task.acts.take k) ++ rows, pushed (task.acts.take k) ++ entries, ?_, ?_, ?_, ?_, ?_⟩
    · rw [← List.append_assoc, ← hstaged]
      exact hrows
    · rw [← List.append_assoc, ← hqueue]
      exact hentries
    · exact ((List.take_sublist _ _).filterMap _).append hsub
    · exact ((List.take_sublist _ _).filterMap _).append hsub'
    · intro x hx
      rcases List.mem_append.mp hx with hx | hx
      · obtain ⟨row, hrow, href⟩ := (h task List.mem_cons_self).take k x hx
        exact ⟨row, List.mem_append_left _ hrow, href⟩
      · obtain ⟨row, hrow, href⟩ := hrefers x hx
        exact ⟨row, List.mem_append_right _ hrow, href⟩

theorem runAll_grows (s : Session ρ ε) (tasks : List (Task ρ ε)) :
    ∀ row ∈ s.staged, row ∈ (s.runAll tasks).staged := by
  induction tasks generalizing s with
  | nil => exact fun row hrow => hrow
  | cons task tasks ih =>
    intro row hrow
    obtain ⟨k, hstaged, -⟩ := run_take s task.fault task.acts
    refine ih (s.run task.fault task.acts) row ?_
    rw [hstaged]
    exact List.mem_append_left _ hrow

/-- In a session that is not spoiled a task that does not fail has all its rows staged. -/
theorem runAll_staged (hs : s.spoiled = false) (hflush : ∀ task ∈ tasks, task.Flushes)
    (hend : (s.runAll tasks).spoiled = false) {task : Task ρ ε} (htask : task ∈ tasks)
    (hfine : ¬ task.Fails) : ∀ row ∈ added task.acts, row ∈ (s.runAll tasks).staged := by
  induction tasks generalizing s with
  | nil => cases htask
  | cons t tasks ih =>
    have hrest : ∀ t ∈ tasks, t.Flushes := fun t ht => hflush t (List.mem_cons_of_mem _ ht)
    have hcons : s.runAll (t :: tasks) = (s.run t.fault t.acts).runAll tasks := rfl
    rw [hcons] at hend ⊢
    have hnext : (s.run t.fault t.acts).spoiled = false := by
      by_contra hspoiled
      rw [Bool.not_eq_false] at hspoiled
      rw [runAll_blocked hspoiled hrest, hspoiled] at hend
      cases hend
    rcases List.mem_cons.mp htask with rfl | hmem
    · intro row hrow
      refine runAll_grows _ tasks row ?_
      rw [run_complete hs fun f hf => Nat.not_lt.mp fun hlt => hfine ⟨f, hf, hlt⟩]
      exact List.mem_append_right _ hrow
    · exact ih hnext hrest hend hmem

end All

end FxVol.StagedWork
