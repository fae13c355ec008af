import FxVol.TradeTables

/-!
# The order state machine for IB status events

An IB `orderStatus.status` and the state of a row in, an explicit transition out.  Terminal
rows are never revived or downgraded here, `Filled` waits for executions, and `Inactive` is
a reject only with an IB error on the trade log.
-/
namespace FxVol

/-- The statuses `IB_STATUS_TO_STATE` maps, and every other text (`none` is the empty one). -/
inductive IbStatus
  | pendingSubmit | apiPending | preSubmitted | submitted | pendingCancel
  | filled | cancelled | apiCancelled | inactive
  | other (text : String)
  deriving DecidableEq

def IbStatus.text : IbStatus → String
  | .pendingSubmit => "PendingSubmit"
  | .apiPending => "ApiPending"
  | .preSubmitted => "PreSubmitted"
  | .submitted => "Submitted"
  | .pendingCancel => "PendingCancel"
  | .filled => "Filled"
  | .cancelled => "Cancelled"
  | .apiCancelled => "ApiCancelled"
  | .inactive => "Inactive"
  | .other text => text

/-- `TERMINAL_STATES` -/
def OrderState.isTerminal : OrderState → Bool
  | .filled | .cancelled | .rejected | .expired => true
  | .pending | .submitted | .acknowledged | .partiallyFilled => false

/-- What a status means, before terminal guards and the `Inactive` semantics. -/
inductive StatusTarget | submitted | filled | cancelled | inactive
  deriving DecidableEq

def ibStatusToState : IbStatus → Option StatusTarget
  | .pendingSubmit | .apiPending | .preSubmitted | .submitted | .pendingCancel => some .submitted
  | .filled => some .filled
  | .cancelled | .apiCancelled => some .cancelled
  | .inactive => some .inactive
  | .other _ => none

/-- The order state a target names; `inactive` is not one. -/
def StatusTarget.orderState? : StatusTarget → Option OrderState
  | .submitted => some .submitted
  | .filled => some .filled
  | .cancelled => some .cancelled
  | .inactive => none

inductive TransitionKind | advance | noop | ignoredTerminal | unknown | held | fillPending
  deriving DecidableEq

structure Transition where
  newState : Option OrderState
  kind : TransitionKind
  deriving DecidableEq

def nextState (current : OrderState) (ibStatus : IbStatus) (hasErrorReason : Bool) : Transition :=
  match ibStatusToState ibStatus with
  | none => ⟨none, .unknown⟩
  | some target =>
    if current.isTerminal then
      if target.orderState? = some current then ⟨none, .noop⟩ else ⟨none, .ignoredTerminal⟩
    else match target with
      | .filled => ⟨none, .fillPending⟩
      | .inactive => if hasErrorReason then ⟨some .rejected, .advance⟩ else ⟨none, .held⟩
      | .submitted =>
        if current = .pending then ⟨some .submitted, .advance⟩ else ⟨none, .noop⟩
      | .cancelled =>
        if hasErrorReason then ⟨some .rejected, .advance⟩ else ⟨some .cancelled, .advance⟩

/-- A terminal row gets no new state. -/
theorem nextState_terminal {current : OrderState} (h : current.isTerminal) (st : IbStatus)
    (err : Bool) : (nextState current st err).newState = none := by
  unfold nextState
  split
  · rfl
  · split_ifs <;> rfl

/-- A transition moves to `submitted` from `pending`, or ends the order unfilled. -/
theorem nextState_newState {current new : OrderState} {st : IbStatus} {err : Bool}
    (h : (nextState current st err).newState = some new) :
    current.isTerminal = false ∧
      (new = .submitted ∧ current = .pending ∨ new = .rejected ∨ new = .cancelled) := by
  by_cases hc : current.isTerminal
  · simp [nextState_terminal hc] at h
  refine ⟨by simpa using hc, ?_⟩
  unfold nextState at h
  split at h
  · simp at h
  · next target _ =>
    rw [if_neg hc] at h
    cases target with
    | filled => simp at h
    | inactive => cases err <;> simp at h; exact .inr (.inl h.symm)
    | submitted =>
      by_cases hp : current = .pending
      · simp only [hp, if_true, Option.some.injEq] at h
        exact .inl ⟨h.symm, hp⟩
      · simp [hp] at h
    | cancelled =>
      cases err <;> simp only [Bool.false_eq_true, if_true, if_false, Option.some.injEq] at h
      · exact .inr (.inr h.symm)
      · exact .inr (.inl h.symm)

end FxVol
