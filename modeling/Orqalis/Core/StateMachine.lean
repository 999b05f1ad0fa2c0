import Orqalis.Domain.Run

/-!
# The lifecycle of a run

Which state may follow which. A suspended run goes back to the state it was suspended in
and nowhere else; a terminal run goes nowhere.
-/

namespace Orqalis

namespace RunState

/-- The states a run never leaves. -/
def terminal : RunState → Bool
  | completed | failed | cancelled => true
  | _ => false

/-- The states a run waits in. -/
def suspended : RunState → Bool
  | paused | blocked | humanReviewRequired => true
  | _ => false

/-- The states a run works in. -/
def active (s : RunState) : Bool := !s.suspended && !s.terminal

/-- The states that may follow a state, suspensions and failures apart. -/
def transitions : RunState → List RunState
  | received => [contextSync]
  | contextSync => [analyzing]
  | analyzing => [goalDefined]
  | goalDefined => [planned]
  | planned => [executing]
  | executing => [integrating]
  | integrating => [testing]
  | testing => [reviewing]
  | reviewing => [changeGuard, repairPlanning]
  | repairPlanning => [executing]
  | changeGuard => [documenting, repairPlanning]
  | documenting => [deliveryValidation]
  | deliveryValidation => [committing]
  | committing => [pushing, memoryFinalization]
  | pushing => [memoryFinalization]
  | memoryFinalization => [completed]
  | _ => []

/-- The phase an operator sees in a state; a suspension or a failure keeps the phase. -/
def phase : RunState → Option UIPhase
  | received | contextSync => some .context
  | analyzing | goalDefined => some .goal
  | planned => some .plan
  | executing | integrating => some .implement
  | testing => some .test
  | reviewing | changeGuard => some .review
  | repairPlanning => some .repair
  | documenting => some .docs
  | deliveryValidation | committing | pushing | memoryFinalization | completed => some .deliver
  | _ => none

/-- Whether a state may be entered from anywhere but itself. -/
def interrupting : RunState → Bool
  | cancelled | failed | paused | blocked | humanReviewRequired => true
  | _ => false

end RunState

open RunState in
/-- Check a transition. -/
def validateTransition (previous target : RunState) (resumeState : Option RunState) :
    Except Error Unit :=
  if previous.terminal then
    .error (.conflict "Terminal runs cannot transition")
  else if target.interrupting then
    if previous = target then .error (.conflict "State already active") else .ok ()
  else if previous.suspended then
    if resumeState = some target then
      .ok ()
    else
      .error (.conflict "Resume must return to the persisted prior state")
  else if target ∈ previous.transitions then
    .ok ()
  else
    .error (.conflict s!"Invalid transition: {previous.value} -> {target.value}")

/-- What a transition the check accepts looks like. -/
theorem validateTransition_eq_ok {previous target : RunState} {resumeState : Option RunState} :
    validateTransition previous target resumeState = .ok () ↔
      previous.terminal = false ∧
        (target.interrupting = true ∧ previous ≠ target ∨
          target.interrupting = false ∧
            (previous.suspended = true ∧ resumeState = some target ∨
              previous.suspended = false ∧ target ∈ previous.transitions)) := by
  unfold validateTransition
  split_ifs with hterminal hinterrupting hsame hsuspended hresume htarget <;>
    simp_all

/-- No transition leads to a state outside the table: what follows a working state is a
working state or the completion. -/
theorem RunState.transitions_active {s t : RunState} (h : t ∈ s.transitions) :
    t.suspended = false ∧ (t.active = true ∨ t = completed) := by
  cases s <;> simp only [transitions, List.mem_cons, List.not_mem_nil, or_false] at h
  all_goals first | exact h.elim | (rcases h with rfl | rfl <;> decide)

/-- Every working state has a phase. -/
theorem RunState.phase_of_active {s : RunState} (h : s.active = true) : s.phase.isSome := by
  cases s <;> first | rfl | exact absurd h (by decide)

end Orqalis
