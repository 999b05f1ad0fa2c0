import Orqalis.Domain.Base

/-!
# Runs and their phases

The lifecycle states of a run, the phases an operator sees, and the two records that keep
them: the run itself and the log of its phase executions.
-/

namespace Orqalis

/-- The lifecycle states of a run. -/
inductive RunState
  | received
  | contextSync
  | analyzing
  | goalDefined
  | planned
  | executing
  | integrating
  | testing
  | reviewing
  | repairPlanning
  | changeGuard
  | documenting
  | deliveryValidation
  | committing
  | pushing
  | memoryFinalization
  | completed
  | blocked
  | humanReviewRequired
  | failed
  | cancelled
  | paused
deriving DecidableEq, Repr

/-- The word a state is stored and compared by. -/
def RunState.value : RunState → String
  | received => "RECEIVED"
  | contextSync => "CONTEXT_SYNC"
  | analyzing => "ANALYZING"
  | goalDefined => "GOAL_DEFINED"
  | planned => "PLANNED"
  | executing => "EXECUTING"
  | integrating => "INTEGRATING"
  | testing => "TESTING"
  | reviewing => "REVIEWING"
  | repairPlanning => "REPAIR_PLANNING"
  | changeGuard => "CHANGE_GUARD"
  | documenting => "DOCUMENTING"
  | deliveryValidation => "DELIVERY_VALIDATION"
  | committing => "COMMITTING"
  | pushing => "PUSHING"
  | memoryFinalization => "MEMORY_FINALIZATION"
  | completed => "COMPLETED"
  | blocked => "BLOCKED"
  | humanReviewRequired => "HUMAN_REVIEW_REQUIRED"
  | failed => "FAILED"
  | cancelled => "CANCELLED"
  | paused => "PAUSED"

/-- The phases an operator sees. -/
inductive UIPhase
  | context
  | goal
  | plan
  | implement
  | test
  | review
  | repair
  | docs
  | deliver
deriving DecidableEq, Repr

/-- The word of a phase. -/
def UIPhase.value : UIPhase → String
  | context => "CONTEXT"
  | goal => "GOAL"
  | plan => "PLAN"
  | implement => "IMPLEMENT"
  | test => "TEST"
  | review => "REVIEW"
  | repair => "REPAIR"
  | docs => "DOCS"
  | deliver => "DELIVER"

/-- The statuses of tasks, of their executions and of phases. -/
inductive TaskStatus
  | pending
  | ready
  | running
  | waiting
  | blocked
  | succeeded
  | failed
  | cancelled
  | skipped
deriving DecidableEq, Repr

/-- The word of a status. -/
def TaskStatus.value : TaskStatus → String
  | pending => "PENDING"
  | ready => "READY"
  | running => "RUNNING"
  | waiting => "WAITING"
  | blocked => "BLOCKED"
  | succeeded => "SUCCEEDED"
  | failed => "FAILED"
  | cancelled => "CANCELLED"
  | skipped => "SKIPPED"

/-- A run. -/
structure Run where
  id : UUID
  createdAt : Time
  projectId : UUID
  request : String
  targetBranch : String
  baseCommit : String
  currentGoalVersionId : Option UUID := none
  state : RunState := .received
  uiPhase : UIPhase := .context
  repairIteration : Nat := 0
  maxRepairIterations : Nat := 5
  startedAt : Option Time := none
  completedAt : Option Time := none
  planVersion : Nat := 0
  resumeState : Option RunState := none
  lastEventSequence : Nat := 0
deriving DecidableEq, Repr

/-- One stay of a run in a phase. -/
structure PhaseExecution where
  id : UUID
  createdAt : Time
  runId : UUID
  phase : UIPhase
  iteration : Nat := 1
  startedAt : Time
  completedAt : Option Time := none
  status : TaskStatus := .running
  activeMs : Nat := 0
  waitingMs : Nat := 0
  blockedMs : Nat := 0
deriving DecidableEq, Repr

end Orqalis
