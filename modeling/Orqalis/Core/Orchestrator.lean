import Orqalis.Core.TaskRuntime
import Orqalis.Delivery.Gates

/-!
# The orchestrator

The lifecycle of a run: its first plan, its transitions with the guards of each state, the
work that prepares a goal, and what a termination closes.
-/

namespace Orqalis

open Lib Lib.Transaction

/-! ## Plans and their records -/

/-- The run a transaction is about. -/
def lockedRunOf (runId : UUID) : RunTx Run := do
  let run ← lockedRun
  failIf (run.id ≠ runId) (.notFound "Run not found")
  pure run

/-- The tasks of a plan that wait for nothing. -/
def TaskPlan.roots (p : TaskPlan) : List Task :=
  p.tasks.filter fun t => ¬ p.dependencies.any fun e => e.taskId = t.id

/-- A plan that waits for the preparatory tasks of its run. -/
def withPreparation (prepared : List Task) (plan : TaskPlan) : TaskPlan :=
  { plan with
    tasks := prepared ++ plan.tasks
    dependencies := plan.dependencies ++ plan.roots.flatMap fun t =>
      prepared.map fun p => { taskId := t.id, dependsOnTaskId := p.id } }

/-- The criteria a plan is about. -/
def TaskPlan.affected (p : TaskPlan) : List UUID := p.tasks.flatMap Task.acceptanceCriterionIds

/-- Whether a plan covers the required criteria of a goal and references only that goal. -/
def GoalContract.covered (c : GoalContract) (plan : TaskPlan) : Bool :=
  (plan.affected.all fun id => id ∈ c.criteria.map AcceptanceCriterion.id) ∧
    c.required.all fun item => item.id ∈ plan.affected

/-- Announce the tasks a plan introduces. -/
def announce (P : Primitives) (run : Run) (label : String) (now : Time) (tasks : List Task) :
    RunTx Unit :=
  tasks.forM fun task =>
    note P run
      { eventType := .taskCreated
        occurredAt := now
        idempotencyKey := s!"{label}:{task.id.text}"
        payload := { status := some task.status.value }
        taskId := some task.id }

/-- Cancel a task that has not begun. -/
def cancelTask (P : Primitives) (run : Run) (label : String) (reason : Option String)
    (now : Time) (task : Task) : RunTx Unit :=
  if task.status = .pending ∨ task.status = .ready then do
    change fun r => r.saveTask { task with status := .cancelled, completedAt := some now }
    note P run
      { eventType := .taskCancelled
        occurredAt := now
        idempotencyKey := s!"{label}:{task.id.text}"
        payload := { status := some TaskStatus.cancelled.value, reason }
        taskId := some task.id }
  else
    pure ()

/-- Check that a plan a key has installed is the plan it comes with. -/
def requireSamePlan (plan : TaskPlan) (e : Error) : RunTx Unit := do
  let stored ← ask fun r => r.getPlan plan.version
  failIf (stored.all fun p => planIdentity p ≠ planIdentity plan) e

namespace Orchestrator

/-! ## The first plan -/

/-- Put the preparatory tasks of a run before a plan that does not list them. -/
def prepend (preparation : List Task) (plan : TaskPlan) : RunTx TaskPlan :=
  if preparation ≠ [] ∧ ¬ plan.tasks.any fun t => t.planVersion = 0 then do
    failIf (preparation.any fun t => t.status ≠ .succeeded)
      (.conflict "Preparatory tasks must complete before planning")
    pure (withPreparation preparation plan)
  else
    pure plan

/-- Check a first plan against the goal and the state of its run. -/
def checkInitialPlan (P : Primitives) (run : Run) (preparation : List Task) (plan : TaskPlan) :
    RunTx GoalContract := do
  failIf (run.state ≠ .goalDefined ∨ run.planVersion ≠ 0)
    (.conflict "Initial planning requires GOAL_DEFINED and no current plan")
  failIf (some plan.goalVersionId ≠ run.currentGoalVersionId ∨ plan.version ≠ 1)
    (.conflict "Plan must reference the current goal and initial plan version")
  failIf (plan.tasks.any fun t =>
      (t.status ≠ .pending ∨ t.attemptCount ≠ 0) ∧ t ∉ preparation)
    (.conflict "Planner cannot assert execution outcomes")
  failIf (P.safeDump (.plan plan) = false) (.policyDenied "Unsafe plan content")
  let r ← read id
  let contract ← found (r.getGoal plan.goalVersionId) (.conflict "Goal not found")
  failIf (contract.covered plan = false)
    (.conflict "Plan must cover required criteria and reference only this goal")
  pure contract

/-- Store a first plan. -/
def storeInitialPlan (P : Primitives) (run : Run) (preparation : List Task) (plan : TaskPlan)
    (key : String) (now : Time) : RunTx Unit := do
  stage fun r => r.savePlan plan
  let run := { run with planVersion := plan.version }
  stage fun r => r.saveRun run
  note P run
    { eventType := .planCreated
      occurredAt := now
      idempotencyKey := s!"{key}:plan"
      payload :=
        { planVersion := some plan.version
          goalVersionId := some plan.goalVersionId
          taskIds := plan.ids } }
  announce P run s!"{key}:created" now (plan.tasks.filter fun t => t ∉ preparation)
  refreshReady P run key now

/-- Install the first plan of a run. -/
def installPlan (P : Primitives) (plan : ValidPlan) (key : String) (now : Time) :
    RunTx Run := do
  requireKey key
  let run ← lockedRunOf plan.1.runId
  let preparation ← read fun r => r.taskList.filter fun t => t.planVersion = 0
  let plan ← prepend preparation plan.1
  failIf (plan.tasks.any fun t => t.planVersion = 0 ∧ t ∉ preparation)
    (.conflict "Preparatory task history must match persisted records")
  let plan ← ask fun _ => plan.modelValidate
  let r ← read id
  if (r.byKey s!"{key}:plan").isSome then do
    requireSamePlan plan.1 (.conflict "Idempotency key belongs to another plan")
    pure run
  else do
    let contract ← checkInitialPlan P run preparation plan.1
    requireApproval P run .goal contract.goal.version (P.goalSubject contract)
      "Approve goal before planning" now
    storeInitialPlan P run preparation plan.1 key now
    lockedRun

/-! ## Guards -/

/-- The guard of a repair. -/
def guardRepair (P : Primitives) (run : Run) (now : Time) : RunTx Unit := do
  let reviews ← ask Records.reviews
  let failed ← found (reviews.getLast?)
    (.conflict "Repair planning requires the current failed review")
  failIf (failed.result.overall ≠ .fail ∨ failed.planVersion ≠ run.planVersion ∨
      some failed.goalVersionId ≠ run.currentGoalVersionId)
    (.conflict "Repair planning requires the current failed review")
  requireApproval P run .repair run.planVersion (P.repairSubject failed)
    "Review failed evidence before targeted repair" now

/-- The guard of the execution of a repair. -/
def guardRepaired (run : Run) : RunTx Unit := do
  let reviews ← ask Records.reviews
  failIf (reviews.getLast?.all fun failed => run.planVersion ≠ failed.planVersion + 1)
    (.conflict "Repair plan must be installed before execution")

/-- The guard of a suspension. -/
def guardSuspension : RunTx Unit := do
  let r ← read id
  failIf (r.executions.entries.any fun e => e.status = .running)
    (.conflict "Workers must reach a waiting checkpoint before suspending the run")

/-- The guard of a plan that is to be executed. -/
def guardPlan (P : Primitives) (run : Run) (target : RunState) (now : Time) : RunTx Unit := do
  let plan ← ask fun r => r.getPlan run.planVersion
  let plan ← found (plan.filter fun p => some p.goalVersionId = run.currentGoalVersionId)
    (.conflict "A valid plan for the current goal is required")
  if target = .executing then
    requireApproval P run .plan run.planVersion (P.planSubject plan)
      "Approve dependency plan before execution" now
  else
    pure ()

/-- The guard of the acceptance. -/
def guardAcceptance (run : Run) : RunTx Unit := do
  let r ← read id
  failIf ((r.currentGoal run).all fun contract =>
      contract.required.any fun item => item.status ≠ .pass)
    (.conflict "Required acceptance criteria must pass before Change Guardian")

/-- The guards of a state. -/
def guardState (P : Primitives) (run : Run) (target : RunState) (now : Time) : RunTx Unit :=
  match target with
  | .changeGuard => do
    requireDeliveryBinding run
    guardAcceptance run
  | .repairPlanning => guardRepair P run now
  | .goalDefined =>
    failIf (run.currentGoalVersionId = none) (.conflict "A versioned goal is required")
  | .planned => guardPlan P run target now
  | .executing =>
    if run.state = .repairPlanning then do
      guardRepaired run
      guardPlan P run target now
    else
      guardPlan P run target now
  | .paused | .blocked | .humanReviewRequired => guardSuspension
  | _ => pure ()

/-- What a run must satisfy before it enters a state. -/
def guard (P : Primitives) (run : Run) (target : RunState) (now : Time) : RunTx Unit := do
  guardDelivery run target
  guardState P run target now

/-! ## Transitions -/

/-- End the attempts that are under way. -/
def cancelAttempts (P : Primitives) (run : Run) (key : String) (now : Time) : RunTx Unit := do
  let attempts ← read fun r => r.executionList.filter fun e => e.status.active
  attempts.forM fun attempt => do
    let _ ← TaskRuntime.transitionInTransaction P run attempt.id .cancelled
      s!"{key}:{attempt.id.text}" now

/-- End what a terminal run leaves behind. -/
def cancelPending (P : Primitives) (run : Run) (key : String) (now : Time) : RunTx Unit := do
  cancelAttempts P run key now
  match ← ask fun r => r.getPlan run.planVersion with
  | none => pure ()
  | some plan => plan.tasks.forM (cancelTask P run s!"{key}:cancel" none now)

/-- The state a suspended run goes back to. -/
def nextResumeState (run : Run) (target : RunState) : Option RunState :=
  if target.suspended ∧ ¬ run.state.suspended then
    some run.state
  else if run.state.suspended ∧ ¬ target.suspended then
    none
  else
    run.resumeState

/-- A run in another state. -/
def moved (run : Run) (target : RunState) (now : Time) : Run :=
  { run with
    state := target
    uiPhase := target.phase.getD run.uiPhase
    resumeState := nextResumeState run target
    startedAt := run.startedAt <|> if target.terminal then none else some now
    completedAt := if target.terminal then some now else none }

/-- The event of a transition. -/
def transitionEvent (previous target : RunState) : EventType :=
  match target with
  | .paused => .runPaused
  | .blocked | .humanReviewRequired => .runBlocked
  | .cancelled => .runCancelled
  | .failed => .runFailed
  | .completed => .runCompleted
  | _ =>
    if previous.suspended then .runResumed
    else if previous = .received then .runStarted
    else .runStateChanged

/-- The status of the orchestrator's actor in a state. -/
def coordinatorStatus : RunState → ActorStatus
  | .cancelled => .cancelled
  | .failed => .failed
  | .completed => .complete
  | .paused => .waitingForDependency
  | .blocked | .humanReviewRequired => .blocked
  | _ => .working

/-- The status of the phase in a state. -/
def phaseStatus : RunState → TaskStatus
  | .cancelled => .cancelled
  | .failed => .failed
  | .completed => .succeeded
  | .paused => .waiting
  | .blocked | .humanReviewRequired => .blocked
  | _ => .running

/-- Ask for the approval of a plan that is ready to be executed. -/
def requestPlanApproval (P : Primitives) (run : Run) (now : Time) : RunTx Unit := do
  let plan ← ask fun r => r.getPlan run.planVersion
  let plan ← found plan (.runtime "AssertionError")
  let _ ← prepareApprovalRequest P run .plan plan.version (P.planSubject plan)
    "Review the dependency plan before execution" now

/-- Enter a state. -/
def enter (P : Primitives) (run : Run) (target : RunState) (key : String) (now : Time)
    (phaseId : UUID) : RunTx Unit := do
  let actor ← orchestratorActor P run now
  let previous := run.state
  let run := moved run target now
  stage fun r => r.saveRun run
  let event ← emit P run
    { eventType := transitionEvent previous target
      occurredAt := now
      idempotencyKey := s!"{key}:run"
      payload := { previousStatus := some previous.value, status := some target.value }
      actorSessionId := some actor.id }
  let _ ← setActorStatus P run actor (coordinatorStatus target) s!"{key}:orchestrator"
    event.occurredAt
  updatePhase P run key event.occurredAt (phaseStatus target) target.terminal phaseId
  if target = .planned then requestPlanApproval P run now else pure ()

/-- Close what is open, where a run ends. -/
def close (P : Primitives) (run : Run) (target : RunState) (key : String) (now : Time) :
    RunTx Unit :=
  if target.terminal then cancelPending P run key now else pure ()

/-- Move a run to another state. -/
def advance (P : Primitives) (target : RunState) (key : String) (now : Time) (phaseId : UUID) :
    RunTx Run := do
  requireKey key
  let run ← lockedRun
  let r ← read id
  match r.byKey s!"{key}:run" with
  | some existing => do
    failIf (existing.payload.status ≠ some target.value)
      (.conflict "Idempotency key belongs to another transition")
    pure run
  | none => do
    ask fun _ => validateTransition run.state target run.resumeState
    guard P run target now
    let _ ← orchestratorActor P run now
    close P run target key now
    enter P run target key now phaseId
    lockedRun

/-- Move a suspended run back to the state it was suspended in. -/
def resume (P : Primitives) (key : String) (now : Time) (phaseId : UUID) : RunTx Run := do
  let run ← lockedRun
  let r ← read id
  match run.resumeState with
  | none => do
    failIf ((r.byKey s!"{key}:run").all fun e => e.eventType ≠ .runResumed)
      (.conflict "Run has no suspended state to resume")
    pure run
  | some target => advance P target key now phaseId

/-! ## The work that prepares a goal -/

/-- The identifier of the preparatory task. -/
def requirementsId (runId : UUID) : UUID := .uuid5 runId "requirements-task"

/-- The preparatory task of a run. -/
def requirementsTask (run : Run) (now : Time) : Task where
  id := requirementsId run.id
  createdAt := now
  runId := run.id
  planVersion := 0
  description := run.request
  expectedOutcome := "A scoped goal with testable criteria and definition of done"
  status := .ready
  preferredRole := .requirements
  validationMethod := "GoalDraft schema and immutable versioned contract"
  readyAt := some now

/-- Announce the preparatory task. -/
def announceRequirements (P : Primitives) (run : Run) (task : Task) (now : Time) :
    RunTx Unit := do
  note P run
    { eventType := .taskCreated
      occurredAt := now
      idempotencyKey := "requirements:TASK_CREATED"
      payload := { status := some task.status.value }
      taskId := some task.id }
  note P run
    { eventType := .taskReady
      occurredAt := now
      idempotencyKey := "requirements:TASK_READY"
      payload := { status := some task.status.value }
      taskId := some task.id }

/-- The preparatory task, made if it is not there. -/
def ensureRequirements (P : Primitives) (run : Run) (now : Time) : RunTx Task := do
  match ← read fun r => r.tasks.get? (requirementsId run.id) with
  | some task => pure task
  | none => do
    let task := requirementsTask run now
    stage fun r => r.addTask task
    announceRequirements P run task now
    pure task

/-- The first transaction of a start of the preparatory work: its task, and its last attempt
where that one needs no other. The second is a start of the task under a key of the number of
its next attempt. -/
def startRequirements (P : Primitives) (now : Time) : RunTx (Task × Option TaskExecution) := do
  let run ← lockedRun
  failIf (run.state ≠ .analyzing ∨ run.planVersion ≠ 0)
    (.conflict "Requirements work requires the analyzing checkpoint")
  let task ← ensureRequirements P run now
  let attempts ← read fun r => r.executionList.filter fun e => e.taskId = task.id
  pure (task, attempts.getLast?.filter fun e => e.status = .running ∨ e.status = .succeeded)

end Orchestrator

end Orqalis
