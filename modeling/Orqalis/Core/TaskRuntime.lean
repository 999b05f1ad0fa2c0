import Orqalis.Core.Approvals

/-!
# The task runtime

Which tasks of a plan are ready, how an attempt at one begins, and how it moves on. An
attempt, its task and its actor change together.
-/

namespace Orqalis

open Lib Lib.Transaction

/-! ## The scheduler -/

/-- The roles that write to the workspace. -/
def writeRoles : List AgentRole := [.developer, .tester, .documentation]

/-- The tasks of a plan that succeeded. -/
def TaskPlan.succeeded (p : TaskPlan) : List UUID :=
  (p.tasks.filter fun t => t.status = .succeeded).map Task.id

/-- Whether every task a task waits for succeeded. -/
def TaskPlan.satisfied (p : TaskPlan) (id : UUID) : Bool :=
  (p.prerequisites id).all fun q => q ∈ p.succeeded

/-- The tasks of a plan that can begin, in the order of the plan. -/
def readyTasks (p : TaskPlan) : List Task :=
  p.tasks.filter fun t => (t.status = .pending ∨ t.status = .ready) ∧ p.satisfied t.id

/-! ## Readiness -/

/-- Mark a task that can begin as ready. -/
def markReady (P : Primitives) (run : Run) (key : String) (now : Time) (task : Task) :
    RunTx Unit :=
  if task.status = .pending then do
    change fun r => r.saveTask { task with status := .ready, readyAt := some now }
    note P run
      { eventType := .taskReady
        occurredAt := now
        idempotencyKey := s!"{key}:ready:{task.id.text}"
        payload := { status := some TaskStatus.ready.value }
        taskId := some task.id }
  else
    pure ()

/-- Mark the tasks of the current plan that can begin as ready. -/
def refreshReady (P : Primitives) (run : Run) (key : String) (now : Time) : RunTx Unit := do
  match ← ask fun r => r.getPlan run.planVersion with
  | none => pure ()
  | some plan => (readyTasks plan).forM (markReady P run key now)

/-! ## Attempts -/

/-- The states a run does work in. -/
def executionStates : List RunState :=
  [.analyzing, .memoryFinalization, .deliveryValidation, .committing, .pushing, .executing,
    .testing, .reviewing, .documenting, .changeGuard]

/-- The statuses an attempt can move to. -/
def attemptTransitions : TaskStatus → List TaskStatus
  | .running => [.waiting, .blocked, .succeeded, .failed, .cancelled]
  | .waiting => [.running, .blocked, .failed, .cancelled]
  | .blocked => [.running, .failed, .cancelled]
  | _ => []

/-- The event of an attempt's status. -/
def attemptEvent : TaskStatus → EventType
  | .waiting => .taskWaiting
  | .blocked => .taskBlocked
  | .succeeded => .taskCompleted
  | .failed => .taskFailed
  | .cancelled => .taskCancelled
  | _ => .taskStarted

/-- The status of the actor of an attempt. -/
def attemptActorStatus : TaskStatus → ActorStatus
  | .waiting => .waitingForDependency
  | .blocked => .blocked
  | .succeeded => .complete
  | .failed => .failed
  | .cancelled => .cancelled
  | _ => .working

/-- Whether an attempt is over. -/
def TaskStatus.settled : TaskStatus → Bool
  | .succeeded | .failed | .cancelled => true
  | _ => false

namespace TaskRuntime

/-- The task an attempt is asked for, where a run prepares its goal. -/
def preparatory (r : Records) (taskId : UUID) : Option Task :=
  (r.tasks.get? taskId).filter fun t =>
    t.preferredRole = .requirements ∧ t.planVersion = 0 ∧
      (t.status = .ready ∨ t.status = .pending)

/-- The task an attempt is asked for, if it can begin. -/
def startable (run : Run) (plan : Option TaskPlan) (taskId : UUID) : RunTx Task := do
  let r ← read id
  if run.state = .analyzing then do
    failIf (run.currentGoalVersionId.isSome) (.conflict "Requirements have already been defined")
    found (preparatory r taskId) (.conflict "Task is not dependency-ready")
  else do
    failIf (plan.all fun p => some p.goalVersionId ≠ run.currentGoalVersionId)
      (.conflict "Current goal requires a valid plan")
    found (plan.bind fun p => (readyTasks p).find? fun t => t.id = taskId)
      (.conflict "Task is not dependency-ready")

/-- Ask for the approval of a task, where the run needs one. -/
def requireTaskApproval (P : Primitives) (run : Run) (task : Task) (now : Time) : RunTx Unit := do
  let r ← read id
  if r.policy.requires .task then
    if run.state = .analyzing then
      requireApproval P run .task run.planVersion (P.requirementsTaskSubject task)
        (taskApprovalReason P task none) now
    else do
      match ← ask Records.workspace with
      | none => fail (.policyDenied "Task approval requires a persisted workspace policy")
      | some workspace =>
        requireApproval P run .task run.planVersion (P.taskSubject task workspace.policy)
          (taskApprovalReason P task (some workspace.policy)) now
  else
    pure ()

/-- The actor of a new attempt. -/
def newActor (run : Run) (task : Task) (key : String) (now : Time) : ActorSession where
  id := .uuid5 run.id s!"{key}:actor"
  createdAt := now
  runId := run.id
  actorType := .agent
  role := some task.preferredRole
  status := .working
  currentTaskId := some task.id
  startedAt := now
  tasksAttempted := 1

/-- A new attempt at a task. -/
def newExecution (run : Run) (task : Task) (key : String) (now : Time) : TaskExecution where
  id := .uuid5 run.id s!"{key}:attempt"
  createdAt := now
  runId := run.id
  taskId := task.id
  attempt := task.attemptCount + 1
  assignedActorSessionId := .uuid5 run.id s!"{key}:actor"
  readyAt := some (task.readyAt.getD now)
  startedAt := some now
  status := .running
  queueMs := (now - task.readyAt.getD now) / 1000

/-- Begin an attempt. -/
def launch (P : Primitives) (run : Run) (task : Task) (key : String) (now : Time) :
    RunTx TaskExecution := do
  let actor := newActor run task key now
  let execution := newExecution run task key now
  change fun r => r.saveActor actor
  change fun r => r.saveExecution execution
  change fun r => r.saveTask
    { task with status := .running, startedAt := some now, attemptCount := execution.attempt }
  note P run
    { eventType := .actorStarted
      occurredAt := now
      idempotencyKey := s!"{key}:actor"
      payload := { status := some ActorStatus.working.value }
      actorSessionId := some actor.id
      taskId := some task.id
      taskExecutionId := some execution.id }
  note P run
    { eventType := .taskStarted
      occurredAt := now
      idempotencyKey := s!"{key}:task"
      payload := { status := some TaskStatus.running.value }
      actorSessionId := some actor.id
      taskId := some task.id
      taskExecutionId := some execution.id }
  let coordinator ← orchestratorActor P run now
  let _ ← setActorStatus P run coordinator .waitingForDependency s!"{key}:coordinator" now
  pure execution

/-- Start an attempt at a task. -/
def start (P : Primitives) (taskId : UUID) (key : String) (now : Time) :
    RunTx TaskExecution := do
  requireKey key
  let run ← lockedRun
  let r ← read id
  match r.byKey s!"{key}:task" with
  | some existing => do
    failIf (existing.taskId ≠ some taskId ∨ existing.eventType ≠ .taskStarted)
      (.conflict "Idempotency key belongs to another task command")
    found (existing.taskExecutionId.bind r.executions.get?) (.runtime "StopIteration")
  | none => do
    failIf (run.state ∉ executionStates) (.conflict "Run is not executing work")
    let plan ← ask fun r => r.getPlan run.planVersion
    let task ← startable run plan taskId
    requireTaskApproval P run task now
    failIf (task.preferredRole ∈ writeRoles ∧
        plan.any fun p => p.tasks.any fun t =>
          t.preferredRole ∈ writeRoles ∧ t.status.active)
      (.conflict "Another writer owns the workspace")
    launch P run task key now

/-- Show on the coordinator's actor that an attempt is over. -/
def coordinate (P : Primitives) (run : Run) (status : TaskStatus) (key : String) (now : Time) :
    RunTx Unit :=
  if status.settled then do
    let remaining ← read fun r => r.executions.entries.any fun e => e.status.active
    let coordinator ← orchestratorActor P run now
    let _ ← setActorStatus P run coordinator
      (if remaining then .waitingForDependency else .working) s!"{key}:coordinator" now
  else
    pure ()

/-- What becomes ready when an attempt succeeds. -/
def release (P : Primitives) (run : Run) (status : TaskStatus) (key : String) (now : Time) :
    RunTx Unit :=
  if status = .succeeded then refreshReady P run key now else pure ()

/-- Move an attempt on, with its task and its actor. -/
def settle (P : Primitives) (run : Run) (execution : TaskExecution) (status : TaskStatus)
    (key : String) (now : Time) : RunTx TaskExecution := do
  let r ← read id
  let task ← found (r.tasks.get? execution.taskId) (.runtime "StopIteration")
  let actor ← found (r.actors.get? execution.assignedActorSessionId) (.runtime "StopIteration")
  let event ← emit P run
    { eventType := attemptEvent status
      occurredAt := now
      idempotencyKey := s!"{key}:task"
      payload := { previousStatus := some execution.status.value, status := some status.value }
      actorSessionId := some actor.id
      taskId := some task.id
      taskExecutionId := some execution.id }
  let timing ← read fun r => taskTiming r.events execution.id event.occurredAt
  let completedAt := if status.settled then some event.occurredAt else none
  let updated : TaskExecution :=
    { execution with
      status
      completedAt
      activeMs := timing.activeMs
      waitingMs := timing.waitingMs
      blockedMs := timing.blockedMs }
  change fun r => r.saveExecution updated
  change fun r => r.saveTask { task with status, completedAt }
  let actor : ActorSession :=
    { actor with
      tasksCompleted := if status = .succeeded then 1 else 0
      tasksFailed := if status = .failed then 1 else 0
      currentTaskId := if status.settled then none else some task.id }
  let _ ← setActorStatus P run actor (attemptActorStatus status) s!"{key}:actor" event.occurredAt
  coordinate P run status key event.occurredAt
  release P run status key event.occurredAt
  pure updated

/-- Move an attempt on within a transaction. -/
def transitionInTransaction (P : Primitives) (run : Run) (executionId : UUID)
    (status : TaskStatus) (key : String) (now : Time) : RunTx TaskExecution := do
  let r ← read id
  let execution ← found (r.executions.get? executionId) (.notFound "Task execution not found")
  match r.byKey s!"{key}:task" with
  | some existing => do
    failIf (existing.taskExecutionId ≠ some executionId ∨
        existing.payload.status ≠ some status.value)
      (.conflict "Idempotency key belongs to another task command")
    pure execution
  | none => do
    failIf (status ∉ attemptTransitions execution.status)
      (.conflict "Invalid task-attempt transition")
    settle P run execution status key now

/-- Move an attempt on. -/
def transition (P : Primitives) (executionId : UUID) (status : TaskStatus) (key : String)
    (now : Time) : RunTx TaskExecution := do
  requireKey key
  let run ← lockedRun
  failIf (run.state ∉ executionStates ∧ status ≠ .cancelled)
    (.conflict "Run is not executing work")
  transitionInTransaction P run executionId status key now

end TaskRuntime

end Orqalis
