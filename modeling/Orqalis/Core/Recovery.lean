import Orqalis.Core.TaskRuntime

/-!
# Recovery

An explicit, audited replacement of an attempt whose worker is known to have stopped: the
attempt fails, what it left running is marked as interrupted, and its task is ready again.
-/

namespace Orqalis

open Lib Lib.Transaction

namespace RecoveryService

/-- Mark an invocation of a provider that an attempt left running as interrupted. -/
def interruptProvider (P : Primitives) (run : Run) (task : Task) (attempt : TaskExecution)
    (now : Time) (provider : ProviderExecution) : RunTx Unit :=
  if provider.taskExecutionId = attempt.id ∧ provider.status = .running then do
    stage fun r => r.saveProvider
      { provider with
        status := .interrupted
        completedAt := some now
        errorCode := some "interrupted" }
    note P run
      { eventType := .providerInvocationCompleted
        occurredAt := now
        idempotencyKey := s!"provider:{provider.idempotencyKey}:finish"
        payload :=
          { providerExecutionId := some provider.id
            status := some InvocationStatus.interrupted.value }
        actorSessionId := some provider.actorSessionId
        taskId := some task.id
        taskExecutionId := some attempt.id }
  else
    pure ()

/-- Mark an invocation of a tool that an attempt left running as interrupted. -/
def interruptTool (P : Primitives) (run : Run) (task : Task) (attempt : TaskExecution)
    (now : Time) (tool : ToolInvocation) : RunTx Unit :=
  if tool.taskExecutionId = attempt.id ∧ tool.status = .running then do
    stage fun r => r.saveTool { tool with status := .interrupted, completedAt := some now }
    note P run
      { eventType := .toolCompleted
        occurredAt := now
        idempotencyKey := s!"tool:{tool.id.text}:finish"
        payload :=
          { toolInvocationId := some tool.id
            status := some InvocationStatus.interrupted.value }
        actorSessionId := some tool.actorSessionId
        taskId := some task.id
        taskExecutionId := some attempt.id }
  else
    pure ()

/-- The attempt that is to be replaced, and its task. -/
def recoverable (run : Run) (executionId : UUID) : RunTx (TaskExecution × Task) := do
  let plan ← ask fun r => r.getPlan run.planVersion
  failIf (plan.any fun p => some p.goalVersionId ≠ run.currentGoalVersionId)
    (.conflict "Recovery requires the unchanged goal and plan")
  let r ← read id
  let attempt ← found (r.executions.get? executionId)
    (.conflict "Recovery attempt is not in this run's current plan")
  let task ← found (r.tasks.get? attempt.taskId)
    (.conflict "Recovery attempt is not in this run's current plan")
  failIf (plan = none ∧ ¬ (task.planVersion = 0 ∧ task.preferredRole = .requirements))
    (.conflict "Only preparatory Requirements work can recover without a plan")
  pure (attempt, task)

/-- Check that an attempt can be replaced. -/
def checkRetry (project : Option Project) (run : Run) (attempt : TaskExecution) (task : Task) :
    RunTx Unit := do
  failIf (run.state.terminal ∨ run.state = .humanReviewRequired)
    (.conflict "Terminal or human-review runs cannot retry worker attempts")
  failIf (attempt.status.active = false)
    (.conflict "Only an interrupted or blocked active attempt can be replaced")
  failIf (project.all fun p => p.maxTaskAttempts ≤ task.attemptCount)
    (.policyDenied "Task attempt limit reached; human review or a new run is required")
  let r ← read id
  failIf (r.executions.entries.any fun e => e.taskId = task.id ∧ attempt.attempt < e.attempt)
    (.conflict "A newer task attempt already exists")

/-- Give a task of a failed attempt another one. -/
def authorize (P : Primitives) (run : Run) (attempt : TaskExecution) (task : Task)
    (fingerprint reason key : String) (now : Time) : RunTx Task := do
  let ready : Task :=
    { task with status := .ready, readyAt := some now, startedAt := none, completedAt := none }
  change fun r => r.saveTask ready
  note P run
    { eventType := .approvalRecorded
      occurredAt := now
      idempotencyKey := s!"recovery:{key}"
      payload :=
        { summary := some fingerprint
          reason := some reason
          status := some "retry_authorized" }
      taskId := some task.id
      taskExecutionId := some attempt.id }
  note P run
    { eventType := .taskReady
      occurredAt := now
      idempotencyKey := s!"recovery:{key}:ready"
      payload :=
        { status := some TaskStatus.ready.value
          reason := some "Explicit recovery authorized" }
      taskId := some task.id }
  pure ready

/-- What a retry is told from another by. -/
def retryFingerprint (P : Primitives) (executionId : UUID) (reason : String) : String :=
  P.hash s!"{executionId.text}:{reason}"

/-- Replace an attempt. -/
def retry (P : Primitives) (project : Option Project) (executionId : UUID)
    (reason key : String) (acknowledgeUncertainty : Bool) (now : Time) : RunTx Task := do
  requireKey key
  failIf (acknowledgeUncertainty = false)
    (.policyDenied "Confirm prior workers stopped and their effects were inspected before recovery")
  failIf (isBlank reason ∨ P.safe reason = false ∨ 2000 < reason.length)
    (.input "Recovery requires a concise, non-secret reason")
  let fingerprint := retryFingerprint P executionId reason
  let run ← lockedRun
  let r ← read id
  let receipt := r.byKey s!"recovery:{key}"
  failIf (receipt.any fun e => e.payload.summary ≠ some fingerprint)
    (.conflict "Recovery key belongs to a different request")
  let (attempt, task) ← recoverable run executionId
  if receipt.isSome then
    pure task
  else do
    checkRetry project run attempt task
    let providers ← ask Records.providers
    providers.forM (interruptProvider P run task attempt now)
    let tools ← ask Records.tools
    tools.forM (interruptTool P run task attempt now)
    let _ ← TaskRuntime.transitionInTransaction P run executionId .failed
      s!"recovery:{key}:retire" now
    authorize P run attempt task fingerprint reason key now

end RecoveryService

end Orqalis
