import Orqalis.Core.TaskRuntime

/-!
# Workers

The invocations of providers and tools, the workspace they work in, and the reports of an
external assistant. An effect outside the records, the call of a provider or of a tool,
stands between two transactions: the first stores that it is about to happen, the second
what came of it. What the outside answers is an argument of the second.
-/

namespace Orqalis

open Lib Lib.Transaction

/-! ## Providers -/

namespace AgentExecution

/-- The states a provider works in. -/
def activeStates : List RunState :=
  [.analyzing, .executing, .testing, .reviewing, .changeGuard, .documenting]

/-- The roles a provider can have. -/
def providerRoles : List AgentRole :=
  [.requirements, .architect, .planner, .developer, .reviewer, .repair]

/-- A request as the router prepares it. -/
structure Prepared where
  provider : String
  model : String
  requestHash : String
  timeout : Time
  skillRefs : List String := []
  allowedTools : List ToolName := []
  memoryIds : List UUID := []
  summary : String := ""

/-- The identifier of the invocation of a key. -/
def invocationId (runId : UUID) (key : String) : UUID := .uuid5 runId s!"provider:{key}"

/-- What the first transaction of an invocation answers: a stored result, or leave to call
the provider. -/
inductive Reply
  | stored (result : ProviderResult)
  | begun (invocation : ProviderExecution)

/-- The error of an invocation that went wrong. -/
def providerError (code : String) : Error := .runtime s!"Provider invocation failed: {code}"

/-- The status an error code stands for. -/
def errorStatus (code : String) : InvocationStatus :=
  if code = "cancelled" then .cancelled
  else if code = "interrupted" then .interrupted
  else .failed

/-- Store the end of an invocation. -/
def finish (P : Primitives) (invocation : ProviderExecution)
    (outcome : Except String ProviderResult) (now : Time) : RunTx Unit := do
  let run ← lockedRun
  let status := match outcome with
    | .ok _ => InvocationStatus.succeeded
    | .error code => errorStatus code
  let completed := max now invocation.startedAt
  stage fun r => r.saveProvider
    { invocation with
      status
      completedAt := some completed
      result := outcome.toOption
      errorCode := match outcome with
        | .ok _ => none
        | .error code => some code }
  note P run
    { eventType := .providerInvocationCompleted
      occurredAt := completed
      idempotencyKey := s!"provider:{invocation.idempotencyKey}:finish"
      payload :=
        { providerExecutionId := some invocation.id
          status := some status.value
          reason := match outcome with
            | .ok _ => none
            | .error code => some code }
      actorSessionId := some invocation.actorSessionId
      taskExecutionId := some invocation.taskExecutionId }

/-- The attempt, the task and the actor an invocation is for. -/
def contractOf (run : Run) (executionId : UUID) :
    RunTx (TaskExecution × Task × ActorSession × Option TaskPlan) := do
  let r ← read id
  let plan ← ask fun r => r.getPlan run.planVersion
  let attempt ← found (r.executions.get? executionId)
    (.notFound "Task execution or plan not found")
  let task ← found (r.tasks.get? attempt.taskId) (.notFound "Execution contract not found")
  let actor ← found (r.actors.get? attempt.assignedActorSessionId)
    (.notFound "Execution contract not found")
  pure (attempt, task, actor, plan)

/-- Whether an invocation prepares a goal. -/
def preparing (task : Task) : Bool := task.preferredRole = .requirements ∧ task.planVersion = 0

/-- Check the role an invocation is for. -/
def checkRole (run : Run) (task : Task) (plan : Option TaskPlan) (withTools : Bool) :
    RunTx Unit := do
  failIf (task.preferredRole ∉ providerRoles)
    (.policyDenied "This role is backed by a deterministic service")
  let r ← read id
  if preparing task then
    failIf (run.state ≠ .analyzing ∨ withTools = true)
      (.policyDenied "Requirements are read-only preparatory work")
  else
    failIf (r.currentGoal run = none ∨ plan = none ∨ run.state = .analyzing)
      (.notFound "Accepted goal and implementation plan are required")

/-- What a stored invocation answers to a repeated call. -/
def replay (P : Primitives) (existing : ProviderExecution) (requestHash : String) (now : Time) :
    RunTx Reply := do
  failIf (existing.requestHash ≠ requestHash)
    (.conflict "Invocation key belongs to a different request")
  match existing.status, existing.result with
  | .succeeded, some result => pure (.stored result)
  | .running, _ => do
    failIf (now ≤ existing.deadlineAt) (.conflict "Invocation is already in progress")
    finish P existing (.error "interrupted") now
    commitAndFail (providerError "interrupted")
  | _, _ => fail (providerError (existing.errorCode.getD "internal"))

/-- Store a new invocation. -/
def beginInvocation (P : Primitives) (run : Run) (attempt : TaskExecution) (task : Task)
    (actor : ActorSession) (key : String) (prepared : Prepared) (now : Time) :
    RunTx ProviderExecution := do
  let invocation : ProviderExecution :=
    { id := invocationId run.id key
      createdAt := now
      runId := run.id
      taskExecutionId := attempt.id
      actorSessionId := actor.id
      provider := prepared.provider
      model := prepared.model
      requestHash := prepared.requestHash
      idempotencyKey := key
      startedAt := now
      deadlineAt := now + prepared.timeout }
  stage fun r => r.saveProvider invocation
  change fun r => r.saveActor
    { actor with
      provider := some prepared.provider
      model := some prepared.model
      loadedSkills := prepared.skillRefs
      allowedTools := prepared.allowedTools.map ToolName.value }
  announceSkills invocation
  note P run
    { eventType := .providerInvocationStarted
      occurredAt := now
      idempotencyKey := s!"provider:{key}:start"
      payload :=
        { providerExecutionId := some invocation.id
          status := some invocation.status.value
          skillRefs := prepared.skillRefs
          memoryIds := prepared.memoryIds
          summary := some prepared.summary }
      actorSessionId := some actor.id
      taskId := some task.id
      taskExecutionId := some attempt.id }
  pure invocation
where
  /-- Announce the skills of an invocation. -/
  announceSkills (invocation : ProviderExecution) : RunTx Unit :=
    if prepared.skillRefs = [] then
      pure ()
    else
      note P run
        { eventType := .skillLoaded
          occurredAt := now
          idempotencyKey := s!"provider:{invocation.idempotencyKey}:skills"
          payload := { skillRefs := prepared.skillRefs }
          actorSessionId := some actor.id
          taskId := some task.id
          taskExecutionId := some attempt.id }

/-- The first transaction of an invocation. -/
def start (P : Primitives) (project : Option Project) (executionId : UUID) (providerId : String)
    (prepared : Except Error Prepared) (withTools : Bool) (key : String) (now : Time) :
    RunTx Reply := do
  requireKey key
  let run ← lockedRun
  let project ← found project (.notFound "Provider context belongs to another project")
  failIf (providerId ≠ "auto" ∧ project.allowedProviders ≠ [] ∧
      providerId ∉ project.allowedProviders)
    (.policyDenied "Provider is not permitted for this project")
  let (attempt, task, actor, plan) ← contractOf run executionId
  checkRole run task plan withTools
  let prepared ← ask fun _ => prepared
  let providers ← ask Records.providers
  match providers.find? fun p => p.id = invocationId run.id key with
  | some existing => replay P existing prepared.requestHash now
  | none => do
    failIf (run.state ∉ activeStates ∨ attempt.status ≠ .running ∨
        preparing task = false ∧
          plan.all fun p => some p.goalVersionId ≠ run.currentGoalVersionId)
      (.conflict "Provider invocation requires active work on the current goal")
    let invocation ← beginInvocation P run attempt task actor key prepared now
    pure (.begun invocation)

/-- The second transaction of an invocation. -/
def complete (P : Primitives) (invocation executionId : UUID)
    (outcome : Except String ProviderResult) (now : Time) : RunTx Unit := do
  let run ← lockedRun
  let providers ← ask Records.providers
  let current ← found (providers.find? fun p => p.id = invocation) (.runtime "AssertionError")
  failIf (current.status ≠ .running) (providerError (current.errorCode.getD "interrupted"))
  let r ← read id
  let attempt ← found (r.executions.get? executionId) (.runtime "StopIteration")
  finish P current
    (if run.state ∉ activeStates ∨ attempt.status ≠ .running then .error "cancelled" else outcome)
    now

end AgentExecution

/-! ## Tools -/

namespace ToolService

/-- The states a tool works in. -/
def activeStates : List RunState :=
  [.executing, .testing, .reviewing, .changeGuard, .documenting]

/-- What the first transaction of a call answers: a stored observation, or leave to call the
tool. -/
inductive Reply
  | stored (observation : ToolObservation)
  | begun (invocation : ToolInvocation)

/-- What a stored invocation answers to a repeated call. -/
def replay (existing : ToolInvocation) (requestHash : String) : RunTx Reply := do
  failIf (existing.requestHash ≠ requestHash)
    (.conflict "Tool call identity was reused with different arguments")
  match existing.observation with
  | some observation => pure (.stored observation)
  | none => fail (.conflict "Tool outcome is uncertain; automatic replay is denied")

/-- Check that a call of a tool is permitted. -/
def checkCall (run : Run) (attempt : TaskExecution) (actor : ActorSession)
    (workspace : RunWorkspace) (call : ProviderToolCall) (permitted : List ToolName) :
    RunTx Unit := do
  failIf (attempt.status ≠ .running ∨ run.state ∉ activeStates)
    (.conflict "Tool execution requires an active task")
  failIf (call.name.value ∉ actor.allowedTools ∨ call.name ∉ permitted)
    (.policyDenied "Tool denied by current role/project policy")
  let tools ← ask Records.tools
  failIf (workspace.policy.maxToolCalls ≤ tools.countP fun t => t.taskExecutionId = attempt.id)
    (.policyDenied "Task tool-call budget exhausted")

/-- Store a new invocation. -/
def beginInvocation (P : Primitives) (run : Run) (provider : ProviderExecution)
    (attempt : TaskExecution) (actor : ActorSession) (call : ProviderToolCall) (now : Time) :
    RunTx ToolInvocation := do
  let invocation : ToolInvocation :=
    { id := .uuid5 provider.id call.id
      createdAt := now
      runId := run.id
      taskExecutionId := attempt.id
      actorSessionId := actor.id
      providerInvocationId := provider.id
      callId := call.id
      tool := call.name
      requestHash := P.fingerprintCall call
      startedAt := now }
  stage fun r => r.saveTool invocation
  note P run
    { eventType := .toolStarted
      occurredAt := now
      idempotencyKey := s!"tool:{invocation.id.text}:start"
      payload :=
        { toolInvocationId := some invocation.id
          status := some InvocationStatus.running.value }
      actorSessionId := some actor.id
      taskId := some attempt.taskId
      taskExecutionId := some attempt.id }
  pure invocation

/-- The first transaction of a call. `permitted` are the tools the role and the project
permit, `verified` the check of the working tree. -/
def start (P : Primitives) (project : Option Project) (providerInvocationId : UUID)
    (call : ProviderToolCall) (permitted : List ToolName) (verified : Except Error Unit)
    (now : Time) : RunTx Reply := do
  let providers ← ask Records.providers
  let provider ← found (providers.find? fun p =>
      p.id = providerInvocationId ∧ p.status = .succeeded ∧ p.result.isSome)
    (.notFound "Successful provider tool request not found")
  let run ← lockedRun
  failIf (provider.result.all fun result => call ∉ result.toolCalls)
    (.policyDenied "Tool call does not match the persisted provider result")
  let tools ← ask Records.tools
  match tools.find? fun t => t.id = UUID.uuid5 providerInvocationId call.id with
  | some existing => replay existing (P.fingerprintCall call)
  | none => do
    let r ← read id
    let attempt ← found (r.executions.get? provider.taskExecutionId) (.runtime "StopIteration")
    let actor ← found (r.actors.get? provider.actorSessionId) (.runtime "StopIteration")
    let workspace ← ask Records.workspace
    let workspace ← found workspace (.notFound "Worker policy or workspace is missing")
    failIf (project = none ∨ actor.role = none) (.notFound "Worker policy or workspace is missing")
    checkCall run attempt actor workspace call permitted
    ask fun _ => verified
    let invocation ← beginInvocation P run provider attempt actor call now
    pure (.begun invocation)

/-- The second transaction of a call. -/
def complete (P : Primitives) (invocation : ToolInvocation) (observation : ToolObservation)
    (now : Time) : RunTx Unit := do
  let run ← lockedRun
  let status : InvocationStatus := if observation.succeeded then .succeeded else .failed
  stage fun r => r.saveTool
    { invocation with completedAt := some now, observation := some observation, status }
  note P run
    { eventType := .toolCompleted
      occurredAt := now
      idempotencyKey := s!"tool:{invocation.id.text}:finish"
      payload := { toolInvocationId := some invocation.id, status := some status.value }
      actorSessionId := some invocation.actorSessionId
      taskExecutionId := some invocation.taskExecutionId }

end ToolService

/-! ## The workspace and its artifacts -/

/-- Bind a workspace to a run. The path, the branch and the base commit are those of the
working tree the manager owns for it. -/
def ensureWorkspace (project : Option Project) (policy : ExecutionPolicy)
    (path branch baseCommit : String) : RunTx RunWorkspace := do
  let run ← lockedRun
  failIf (project = none) (.notFound "Project not found")
  let existing ← ask Records.workspace
  failIf (existing.any fun w => w.policy ≠ policy)
    (.conflict "Workspace execution policy cannot change during a run")
  failIf (branch ≠ run.targetBranch ∨ baseCommit ≠ run.baseCommit)
    (.policyDenied "Workspace identity differs from the persisted run")
  let binding : RunWorkspace := { runId := run.id, path, baseCommit, branch, policy }
  match existing with
  | some w => do
    failIf (w ≠ binding) (.conflict "Workspace binding changed")
    pure binding
  | none => do
    stage fun r => r.saveWorkspace binding
    pure binding

/-- A file a worker reports: its path, where it lies and the hash of its content. -/
structure ReportedFile where
  path : String
  target : String
  contentHash : String
deriving DecidableEq, Repr

/-- The artifact of a reported file. -/
def artifactOf (run : Run) (attempt : TaskExecution) (file : ReportedFile) (now : Time) :
    Artifact where
  id := .uuid5 attempt.id file.path
  createdAt := now
  runId := run.id
  taskId := some attempt.taskId
  type := "implementation"
  pathOrUri := file.target
  contentHash := file.contentHash

/-- Record a reported file, unless it is recorded. -/
def recordArtifact (run : Run) (attempt : TaskExecution) (existing : List Artifact) (now : Time)
    (file : ReportedFile) : RunTx Unit :=
  let artifact := artifactOf run attempt file now
  match existing.find? fun item => item.id = artifact.id with
  | some previous =>
    failIf (previous.pathOrUri ≠ artifact.pathOrUri ∨ previous.contentHash ≠ artifact.contentHash)
      (.conflict "Reported artifact changed after its persisted receipt")
  | none => stage fun r => r.saveArtifact artifact

/-- Record the files an attempt reports; each path is reported once. -/
def recordArtifacts (attempt : TaskExecution) (files : List ReportedFile) (now : Time) :
    RunTx Unit := do
  let run ← lockedRun
  let existing ← ask Records.artifacts
  files.forM (recordArtifact run attempt existing now)

/-! ## External work -/

namespace ExternalWork

/-- The key of the assignment of an attempt. -/
def assignedKey (executionId : UUID) : String := s!"external:assigned:{executionId.text}"

/-- Assign an attempt to an external assistant. -/
def assign (P : Primitives) (attempt : TaskExecution) (refs : List String)
    (tools : List ToolName) (now : Time) : RunTx Unit := do
  let run ← lockedRun
  let r ← read id
  let actor ← found (r.actors.get? attempt.assignedActorSessionId) (.runtime "StopIteration")
  change fun r => r.saveActor
    { actor with
      provider := some "external"
      loadedSkills := refs
      allowedTools := tools.map ToolName.value }
  note P run
    { eventType := .agentAssigned
      occurredAt := now
      idempotencyKey := assignedKey attempt.id
      payload := { summary := some "Assistant-native implementation", skillRefs := refs }
      actorSessionId := some actor.id
      taskId := some attempt.taskId
      taskExecutionId := some attempt.id }
  refs.forM fun ref =>
    note P run
      { eventType := .skillLoaded
        occurredAt := now
        idempotencyKey := s!"external:skill:{attempt.id.text}:{ref}"
        payload := { skillRefs := [ref] }
        actorSessionId := some actor.id
        taskId := some attempt.taskId
        taskExecutionId := some attempt.id }

/-- The result an external assistant reports. -/
structure WorkerResult where
  summary : String
  completed : Bool
  artifactPaths : List String
deriving DecidableEq, Repr

/-- The first transaction of a report: the receipt and the artifacts. The second is the
success of the attempt. `fingerprint` is the hash of the result, `digest` that of the working
tree, `files` what lies at the reported paths. -/
def report (P : Primitives) (executionId : UUID) (result : WorkerResult) (fingerprint : String)
    (digest : Except Error Digest) (files : List ReportedFile) (now : Time) : RunTx Unit := do
  let run ← lockedRun
  failIf (P.safeDump (.worker result.summary result.completed result.artifactPaths) = false)
    (.policyDenied "Unsafe external result")
  let r ← read id
  let attempt ← found
    ((r.executions.get? executionId).filter fun _ => (r.byKey (assignedKey executionId)).isSome)
    (.policyDenied "Only externally assigned implementation may be reported")
  match r.byKey s!"external:result:{executionId.text}" with
  | some replay =>
    failIf (replay.payload.reason ≠ some fingerprint)
      (.conflict "External result differs from its persisted receipt")
  | none => do
    failIf (run.state ≠ .executing ∨ attempt.status ≠ .running)
      (.conflict "External task is not active")
    failIf (result.completed = false)
      (.conflict "Implementation is incomplete; continue the assigned task")
    let workspace ← ask Records.workspace
    failIf (workspace = none) (.notFound "Workspace missing")
    let digest ← ask fun _ => digest
    recordArtifacts attempt files now
    note P run
      { eventType := .externalResultReported
        occurredAt := now
        idempotencyKey := s!"external:result:{executionId.text}"
        payload :=
          { summary := some result.summary
            reason := some fingerprint
            status := some digest.1 }
        actorSessionId := some attempt.assignedActorSessionId
        taskId := some attempt.taskId
        taskExecutionId := some attempt.id }

/-- A finding an external assistant reports. -/
structure FindingReport where
  criterionId : Option UUID := none
  severity : Severity
  summary : String
  sourceRef : Option String := none
deriving DecidableEq, Repr

/-- The key of the receipt of a finding. -/
def findingKey (P : Primitives) (key : String) : String := s!"external:finding:{P.hash key}"

/-- Store a reported finding. -/
def storeFinding (P : Primitives) (run : Run) (attempt : TaskExecution) (report : FindingReport)
    (key fingerprint : String) (now : Time) : RunTx Finding := do
  let finding : Finding :=
    { id := .uuid5 run.id (findingKey P key)
      createdAt := now
      runId := run.id
      taskId := some attempt.taskId
      criterionId := report.criterionId
      severity := report.severity
      category := "external_worker"
      summary := report.summary
      sourceRef := report.sourceRef }
  stage fun r => r.saveFinding finding
  note P run
    { eventType := .findingReported
      occurredAt := now
      idempotencyKey := findingKey P key
      payload :=
        { summary := some finding.summary
          reason := some fingerprint
          status := some finding.severity.value
          criterionId := finding.criterionId
          findingIds := [finding.id] }
      actorSessionId := some attempt.assignedActorSessionId
      taskId := some attempt.taskId
      taskExecutionId := some attempt.id }
  pure finding

/-- Report a finding. `fingerprint` is the hash of the attempt and the report, `located` the
check that its source lies in the workspace. -/
def reportFinding (P : Primitives) (executionId : UUID) (report : FindingReport)
    (fingerprint : String) (located : Except Error Unit) (key : String) (now : Time) :
    RunTx Finding := do
  requireKey key
  failIf (P.safeDump (.finding report.criterionId report.severity report.summary
      report.sourceRef) = false ∨ P.safe key = false)
    (.policyDenied "Unsafe external finding")
  let run ← lockedRun
  let r ← read id
  let attempt ← found
    ((r.executions.get? executionId).filter fun _ => (r.byKey (assignedKey executionId)).isSome)
    (.policyDenied "Only externally assigned work may report findings")
  match r.byKey (findingKey P key) with
  | some replay => do
    failIf (replay.payload.reason ≠ some fingerprint)
      (.conflict "Finding key belongs to a different report")
    let findings ← ask Records.findings
    found (findings.find? fun f => f.id = UUID.uuid5 run.id (findingKey P key))
      (.runtime "StopIteration")
  | none => do
    failIf (run.state ≠ .executing ∨ attempt.status ≠ .running)
      (.conflict "External task is not active")
    failIf (report.criterionId.any fun id =>
        (r.currentGoal run).all fun c => id ∉ c.criteria.map AcceptanceCriterion.id)
      (.policyDenied "Finding criterion is outside the current goal")
    let workspace ← ask Records.workspace
    failIf (workspace = none) (.notFound "Workspace missing")
    if report.sourceRef.isSome then do
      ask fun _ => located
      storeFinding P run attempt report key fingerprint now
    else
      storeFinding P run attempt report key fingerprint now

end ExternalWork

/-! ## The preparation of a context -/

/-- Begin the preparation of a run's context. -/
def startContext (P : Primitives) (now : Time) : RunTx Unit := do
  let run ← lockedRun
  let r ← read id
  if (r.byKey "prepare:context-pack").isSome then
    pure ()
  else
    note P run
      { eventType := .memorySyncStarted
        occurredAt := now
        idempotencyKey := "prepare:memory-start"
        payload := { summary := some "Synchronizing committed project context" } }

/-- End the preparation of a run's context. -/
def finishContext (P : Primitives) (memoryIds : List UUID) (now : Time) : RunTx Unit := do
  let run ← lockedRun
  failIf (run.state ≠ .contextSync) (.conflict "Run changed during context preparation")
  note P run
    { eventType := .memorySyncCompleted
      occurredAt := now
      idempotencyKey := "prepare:memory-end"
      payload := { summary := some "Committed context synchronized" } }
  note P run
    { eventType := .contextPackCreated
      occurredAt := now
      idempotencyKey := "prepare:context-pack"
      payload := { memoryIds } }

end Orqalis
