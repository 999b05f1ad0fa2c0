import Orqalis.Core.Orchestrator

/-!
# Goals and their validation

The making of a run, the definition and the revision of its goal, and the validation of a
criterion, whose two transactions stand around the work of a validator. The identifiers of a
goal and its criteria are drawn at random, here from a number on.
-/

namespace Orqalis

open Lib Lib.Transaction

/-- The draft a contract was made of. -/
def GoalContract.draft (c : GoalContract) : GoalDraft where
  goal := c.goal.goal
  scope := c.goal.scope
  outOfScope := c.goal.outOfScope
  constraints := c.goal.constraints
  assumptions := c.goal.assumptions
  definitionOfDone := c.goal.definitionOfDone
  criteria := c.criteria.map fun item =>
    { key := item.key
      description := item.description
      priority := item.priority
      validationSpec := item.validationSpec }

namespace GoalService

/-- The contract of a draft. -/
def contractOf (runId : UUID) (draft : GoalDraft) (version : Nat) (supersedes : Option UUID)
    (reason : Option String) (n : Nat) (now : Time) : GoalContract where
  goal :=
    { id := .uuid4 n
      createdAt := now
      runId
      version
      goal := draft.goal
      scope := draft.scope
      outOfScope := draft.outOfScope
      constraints := draft.constraints
      assumptions := draft.assumptions
      definitionOfDone := draft.definitionOfDone
      supersedesGoalVersionId := supersedes
      revisionReason := reason }
  criteria := draft.criteria.mapIdx fun i item =>
    { id := .uuid4 (n + 1 + i)
      createdAt := now
      goalVersionId := .uuid4 n
      key := item.key
      description := item.description
      priority := item.priority
      validationSpec := item.validationSpec }

/-- Make the contract of a draft that is safe to store. -/
def contract (P : Primitives) (runId : UUID) (draft : GoalDraft) (version : Nat)
    (supersedes : Option UUID) (reason : Option String) (n : Nat) (now : Time) :
    RunTx GoalContract := do
  failIf (P.safeDump (.draft draft) = false)
    (.policyDenied "Goals cannot contain credentials or private reasoning")
  pure (contractOf runId draft version supersedes reason n now)

/-- Announce a goal and its criteria. -/
def announceGoal (P : Primitives) (run : Run) (contract : GoalContract) (reason : Option String)
    (attempt : Option TaskExecution) (now : Time) : RunTx Unit := do
  note P run
    { eventType := .goalVersionCreated
      occurredAt := now
      idempotencyKey := s!"goal:{contract.goal.version}"
      payload := { goalVersionId := some contract.goal.id, reason }
      actorSessionId := attempt.map TaskExecution.assignedActorSessionId
      taskId := attempt.map TaskExecution.taskId
      taskExecutionId := attempt.map TaskExecution.id }
  contract.criteria.forM fun item =>
    note P run
      { eventType := .acceptanceCreated
        occurredAt := now
        idempotencyKey := s!"criterion:{item.id.text}"
        payload := { criterionId := some item.id, status := some item.status.value }
        actorSessionId := attempt.map TaskExecution.assignedActorSessionId
        taskId := attempt.map TaskExecution.taskId
        taskExecutionId := attempt.map TaskExecution.id }

/-- Begin the log of a new run. -/
def open' (P : Primitives) (run : Run) (mode : ControlMode) (gates : Option (List ApprovalStage)) :
    RunTx Unit := do
  note P run
    { eventType := .runCreated
      occurredAt := run.createdAt
      idempotencyKey := "run:created"
      payload := { status := some run.state.value } }
  let _ ← orchestratorActor P run run.createdAt
  saveInitialControlPolicy P run mode gates run.createdAt

/-- A new run. -/
def newRun (project : Project) (request branch base : String) (runId : UUID) (now : Time) :
    Run where
  id := runId
  createdAt := now
  projectId := project.id
  request
  targetBranch := branch
  baseCommit := base
  maxRepairIterations := project.maxRepairIterations

/-- Make a run with a goal; it is applied to the empty records of the run. -/
def create (P : Primitives) (draft : GoalDraft) (mode : ControlMode)
    (gates : Option (List ApprovalStage)) (n : Nat) : RunTx Unit := do
  let run ← lockedRun
  failIf (P.safe run.request = false) (.policyDenied "Run requests cannot contain credentials")
  let contract ← contract P run.id draft 1 none none n run.createdAt
  stage fun r => r.saveGoal contract
  stage fun r => r.setCurrentGoal contract.goal.id
  open' P run mode gates
  announceGoal P run contract none none run.createdAt

/-- Make a run whose goal is still to be defined; it is applied to the empty records of the
run. -/
def createPending (P : Primitives) (mode : ControlMode) (gates : Option (List ApprovalStage)) :
    RunTx Unit := do
  let run ← lockedRun
  failIf (P.safe run.request = false) (.policyDenied "Run requests cannot contain credentials")
  open' P run mode gates

/-- The attempt an initial goal comes from: active, by an actor for requirements, with the
draft as a stored result. -/
def requirementsAttempt (executionId : UUID) (draft : GoalDraft) : RunTx TaskExecution := do
  let r ← read id
  let attempt := r.executions.get? executionId
  let actor := attempt.bind fun a => r.actors.get? a.assignedActorSessionId
  failIf (attempt.all (fun a => a.status ≠ .running) ∨
      actor.all fun a => a.role ≠ some .requirements)
    (.policyDenied "Initial requirements need an active Requirements actor")
  let attempt ← found attempt
    (.policyDenied "Initial requirements need an active Requirements actor")
  let providers ← ask Records.providers
  failIf (¬ providers.any fun p =>
      p.taskExecutionId = attempt.id ∧ p.status = .succeeded ∧
        p.result.bind ProviderResult.output = some (.goal draft))
    (.policyDenied "Goal proposal does not match the persisted Requirements result")
  pure attempt

/-- Define the goal of a run. -/
def defineInitial (P : Primitives) (executionId : UUID) (draft : GoalDraft) (n : Nat)
    (now : Time) : RunTx GoalContract := do
  let run ← lockedRun
  failIf (run.state ≠ .analyzing)
    (.conflict "Initial requirements need the analyzing checkpoint")
  let r ← read id
  if run.currentGoalVersionId.isSome then do
    let existing ← found (r.currentGoal run) (.runtime "AssertionError")
    failIf (existing.draft ≠ draft)
      (.conflict "Initial goal is already defined; use an explicit revision")
    pure existing
  else do
    let attempt ← requirementsAttempt executionId draft
    let contract ← contract P run.id draft 1 none none n now
    stage fun r => r.saveGoal contract
    stage fun r => r.setCurrentGoal contract.goal.id
    announceGoal P run contract none (some attempt) now
    pure contract

/-- The states a goal can be revised in. -/
def revisable : List RunState :=
  [.received, .analyzing, .goalDefined, .paused, .humanReviewRequired]

/-- Revise the goal of a run. -/
def revise (P : Primitives) (draft : GoalDraft) (reason : String) (expectedVersion : Nat)
    (n : Nat) (now : Time) : RunTx GoalContract := do
  failIf (isBlank reason ∨ P.safe reason = false)
    (.input "A non-secret revision reason is required")
  let run ← lockedRun
  failIf (run.currentGoalVersionId = none) (.notFound "Run or current goal not found")
  failIf (run.state ∉ revisable) (.conflict "Pause execution before explicitly revising the goal")
  let r ← read id
  failIf ((r.byKey "delivery:policy").isSome)
    (.policyDenied "Delivery has started; a changed goal requires a new run")
  let current ← found ((r.currentGoal run).filter fun c => c.goal.version = expectedVersion)
    (.conflict "Goal version changed; reload before revising")
  let revised ← contract P run.id draft (expectedVersion + 1) (some current.goal.id)
    (some reason) n now
  stage fun r => r.saveGoal revised
  stage fun r => r.setCurrentGoal revised.goal.id
  announceGoal P run revised (some reason) none now
  pure revised

/-! ## Validation -/

/-- The identifier of the evidence a validation makes. -/
def evidenceId (criterionId : UUID) (key : String) : UUID := .uuid5 criterionId key

/-- The goal a validation is about. -/
def validatedGoal (run : Run) : RunTx GoalContract := do
  let r ← read id
  failIf (run.currentGoalVersionId = none) (.notFound "Run or current goal not found")
  found (r.currentGoal run) (.notFound "Current goal not found")

/-- The attempt a validation is part of. -/
def validatingAttempt (executionId : Option UUID) : RunTx (Option TaskExecution) := do
  let r ← read id
  match executionId with
  | none => pure none
  | some executionId => do
    let attempt ← found
      ((r.executions.get? executionId).filter fun a => a.status = .running)
      (.conflict "Validation requires an active task attempt")
    pure (some attempt)

/-- The first transaction of a validation: the criterion is under test. It answers the
evidence of a validation that is over. -/
def startValidation (P : Primitives) (criterionKey key : String) (executionId : Option UUID)
    (now : Time) : RunTx (Option Evidence) := do
  failIf (isBlank key) (.input "Validation requires an idempotency key")
  let run ← lockedRun
  let contract ← validatedGoal run
  let criterion ← found (contract.criteria.find? fun item => item.key = criterionKey)
    (.notFound "Criterion not found")
  let r ← read id
  match r.evidence.get? (evidenceId criterion.id key) with
  | some existing => pure (some existing)
  | none => do
    failIf ((r.byKey s!"validation:{(evidenceId criterion.id key).text}:start").isSome)
      (.conflict "Validation is active or interrupted; inspect before retrying")
    let attempt ← validatingAttempt executionId
    change fun r => r.saveCriterion { criterion with status := .testing }
    note P run
      { eventType := .testStarted
        occurredAt := now
        idempotencyKey := s!"validation:{(evidenceId criterion.id key).text}:start"
        payload :=
          { criterionId := some criterion.id, status := some AcceptanceStatus.testing.value }
        actorSessionId := attempt.map TaskExecution.assignedActorSessionId
        taskId := attempt.map TaskExecution.taskId
        taskExecutionId := executionId }
    pure none

/-- What a validation is taken to have seen: a validator that fails or answers something that
cannot be stored has seen the criterion fail. -/
def observed (P : Primitives) (spec : ValidationSpec)
    (observation : Except String ValidationObservation) : ValidationObservation :=
  match observation with
  | .ok seen =>
    if seen.validatorType ≠ spec.kind then
      { validatorType := spec.kind, passed := false, errorCode := some "conflict", durationMs := 0 }
    else if P.safeDump (.observation seen) = false then
      { validatorType := spec.kind
        passed := false
        errorCode := some "policy_denied"
        durationMs := 0 }
    else
      seen
  | .error code =>
    { validatorType := spec.kind, passed := false, errorCode := some code, durationMs := 0 }

/-- The status a validation gives its criterion. -/
def validatedStatus (run : Run) (spec : ValidationSpec) (seen : ValidationObservation) :
    AcceptanceStatus :=
  if run.state = .cancelled ∨ run.state = .failed then .pending
  else if spec.reviewed then .pending
  else if seen.passed then .pass
  else .fail

/-- A criterion with one more validation. -/
def evaluated (criterion : AcceptanceCriterion) (status : AcceptanceStatus) (evidenceId : UUID)
    (now : Time) : AcceptanceCriterion :=
  { criterion with
    status
    attemptCount := criterion.attemptCount + 1
    lastValidatedAt := some now
    evidenceRefs := criterion.evidenceRefs ++ [evidenceId] }

/-- Announce the outcome of a validation. -/
def announceOutcome (P : Primitives) (run : Run) (evidence : Evidence)
    (status : AcceptanceStatus) (actorId : Option UUID) : RunTx Unit := do
  let draft (eventType : EventType) (key : String) : EventDraft :=
    { eventType
      occurredAt := evidence.createdAt
      idempotencyKey := key
      payload :=
        { criterionId := some evidence.criterionId
          status := some status.value
          evidenceIds := [evidence.id] }
      actorSessionId := actorId
      taskId := evidence.taskId
      taskExecutionId := evidence.taskExecutionId }
  note P run (draft .evidenceRecorded s!"evidence:{evidence.id.text}")
  note P run (draft .testCompleted s!"validation:{evidence.id.text}:end")
  if status = .pass ∨ status = .fail then
    note P run
      (draft (if status = .pass then .criterionPassed else .criterionFailed)
        s!"criterion-result:{evidence.id.text}")
  else
    pure ()

/-- The second transaction of a validation: the evidence and the outcome. The criterion and
the attempt are those of the first. -/
def finishValidation (P : Primitives) (criterion : AcceptanceCriterion) (key : String)
    (actorId taskId executionId : Option UUID)
    (observation : Except String ValidationObservation) (now : Time) : RunTx Evidence := do
  let current ← lockedRun
  failIf (current.currentGoalVersionId ≠ some criterion.goalVersionId)
    (.conflict "Goal changed during validation; evidence cannot be promoted")
  let r ← read id
  let latest ← found (r.currentGoal current) (.runtime "AssertionError")
  let currentCriterion ← found (latest.criteria.find? fun item => item.id = criterion.id)
    (.runtime "StopIteration")
  let seen := observed P criterion.validationSpec observation
  let status := validatedStatus current criterion.validationSpec seen
  let evidence : Evidence :=
    { id := evidenceId criterion.id key
      createdAt := now
      runId := current.id
      criterionId := criterion.id
      taskId
      taskExecutionId := executionId
      evidenceType := criterion.validationSpec.kind
      structuredData := seen }
  stage fun r => r.saveEvaluation (evaluated currentCriterion status evidence.id now) evidence
  announceOutcome P current evidence status actorId
  pure evidence

end GoalService

end Orqalis
