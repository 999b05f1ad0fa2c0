import Orqalis.Domain.Run

/-!
# Events

The events of a run's log. A draft names its content; the log adds the run, the sequence
number and the instant.
-/

namespace Orqalis

/-- The kinds of event. -/
inductive EventType
  | runCreated
  | runStarted
  | runStateChanged
  | runPaused
  | runResumed
  | runBlocked
  | runCancelled
  | runFailed
  | runCompleted
  | phaseStarted
  | phaseCompleted
  | phaseStatusChanged
  | goalVersionCreated
  | acceptanceCreated
  | planCreated
  | planRevised
  | taskCreated
  | taskReady
  | taskStarted
  | taskWaiting
  | taskBlocked
  | taskCompleted
  | taskFailed
  | taskCancelled
  | actorStarted
  | actorStatusChanged
  | actorCompleted
  | agentAssigned
  | skillLoaded
  | externalResultReported
  | findingReported
  | findingResolved
  | evidenceRecorded
  | criterionPassed
  | criterionFailed
  | reviewCompleted
  | repairRequested
  | repairStarted
  | repairCompleted
  | changeGuardCompleted
  | memoryPromoted
  | providerInvocationStarted
  | providerInvocationCompleted
  | toolStarted
  | toolCompleted
  | testStarted
  | testCompleted
  | documentationUpdated
  | finalValidationCompleted
  | commitCreated
  | pushCompleted
  | memorySyncStarted
  | memorySyncCompleted
  | contextPackCreated
  | controlPolicyChanged
  | approvalRequested
  | approvalRecorded
deriving DecidableEq, Repr

/-- What an event says. -/
structure EventPayload where
  approvalRequestId : Option UUID := none
  approvalStage : Option String := none
  approvalSubjectDigest : Option String := none
  approvalActor : Option String := none
  gitAuthorName : Option String := none
  gitAuthorEmail : Option String := none
  toolInvocationId : Option UUID := none
  reviewId : Option UUID := none
  providerExecutionId : Option UUID := none
  skillRefs : List String := []
  previousStatus : Option String := none
  status : Option String := none
  summary : Option String := none
  reason : Option String := none
  goalVersionId : Option UUID := none
  planVersion : Option Nat := none
  phaseExecutionId : Option UUID := none
  criterionId : Option UUID := none
  evidenceIds : List UUID := []
  findingIds : List UUID := []
  taskIds : List UUID := []
  memoryIds : List UUID := []
deriving DecidableEq, Repr

/-- The texts of a payload that come from outside the program; the others are its own
words and identifiers. -/
def EventPayload.texts (p : EventPayload) : List String :=
  p.approvalActor.toList ++ p.gitAuthorName.toList ++ p.gitAuthorEmail.toList ++ p.skillRefs ++
    p.summary.toList ++ p.reason.toList

/-- An event of a log. -/
structure Event where
  projectId : UUID
  runId : UUID
  sequence : Nat
  eventType : EventType
  occurredAt : Time
  phase : Option UIPhase := none
  taskId : Option UUID := none
  taskExecutionId : Option UUID := none
  actorSessionId : Option UUID := none
  status : Option String := none
  payload : EventPayload := {}
  idempotencyKey : String
deriving DecidableEq, Repr

/-- An event before the log takes it. -/
structure EventDraft where
  eventType : EventType
  occurredAt : Time
  payload : EventPayload := {}
  phase : Option UIPhase := none
  taskId : Option UUID := none
  taskExecutionId : Option UUID := none
  actorSessionId : Option UUID := none
  idempotencyKey : String
deriving DecidableEq, Repr

/-- Whether a stored event is the one a draft describes; the instant does not count. -/
def Event.matches (e : Event) (d : EventDraft) : Bool :=
  e.eventType = d.eventType ∧ e.payload = d.payload ∧ e.taskId = d.taskId ∧
    e.actorSessionId = d.actorSessionId ∧ e.taskExecutionId = d.taskExecutionId ∧
    e.phase = d.phase

end Orqalis
