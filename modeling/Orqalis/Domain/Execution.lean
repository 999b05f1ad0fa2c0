import Orqalis.Domain.Acceptance
import Mathlib.Data.Rat.Defs

/-!
# Workspaces, workers, reviews and delivery

The records of a run's workers: the workspace they write to and its policy, the
invocations of providers and tools, the reviews, and the delivery of the accepted tree.
They live in the extensions of a capsule.
-/

namespace Orqalis

/-- A command a workspace permits. -/
structure ApprovedCommand where
  id : String
  argv : List String
  timeoutSeconds : Nat := 60
deriving DecidableEq, Repr

/-- What the workers of a run may do. -/
structure ExecutionPolicy where
  writePaths : List String
  commands : List ApprovedCommand := []
  commandMode : String := "docker"
  containerImage : Option String := none
  maxParallelTasks : Nat := 4
  maxToolCalls : Nat := 40
  maxProviderTurns : Nat := 12
  maxFileBytes : Nat := 200000
deriving DecidableEq, Repr

/-- The working tree bound to a run. -/
structure RunWorkspace where
  runId : UUID
  path : String
  baseCommit : String
  branch : String
  policy : ExecutionPolicy
deriving DecidableEq, Repr

/-- Where an invocation of a provider or a tool stands. -/
inductive InvocationStatus
  | running
  | succeeded
  | failed
  | cancelled
  | interrupted
deriving DecidableEq, Repr

/-- The word of an invocation's status. -/
def InvocationStatus.value : InvocationStatus → String
  | running => "RUNNING"
  | succeeded => "SUCCEEDED"
  | failed => "FAILED"
  | cancelled => "CANCELLED"
  | interrupted => "INTERRUPTED"

/-- The tools a provider can ask for. -/
inductive ToolName
  | fileRead
  | fileWrite
  | shellRun
  | testRun
  | gitDiff
  | memoryQuery
deriving DecidableEq, Repr

/-- The word of a tool. -/
def ToolName.value : ToolName → String
  | fileRead => "filesystem.read"
  | fileWrite => "filesystem.write"
  | shellRun => "shell.run"
  | testRun => "test.run"
  | gitDiff => "git.diff"
  | memoryQuery => "memory.query"

/-- A call of a tool; its arguments as they are written out. -/
structure ProviderToolCall where
  id : String
  name : ToolName
  arguments : String
deriving DecidableEq, Repr

/-- What came of a call of a tool. -/
structure ToolObservation where
  callId : String
  tool : ToolName
  succeeded : Bool
  summary : String
deriving DecidableEq, Repr

/-- An invocation of a tool. -/
structure ToolInvocation where
  id : UUID
  createdAt : Time
  runId : UUID
  taskExecutionId : UUID
  actorSessionId : UUID
  providerInvocationId : UUID
  callId : String
  tool : ToolName
  requestHash : String
  status : InvocationStatus := .running
  startedAt : Time
  completedAt : Option Time := none
  observation : Option ToolObservation := none
deriving DecidableEq, Repr

/-- A check of a source file a reviewer relies on. -/
structure SourceCheck where
  path : String
  contains : String
deriving DecidableEq, Repr

/-- The outcome of a review, of a criterion or overall. -/
inductive Verdict
  | pass
  | fail
deriving DecidableEq, Repr

/-- The word of a verdict. -/
def Verdict.value : Verdict → String
  | pass => "PASS"
  | fail => "FAIL"

/-- A reviewer's verdict on a criterion. -/
structure CriterionReview where
  criterionId : UUID
  status : Verdict
  reason : String
  evidenceRefs : List UUID := []
  sourceChecks : List SourceCheck := []
deriving DecidableEq, Repr

/-- A reviewer's disposition of a worker's finding. -/
structure FindingReview where
  findingId : UUID
  resolved : Bool
  reason : String
  evidenceRefs : List UUID := []
  sourceChecks : List SourceCheck := []
deriving DecidableEq, Repr

/-- The result of a review. -/
structure ReviewResult where
  overall : Verdict
  criteria : List CriterionReview
  blockingFindings : List String
  nonBlockingFindings : List String
  findingReviews : List FindingReview := []
deriving DecidableEq, Repr

/-- A recorded review. -/
structure ReviewRecord where
  id : UUID
  createdAt : Time
  runId : UUID
  goalVersionId : UUID
  planVersion : Nat
  actorSessionId : UUID
  treeHash : String
  result : ReviewResult
deriving DecidableEq, Repr

/-- What a provider answered, as far as the program reads it back. -/
inductive ProviderOutput
  | goal (draft : GoalDraft)
  | review (result : ReviewResult)
  | other (text : String)
deriving DecidableEq, Repr

/-- The result of an invocation: an answer or calls of tools. -/
structure ProviderResult where
  output : Option ProviderOutput := none
  toolCalls : List ProviderToolCall := []
deriving DecidableEq, Repr

/-- An invocation of a provider. -/
structure ProviderExecution where
  id : UUID
  createdAt : Time
  runId : UUID
  taskExecutionId : UUID
  actorSessionId : UUID
  provider : String
  model : String
  requestHash : String
  idempotencyKey : String
  status : InvocationStatus := .running
  startedAt : Time
  deadlineAt : Time
  completedAt : Option Time := none
  result : Option ProviderResult := none
  errorCode : Option String := none
deriving DecidableEq, Repr

/-- How much a finding weighs. -/
inductive Severity
  | info
  | warning
  | blocking
deriving DecidableEq, Repr

/-- The word of a severity. -/
def Severity.value : Severity → String
  | info => "info"
  | warning => "warning"
  | blocking => "blocking"

/-- A finding about the work of a run. -/
structure Finding where
  id : UUID
  createdAt : Time
  runId : UUID
  taskId : Option UUID := none
  criterionId : Option UUID := none
  severity : Severity
  category : String
  summary : String
  sourceRef : Option String := none
  resolved : Bool := false
deriving DecidableEq, Repr

/-- A stored product of a run. -/
structure Artifact where
  id : UUID
  createdAt : Time
  runId : UUID
  taskId : Option UUID := none
  type : String
  pathOrUri : String
  contentHash : String
deriving DecidableEq, Repr

/-- A reviewed difference of a test file. -/
structure ReviewedTestChange where
  path : String
  oldHash : String
  newHash : String
deriving DecidableEq, Repr

/-- What the delivery of a run may do. -/
structure DeliveryPolicy where
  documentationPath : Option String := none
  approvedSensitivePaths : List String := []
  reviewedTestChanges : List ReviewedTestChange := []
  maxDeletedLineRatio : Rat := 1 / 2
  push : Bool := false
  remote : String := "origin"
  allowLocalRemote : Bool := false
  authorName : Option String := none
  authorEmail : Option String := none
deriving DecidableEq, Repr

/-- A changed file of an inspection. -/
structure ChangedFile where
  path : String
  status : String
  oldHash : Option String
  newHash : Option String
  addedLines : Nat
  deletedLines : Nat
  binary : Bool
deriving DecidableEq, Repr

/-- The two inspections of a delivery. -/
inductive Checkpoint
  | implementation
  | final
deriving DecidableEq, Repr

/-- The word of a checkpoint. -/
def Checkpoint.value : Checkpoint → String
  | implementation => "implementation"
  | final => "final"

/-- The report of an inspection. -/
structure ChangeReport where
  id : UUID
  createdAt : Time
  runId : UUID
  actorSessionId : UUID
  checkpoint : Checkpoint
  baseCommit : String
  treeHash : String
  passed : Bool
  changes : List ChangedFile
  findings : List Finding
deriving DecidableEq, Repr

/-- The validation of the final tree. -/
structure FinalValidation where
  id : UUID
  createdAt : Time
  runId : UUID
  actorSessionId : UUID
  goalVersionId : UUID
  treeHash : String
  passed : Bool
  evidenceIds : List UUID
deriving DecidableEq, Repr

/-- How far a push has come. -/
inductive PushStatus
  | notRequested
  | pending
  | pushed
deriving DecidableEq, Repr

/-- The delivery of a run to Git. -/
structure GitDelivery where
  id : UUID
  createdAt : Time
  runId : UUID
  baseCommit : String
  branch : String
  treeHash : String
  gitTreeSha : String
  commitMessage : String
  commitAttached : Bool := false
  commitSha : Option String := none
  pushStatus : PushStatus := .notRequested
  remote : Option String := none
  policy : DeliveryPolicy
deriving DecidableEq, Repr

/-- The project a run belongs to, as far as the modelled code reads it. -/
structure Project where
  id : UUID
  createdAt : Time
  name : String
  maxTaskAttempts : Nat := 3
  maxRepairIterations : Nat := 5
  allowPush : Bool := false
  allowedProviders : List String := []
deriving DecidableEq, Repr

end Orqalis
