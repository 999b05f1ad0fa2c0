import Orqalis.Core.StateMachine
import Orqalis.Persistence.Auxiliary

/-!
# The documents of a capsule

A commit writes a set of documents: the task metadata, the request, the state the run is
loaded from, and a number of projections for readers. A document is kept here as what it
encodes. The projections pass through the redactor on their way to bytes and are never
read back by the store, so they stand for the value they were made from.
-/

namespace Orqalis

open Lib

/-- The schema of every document of the store. -/
def taskSchemaVersion : Int := 1

/-- What a reader finds under a field of a JSON object: nothing, a value of the type it
reads, or another one. -/
inductive Field (α : Type)
  | absent
  | value (a : α)
  | invalid
deriving DecidableEq, Repr

/-- The field of a value that may be missing. -/
def Field.of {α : Type} : Option α → Field α
  | some a => .value a
  | none => .absent

/-- A list of models, each of which validates or does not. -/
abbrev Listing (α : Type) := Field (List (Option α))

/-- The listing of models that validate. -/
def Listing.of {α : Type} (l : List α) : Listing α := .value (l.map some)

/-- Read a listing. An absent one is empty. -/
def Listing.read {α : Type} (key : String) : Listing α → Except Error (List α)
  | .absent => .ok []
  | .value l =>
    l.mapM fun
      | some a => .ok a
      | none => .error (.conflict "Task Capsule contains invalid domain state")
  | .invalid => .error (.conflict s!"Task Capsule {key} state is invalid")

/-! ## The aggregate -/

/-- A run's records as a session holds them (`TaskCapsuleAggregate`): with the capsule and
the generation they were loaded from, and what of them the disk does not have yet. -/
structure Aggregate where
  capsuleId : String
  generation : Nat
  records : Records
  dirty : Bool := false
  isNew : Bool := false
  persistedEventCount : Nat := 0
deriving DecidableEq

/-! ## Metadata and state -/

/-- The metadata document `task.yaml`. -/
structure TaskDocument where
  schemaVersion : Field Int
  id : Field String
  runId : Field String
  title : String
  status : String
  createdAt : Time
  updatedAt : Time
  completedAt : Option Time
  projectId : String
  branch : String
  startingCommit : String
  currentPhase : String
  iteration : Nat
  maxIterations : Nat
deriving DecidableEq, Repr

/-- The state document `execution/state.yaml`. -/
structure StateDocument where
  schemaVersion : Field Int
  generation : Field Int
  capsuleId : String
  run : Field Run
  goals : Listing GoalContract
  evidence : Listing Evidence
  plans : Listing TaskPlan
  tasks : Listing Task
  actors : Listing ActorSession
  executions : Listing TaskExecution
  phases : Listing PhaseExecution
  controlPolicy : Field ControlPolicy
  approvalRequests : Listing ApprovalRequest
  approvalDecisions : Listing ApprovalDecision
  extensions : Field Extensions
deriving DecidableEq

/-- The body of a line of the event log. -/
inductive EventBody
  | event (e : Event)
  | other (n : Nat)
deriving DecidableEq, Repr

/-- A line of the event log. -/
structure EventRecord where
  schemaVersion : Field Int
  body : EventBody
deriving DecidableEq, Repr

/-- The line of an event. -/
def eventRecord (e : Event) : EventRecord := ⟨.value taskSchemaVersion, .event e⟩

/-- Read an event from its line. -/
def parseEvent (r : EventRecord) : Except Error Event :=
  if r.schemaVersion ≠ .value taskSchemaVersion then
    .error (.conflict "Unsupported Task Capsule event schema")
  else
    match r.body with
    | .event e => .ok e
    | .other _ => .error (.conflict "Task Capsule contains an invalid event")

@[simp] theorem parseEvent_eventRecord (e : Event) : parseEvent (eventRecord e) = .ok e := by
  simp [parseEvent, eventRecord]

/-- The characters a text is split into lines at. -/
def lineBoundary (c : Char) : Bool :=
  c.toNat ∈ [10, 11, 12, 13, 28, 29, 30, 133, 8232, 8233]

/-- The characters that are blank. -/
def blank (c : Char) : Bool :=
  lineBoundary c ∨ c.toNat ∈ [9, 31, 32, 160, 5760, 8239, 8287, 12288] ∨
    (8192 ≤ c.toNat ∧ c.toNat ≤ 8202)

/-- A text without the blanks at its end. -/
def rstrip (text : List Char) : List Char := (text.reverse.dropWhile blank).reverse

/-- A text without the blanks at its ends. -/
def strip (text : List Char) : List Char := rstrip (text.dropWhile blank)

/-- The first line of a request that is not blank, cut to 120 characters. -/
def title (request : String) : String :=
  match ((request.toList.splitOnP lineBoundary).map strip).find? (fun line => line ≠ []) with
  | some line => String.ofList (line.take 120)
  | none => "Task"

/-- The request as its document holds it. -/
def Run.requestText (run : Run) : String :=
  String.ofList (rstrip run.request.toList ++ "\n".toList)

/-- The metadata of an aggregate. -/
def Aggregate.taskDocument (a : Aggregate) : TaskDocument :=
  let run := a.records.run
  { schemaVersion := .value taskSchemaVersion
    id := .value a.capsuleId
    runId := .value run.id.text
    title := title run.request
    status := run.state.value
    createdAt := run.createdAt
    updatedAt := match a.records.events.getLast? with
      | some e => e.occurredAt
      | none => run.createdAt
    completedAt := run.completedAt
    projectId := run.projectId.text
    branch := run.targetBranch
    startingCommit := run.baseCommit
    currentPhase := run.uiPhase.value
    iteration := run.repairIteration
    maxIterations := run.maxRepairIterations }

/-- The state of an aggregate, at a generation. -/
def Aggregate.stateDocument (a : Aggregate) (generation : Nat) : StateDocument :=
  let r := a.records
  { schemaVersion := .value taskSchemaVersion
    generation := .value generation
    capsuleId := a.capsuleId
    run := .value r.run
    goals := .of (r.goals.entries.insertionSort fun x y => x.goal.version ≤ y.goal.version)
    evidence := .of (sortEntities Evidence.createdAt Evidence.id r.evidence.entries)
    plans := .of (r.plans.entries.insertionSort fun x y => x.version ≤ y.version)
    tasks := .of r.taskList
    actors := .of (sortEntities ActorSession.createdAt ActorSession.id r.actors.entries)
    executions := .of r.executionList
    phases := .of r.phaseList
    controlPolicy := .of r.controlPolicy
    approvalRequests := .of
      (sortEntities ApprovalRequest.createdAt ApprovalRequest.id r.approvalRequests.entries)
    approvalDecisions := .of
      (sortEntities ApprovalDecision.createdAt ApprovalDecision.id r.approvalDecisions.entries)
    extensions := .value r.extensions }

/-! ## Names -/

/-- The documents a commit can write. -/
inductive DocumentName
  | task
  | request
  | state
  | goal
  | goalAcceptance
  | goalVersion (version : Nat)
  | planDag
  | planSubtasks
  | plan
  | approvals
  | evidence (id : UUID)
  | contextPack
  | memoryUsed
  | filesUsed
  | graphQuery
  | phase (phase : UIPhase)
  | agentSession (id : UUID)
  | subtask (id : UUID)
  | review (id : UUID)
  | findings
  | changeGuardian
  | acceptanceResults
  | artifactIndex
  | changedFiles
  | diffSummary
  | commit
  | push
  | finalResult
  | finalSummary
deriving DecidableEq, Repr

/-- The file of a phase's projection. -/
def phaseFile : UIPhase → String
  | .context => "context.yaml"
  | .goal => "goal.yaml"
  | .plan => "planning.yaml"
  | .implement => "implementation.yaml"
  | .test => "testing.yaml"
  | .review => "review.yaml"
  | .repair => "repair.yaml"
  | .docs => "documentation.yaml"
  | .deliver => "delivery.yaml"

/-- A version in four digits. -/
def fourDigits (n : Nat) : String :=
  "".pushn '0' (4 - (toString n).length) ++ toString n

/-- Where a document lies in its capsule. -/
def DocumentName.path : DocumentName → String
  | task => "task.yaml"
  | request => "request.md"
  | state => "execution/state.yaml"
  | goal => "goal/goal.md"
  | goalAcceptance => "goal/acceptance.yaml"
  | goalVersion version => s!"goal/versions/{fourDigits version}.json"
  | planDag => "plan/dag.json"
  | planSubtasks => "plan/subtasks.yaml"
  | plan => "plan/plan.md"
  | approvals => "execution/approvals.yaml"
  | evidence id => s!"evidence/{id.text}.json"
  | contextPack => "context/context-pack.md"
  | memoryUsed => "context/memory-used.yaml"
  | filesUsed => "context/files-used.json"
  | graphQuery => "context/graph-query.json"
  | phase p => s!"execution/phases/{phaseFile p}"
  | agentSession id => s!"execution/agents/{id.text}/session.yaml"
  | subtask id => s!"execution/subtasks/{id.text}.yaml"
  | review id => s!"review/reviews/{id.text}.yaml"
  | findings => "review/findings.jsonl"
  | changeGuardian => "review/change-guardian.yaml"
  | acceptanceResults => "review/acceptance-results.yaml"
  | artifactIndex => "artifacts/index.yaml"
  | changedFiles => "changes/files.json"
  | diffSummary => "changes/diff-summary.md"
  | commit => "delivery/commit.yaml"
  | push => "delivery/push.yaml"
  | finalResult => "final/result.yaml"
  | finalSummary => "final/summary.md"

/-! ## Contents -/

/-- The final summary of a run. -/
structure FinalResult where
  run : Run
  goalVersionId : Option UUID
  acceptance : List (AcceptanceStatus × Nat)
  tasks : List (TaskStatus × Nat)
  executionAttempts : Nat
  actors : Nat
  evidence : Nat
  reviews : List ReviewRecord
  findings : Nat
  artifacts : Nat
  guardians : List ChangeReport
  validations : List FinalValidation
  delivery : Option GitDelivery
deriving DecidableEq, Repr

/-- What a projection is made from. -/
inductive Projection
  | goal (goal : GoalVersion)
  | criteria (goalVersionId : UUID) (criteria : List AcceptanceCriterion)
  | contract (contract : GoalContract)
  | plan (plan : TaskPlan)
  | tasks (tasks : List Task)
  | approvals (policy : Option ControlPolicy) (requests : List ApprovalRequest)
  | evidence (evidence : Evidence)
  | context (pack : ContextPack)
  | phases (phase : UIPhase) (executions : List PhaseExecution)
  | actor (session : ActorSession)
  | subtask (task : Option Task) (executions : List TaskExecution)
  | review (review : ReviewRecord)
  | findings (findings : List Finding)
  | guardians (reports : List ChangeReport)
  | acceptance (current : Option GoalContract) (evidence : List Evidence)
      (reviews : List ReviewRecord) (validations : List FinalValidation)
  | artifacts (artifacts : List Artifact)
  | changes (report : ChangeReport)
  | delivery (delivery : GitDelivery)
  | result (result : FinalResult)
deriving DecidableEq

/-- What a file of a capsule holds. `raw` is anything that none of the store's documents
encodes to. -/
inductive Content
  | task (document : TaskDocument)
  | request (text : String)
  | state (document : StateDocument)
  | projection (generation : Nat) (of : Projection)
  | raw (n : Nat)
deriving DecidableEq

/-- A set of documents, by name. -/
abbrev Documents := Table (fun d : DocumentName × Content => d.1)

end Orqalis
