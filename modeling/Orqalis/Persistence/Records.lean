import Orqalis.Domain.Task
import Orqalis.Domain.Acceptance
import Orqalis.Domain.Approval
import Orqalis.Domain.Event
import Orqalis.Domain.Execution

/-!
# The records of a run and their repositories

`Records` is what a run owns: its mappings, its event log and the documents its workers
keep in the extensions. A repository method is a function of the records; the methods of
one unit of work share them.

A listing is sorted by creation and identifier. A search for an identifier through such a
listing is the lookup of the mapping.
-/

namespace Orqalis

open Lib

/-- Sort a listing by creation, then by the text of the identifier. -/
def sortEntities {α : Type} (createdAt : α → Time) (id : α → UUID) (l : List α) : List α :=
  l.insertionSort fun a b => createdBefore (createdAt a) (id a) (createdAt b) (id b)

theorem mem_sortEntities {α : Type} {createdAt : α → Time} {id : α → UUID} {l : List α}
    {a : α} : a ∈ sortEntities createdAt id l ↔ a ∈ l :=
  (List.perm_insertionSort _ l).mem_iff

/-! ## The extensions -/

/-- What a capsule holds under a namespace: nothing, a document, something that is not a
document of the current schema, or a document one of whose lists cannot be read. -/
inductive Extension (α : Type)
  | absent
  | document (d : α)
  | foreign
  | corrupt
deriving DecidableEq, Repr

/-- The document of the `execution` namespace. -/
structure ExecutionDocument where
  reviews : List ReviewRecord := []
  tools : List ToolInvocation := []
  workspace : Option RunWorkspace := none
deriving DecidableEq, Repr

/-- The document of the `providers` namespace. -/
structure ProviderDocument where
  invocations : List ProviderExecution := []
deriving DecidableEq, Repr

/-- The document of the `delivery` namespace. -/
structure DeliveryDocument where
  guardians : List ChangeReport := []
  validations : List FinalValidation := []
  artifacts : List Artifact := []
  findings : List Finding := []
  gitDelivery : Option GitDelivery := none
deriving DecidableEq, Repr

/-- The context pack of the `context` namespace, as far as the store reads it. -/
structure ContextPack where
  schemaVersion : Int
  projectId : String
  task : String
  branch : Option String
  headCommit : String
deriving DecidableEq, Repr

/-- The extensions of a capsule, one field for each namespace the program uses. -/
structure Extensions where
  execution : Extension ExecutionDocument := .absent
  providers : Extension ProviderDocument := .absent
  delivery : Extension DeliveryDocument := .absent
  context : Extension ContextPack := .absent
deriving DecidableEq, Repr

/-- Read the document of a namespace; a namespace without one has the empty document. -/
def Extension.read {α : Type} (empty : α) (namespaceName : String) :
    Extension α → Except Error α
  | .absent => .ok empty
  | .document d => .ok d
  | .foreign => .error (.conflict s!"Task Capsule {namespaceName} extension is invalid")
  | .corrupt => .error (.conflict s!"Task Capsule {namespaceName} state is invalid")

/-- Read a list of a document: its entries belong to the run and have distinct
identifiers. -/
def models {α : Type} (id : α → UUID) (owner : α → UUID) (key : String) (runId : UUID)
    (values : List α) : Except Error (List α) :=
  if (values.map id).Nodup ∧ ∀ v ∈ values, owner v = runId then
    .ok values
  else
    .error (.conflict s!"Task Capsule {key} state is inconsistent")

/-- Put an entry in the place of the one with its identifier, or at the end. -/
def replace {α : Type} (id : α → UUID) : List α → α → List α
  | [], value => [value]
  | existing :: rest, value =>
    if id existing = id value then value :: rest else existing :: replace id rest value

/-! ## The records -/

/-- What a run owns. -/
structure Records where
  run : Run
  goals : Table (fun c : GoalContract => c.goal.id) := .empty
  evidence : Table Evidence.id := .empty
  plans : Table TaskPlan.version := .empty
  tasks : Table Task.id := .empty
  actors : Table ActorSession.id := .empty
  executions : Table TaskExecution.id := .empty
  phases : Table PhaseExecution.id := .empty
  controlPolicy : Option ControlPolicy := none
  approvalRequests : Table ApprovalRequest.id := .empty
  approvalDecisions : Table ApprovalDecision.requestId := .empty
  events : List Event := []
  extensions : Extensions := {}
deriving DecidableEq

namespace Records

/-! ## Runs, goals and criteria -/

/-- Store the run; the cursor of the log stays the store's own. -/
def saveRun (r : Records) (run : Run) : Except Error Records :=
  if run.projectId ≠ r.run.projectId ∨ run.createdAt ≠ r.run.createdAt then
    .error (.conflict "Run identity cannot be changed")
  else
    .ok { r with run := { run with lastEventSequence := r.run.lastEventSequence } }

/-- Store a goal version. -/
def saveGoal (r : Records) (contract : GoalContract) : Except Error Records :=
  if (r.goals.get? contract.goal.id).any fun existing => existing ≠ contract then
    .error (.conflict "Goal identity already exists")
  else if r.goals.entries.any fun c =>
      c.goal.version = contract.goal.version ∧ c.goal.id ≠ contract.goal.id then
    .error (.conflict "Goal version already exists")
  else
    .ok { r with goals := r.goals.put contract }

/-- Make a stored goal version the current one. -/
def setCurrentGoal (r : Records) (goalId : UUID) : Except Error Records :=
  if r.goals.has goalId then
    .ok { r with run := { r.run with currentGoalVersionId := some goalId } }
  else
    .error (.notFound "Goal not found")

/-- The contract of a goal version. -/
def getGoal (r : Records) (goalId : UUID) : Option GoalContract := r.goals.get? goalId

/-- The contract of the run's current goal. -/
def currentGoal (r : Records) (run : Run) : Option GoalContract :=
  run.currentGoalVersionId.bind r.getGoal

/-- Put a criterion in the place of the one with its identifier. -/
def replaceCriterion (c : GoalContract) (criterion : AcceptanceCriterion) : GoalContract :=
  { c with criteria := c.criteria.map fun item =>
      if item.id = criterion.id then criterion else item }

/-- Store the outcome of a criterion; a goal or a criterion the run does not have leaves
the records alone. -/
def saveCriterion (r : Records) (criterion : AcceptanceCriterion) : Records :=
  match r.goals.get? criterion.goalVersionId with
  | none => r
  | some contract =>
    if contract.criteria.any fun item => item.id = criterion.id then
      { r with goals := r.goals.put (replaceCriterion contract criterion) }
    else
      r

/-- Store an outcome with its evidence. -/
def saveEvaluation (r : Records) (criterion : AcceptanceCriterion) (evidence : Evidence) :
    Except Error Records :=
  if r.goals.has criterion.goalVersionId then
    .ok (saveCriterion { r with evidence := r.evidence.put evidence } criterion)
  else
    .error (.notFound "Goal not found")

/-! ## Events -/

/-- The stored event of a key. -/
def byKey (r : Records) (key : String) : Option Event :=
  r.events.find? fun e => e.idempotencyKey = key

/-- The event the log makes of a draft. -/
def eventOf (r : Records) (draft : EventDraft) : Event where
  projectId := r.run.projectId
  runId := r.run.id
  sequence := r.run.lastEventSequence + 1
  eventType := draft.eventType
  occurredAt := match r.events.getLast? with
    | some last => max last.occurredAt draft.occurredAt
    | none => draft.occurredAt
  phase := draft.phase
  taskId := draft.taskId
  taskExecutionId := draft.taskExecutionId
  actorSessionId := draft.actorSessionId
  status := draft.payload.status
  payload := draft.payload
  idempotencyKey := draft.idempotencyKey

/-- Append an event. A key that is stored already answers its event when the content is
the same one, and is refused otherwise. `safe` is the redactor's verdict on a text. -/
def append (safe : String → Bool) (r : Records) (draft : EventDraft) :
    Except Error (Event × Records) :=
  match r.byKey draft.idempotencyKey with
  | some existing =>
    if existing.matches draft then
      .ok (existing, r)
    else
      .error (.conflict "Idempotency key reused for a different event")
  | none =>
    if draft.payload.texts.all safe then
      let event := r.eventOf draft
      .ok (event, { r with
        events := r.events ++ [event]
        run := { r.run with lastEventSequence := event.sequence } })
    else
      .error (.conflict "Unsafe event payload rejected")

/-! ## Tasks, actors and phases -/

/-- Store a new task. -/
def addTask (r : Records) (task : Task) : Except Error Records :=
  if r.tasks.has task.id then
    .error (.conflict "Task identity already exists")
  else
    .ok { r with tasks := r.tasks.put task }

/-- The tasks of the run, listed. -/
def taskList (r : Records) : List Task := sortEntities Task.createdAt Task.id r.tasks.entries

/-- Store the tasks a plan introduces. -/
def introduce (tasks : Table Task.id) (plan : List Task) : Table Task.id :=
  plan.foldl (fun tasks task => if tasks.has task.id then tasks else tasks.put task) tasks

/-- Store a plan version and the tasks it introduces; the records of its other tasks must
be the ones the plan holds. -/
def savePlan (r : Records) (plan : TaskPlan) : Except Error Records :=
  if (r.plans.get? plan.version).any fun existing => existing ≠ plan then
    .error (.conflict "Plan version already exists")
  else if plan.tasks.any fun task =>
      (r.tasks.get? task.id).any fun existing => existing ≠ task then
    .error (.conflict "Plan revisions cannot rewrite existing task records")
  else
    .ok { r with tasks := introduce r.tasks plan.tasks, plans := r.plans.put plan }

/-- The record of a plan's task. A plan whose task has no record cannot be read. -/
def planTask (r : Records) (task : Task) : Except Error Task :=
  match r.tasks.get? task.id with
  | some record => .ok record
  | none => .error (.runtime "KeyError")

/-- A plan version with the current records of its tasks. -/
def getPlan (r : Records) (version : Nat) : Except Error (Option TaskPlan) :=
  match r.plans.get? version with
  | none => .ok none
  | some plan =>
    match plan.tasks.mapM r.planTask with
    | .ok tasks => .ok (some { plan with tasks })
    | .error e => .error e

/-- Store the record of a known task. -/
def saveTask (r : Records) (task : Task) : Records :=
  if r.tasks.has task.id then { r with tasks := r.tasks.put task } else r

/-- Store an actor. -/
def saveActor (r : Records) (actor : ActorSession) : Records :=
  { r with actors := r.actors.put actor }

/-- The attempts of the run, listed. -/
def executionList (r : Records) : List TaskExecution :=
  sortEntities TaskExecution.createdAt TaskExecution.id r.executions.entries

/-- Store an attempt. -/
def saveExecution (r : Records) (execution : TaskExecution) : Records :=
  { r with executions := r.executions.put execution }

/-- The phase executions of the run, listed. -/
def phaseList (r : Records) : List PhaseExecution :=
  sortEntities PhaseExecution.createdAt PhaseExecution.id r.phases.entries

/-- Store a phase execution; another one of the same phase and iteration is refused. -/
def savePhase (r : Records) (phase : PhaseExecution) : Except Error Records :=
  if r.phases.entries.any fun item =>
      item.id ≠ phase.id ∧ item.phase = phase.phase ∧ item.iteration = phase.iteration then
    .error (.conflict "Phase iteration already exists")
  else
    .ok { r with phases := r.phases.put phase }

/-! ## Approvals -/

/-- Store the control policy. -/
def savePolicy (r : Records) (policy : ControlPolicy) : Records :=
  { r with controlPolicy := some policy }

/-- The policy that holds: an ordinary run has no policy record. -/
def policy (r : Records) : ControlPolicy := r.controlPolicy.getD { runId := r.run.id }

/-- A stored request with the decision on it. -/
def approvalView (request : ApprovalRequest) (decision : Option ApprovalDecision) :
    ApprovalRequest :=
  match decision with
  | none => { request with status := .pending, decision := none }
  | some d =>
    { request with
      status := match d.decision with
        | .approve => .approved
        | .reject => .rejected
      decision := some d }

/-- A request of the run, as an operator sees it. -/
def getRequest (r : Records) (requestId : UUID) : Option ApprovalRequest :=
  (r.approvalRequests.get? requestId).map fun request =>
    approvalView request (r.approvalDecisions.get? request.id)

/-- The requests of the run, listed. -/
def requestList (r : Records) : List ApprovalRequest :=
  (sortEntities ApprovalRequest.createdAt ApprovalRequest.id r.approvalRequests.entries).map
    fun request => approvalView request (r.approvalDecisions.get? request.id)

/-- Store a new request, pending. -/
def addRequest (r : Records) (request : ApprovalRequest) : Except Error Records :=
  if r.approvalRequests.has request.id ∨ r.approvalRequests.entries.any fun item =>
      item.stage = request.stage ∧ item.subjectVersion = request.subjectVersion ∧
        item.subjectDigest = request.subjectDigest then
    .error (.conflict "Approval request already exists")
  else
    .ok { r with
      approvalRequests :=
        r.approvalRequests.put { request with status := .pending, decision := none } }

/-- Store the decision on a request. -/
def addDecision (r : Records) (decision : ApprovalDecision) : Except Error Records :=
  if ¬ r.approvalRequests.has decision.requestId then
    .error (.notFound "Approval request not found")
  else if (r.approvalDecisions.get? decision.requestId).any fun existing =>
      existing ≠ decision then
    .error (.conflict "Approval request already has a decision")
  else
    .ok { r with approvalDecisions := r.approvalDecisions.put decision }

end Records

end Orqalis
