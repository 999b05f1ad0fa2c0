import Orqalis.Lib.System
import Orqalis.Core.PlanRevision
import Orqalis.Core.Recovery
import Orqalis.Core.Repair
import Orqalis.Delivery.Services
import Orqalis.Execution.Review
import Orqalis.Execution.Workers

/-!
# Runs of a run

Every transaction the services carry out on a run, as a command with what its caller and the
outside bring to it, and the steps these commands take, in any order. A service of several
transactions is several commands: what an earlier one read is an argument of the later ones,
and a stop of the process between two of them is only the absence of the later.

What restricts a command is what makes its arguments what they are: a number drawn at random
is new, the second transaction of a call follows its first, and the coordinator of a delivery,
which alone completes a run, has left no transaction behind when it does.
-/

namespace Orqalis

open Lib Lib.Transaction

/-- A transaction of a service. -/
inductive Command
  | advance (target : RunState) (key : String) (now : Time) (phaseId : UUID)
  | installPlan (plan : ValidPlan) (key : String) (now : Time)
  | installRepair (plan : ValidPlan) (key : String) (now : Time)
  | installDelivery (plan : ValidPlan) (key : String) (now : Time)
  | replan (plan : ValidPlan) (key : String) (now : Time)
  | replacePreview (plan : ValidPlan) (expectedVersion : Nat) (key : String) (now : Time)
  | startRequirements (now : Time)
  | startTask (taskId : UUID) (key : String) (now : Time)
  | transitionTask (executionId : UUID) (status : TaskStatus) (key : String) (now : Time)
  | retry (executionId : UUID) (reason key : String) (acknowledged : Bool) (now : Time)
  | defineInitial (executionId : UUID) (draft : GoalDraft) (n : Nat) (now : Time)
  | revise (draft : GoalDraft) (reason : String) (expectedVersion n : Nat) (now : Time)
  | startValidation (criterionKey key : String) (executionId : Option UUID) (now : Time)
  | finishValidation (criterion : AcceptanceCriterion) (key : String)
      (actorId taskId executionId : Option UUID)
      (observation : Except String ValidationObservation) (now : Time)
  | configure (mode : ControlMode) (gates : Option (List ApprovalStage)) (now : Time)
  | ensure (stage : ApprovalStage) (version : Nat) (digest reason : String) (now : Time)
  | decide (requestId : UUID) (decision : ApprovalDecisionKind)
      (actor expectedDigest reason : String) (decisionId : UUID) (now : Time)
  | startInvocation (executionId : UUID) (providerId : String)
      (prepared : Except Error AgentExecution.Prepared) (withTools : Bool) (key : String)
      (now : Time)
  | completeInvocation (invocation executionId : UUID) (outcome : Except String ProviderResult)
      (now : Time)
  | startTool (provider : UUID) (call : ProviderToolCall) (permitted : List ToolName)
      (verified : Except Error Unit) (now : Time)
  | completeTool (invocation : ToolInvocation) (observation : ToolObservation) (now : Time)
  | ensureWorkspace (policy : ExecutionPolicy) (path branch baseCommit : String)
  | recordArtifacts (attempt : TaskExecution) (files : List ReportedFile) (now : Time)
  | assign (attempt : TaskExecution) (refs : List String) (tools : List ToolName) (now : Time)
  | report (executionId : UUID) (result : ExternalWork.WorkerResult) (fingerprint : String)
      (digest : Except Error Digest) (files : List ReportedFile) (now : Time)
  | reportFinding (executionId : UUID) (report : ExternalWork.FindingReport)
      (fingerprint : String) (located : Except Error Unit) (key : String) (now : Time)
  | startContext (now : Time)
  | finishContext (memoryIds : List UUID) (now : Time)
  | recordReview (actorId : UUID) (result : ReviewResult) (key : String) (view : SourceView)
      (now : Time)
  | survey (now : Time)
  | requestRepair (reviewId : UUID) (planVersion : Nat) (now : Time)
  | reportCompletion (review : ReviewRecord) (now : Time)
  | bindDelivery (fingerprint : String) (request : Option (UUID × String)) (now : Time)
  | inspect (actorId : UUID) (policy : DeliveryPolicy) (fingerprint : String)
      (checkpoint : Checkpoint) (inspection : GuardianService.Inspection) (n : Nat) (now : Time)
  | writeDocumentation (actorId : UUID) (report : ChangeReport)
      (written : Except Error (String × String)) (intact : Bool) (now : Time)
  | recordValidation (attempt : TaskExecution) (goalId : UUID) (evidenceIds : List UUID)
      (outcome : FinalValidationService.Outcome) (now : Time)
  | beginCommit (policy : DeliveryPolicy) (actorId : UUID) (name email : String)
      (tree : Except Error String) (now : Time)
  | commitCreated (delivery : GitDelivery) (sha : String)
  | commitAttached (delivery : GitDelivery) (actorId : UUID) (now : Time)
  | pushed (delivery : GitDelivery) (actorId : UUID) (now : Time)
  | promoteMemory (actorId : UUID) (proposal : String) (approved : Bool) (now : Time)

/-- Carry out a transaction and forget its answer. -/
def quietly {α : Type} (m : RunTx α) : RunTx Unit := do
  let _ ← m

/-- Carry out a command. -/
def Command.perform (P : Primitives) (project : Project) : Command → RunTx Unit
  | advance target key now phaseId => quietly (Orchestrator.advance P target key now phaseId)
  | installPlan plan key now => quietly (Orchestrator.installPlan P plan key now)
  | installRepair plan key now => quietly (PlanRevision.installRepair P plan key now)
  | installDelivery plan key now => quietly (PlanRevision.installDelivery P plan key now)
  | replan plan key now => quietly (GoalReplanning.install P plan key now)
  | replacePreview plan expected key now =>
    quietly (PreviewRevision.replace P plan expected key now)
  | startRequirements now => quietly (Orchestrator.startRequirements P now)
  | startTask taskId key now => quietly (TaskRuntime.start P taskId key now)
  | transitionTask executionId status key now =>
    quietly (TaskRuntime.transition P executionId status key now)
  | retry executionId reason key acknowledged now =>
    quietly (RecoveryService.retry P (some project) executionId reason key acknowledged now)
  | defineInitial executionId draft n now =>
    quietly (GoalService.defineInitial P executionId draft n now)
  | revise draft reason expected n now => quietly (GoalService.revise P draft reason expected n now)
  | startValidation criterionKey key executionId now =>
    quietly (GoalService.startValidation P criterionKey key executionId now)
  | finishValidation criterion key actorId taskId executionId observation now =>
    quietly
      (GoalService.finishValidation P criterion key actorId taskId executionId observation now)
  | configure mode gates now => ApprovalService.configure P mode gates now
  | ensure stage version digest reason now =>
    quietly (ApprovalService.ensure P stage version digest reason now)
  | decide requestId decision actor digest reason decisionId now =>
    ApprovalService.decide P requestId decision actor digest reason decisionId now
  | startInvocation executionId providerId prepared withTools key now =>
    quietly
      (AgentExecution.start P (some project) executionId providerId prepared withTools key now)
  | completeInvocation invocation executionId outcome now =>
    AgentExecution.complete P invocation executionId outcome now
  | startTool provider call permitted verified now =>
    quietly (ToolService.start P (some project) provider call permitted verified now)
  | completeTool invocation observation now => ToolService.complete P invocation observation now
  | ensureWorkspace policy path branch baseCommit =>
    quietly (Orqalis.ensureWorkspace (some project) policy path branch baseCommit)
  | recordArtifacts attempt files now => Orqalis.recordArtifacts attempt files now
  | assign attempt refs tools now => ExternalWork.assign P attempt refs tools now
  | report executionId result fingerprint digest files now =>
    ExternalWork.report P executionId result fingerprint digest files now
  | reportFinding executionId finding fingerprint located key now =>
    quietly (ExternalWork.reportFinding P executionId finding fingerprint located key now)
  | startContext now => Orqalis.startContext P now
  | finishContext memoryIds now => Orqalis.finishContext P memoryIds now
  | recordReview actorId result key view now =>
    quietly (ReviewService.record P actorId result key view now)
  | survey now => quietly (RepairCoordinator.survey P now)
  | requestRepair reviewId planVersion now => RepairCoordinator.request P reviewId planVersion now
  | reportCompletion review now => RepairCoordinator.reportCompletion P review now
  | bindDelivery fingerprint request now => Orqalis.bindDelivery P fingerprint request now
  | inspect actorId policy fingerprint checkpoint inspection n now =>
    quietly
      (GuardianService.inspect P actorId policy fingerprint checkpoint inspection n now)
  | writeDocumentation actorId accepted written intact now =>
    quietly (Orqalis.writeDocumentation P actorId accepted written intact now)
  | recordValidation attempt goalId evidenceIds outcome now =>
    quietly (FinalValidationService.record P attempt goalId evidenceIds outcome now)
  | beginCommit policy actorId name email tree now =>
    quietly (CommitService.begin' P (some project) policy actorId name email tree now)
  | commitCreated delivery sha => CommitService.created delivery sha
  | commitAttached delivery actorId now => CommitService.attach P delivery actorId now
  | pushed delivery actorId now => CommitService.pushed P delivery actorId now
  | promoteMemory actorId proposal approved now =>
    quietly (Orqalis.promoteMemory P actorId proposal approved now)

/-! ## When a command can be carried out -/

/-- Whether an identifier is not one of the numbers from `n` on. -/
def UUID.before (n : Nat) : UUID → Bool
  | .uuid4 m => m < n
  | .uuid5 _ _ => true

/-- Whether the numbers from `n` on name no goal and no criterion yet. -/
def Records.unusedFrom (r : Records) (n : Nat) : Bool :=
  r.goals.entries.all fun c => c.goal.id.before n && c.criteria.all fun item => item.id.before n

/-- Whether a validation has begun and not ended, and these are the criterion and the attempt
it began with. -/
def Records.validating (r : Records) (criterion : AcceptanceCriterion) (key : String)
    (actorId taskId executionId : Option UUID) : Bool :=
  let evidenceId := GoalService.evidenceId criterion.id key
  (r.byKey s!"validation:{evidenceId.text}:start").any (fun e =>
      e.payload.criterionId = some criterion.id ∧ e.actorSessionId = actorId ∧
        e.taskId = taskId ∧ e.taskExecutionId = executionId) ∧
    r.evidence.has evidenceId = false ∧
    (r.goals.get? criterion.goalVersionId).any fun c =>
      c.criteria.any fun item => item.definition = criterion.definition

/-- Whether an attempt was read off the records. -/
def Records.knows (r : Records) (attempt : TaskExecution) : Bool :=
  (r.executions.get? attempt.id).any fun e =>
    e.taskId = attempt.taskId ∧ e.assignedActorSessionId = attempt.assignedActorSessionId

/-- Whether a call of a tool has begun with this invocation. -/
def Records.calling (r : Records) (invocation : ToolInvocation) : Bool :=
  match r.storedTools with
  | .ok tools => tools.any fun t =>
      { t with status := .running, completedAt := none, observation := none } = invocation
  | .error _ => false

/-- When a command can be carried out. -/
def Command.possible (r : Records) : Command → Bool
  | advance _ _ _ phaseId => r.phases.has phaseId = false
  | defineInitial _ _ n _ | revise _ _ _ n _ => r.unusedFrom n
  | finishValidation criterion key actorId taskId executionId _ _ =>
    r.validating criterion key actorId taskId executionId
  | completeTool invocation _ _ => r.calling invocation
  | recordArtifacts attempt _ _ | assign attempt _ _ _ => r.knows attempt
  | recordValidation attempt _ _ _ _ => r.knows attempt ∧ r.run.state ≠ .completed
  | commitCreated _ _ | commitAttached _ _ _ | pushed _ _ _ => r.run.state ≠ .completed
  | _ => true

/-! ## Steps -/

/-- The records a transaction leaves, if it stores any. -/
def stored {α : Type} (m : RunTx α) (r : Records) : Option Records :=
  match m r with
  | .ok (_, r') => some r'
  | .error e => e.committed

/-- A command leads from some records to others. -/
def Command.Leads (P : Primitives) (project : Project) (cmd : Command) (r r' : Records) : Prop :=
  cmd.possible r = true ∧ stored (cmd.perform P project) r = some r'

/-- A step of a run. -/
def Step (P : Primitives) (project : Project) (r r' : Records) : Prop :=
  ∃ cmd : Command, cmd.Leads P project r r'

/-- The records of a run that has just been made. -/
def Created (P : Primitives) (project : Project) (r : Records) : Prop :=
  ∃ (request branch base : String) (id : Nat) (now : Time) (mode : ControlMode)
    (gates : Option (List ApprovalStage)),
    let run := GoalService.newRun project request branch base (.uuid4 id) now
    stored (GoalService.createPending P mode gates) { run } = some r ∨
      ∃ (draft : GoalDraft) (n : Nat),
        stored (GoalService.create P draft mode gates n) { run } = some r

/-- The records a run can come to. -/
def Reachable (P : Primitives) (project : Project) (r : Records) : Prop :=
  ∃ r₀, Created P project r₀ ∧ Relation.ReflTransGen (Step P project) r₀ r

/-- What holds of a run that has just been made and is kept by every step holds of every run. -/
theorem Reachable.induction {P : Primitives} {project : Project} {I : Records → Prop}
    (hcreated : ∀ r, Created P project r → I r)
    (hstep : System.Preserved (Step P project) I) {r : Records} (h : Reachable P project r) :
    I r := by
  obtain ⟨r₀, h₀, hrun⟩ := h
  exact hstep.run hrun (hcreated r₀ h₀)

/-! ## Histories -/

/-- Carry out commands one after the other, each where it is possible. -/
def history (P : Primitives) (project : Project) : List Command → Records → Option Records
  | [], r => some r
  | cmd :: rest, r =>
    if cmd.possible r then
      (stored (cmd.perform P project) r).bind (history P project rest)
    else
      none

/-- Commands carried out one after the other, each of which is a step of a kind. -/
theorem steps_of_history {P : Primitives} {project : Project} {Q : Records → Records → Prop}
    {cmds : List Command} {r r' : Records}
    (hcmds : ∀ cmd ∈ cmds, ∀ s s', cmd.Leads P project s s' → Q s s')
    (h : history P project cmds r = some r') : Relation.ReflTransGen Q r r' := by
  induction cmds generalizing r with
  | nil =>
    cases h
    exact .refl
  | cons cmd rest ih =>
    unfold history at h
    split_ifs at h with hpossible
    obtain ⟨s, hs, h⟩ := Option.bind_eq_some_iff.mp h
    obtain ⟨hfirst, hrest⟩ := List.forall_mem_cons.mp hcmds
    exact .head (hfirst r s ⟨hpossible, hs⟩) (ih hrest h)

/-- Commands carried out one after the other are a run. -/
theorem run_of_history {P : Primitives} {project : Project} {cmds : List Command}
    {r r' : Records} (h : history P project cmds r = some r') :
    Relation.ReflTransGen (Step P project) r r' :=
  steps_of_history (fun cmd _ _ _ hleads => ⟨cmd, hleads⟩) h

/-- One command carried out is a step. -/
theorem leads_of_history {P : Primitives} {project : Project} {cmd : Command} {r r' : Records}
    (h : history P project [cmd] r = some r') : cmd.Leads P project r r' := by
  unfold history at h
  split_ifs at h with hpossible
  obtain ⟨s, hs, h⟩ := Option.bind_eq_some_iff.mp h
  cases h
  exact ⟨hpossible, hs⟩

theorem Reachable.history {P : Primitives} {project : Project} {cmds : List Command}
    {r r' : Records} (h : Reachable P project r)
    (hr : Orqalis.history P project cmds r = some r') : Reachable P project r' := by
  obtain ⟨r₀, h₀, hrun⟩ := h
  exact ⟨r₀, h₀, hrun.trans (run_of_history hr)⟩

/-! ### A run to look at -/

namespace Sample

/-- A digest. -/
def digest : String := "0000000000000000000000000000000000000000000000000000000000000000"

/-- Primitives that redact nothing and digest everything alike. -/
def primitives : Primitives where
  redact text := text
  safeDump _ := true
  fingerprint _ := digest
  fingerprintCall _ := digest
  hash _ := digest
  safe_reason _ _ := rfl
  digest _ := by decide +kernel
  hash_digest _ := by decide +kernel

/-- A project. -/
def project : Project := { id := .uuid4 0, createdAt := 0, name := "demo" }

/-- A goal with one criterion. -/
def draft : GoalDraft :=
  { goal := "Greet"
    scope := ["greeting"]
    definitionOfDone := ["greets"]
    criteria := [{ key := "AC-1", description := "Greets", validationSpec := .review "Read it" }] }

/-- The transaction that makes a run with this goal. -/
def making : Option Records :=
  stored (GoalService.create primitives draft .autonomous none 2)
    { run := GoalService.newRun project "Greet" "main" "base" (.uuid4 1) 0 }

/-- The run that has just been made. -/
def made : Records := making.get (by decide +kernel)

theorem made_created : Created primitives project made :=
  ⟨"Greet", "main", "base", 1, 0, .autonomous, none,
    .inr ⟨draft, 2, (Option.some_get _).symm⟩⟩

/-- The criterion of its goal. -/
def criterion : AcceptanceCriterion :=
  { id := .uuid4 3
    createdAt := 0
    goalVersionId := .uuid4 2
    key := "AC-1"
    description := "Greets"
    priority := .required
    validationSpec := .review "Read it" }

/-- Its goal. -/
def contract : GoalContract :=
  { goal :=
      { id := .uuid4 2
        createdAt := 0
        runId := .uuid4 1
        version := 1
        goal := "Greet"
        scope := ["greeting"]
        definitionOfDone := ["greets"] }
    criteria := [criterion] }

theorem made_goal : made.goals.get? (.uuid4 2) = some contract := by decide +kernel

theorem made_reachable : Reachable primitives project made := ⟨made, made_created, .refl⟩

/-- The task of its plan. -/
def task : Task :=
  { id := .uuid4 10
    createdAt := 3
    runId := .uuid4 1
    description := "Write the greeting"
    expectedOutcome := "A greeting"
    validationMethod := "Read it"
    acceptanceCriterionIds := [.uuid4 3] }

/-- Its plan. -/
def plan : TaskPlan :=
  { runId := .uuid4 1, goalVersionId := .uuid4 2, version := 1, tasks := [task] }

theorem plan_valid : plan.validateDag = .ok () := by decide +kernel

/-- The commands that lead to work at the task. -/
def beginning : List Command :=
  [.advance .contextSync "sync" 1 (.uuid4 20), .advance .analyzing "analyze" 2 (.uuid4 21),
    .advance .goalDefined "define" 3 (.uuid4 22), .installPlan ⟨plan, plan_valid⟩ "plan" 4,
    .advance .planned "planned" 5 (.uuid4 23), .advance .executing "execute" 6 (.uuid4 24),
    .startTask (.uuid4 10) "start" 7]

/-- The run in which the task is worked on. -/
def working : Records := (history primitives project beginning made).get (by decide +kernel)

theorem working_reachable : Reachable primitives project working :=
  made_reachable.history (Option.some_get _).symm

/-- The task as it is worked on. -/
def workedOn : Task :=
  { task with
    status := .running
    readyAt := some 4
    startedAt := some 7
    attemptCount := 1 }

theorem working_task : working.tasks.get? (.uuid4 10) = some workedOn := by decide +kernel

end Sample

end Orqalis
