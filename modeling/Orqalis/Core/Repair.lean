import Orqalis.Core.PlanRevision

/-!
# Repairs

The plan of a targeted repair, and the transactions of its own by which the coordinator
schedules one.
-/

namespace Orqalis

open Lib Lib.Transaction

/-! ## The plan of a repair -/

namespace RepairPlanner

/-- The verdicts of a review on the criteria that failed. -/
def failures (review : ReviewRecord) : List CriterionReview :=
  review.result.criteria.filter fun item => item.status = .fail

/-- The criteria a repair is about. -/
def affected (review : ReviewRecord) (criterionIds : List UUID) : List UUID :=
  let failed := (failures review).map CriterionReview.criterionId
  if failed = [] then criterionIds else failed

/-- Why a repair is needed. -/
def reasons (review : ReviewRecord) : String :=
  let text := "; ".intercalate ((failures review).map CriterionReview.reason)
  if text = "" then "; ".intercalate review.result.blockingFindings else text

/-- The identifier of a task of a repair. -/
def taskId (runId : UUID) (version : Nat) (step : String) : UUID :=
  .uuid5 runId s!"repair:{version}:{step}"

/-- The task whose work a repair corrects. -/
def original (current : TaskPlan) (affected : List UUID) : Option Task :=
  current.tasks.find? fun t =>
    t.preferredRole = .developer ∧ t.acceptanceCriterionIds.any fun id => id ∈ affected

/-- The tasks of a repair, each after the one before it. -/
def tasks (current : TaskPlan) (review : ReviewRecord) (criterionIds : List UUID) (now : Time) :
    List Task :=
  let version := current.version + 1
  let affected := affected review criterionIds
  let reasons := reasons review
  let original := original current affected
  [ { id := taskId current.runId version "diagnose"
      createdAt := now
      runId := current.runId
      planVersion := version
      description := s!"Diagnose failed acceptance: {reasons}"
      expectedOutcome := "Identify the smallest correction and affected source files"
      preferredRole := .repair
      requiredCapabilities := ["diagnosis"]
      validationMethod := "Source-backed diagnosis"
      acceptanceCriterionIds := affected },
    { id := taskId current.runId version "implement"
      createdAt := now
      runId := current.runId
      planVersion := version
      parentTaskId := original.map Task.id
      description := s!"Repair only the affected behavior: {reasons}"
      expectedOutcome := "Resolve failed criteria without changing the accepted goal"
      preferredRole := .developer
      requiredCapabilities :=
        "implementation" ::
          ((original.map Task.requiredCapabilities).getD []).eraseDups.filter
            fun capability => capability ≠ "implementation"
      validationMethod := "Affected checks and required regression suite"
      acceptanceCriterionIds := affected },
    { id := taskId current.runId version "test"
      createdAt := now
      runId := current.runId
      planVersion := version
      description := "Retest repaired behavior and required regressions"
      expectedOutcome := "Current evidence for the complete acceptance contract"
      preferredRole := .tester
      validationMethod := "Acceptance validators"
      acceptanceCriterionIds := criterionIds },
    { id := taskId current.runId version "review"
      createdAt := now
      runId := current.runId
      planVersion := version
      description := "Review the repaired implementation and regression evidence"
      expectedOutcome := "Independent criterion-by-criterion review"
      preferredRole := .reviewer
      requiredCapabilities := ["evidence_review"]
      validationMethod := "Structured acceptance review"
      acceptanceCriterionIds := criterionIds } ]

/-- The edges that put some tasks one after the other. -/
def chain : List Task → List TaskDependency
  | parent :: child :: rest =>
    { taskId := child.id, dependsOnTaskId := parent.id } :: chain (child :: rest)
  | _ => []

/-- The plan of a repair. -/
def plan (current : TaskPlan) (review : ReviewRecord) (criterionIds : List UUID) (now : Time) :
    Except Error ValidPlan :=
  let added := tasks current review criterionIds now
  { runId := current.runId
    goalVersionId := current.goalVersionId
    version := current.version + 1
    tasks := current.tasks ++ added
    dependencies := current.dependencies ++ chain added : TaskPlan }.modelValidate

end RepairPlanner

/-! ## The coordinator -/

namespace RepairCoordinator

/-- The prefix of the keys a repair of a review is scheduled under. -/
def repairKey (reviewId : UUID) : String := s!"repair:{reviewId.text}"

/-- Announce that the limit of repairs is reached. -/
def reportLimit (P : Primitives) (run : Run) (reviewId : UUID) (now : Time) : RunTx Unit :=
  note P run
    { eventType := .repairRequested
      occurredAt := now
      idempotencyKey := s!"{repairKey reviewId}:limit"
      payload :=
        { status := some "LIMIT_REACHED", reason := some "Configured repair limit reached" } }

/-- Announce that a repair is asked for. -/
def request (P : Primitives) (reviewId : UUID) (planVersion : Nat) (now : Time) :
    RunTx Unit := do
  let run ← lockedRun
  note P run
    { eventType := .repairRequested
      occurredAt := now
      idempotencyKey := s!"{repairKey reviewId}:request"
      payload :=
        { planVersion := some planVersion
          reason := some "Failed review requires targeted repair" } }

/-- Announce what came of a repair. -/
def reportCompletion (P : Primitives) (review : ReviewRecord) (now : Time) : RunTx Unit := do
  let run ← lockedRun
  if run.repairIteration = 0 then
    pure ()
  else
    note P run
      { eventType := .repairCompleted
        occurredAt := now
        idempotencyKey := s!"repair-completed:{review.id.text}"
        payload :=
          { planVersion := some run.planVersion
            status := some review.result.overall.value } }

/-- What a schedule finds: the run, the review it repairs, the plan and the goal, and whether
the repair's plan is installed. -/
structure Situation where
  run : Run
  review : ReviewRecord
  plan : TaskPlan
  goal : GoalContract
  installed : Bool

/-- The first transaction of a schedule. Where the limit is reached it says so, and answers
no situation but the key of the suspension. -/
def survey (P : Primitives) (now : Time) : RunTx (Situation ⊕ String) := do
  let run ← lockedRun
  let reviews ← ask Records.reviews
  let plan ← ask fun r => r.getPlan run.planVersion
  let r ← read id
  let missing : Error := .conflict "Targeted repair requires a persisted failed review"
  let review ← found (reviews.getLast?) missing
  let plan ← found plan missing
  let goal ← found (r.currentGoal run) missing
  failIf (review.result.overall ≠ .fail) missing
  failIf (some review.goalVersionId ≠ run.currentGoalVersionId)
    (.conflict "Review belongs to another goal version")
  let installed : Bool :=
    run.state = .repairPlanning ∧ run.planVersion = review.planVersion + 1
  failIf (installed = false ∧ run.planVersion ≠ review.planVersion)
    (.conflict "Review does not match the current plan")
  if installed = false ∧ run.maxRepairIterations ≤ run.repairIteration then do
    reportLimit P run review.id now
    pure (.inr s!"{repairKey review.id}:limit:{run.lastEventSequence}")
  else
    pure (.inl { run, review, plan, goal, installed })

end RepairCoordinator

end Orqalis
