import Orqalis.Core.Orchestrator

/-!
# Revisions of a plan

A repair and a delivery extend the current plan and leave its tasks as they are. A goal's
revision replaces the plan of a suspended run; an operator's edit replaces one that has not
begun.
-/

namespace Orqalis

open Lib Lib.Transaction

/-- The tasks of a plan another one does not have. -/
def TaskPlan.added (current plan : TaskPlan) : List Task :=
  plan.tasks.filter fun t => t.id ∉ current.ids

/-- Whether a task comes from a planner, with nothing done yet. -/
def Task.unexecuted (t : Task) (version : Nat) : Bool :=
  t.status = .pending ∧ t.attemptCount = 0 ∧ t.planVersion = version

namespace PlanRevision

/-! ## Extensions -/

/-- Whether a run can take a repair or a delivery. -/
def extensible (run : Run) (repair : Bool) : Bool :=
  if repair then run.state = .repairPlanning ∧ run.repairIteration < run.maxRepairIterations
  else run.state = .reviewing

/-- Check that a plan only adds to the current one. -/
def checkExtension (P : Primitives) (current plan : TaskPlan) (goal : GoalContract) :
    RunTx Unit := do
  failIf (current.tasks.any fun t => plan.tasks.find? (fun u => u.id = t.id) ≠ some t)
    (.policyDenied "Repair plans cannot remove or rewrite existing task history")
  failIf (current.dependencies.any fun e => e ∉ plan.dependencies)
    (.policyDenied "Repair plans cannot remove existing dependencies")
  failIf (plan.dependencies.any fun e => e ∉ current.dependencies ∧ e.taskId ∈ current.ids)
    (.policyDenied "Revisions cannot change dependencies of existing tasks")
  failIf (current.added plan = [] ∨
      (current.added plan).any fun t => t.unexecuted plan.version = false)
    (.conflict "Repair additions must be new unexecuted tasks")
  failIf (current.tasks.any fun t => t.status.active)
    (.conflict "Active tasks must reach a terminal checkpoint before repair")
  failIf ((current.added plan).any fun t =>
      t.acceptanceCriterionIds.any fun id => id ∉ goal.criteria.map AcceptanceCriterion.id)
    (.conflict "Repair tasks reference criteria outside the accepted goal")
  failIf (P.safeDump (.plan plan) = false) (.policyDenied "Unsafe repair plan content")

/-- What a repair rests on. -/
def requireFailedReview (P : Primitives) (run : Run) (now : Time) : RunTx Unit := do
  let reviews ← ask Records.reviews
  let review ← found (reviews.getLast?) (.conflict "Repair needs the current failed review")
  failIf (review.result.overall ≠ .fail ∨
      some review.goalVersionId ≠ run.currentGoalVersionId ∨
      review.planVersion ≠ run.planVersion)
    (.conflict "Repair needs the current failed review")
  requireApproval P run .repair run.planVersion (P.repairSubject review)
    "Review failed evidence before targeted repair" now

/-- What a delivery rests on. -/
def requireAcceptedReview (run : Run) : RunTx Unit := do
  guardDelivery run .changeGuard
  requireDeliveryBinding run

/-- What an extension rests on. -/
def requireBasis (P : Primitives) (run : Run) (repair : Bool) (now : Time) : RunTx Unit :=
  if repair then requireFailedReview P run now else requireAcceptedReview run

/-- Store the plan of a repair or a delivery. -/
def storeExtension (P : Primitives) (run : Run) (current plan : TaskPlan) (key : String)
    (repair : Bool) (now : Time) : RunTx Unit := do
  stage fun r => r.savePlan plan
  let updated : Run :=
    { run with
      planVersion := plan.version
      repairIteration := run.repairIteration + if repair then 1 else 0 }
  stage fun r => r.saveRun updated
  note P updated
    { eventType := .planRevised
      occurredAt := now
      idempotencyKey := s!"{key}:revised"
      payload :=
        { planVersion := some plan.version
          goalVersionId := some plan.goalVersionId
          taskIds := (current.added plan).map Task.id } }
  announceRepair updated
  announce P updated s!"{key}:task" now (current.added plan)
  refreshReady P updated key now
where
  /-- Announce a repair. -/
  announceRepair (updated : Run) : RunTx Unit :=
    if repair then
      note P updated
        { eventType := .repairStarted
          occurredAt := now
          idempotencyKey := s!"{key}:started"
          payload := { planVersion := some plan.version } }
    else
      pure ()

/-- Install a plan that extends the current one. -/
def install (P : Primitives) (plan : ValidPlan) (key : String) (repair : Bool) (now : Time) :
    RunTx Run := do
  requireKey key
  let run ← lockedRunOf plan.1.runId
  let r ← read id
  if (r.byKey s!"{key}:revised").isSome then do
    requireSamePlan plan.1 (.conflict "Repair key references another plan")
    pure run
  else do
    failIf (extensible run repair = false)
      (.policyDenied "Repair is unavailable or its configured limit was reached")
    failIf (plan.1.version ≠ run.planVersion + 1 ∨
        some plan.1.goalVersionId ≠ run.currentGoalVersionId)
      (.conflict "Repair must preserve the current goal and increment plan version")
    let current ← ask fun r => r.getPlan run.planVersion
    let current ← found current (.conflict "Current execution contract is missing")
    let goal ← found (r.getGoal plan.1.goalVersionId)
      (.conflict "Current execution contract is missing")
    requireBasis P run repair now
    checkExtension P current plan.1 goal
    storeExtension P run current plan.1 key repair now
    lockedRun

/-- Install the plan of a repair. -/
def installRepair (P : Primitives) (plan : ValidPlan) (key : String) (now : Time) : RunTx Run :=
  install P plan key true now

/-- Install the plan of a delivery. -/
def installDelivery (P : Primitives) (plan : ValidPlan) (key : String) (now : Time) :
    RunTx Run :=
  install P plan key false now

end PlanRevision

/-! ## The replacement after a goal's revision -/

namespace GoalReplanning

/-- Check the plan of a revised goal. -/
def checkReplacement (P : Primitives) (run : Run) (plan : TaskPlan) (now : Time) :
    RunTx TaskPlan := do
  let current ← ask fun r => r.getPlan run.planVersion
  failIf (run.state ≠ .paused ∧ run.state ≠ .humanReviewRequired)
    (.conflict "Replanning requires a suspended run with an existing plan")
  let current ← found current
    (.conflict "Replanning requires a suspended run with an existing plan")
  failIf (some current.goalVersionId = run.currentGoalVersionId)
    (.conflict "Replanning requires an explicitly revised goal")
  let r ← read id
  failIf ((r.byKey "delivery:policy").isSome)
    (.policyDenied "Delivery has started; use a new run for a changed goal")
  failIf (some plan.goalVersionId ≠ run.currentGoalVersionId ∨
      plan.version ≠ run.planVersion + 1)
    (.conflict "New plan must use the current goal and next plan version")
  failIf (plan.tasks.any fun t => r.tasks.has t.id ∨ t.unexecuted plan.version = false)
    (.conflict "Replacement work must have fresh, unexecuted task identities")
  let goal ← found (r.getGoal plan.goalVersionId) (.conflict "Current goal missing")
  requireApproval P run .goal goal.goal.version (P.goalSubject goal)
    "Approve revised goal before replanning" now
  failIf (goal.covered plan = false)
    (.conflict "Replacement plan must cover only current required acceptance")
  failIf (P.safeDump (.plan plan) = false) (.policyDenied "Unsafe plan")
  pure current

/-- End an attempt that has reached a checkpoint. -/
def retireAttempt (P : Primitives) (run : Run) (key : String) (now : Time)
    (attempt : TaskExecution) : RunTx Unit :=
  if attempt.status = .running then
    fail (.conflict "Active work must reach a checkpoint before replanning")
  else if attempt.status = .waiting ∨ attempt.status = .blocked then do
    let _ ← TaskRuntime.transitionInTransaction P run attempt.id .cancelled
      s!"replan:{key}:{attempt.id.text}" now
  else
    pure ()

/-- Store the plan of a revised goal. -/
def storeReplacement (P : Primitives) (run : Run) (current plan : TaskPlan) (key : String)
    (now : Time) : RunTx Unit := do
  let attempts ← read Records.executionList
  attempts.forM (retireAttempt P run key now)
  current.tasks.forM
    (cancelTask P run s!"replan:{key}:cancel" (some "Explicit goal revision") now)
  stage fun r => r.savePlan plan
  let updated : Run := { run with planVersion := plan.version, resumeState := some .planned }
  stage fun r => r.saveRun updated
  note P updated
    { eventType := .planRevised
      occurredAt := now
      idempotencyKey := s!"replan:{key}"
      payload :=
        { planVersion := some plan.version
          goalVersionId := some plan.goalVersionId
          taskIds := plan.ids
          reason := some "Explicit goal revision" } }
  announce P updated s!"replan:{key}:task" now plan.tasks
  refreshReady P updated s!"replan:{key}" now

/-- Install the plan of a revised goal. -/
def install (P : Primitives) (plan : ValidPlan) (key : String) (now : Time) : RunTx Run := do
  requireKey key
  let run ← lockedRunOf plan.1.runId
  let r ← read id
  if (r.byKey s!"replan:{key}").isSome then do
    requireSamePlan plan.1 (.conflict "Replan key belongs to another plan")
    pure run
  else do
    let current ← checkReplacement P run plan.1 now
    storeReplacement P run current plan.1 key now
    lockedRun

end GoalReplanning

/-! ## An operator's edit -/

namespace PreviewRevision

/-- The order of the roles an edited plan can have. -/
def rank : AgentRole → Option Nat
  | .developer => some 0
  | .tester => some 1
  | .reviewer => some 2
  | _ => none

/-- The prerequisites of some tasks, and theirs, up to a number of rounds. -/
def ancestors (plan : TaskPlan) : Nat → List UUID → List UUID
  | 0, seen => seen
  | rounds + 1, seen =>
    ancestors plan rounds (seen ++ seen.flatMap plan.prerequisites).dedup

/-- The tasks of a role. -/
def withRole (plan : TaskPlan) (role : AgentRole) : List UUID :=
  (plan.tasks.filter fun t => t.preferredRole = role).map Task.id

/-- The rank of a task of a plan. -/
def rankOf (plan : TaskPlan) (id : UUID) : Option Nat :=
  (plan.tasks.find? fun t => t.id = id).bind fun t => rank t.preferredRole

/-- The tasks a task must come after, by its role. -/
def wave (plan : TaskPlan) (task : Task) : List UUID :=
  match task.preferredRole with
  | .tester => withRole plan .developer
  | .reviewer => withRole plan .tester
  | _ => []

/-- Check that a plan can be executed in waves of roles. -/
def validateRoles (plan : TaskPlan) : RunTx Unit := do
  failIf ((plan.tasks.any fun t => rank t.preferredRole = none) ∨
      [AgentRole.developer, .tester, .reviewer].any fun role => withRole plan role = [])
    (.conflict "Preview requires Developer, Tester and Reviewer tasks")
  failIf (plan.dependencies.any fun e =>
      (rankOf plan e.taskId).getD 0 < (rankOf plan e.dependsOnTaskId).getD 0)
    (.conflict "Plan dependencies cannot reverse execution role order")
  failIf (plan.tasks.any fun t => (wave plan t).any fun id =>
      id ∉ ancestors plan plan.tasks.length (plan.prerequisites t.id))
    (.conflict "Plan dependencies must preserve execution role waves")

/-- Whether a task of an edit has no history. -/
def fresh (plan : TaskPlan) (t : Task) : Bool :=
  t.unexecuted plan.version ∧ t.readyAt = none ∧ t.startedAt = none ∧ t.completedAt = none

/-- Whether a plan can be edited. -/
def editable (run : Run) : Bool :=
  run.state = .planned ∨ run.state = .paused ∧ run.resumeState = some .planned

/-- Check that the run has not begun to execute its plan. -/
def checkUnexecuted (run : Run) (plan : TaskPlan) (expectedVersion : Nat) :
    RunTx (TaskPlan × GoalContract) := do
  failIf (editable run = false) (.conflict "Plan edits require an unexecuted PLANNED checkpoint")
  failIf (run.planVersion ≠ expectedVersion ∨ plan.version ≠ expectedVersion + 1)
    (.conflict "Plan edit uses a stale expected version")
  failIf (some plan.goalVersionId ≠ run.currentGoalVersionId)
    (.conflict "Plan edit must preserve the current goal version")
  let workspace ← ask Records.workspace
  failIf (workspace.isSome) (.conflict "Plan cannot be edited after workspace creation")
  let r ← read id
  failIf (r.executions.entries.any fun e =>
      (r.tasks.get? e.taskId).any fun t => 0 < t.planVersion)
    (.conflict "Plan cannot be edited after execution begins")
  let current ← ask fun r => r.getPlan expectedVersion
  let current ← found current (.conflict "Current plan or goal is missing")
  let goal ← found (r.getGoal plan.goalVersionId) (.conflict "Current plan or goal is missing")
  failIf (some current.goalVersionId ≠ run.currentGoalVersionId)
    (.conflict "Goal changed; use the goal replanning path")
  pure (current, goal)

/-- Check an edited plan. -/
def checkEdit (P : Primitives) (current plan : TaskPlan) (goal : GoalContract) :
    RunTx ValidPlan := do
  let r ← read id
  failIf (plan.tasks.any fun t => r.tasks.has t.id ∨ fresh plan t = false)
    (.conflict "Edited tasks need fresh, unexecuted identities")
  validateRoles plan
  failIf (goal.covered plan = false)
    (.conflict "Plan must cover only this goal's required criteria")
  let prepared := current.tasks.filter fun t => t.planVersion = 0
  let revised ← ask fun _ =>
    (if prepared = [] then plan else withPreparation prepared plan).modelValidate
  failIf (P.safeDump (.plan revised.1) = false) (.policyDenied "Unsafe plan content")
  pure revised

/-- Cancel a task that an edit replaces. -/
def supersede (P : Primitives) (run : Run) (key : String) (now : Time) (task : Task) :
    RunTx Unit :=
  if task.planVersion = 0 then
    pure ()
  else do
    failIf (task.status ≠ .pending ∧ task.status ≠ .ready)
      (.conflict "Only unexecuted tasks may be superseded")
    cancelTask P run s!"preview-edit:{key}:cancel" (some "Operator edited plan") now task

/-- Store an edited plan. -/
def storeEdit (P : Primitives) (run : Run) (current plan revised : TaskPlan) (key : String)
    (now : Time) : RunTx Unit := do
  current.tasks.forM (supersede P run key now)
  stage fun r => r.savePlan revised
  let updated : Run := { run with planVersion := revised.version }
  stage fun r => r.saveRun updated
  note P updated
    { eventType := .planRevised
      occurredAt := now
      idempotencyKey := s!"preview-edit:{key}"
      payload :=
        { planVersion := some revised.version
          goalVersionId := some revised.goalVersionId
          taskIds := plan.ids
          reason := some "Operator edited plan before execution" } }
  announce P updated s!"preview-edit:{key}:task" now plan.tasks
  refreshReady P updated s!"preview-edit:{key}" now
  let _ ← prepareApprovalRequest P updated .plan revised.version (P.planSubject revised)
    "Review the dependency plan before execution" now

/-- Check that a plan an edit has installed is the plan it comes with. -/
def requireSameEdit (plan : TaskPlan) : RunTx Unit := do
  let stored ← ask fun r => r.getPlan plan.version
  let prepared := (stored.map TaskPlan.tasks).getD [] |>.filter fun t => t.planVersion = 0
  let expected := if prepared = [] then plan else withPreparation prepared plan
  failIf (stored.all fun p => planIdentity p ≠ planIdentity expected)
    (.conflict "Plan edit key belongs to another plan")

/-- Replace a plan that has not begun. -/
def replace (P : Primitives) (plan : ValidPlan) (expectedVersion : Nat) (key : String)
    (now : Time) : RunTx Run := do
  requireKey key
  let run ← lockedRunOf plan.1.runId
  let r ← read id
  if (r.byKey s!"preview-edit:{key}").isSome then do
    requireSameEdit plan.1
    pure run
  else do
    let (current, goal) ← checkUnexecuted run plan.1 expectedVersion
    let revised ← checkEdit P current plan.1 goal
    storeEdit P run current plan.1 revised.1 key now
    lockedRun

end PreviewRevision

end Orqalis
