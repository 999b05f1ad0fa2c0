import Orqalis.Core.Approvals

/-!
# The gates of the delivery

What the records must hold before a run enters a state of its delivery: no open finding of a
worker that blocks, a passing review of the current goal, and from there on the inspections,
the documentation, the final validation and the commit, one after the other.
-/

namespace Orqalis

open Lib Lib.Transaction

namespace RunState

/-- The states of a delivery. -/
def delivering : RunState → Bool
  | changeGuard | documenting | deliveryValidation | committing | pushing | memoryFinalization
  | completed => true
  | _ => false

end RunState

/-- Whether a finding of a worker stands in the way of a delivery. -/
def Finding.obstructs (f : Finding) : Bool :=
  f.category = "external_worker" ∧ f.severity = .blocking ∧ ¬ f.resolved

/-- The last report of a checkpoint. -/
def lastReport (checkpoint : Checkpoint) (reports : List ChangeReport) : Option ChangeReport :=
  (reports.filter fun report => report.checkpoint = checkpoint).getLast?

/-- Whether a review accepts the current goal. -/
def accepts (run : Run) (review : ReviewRecord) : Bool :=
  review.result.overall = .pass ∧ some review.goalVersionId = run.currentGoalVersionId

/-- Whether the last inspection of the implementation certifies the reviewed tree. -/
def certified (review : ReviewRecord) (reports : List ChangeReport) : Bool :=
  (lastReport .implementation reports).any fun report =>
    report.passed ∧ report.treeHash = review.treeHash

/-- Whether the final validation and the last inspection certify one tree. -/
def finallyCertified (run : Run) (validations : List FinalValidation)
    (reports : List ChangeReport) : Bool :=
  validations.getLast?.any fun validation =>
    (validation.passed ∧ some validation.goalVersionId = run.currentGoalVersionId) ∧
      (lastReport .final reports).any fun report =>
        report.passed ∧ report.treeHash = validation.treeHash

/-- Whether the accepted tree is committed. -/
def attached (delivery : Option GitDelivery) (reports : List ChangeReport) : Bool :=
  delivery.any fun d =>
    d.commitAttached ∧ d.commitSha.any (· ≠ "") ∧
      (lastReport .final reports).any fun report => d.treeHash = report.treeHash

/-- The gate of the commit and of what follows it. -/
def guardCommit (run : Run) (target : RunState) (reports : List ChangeReport) : RunTx Unit := do
  let validations ← ask Records.validations
  failIf (finallyCertified run validations reports = false)
    (.policyDenied "Final validation and Guardian must certify the same tree")
  if target = .committing then
    pure ()
  else do
    let delivery ← ask Records.delivery
    failIf (attached delivery reports = false)
      (.policyDenied "An attached, traceable accepted commit is required")
    failIf (target = .pushing ∧ delivery.all fun d => d.policy.push = false)
      (.policyDenied "Push was not authorized")
    failIf ((target = .memoryFinalization ∨ target = .completed) ∧
        delivery.any fun d => d.policy.push ∧ d.pushStatus ≠ .pushed)
      (.policyDenied "Authorized push has not completed")

/-- The gate of the inspection of the implementation and of what follows it. -/
def guardImplementation (run : Run) (target : RunState) (review : ReviewRecord) :
    RunTx Unit := do
  let reports ← ask Records.guardians
  failIf (certified review reports = false)
    (.policyDenied "Change Guardian must certify the accepted implementation")
  if target = .documenting then
    pure ()
  else do
    let artifacts ← ask Records.artifacts
    failIf (¬ artifacts.any fun a => a.type = "documentation")
      (.policyDenied "Accepted changes must be documented")
    if target = .deliveryValidation then pure () else guardCommit run target reports

/-- The gate of the review and of what follows it. -/
def guardReview (run : Run) (target : RunState) : RunTx Unit := do
  let findings ← ask Records.findings
  failIf (findings.any Finding.obstructs)
    (.policyDenied "Independent review must resolve blocking worker findings")
  let reviews ← ask Records.reviews
  match reviews.getLast? with
  | none => fail (.policyDenied "An independent passing review of the current goal is required")
  | some review => do
    failIf (accepts run review = false)
      (.policyDenied "An independent passing review of the current goal is required")
    if target = .changeGuard then pure () else guardImplementation run target review

/-- The gate of the completion. -/
def guardCompletion (run : Run) : RunTx Unit := do
  let r ← read id
  let promoted := r.byKey "curation:promoted"
  failIf (promoted.all fun e => e.payload.memoryIds = [])
    (.policyDenied "Durable memory curation is required before completion")
  let plan ← ask fun r => r.getPlan run.planVersion
  failIf (plan.all fun p =>
      p.tasks.any fun t => t.status ≠ .succeeded ∧ t.status ≠ .skipped)
    (.policyDenied "All tasks must reach successful completion")

/-- The gates of a state of the delivery. -/
def guardDelivery (run : Run) (target : RunState) : RunTx Unit :=
  if target = .completed then do
    guardCompletion run
    guardReview run target
  else if target.delivering then
    guardReview run target
  else
    pure ()

end Orqalis
