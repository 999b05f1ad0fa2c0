import Orqalis.Core.Goals

/-!
# The review

An independent review of the work of a run: it settles the criteria that are for a reviewer
to settle, asks for current evidence where a validator settles them, and disposes of the open
findings of the workers. What the reviewer's references show in the workspace comes from
outside.
-/

namespace Orqalis

open Lib Lib.Transaction

/-- What the references of a review show in the workspace. -/
structure SourceView where
  contains : SourceCheck → Except Error Bool
  passes : ValidationSpec → Bool
  contentHash : List SourceCheck → String
  treeHash : Except Error String

namespace ReviewService

/-- Check that the assertions of a review hold of the sources. -/
def requireSources (view : SourceView) (checks : List SourceCheck) (e : Error) : RunTx Unit :=
  checks.forM fun check => do
    let present ← ask fun _ => view.contains check
    failIf (present = false) e

/-! ## Findings -/

/-- The findings a review has to dispose of. -/
def openFindings (findings : List Finding) : List Finding :=
  findings.filter fun f => f.category = "external_worker" ∧ ¬ f.resolved

/-- Whether a piece of evidence is current and about a finding. -/
def currentProof (run : Run) (goal : GoalContract) (finding : Finding) (evidence : Evidence) :
    Bool :=
  evidence.runId = run.id ∧ evidence.valid ∧ evidence.structuredData.passed ∧
    finding.createdAt ≤ evidence.createdAt ∧
    (goal.criteria.find? fun c => c.id = evidence.criterionId).any (fun c =>
      c.evidenceRefs.getLast? = some evidence.id) ∧
    finding.criterionId.all fun id => evidence.criterionId = id

/-- Whether a piece of evidence is a validation of the file a finding is about. -/
def inspects (goal : GoalContract) (finding : Finding) (evidence : Evidence) :
    Option ValidationSpec :=
  match finding.sourceRef, goal.criteria.find? fun c => c.id = evidence.criterionId with
  | some source, some criterion =>
    match criterion.validationSpec with
    | .file path mustExist contains =>
      if source ≠ "" ∧ path = source ∧ evidence.structuredData.sourceRef = some source then
        some (.file path mustExist contains)
      else
        none
    | _ => none
  | _, _ => none

/-- Check a reference of a disposition. It answers whether the finding's source was seen. -/
def checkReference (run : Run) (goal : GoalContract) (finding : Finding) (view : SourceView)
    (reference : UUID) : RunTx Bool := do
  let r ← read id
  let evidence ← found
    ((r.evidence.get? reference).filter (currentProof run goal finding))
    (.policyDenied "Finding resolution references stale or unrelated evidence")
  match inspects goal finding evidence with
  | none => pure false
  | some spec => do
    failIf (view.passes spec = false)
      (.conflict "Finding source changed since its validation evidence")
    pure true

/-- Check that a disposition has looked at the source its finding reports. -/
def requireInspection (finding : Finding) (review : FindingReview) (verified : Bool) :
    RunTx Unit :=
  failIf (finding.sourceRef.any (fun source => source ≠ "") ∧ verified = false ∧
      ¬ review.sourceChecks.any fun check => some check.path = finding.sourceRef)
    (.policyDenied "Finding resolution must inspect its reported source")

/-- Resolve a finding. -/
def resolve (P : Primitives) (run : Run) (actorId reviewId : UUID) (goal : GoalContract)
    (view : SourceView) (finding : Finding) (now : Time) (review : FindingReview) :
    RunTx Unit := do
  failIf (review.evidenceRefs = [] ∧ review.sourceChecks = [])
    (.policyDenied "Finding resolution requires verifiable evidence")
  let verified ← review.evidenceRefs.mapM (checkReference run goal finding view)
  requireInspection finding review (verified.any id)
  requireSources view review.sourceChecks
    (.conflict "Finding resolution source assertion is not present")
  stage fun r => r.saveFinding { finding with resolved := true }
  note P run
    { eventType := .findingResolved
      occurredAt := now
      idempotencyKey := s!"review:{reviewId.text}:finding:{finding.id.text}"
      payload :=
        { summary := some review.reason
          reviewId := some reviewId
          findingIds := [finding.id]
          evidenceIds := review.evidenceRefs
          status := some "resolved" }
      actorSessionId := some actorId
      taskId := finding.taskId }

/-- Dispose of a finding. -/
def dispose (P : Primitives) (run : Run) (actorId reviewId : UUID) (goal : GoalContract)
    (view : SourceView) (findings : List Finding) (now : Time) (review : FindingReview) :
    RunTx Unit := do
  let finding ← found (findings.find? fun f => f.id = review.findingId) (.runtime "KeyError")
  failIf (isBlank review.reason)
    (.conflict "Finding disposition requires an actionable reason")
  if review.resolved then resolve P run actorId reviewId goal view finding now review
  else pure ()

/-- Whether a disposition leaves a finding that blocks. -/
def leavesBlocking (findings : List Finding) (review : FindingReview) : Bool :=
  !review.resolved && findings.any fun f => f.id = review.findingId && f.severity = .blocking

/-- Dispose of the open findings. It answers whether one remains that blocks. -/
def reviewExternalFindings (P : Primitives) (run : Run) (actorId reviewId : UUID)
    (result : ReviewResult) (goal : GoalContract) (view : SourceView) (now : Time) :
    RunTx Bool := do
  let stored ← ask Records.findings
  let findings := openFindings stored
  let reviewed := result.findingReviews.map FindingReview.findingId
  failIf ((reviewed.any fun id => id ∉ findings.map Finding.id) ∨
      (findings.any fun f => f.id ∉ reviewed) ∨ reviewed.length ≠ findings.length)
    (.conflict "Reviewer must evaluate each open worker finding exactly once")
  result.findingReviews.forM (dispose P run actorId reviewId goal view findings now)
  let unresolved := result.findingReviews.any (leavesBlocking findings)
  failIf (unresolved = true ∧ result.blockingFindings = [])
    (.conflict "Unresolved blocking findings require actionable review findings")
  pure unresolved

/-! ## Criteria -/

/-- The evidence a review makes of its verdict on a criterion. -/
def proofOf (run : Run) (reviewId : UUID) (criterion : AcceptanceCriterion)
    (seen : ValidationObservation) (now : Time) : Evidence where
  id := .uuid5 reviewId criterion.id.text
  createdAt := now
  runId := run.id
  criterionId := criterion.id
  evidenceType := "review"
  structuredData := seen

/-- Store a verdict a review gives a criterion, with its evidence. -/
def storeVerdict (criterion : AcceptanceCriterion) (status : AcceptanceStatus) (proof : Evidence)
    (now : Time) : RunTx Unit :=
  stage fun r => r.saveEvaluation (GoalService.evaluated criterion status proof.id now) proof

/-- A criterion a reviewer settles has passed. -/
def passReviewed (P : Primitives) (run : Run) (actorId reviewId : UUID) (view : SourceView)
    (criterion : AcceptanceCriterion) (item : CriterionReview) (now : Time) : RunTx Unit := do
  failIf (criterion.validationSpec.kind = "manual" ∨ item.sourceChecks = [])
    (.policyDenied "Review PASS requires verifiable source references")
  requireSources view item.sourceChecks (.conflict "Reviewer source assertion is not present")
  let proof := proofOf run reviewId criterion
    { validatorType := "review"
      passed := true
      output := item.reason
      sourceRef := some (";".intercalate (item.sourceChecks.map SourceCheck.path))
      contentHash := some (view.contentHash item.sourceChecks)
      durationMs := 0 } now
  storeVerdict criterion .pass proof now
  note P run
    { eventType := .evidenceRecorded
      occurredAt := now
      idempotencyKey := s!"review:{proof.id.text}"
      payload := { criterionId := some criterion.id, evidenceIds := [proof.id] }
      actorSessionId := some actorId }
  note P run
    { eventType := .criterionPassed
      occurredAt := now
      idempotencyKey := s!"review:pass:{proof.id.text}"
      payload :=
        { criterionId := some criterion.id
          status := some Verdict.pass.value
          evidenceIds := [proof.id] }
      actorSessionId := some actorId }

/-- A criterion a validator settles has passed: its current evidence is at hand. -/
def passValidated (criterion : AcceptanceCriterion) (evidence : List Evidence)
    (item : CriterionReview) : RunTx Unit :=
  failIf (criterion.status ≠ .pass ∨ evidence = [] ∨
      (criterion.evidenceRefs.getLast?.all fun ref => ref ∉ item.evidenceRefs) ∨
      evidence.any fun e => e.structuredData.passed = false)
    (.policyDenied "Deterministic criterion lacks current passing evidence")

/-- A criterion has failed its review. -/
def failReviewed (P : Primitives) (run : Run) (actorId reviewId : UUID)
    (criterion : AcceptanceCriterion) (item : CriterionReview) (now : Time) : RunTx Unit := do
  failIf (isBlank item.reason) (.conflict "Failed review criteria require an actionable reason")
  let proof := proofOf run reviewId criterion
    { validatorType := "review", passed := false, output := item.reason, durationMs := 0 } now
  storeVerdict criterion .fail proof now
  note P run
    { eventType := .criterionFailed
      occurredAt := now
      idempotencyKey := s!"review:fail:{proof.id.text}"
      payload :=
        { criterionId := some criterion.id
          status := some Verdict.fail.value
          evidenceIds := [proof.id] }
      actorSessionId := some actorId }

/-- The evidence a verdict refers to. -/
def referenced (run : Run) (criterion : AcceptanceCriterion) (item : CriterionReview) :
    RunTx (List Evidence) := do
  let r ← read id
  found (item.evidenceRefs.mapM fun ref => (r.evidence.get? ref).filter fun e =>
      e.runId = run.id ∧ e.criterionId = criterion.id ∧ e.valid)
    (.policyDenied "Reviewer references invalid or unrelated evidence")

/-- Carry out the verdict on a criterion. -/
def judge (P : Primitives) (run : Run) (actorId reviewId : UUID) (goal : GoalContract)
    (view : SourceView) (now : Time) (item : CriterionReview) : RunTx Unit := do
  let criterion ← found (goal.criteria.find? fun c => c.id = item.criterionId)
    (.runtime "StopIteration")
  let evidence ← referenced run criterion item
  match item.status with
  | .pass =>
    if criterion.validationSpec.reviewed then
      passReviewed P run actorId reviewId view criterion item now
    else
      passValidated criterion evidence item
  | .fail => failReviewed P run actorId reviewId criterion item now

/-! ## The record -/

/-- Whether a review must come out as passed. -/
def expectedPass (goal : GoalContract) (result : ReviewResult) (unresolved : Bool) : Bool :=
  !unresolved && result.blockingFindings = [] && result.criteria.all fun item =>
    item.status = .pass || !(goal.criteria.find? fun c => c.id = item.criterionId).any fun c =>
      c.priority = .required

/-- Check that a review is by the reviewer at work, of a result it has stored. -/
def requireReviewer (run : Run) (actorId : UUID) (result : ReviewResult) : RunTx Unit := do
  let r ← read id
  let actor ← found ((r.actors.get? actorId).filter fun a =>
      run.state = .reviewing ∧ a.role = some .reviewer)
    (.policyDenied "Only the assigned Reviewer can record an acceptance review")
  failIf (actor.status ≠ .working ∨ actor.currentTaskId = none)
    (.policyDenied "Reviewer session must be active")
  let providers ← ask Records.providers
  failIf (¬ providers.any fun p =>
      p.actorSessionId = actorId ∧ p.result.bind ProviderResult.output = some (.review result))
    (.policyDenied "Review must match a persisted result of this Reviewer")

/-- The goal a review is about. -/
def reviewedGoal (run : Run) (result : ReviewResult) : RunTx GoalContract := do
  let r ← read id
  let workspace ← ask Records.workspace
  let goal ← found (r.currentGoal run) (.notFound "Review contract or workspace missing")
  failIf (workspace = none) (.notFound "Review contract or workspace missing")
  let reviewed := result.criteria.map CriterionReview.criterionId
  failIf ((reviewed.any fun id => id ∉ goal.criteria.map AcceptanceCriterion.id) ∨
      (goal.criteria.any fun c => c.id ∉ reviewed) ∨ reviewed.length ≠ goal.criteria.length)
    (.conflict "Reviewer must evaluate every current criterion exactly once")
  pure goal

/-- Store a review. -/
def storeReview (P : Primitives) (run : Run) (actorId reviewId : UUID) (result : ReviewResult)
    (goal : GoalContract) (view : SourceView) (now : Time) : RunTx ReviewRecord := do
  let treeHash ← ask fun _ => view.treeHash
  let record : ReviewRecord :=
    { id := reviewId
      createdAt := now
      runId := run.id
      goalVersionId := goal.goal.id
      planVersion := run.planVersion
      actorSessionId := actorId
      treeHash
      result }
  stage fun r => r.saveReview record
  note P run
    { eventType := .reviewCompleted
      occurredAt := now
      idempotencyKey := s!"review:{reviewId.text}:completed"
      payload := { reviewId := some record.id, status := some result.overall.value }
      actorSessionId := some actorId }
  pure record

/-- Record a review. -/
def record (P : Primitives) (actorId : UUID) (result : ReviewResult) (key : String)
    (view : SourceView) (now : Time) : RunTx ReviewRecord := do
  failIf (P.safeDump (.review result) = false)
    (.runtime "Provider invocation failed: invalid_output")
  let run ← lockedRun
  let reviewId := UUID.uuid5 run.id s!"review:{key}"
  let reviews ← ask Records.reviews
  match reviews.find? fun item => item.id = reviewId with
  | some previous => do
    failIf (previous.result ≠ result ∨ previous.actorSessionId ≠ actorId)
      (.conflict "Review key belongs to another result")
    pure previous
  | none => do
    requireReviewer run actorId result
    let goal ← reviewedGoal run result
    let unresolved ← reviewExternalFindings P run actorId reviewId result goal view now
    failIf ((result.overall = .pass) ≠ (expectedPass goal result unresolved = true))
      (.conflict "Review overall outcome contradicts its criteria/findings")
    result.criteria.forM (judge P run actorId reviewId goal view now)
    storeReview P run actorId reviewId result goal view now

end ReviewService

end Orqalis
