import Orqalis.Delivery.Gates
import Orqalis.Core.Goals

/-!
# The services of the delivery

The policy a delivery is bound to, the inspections of the change guardian, the documentation,
the final validation, the commit with its push, and the curation of what was learnt. The
working tree and the repository answer from outside.

The coordinator of a delivery holds the lease of its run from its first transaction to its
last, and no other caller completes a run: what it does between two transactions never meets
a run it has completed.
-/

namespace Orqalis

open Lib Lib.Transaction

/-! ## The policy -/

/-- Bind a run to the policy of its delivery. `request` is the approval that was asked for,
with its digest; `fingerprint` is the hash of the policy. -/
def bindDelivery (P : Primitives) (fingerprint : String)
    (request : Option (UUID × String)) (now : Time) : RunTx Unit := do
  let run ← lockedRun
  let r ← read id
  if (r.byKey "delivery:policy").isSome then
    pure ()
  else
    note P run
      { eventType := .approvalRecorded
        occurredAt := now
        idempotencyKey := "delivery:policy"
        payload :=
          { summary := some fingerprint
            reason := some "Explicit delivery policy"
            approvalRequestId := request.map Prod.fst
            approvalSubjectDigest := request.map Prod.snd } }

/-- The actor of a role that is at work. -/
def workingActor (actorId : UUID) (role : AgentRole) (message : String) : RunTx ActorSession := do
  let r ← read id
  found ((r.actors.get? actorId).filter fun a => a.role = some role ∧ a.status = .working)
    (.policyDenied message)

/-! ## The change guardian -/

namespace GuardianService

/-- What a guardian can object to. -/
inductive Objection
  | secret
  | scope
  | goalScope
  | generated
  | sensitiveConfiguration
  | unsafePath
  | unsupportedSource
  | binary
  | deletionSpike
  | testReduction
  | postReviewChange
deriving DecidableEq, Repr

/-- The category of an objection. -/
def Objection.value : Objection → String
  | secret => "secret"
  | scope => "scope"
  | goalScope => "goal_scope"
  | generated => "generated"
  | sensitiveConfiguration => "sensitive_configuration"
  | unsafePath => "unsafe_path"
  | unsupportedSource => "unsupported_source"
  | binary => "binary"
  | deletionSpike => "deletion_spike"
  | testReduction => "test_reduction"
  | postReviewChange => "post_review_change"

/-- An objection of an inspection. Its finding is named by a number drawn at random. -/
structure Flag where
  id : Nat
  objection : Objection
  summary : String
  path : String
deriving DecidableEq, Repr

/-- The finding of an objection. -/
def Flag.finding (runId : UUID) (now : Time) (flag : Flag) : Finding where
  id := .uuid4 flag.id
  createdAt := now
  runId
  severity := .blocking
  category := flag.objection.value
  summary := flag.summary
  sourceRef := some flag.path

/-- What an inspection saw of the working tree; no hash stands for a tree that could not be
read. -/
structure Inspection where
  flags : List Flag
  changes : List ChangedFile
  treeHash : Option String
  baseCommit : String

/-- The new hash a list of changes gives a path. -/
def hashAt (changes : List ChangedFile) (path : String) : Option String :=
  (changes.reverse.find? fun c => c.path = path).bind ChangedFile.newHash

/-- The paths two lists of changes differ in, the documentation apart. -/
def laterChanges (policy : DeliveryPolicy) (accepted new : List ChangedFile) : List String :=
  ((accepted ++ new).map ChangedFile.path).dedup.filter fun path =>
    some path ≠ policy.documentationPath ∧ hashAt accepted path ≠ hashAt new path

/-- What an inspection objects to; a final one also objects to what changed after the
acceptance. The numbers of these objections begin at `n`. -/
def objections (policy : DeliveryPolicy) (checkpoint : Checkpoint) (reports : List ChangeReport)
    (inspection : Inspection) (n : Nat) : RunTx (List Flag) :=
  match checkpoint with
  | .implementation => pure inspection.flags
  | .final => do
    let accepted ← found (lastReport .implementation reports)
      (.policyDenied "Implementation certification is missing")
    let later := laterChanges policy accepted.changes inspection.changes
    pure (inspection.flags ++ later.mapIdx fun i path =>
      { id := n + i
        objection := .postReviewChange
        summary := "Non-documentation content changed after acceptance"
        path })

/-- The report of an inspection. -/
def reportOf (run : Run) (actorId : UUID) (checkpoint : Checkpoint) (id : UUID)
    (inspection : Inspection) (flags : List Flag) (now : Time) : ChangeReport where
  id
  createdAt := now
  runId := run.id
  actorSessionId := actorId
  checkpoint
  baseCommit := inspection.baseCommit
  treeHash := inspection.treeHash.getD "unverified"
  passed := flags = [] ∧ inspection.treeHash.isSome
  changes := inspection.changes
  findings := flags.map (Flag.finding run.id now)

/-- The identifier of an inspection. `fingerprint` is the hash of the policy. -/
def reportId (runId actorId : UUID) (checkpoint : Checkpoint) (treeHash fingerprint : String) :
    UUID :=
  .uuid5 runId s!"guardian:{actorId.text}:{checkpoint.value}:{treeHash}:{fingerprint}"

/-- Inspect the working tree of a run. -/
def inspect (P : Primitives) (actorId : UUID) (policy : DeliveryPolicy) (fingerprint : String)
    (checkpoint : Checkpoint) (inspection : Inspection) (n : Nat) (now : Time) :
    RunTx ChangeReport := do
  let run ← lockedRun
  let _ ← workingActor actorId .changeGuardian
    "Only an independent active Change Guardian may certify delivery"
  let workspace ← ask Records.workspace
  failIf (workspace = none) (.notFound "Run workspace missing")
  let r ← read id
  failIf (r.currentGoal run = none) (.notFound "Accepted goal missing for scope certification")
  let reports ← ask Records.guardians
  let flags ← objections policy checkpoint reports inspection n
  let report := reportOf run actorId checkpoint
    (reportId run.id actorId checkpoint (inspection.treeHash.getD "unverified") fingerprint)
    inspection flags now
  match reports.find? fun item => item.id = report.id with
  | some existing => pure existing
  | none => do
    stage fun r => r.saveGuardian report
    note P run
      { eventType := .changeGuardCompleted
        occurredAt := now
        idempotencyKey := s!"guardian:{report.id.text}"
        payload :=
          { status := some (if report.passed then Verdict.pass.value else Verdict.fail.value)
            summary := some s!"Inspected {report.changes.length} changed files" }
        actorSessionId := some actorId }
    pure report

end GuardianService

/-! ## The documentation -/

/-- Document the accepted changes. `written` is what came of the writing: where the document
lies and its hash; `intact` whether a document written before is still the same. -/
def writeDocumentation (P : Primitives) (actorId : UUID) (report : ChangeReport)
    (written : Except Error (String × String)) (intact : Bool) (now : Time) :
    RunTx Artifact := do
  let run ← lockedRun
  let r ← read id
  let workspace ← ask Records.workspace
  let reviews ← ask Records.reviews
  let review ← found (reviews.getLast?.filter fun _ =>
      workspace.isSome ∧ (r.currentGoal run).isSome ∧ report.passed)
    (.notFound "Accepted implementation context is missing")
  let actor ← workingActor actorId .documentation
    "Documentation requires an assigned active documentation actor"
  failIf (review.result.overall ≠ .pass)
    (.policyDenied "Documentation requires accepted implementation")
  let artifacts ← ask Records.artifacts
  match artifacts.find? fun item =>
      item.id = UUID.uuid5 run.id s!"documentation:{review.id.text}" with
  | some existing => do
    failIf (intact = false) (.conflict "Documentation artifact changed after its checkpoint")
    pure existing
  | none => do
    let (target, digest) ← ask fun _ => written
    let artifact : Artifact :=
      { id := .uuid5 run.id s!"documentation:{review.id.text}"
        createdAt := now
        runId := run.id
        taskId := actor.currentTaskId
        type := "documentation"
        pathOrUri := target
        contentHash := digest }
    stage fun r => r.saveArtifact artifact
    note P run
      { eventType := .documentationUpdated
        occurredAt := now
        idempotencyKey := s!"documentation:{artifact.id.text}"
        payload := { summary := some "Documented accepted changes and validation references" }
        actorSessionId := some actorId }
    pure artifact

/-! ## The final validation -/

namespace FinalValidationService

/-- The criteria the resolutions of findings rely on. -/
def reliedCriteria (r : Records) (reviews : List ReviewRecord) (goal : GoalContract) :
    List UUID :=
  (reviews.filter fun review => review.goalVersionId = goal.goal.id).flatMap fun review =>
    (review.result.findingReviews.filter FindingReview.resolved).flatMap fun verdict =>
      verdict.evidenceRefs.filterMap fun reference =>
        (r.evidence.get? reference).map Evidence.criterionId

/-- Whether every criterion the delivery rests on has passed. -/
def accepted (r : Records) (reviews : List ReviewRecord) (goal : GoalContract) : Bool :=
  goal.criteria.all fun item =>
    item.status = .pass ∨
      ¬ (item.priority = .required ∨ item.id ∈ reliedCriteria r reviews goal)

/-- What the last transaction of a final validation finds outside the records: the tree before
and after, whether the documents are intact and whether the assertions of the reviews hold. -/
structure Outcome where
  before : String
  after : String
  documented : Bool
  asserted : Bool

/-- The last transaction of a final validation. The attempt, the goal and the pieces of
evidence are those of its earlier transactions. -/
def record (P : Primitives) (attempt : TaskExecution) (goalId : UUID) (evidenceIds : List UUID)
    (outcome : Outcome) (now : Time) : RunTx FinalValidation := do
  let run ← lockedRun
  let r ← read id
  let goal ← found ((r.currentGoal run).filter fun c => c.goal.id = goalId)
    (.policyDenied "Goal changed during final validation")
  let reviews ← ask Records.reviews
  let passed : Bool :=
    outcome.before = outcome.after && accepted r reviews goal && outcome.documented &&
      (reviews.getLast?.any fun review => review.result.overall = .pass) && outcome.asserted
  let result : FinalValidation :=
    { id := .uuid5 run.id s!"final:{attempt.id.text}:{outcome.before}"
      createdAt := now
      runId := run.id
      actorSessionId := attempt.assignedActorSessionId
      goalVersionId := goal.goal.id
      treeHash := outcome.after
      passed
      evidenceIds }
  stage fun r => r.saveValidation result
  note P run
    { eventType := .finalValidationCompleted
      occurredAt := now
      idempotencyKey := s!"final:{result.id.text}"
      payload :=
        { status := some (if passed then Verdict.pass.value else Verdict.fail.value)
          evidenceIds }
      actorSessionId := some attempt.assignedActorSessionId
      taskId := some attempt.taskId
      taskExecutionId := some attempt.id }
  pure result

end FinalValidationService

/-! ## The commit -/

namespace CommitService

/-- The first line of a text. -/
def firstLine (text : String) : String :=
  String.ofList (text.toList.takeWhile fun c => c ≠ '\n' && c ≠ '\r')

/-- The message of a delivery's commit. -/
def message (run : Run) (goal : GoalContract) (workspace : RunWorkspace)
    (report : ChangeReport) : String :=
  let changes := "\n".intercalate (report.changes.map fun c => s!"- {c.status}: {c.path}")
  s!"feat: {clip 100 (firstLine goal.goal.goal)}\n\n" ++
    s!"Orqalis-Run: {run.id.text}\nGoal-Version: {goal.goal.version}\n" ++
    s!"Base-Commit: {workspace.baseCommit}\n\nChanges:\n" ++ changes ++
    "\n\nValidation: all required criteria passed; independent review, " ++
    "Change Guardian, documentation and final validation passed.\n"

/-- Record whose name the commit is made in. The name and the address of the repository's
configuration stand in where the policy has none. -/
def recordIdentity (P : Primitives) (run : Run) (actorId : UUID) (policy : DeliveryPolicy)
    (delivery : Option GitDelivery) (name email : String) (now : Time) : RunTx Unit := do
  let r ← read id
  if (r.byKey "git:identity").isNone ∧ delivery.all fun d => d.commitSha = none then
    note P run
      { eventType := .approvalRecorded
        occurredAt := now
        idempotencyKey := "git:identity"
        payload :=
          { gitAuthorName := some (policy.authorName.getD name)
            gitAuthorEmail := some (policy.authorEmail.getD email)
            summary := some "Git author identity resolved" }
        actorSessionId := some actorId }
  else
    pure ()

/-- The delivery of a run before its commit. -/
def intent (run : Run) (workspace : RunWorkspace) (goal : GoalContract) (report : ChangeReport)
    (policy : DeliveryPolicy) (tree : String) (now : Time) : GitDelivery where
  id := .uuid5 run.id "git-delivery"
  createdAt := now
  runId := run.id
  baseCommit := workspace.baseCommit
  branch := workspace.branch
  treeHash := report.treeHash
  gitTreeSha := tree
  commitMessage := message run goal workspace report
  pushStatus := if policy.push then .pending else .notRequested
  remote := if policy.push then some policy.remote else none
  policy

/-- Store the intent of a commit, unless it is stored. -/
def storeIntent (run : Run) (workspace : RunWorkspace) (policy : DeliveryPolicy)
    (delivery : Option GitDelivery) (tree : Except Error String) (now : Time) :
    RunTx GitDelivery := do
  match delivery with
  | some delivery => pure delivery
  | none => do
    let reports ← ask Records.guardians
    let report ← found (lastReport .final reports) (.runtime "IndexError")
    let tree ← ask fun _ => tree
    let r ← read id
    let goal ← found (r.currentGoal run) (.runtime "AssertionError")
    let delivery := intent run workspace goal report policy tree now
    stage fun r => r.saveDelivery delivery
    pure delivery

/-- The first transaction of a commit: its intent. `tree` is the tree that was staged. -/
def begin' (P : Primitives) (project : Option Project) (policy : DeliveryPolicy) (actorId : UUID)
    (name email : String) (tree : Except Error String) (now : Time) : RunTx GitDelivery := do
  let run ← lockedRun
  failIf (run.state ≠ .committing) (.policyDenied "Commit requires the committing checkpoint")
  let _ ← workingActor actorId .gitops "Commit requires an active GitOps actor"
  guardDelivery run .committing
  let workspace ← ask Records.workspace
  let workspace ← found workspace (.notFound "Delivery workspace/project missing")
  let project ← found project (.notFound "Delivery workspace/project missing")
  failIf (policy.push = true ∧ project.allowPush = false)
    (.policyDenied "Project policy forbids pushing")
  let delivery ← ask Records.delivery
  failIf (delivery.any fun d => d.policy ≠ policy)
    (.conflict "Delivery policy is immutable once delivery begins")
  recordIdentity P run actorId policy delivery name email now
  storeIntent run workspace policy delivery tree now

/-- The second transaction of a commit: the object is made. The delivery is the one the first
answered. -/
def created (delivery : GitDelivery) (sha : String) : RunTx Unit := do
  let _ ← lockedRun
  stage fun r => r.saveDelivery { delivery with commitSha := some sha }

/-- The third transaction of a commit: the branch has it. The delivery is the one the earlier
transactions left. -/
def attach (P : Primitives) (delivery : GitDelivery) (actorId : UUID) (now : Time) :
    RunTx Unit := do
  let run ← lockedRun
  stage fun r => r.saveDelivery { delivery with commitAttached := true }
  note P run
    { eventType := .commitCreated
      occurredAt := now
      idempotencyKey := s!"commit:{delivery.id.text}"
      payload := { summary := delivery.commitSha }
      actorSessionId := some actorId }

/-- What a push rests on. -/
def checkPush (project : Option Project) (actorId : UUID) : RunTx GitDelivery := do
  let run ← lockedRun
  failIf (run.state ≠ .pushing) (.policyDenied "Push requires the pushing checkpoint")
  let _ ← workingActor actorId .gitops "Push requires an active GitOps actor"
  guardDelivery run .pushing
  let delivery ← ask Records.delivery
  let delivery ← found (delivery.filter fun d => d.commitSha.isSome) (.runtime "AssertionError")
  let project ← found project (.runtime "AssertionError")
  failIf (project.allowPush = false) (.policyDenied "Project policy forbids pushing")
  pure delivery

/-- The last transaction of a push. The delivery is the one the check answered. -/
def pushed (P : Primitives) (delivery : GitDelivery) (actorId : UUID) (now : Time) :
    RunTx Unit := do
  let run ← lockedRun
  stage fun r => r.saveDelivery { delivery with pushStatus := .pushed }
  note P run
    { eventType := .pushCompleted
      occurredAt := now
      idempotencyKey := s!"push:{delivery.id.text}"
      payload := { summary := delivery.commitSha }
      actorSessionId := some actorId }

end CommitService

/-! ## The curation -/

/-- The last transaction of a curation: its receipt. The proposal and whether it is approved
come from the store of the curated memory. -/
def promoteMemory (P : Primitives) (actorId : UUID) (proposal : String) (approved : Bool)
    (now : Time) : RunTx (List UUID) := do
  let run ← lockedRun
  failIf (run.state ≠ .memoryFinalization)
    (.policyDenied "Run left its memory curation checkpoint")
  guardDelivery run .memoryFinalization
  let r ← read id
  match r.byKey "curation:promoted" with
  | some replay => pure replay.payload.memoryIds
  | none => do
    let receipt := UUID.uuid5 run.id s!"curated-memory:{proposal}"
    note P run
      { eventType := .memoryPromoted
        occurredAt := now
        idempotencyKey := "curation:promoted"
        payload :=
          { memoryIds := [receipt]
            summary := some
              (if approved then s!"Approved curated memory {proposal}"
              else s!"Staged curated memory {proposal} for review") }
        actorSessionId := some actorId }
    pure [receipt]

end Orqalis
