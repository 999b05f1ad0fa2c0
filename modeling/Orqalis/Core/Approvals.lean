import Orqalis.Core.RuntimeSupport

/-!
# Operator approvals

The control policy of a run, the requests its gates make, the decisions on them, and the
checks by which a transition asks for an approved request of its exact subject.
-/

namespace Orqalis

open Lib Lib.Transaction

/-! ## Requests -/

/-- The identifier of the request for a subject. -/
def approvalRequestId (runId : UUID) (stage : ApprovalStage) (version : Nat) (digest : String) :
    UUID :=
  .uuid5 runId s!"approval:{stage.value}:{version}:{digest}"

/-- Check the texts of a request. -/
def safeFields (P : Primitives) (digest reason : String) : RunTx Unit := do
  failIf (isDigest digest = false) (.input "Approval subject digest must be lowercase SHA-256 hex")
  failIf (1000 < reason.length ∨ P.safe reason = false)
    (.policyDenied "Approval reason contains unsafe diagnostic content")

/-- Check that a request is about what the run has now. -/
def validateSubject (run : Run) (stage : ApprovalStage) (version : Nat) : RunTx Unit := do
  let r ← read id
  if stage = .goal then
    failIf ((r.currentGoal run).all fun contract => contract.goal.version ≠ version)
      (.conflict "Goal version changed; refresh the approval subject")
  else if stage = .task ∧ version = 0 ∧ run.state = .analyzing then
    pure ()
  else
    failIf (version ≠ run.planVersion ∨ version = 0)
      (.conflict "Plan version changed; refresh the approval subject")

/-- Show the operator's checkpoint on the orchestrator's actor. -/
def setApprovalActorStatus (P : Primitives) (run : Run) (requestId : UUID)
    (status : ApprovalStatus) (now : Time) : RunTx Unit := do
  let actor ← orchestratorActor P run now
  if actor.status.terminal then
    pure ()
  else do
    let target : ActorStatus :=
      if status = .rejected then .blocked else .waitingForDependency
    if actor.status ≠ target then do
      let _ ← setActorStatus P run actor target
        s!"operator-approval:{requestId.text}:actor:{status.value.toLower}" now
    else
      pure ()

/-- Make the request of a gate. -/
def addApprovalRequest (P : Primitives) (run : Run) (stage : ApprovalStage) (version : Nat)
    (digest reason : String) (now : Time) : RunTx ApprovalRequest := do
  let request : ApprovalRequest :=
    { id := approvalRequestId run.id stage version digest
      createdAt := now
      runId := run.id
      stage
      subjectVersion := version
      subjectDigest := digest
      reason }
  stage' request
  note P run
    { eventType := .approvalRequested
      occurredAt := request.createdAt
      idempotencyKey := s!"operator-approval:{request.id.text}:requested"
      payload :=
        { approvalRequestId := some request.id
          approvalStage := some stage.value
          approvalSubjectDigest := some digest
          status := some ApprovalStatus.pending.value
          reason := some reason } }
  setApprovalActorStatus P run request.id .pending request.createdAt
  pure request
where
  stage' (request : ApprovalRequest) : RunTx Unit := Orqalis.stage fun r => r.addRequest request

/-- Stage the request of a gate, unless it is there or the gate is open. The flag says whether
a request was made. -/
def prepareApprovalRequest (P : Primitives) (run : Run) (stage : ApprovalStage) (version : Nat)
    (digest reason : String) (now : Time) : RunTx (Option ApprovalRequest × Bool) := do
  safeFields P digest reason
  let r ← read id
  if r.policy.requires stage then do
    validateSubject run stage version
    match r.getRequest (approvalRequestId run.id stage version digest) with
    | some existing => pure (some existing, false)
    | none => do
      let request ← addApprovalRequest P run stage version digest reason now
      pure (some request, true)
  else
    pure (none, false)

/-- The request of a gate, made and stored if it is not there; none when the gate is open. -/
def ApprovalService.ensure (P : Primitives) (stage : ApprovalStage) (version : Nat)
    (digest reason : String) (now : Time) : RunTx (Option ApprovalRequest) := do
  safeFields P digest reason
  let run ← lockedRun
  let (request, _) ← prepareApprovalRequest P run stage version digest reason now
  pure request

/-- The message of a gate without its approval. -/
def approvalRequired (stage : ApprovalStage) (requestId : UUID) : Error :=
  .policyDenied s!"{stage.value} approval required: {requestId.text}"

/-- Ask for the approval of a subject. A request that is not there is made and stored before
the refusal; nothing else of the transaction is. -/
def requireApproval (P : Primitives) (run : Run) (stage : ApprovalStage) (version : Nat)
    (digest reason : String) (now : Time) : RunTx Unit := do
  let r ← read id
  if r.policy.requires stage then do
    safeFields P digest reason
    validateSubject run stage version
    match r.getRequest (approvalRequestId run.id stage version digest) with
    | some request =>
      failIf (request.status ≠ .approved) (approvalRequired stage request.id)
    | none => do
      let request ← addApprovalRequest P run stage version digest reason now
      commitAndFail (approvalRequired stage request.id)
  else
    pure ()

/-- Ask for the stored delivery policy and the operator's decision on it. -/
def requireDeliveryBinding (run : Run) : RunTx Unit := do
  let r ← read id
  let binding ← found (r.byKey "delivery:policy")
    (.policyDenied "Explicit delivery policy is required")
  if r.policy.requires .delivery then do
    let reviews ← ask Records.reviews
    let request := binding.payload.approvalRequestId.bind r.getRequest
    failIf (request.all fun request =>
        request.runId ≠ run.id ∨ request.stage ≠ .delivery ∨ request.status ≠ .approved ∨
          reviews.getLast?.map ReviewRecord.planVersion ≠ some request.subjectVersion ∨
          binding.payload.approvalSubjectDigest ≠ some request.subjectDigest)
      (.policyDenied "Exact delivery subject needs operator approval")
  else
    pure ()

/-! ## The reason of a task's request -/

/-- The first characters of a text. -/
def clip (n : Nat) (text : String) : String := String.ofList (text.toList.take n)

/-- The words of a text. -/
def words (text : String) : List (List Char) :=
  (text.toList.splitOnP isSpace).filter fun word => !word.isEmpty

/-- A text with one blank between its words. -/
def normalized (text : String) : String :=
  String.ofList ([' '].intercalate (words text))

/-- What an operator reads of a task's gate. -/
def taskApprovalReason (P : Primitives) (task : Task) (policy : Option ExecutionPolicy) :
    String :=
  let description := clip 300 (P.redact (normalized task.description))
  let parts :=
    [s!"Task {task.id.text} (role {task.preferredRole.value}, plan v{task.planVersion})",
      s!"description: {description}"] ++
    match policy with
    | none => ["requirements preparation; no workspace execution policy yet"]
    | some policy =>
      let paths := ", ".intercalate (policy.writePaths.map P.redact)
      let commands :=
        if policy.commands.isEmpty then "none"
        else ", ".intercalate (policy.commands.map ApprovedCommand.id)
      [s!"write paths: {clip 350 paths}", s!"approved command IDs: {clip 180 commands}"]
  clip 1000 (P.redact ("; ".intercalate parts))

/-! ## The control policy -/

/-- The stages in the order they are named. -/
def allStages : List ApprovalStage := [.goal, .plan, .task, .repair, .delivery]

/-- Sort the words of some stages. -/
def stageWords (stages : List ApprovalStage) : String :=
  ",".intercalate ((stages.map ApprovalStage.value).insertionSort (· ≤ ·))

/-- Store the control policy of a run; an autonomous run has none. -/
def saveInitialControlPolicy (P : Primitives) (run : Run) (mode : ControlMode)
    (gates : Option (List ApprovalStage)) (now : Time) : RunTx Unit := do
  failIf (mode = .autonomous ∧ gates.any (· ≠ []))
    (.input "Autonomous mode cannot require approval gates")
  let chosen := if mode = .autonomous then [] else gates.getD supervisedGates
  let selected := allStages.filter fun stage => stage ∈ chosen
  let policy : ControlPolicy := { runId := run.id, mode, gates := selected }
  let r ← read id
  match r.controlPolicy with
  | some existing => failIf (existing ≠ policy) (.conflict "Run control policy is immutable")
  | none => do
    failIf (run.planVersion ≠ 0 ∨
        run.state ∉ [.received, .contextSync, .analyzing, .goalDefined])
      (.conflict "Set run control mode before execution starts")
    failIf (r.requestList ≠ [])
      (.conflict "Control policy cannot change after an approval was requested")
    if mode = .autonomous then
      pure ()
    else do
      change fun r => r.savePolicy policy
      note P run
        { eventType := .controlPolicyChanged
          occurredAt := now
          idempotencyKey := "control:initial"
          payload :=
            { status := some mode.value
              summary := some "Operator control policy configured"
              reason := some (stageWords selected) } }

/-- Set the control mode of a run. -/
def ApprovalService.configure (P : Primitives) (mode : ControlMode)
    (gates : Option (List ApprovalStage)) (now : Time) : RunTx Unit := do
  let run ← lockedRun
  saveInitialControlPolicy P run mode gates now

/-- Record an operator's decision on a request. -/
def ApprovalService.decide (P : Primitives) (requestId : UUID) (decision : ApprovalDecisionKind)
    (actor expectedDigest reason : String) (decisionId : UUID) (now : Time) : RunTx Unit := do
  safeFields P expectedDigest reason
  failIf (decision = .reject ∧ isBlank reason) (.input "Rejecting an approval requires a reason")
  failIf (isBlank actor ∨ 120 < actor.length ∨ P.safe actor = false)
    (.input "Approval decision requires an operator identity")
  let run ← lockedRun
  let r ← read id
  let request ← found (r.getRequest requestId) (.notFound "Approval request not found")
  failIf (request.runId ≠ run.id) (.notFound "Approval request not found")
  failIf (request.subjectDigest ≠ expectedDigest)
    (.conflict "Approval subject changed; reload before deciding")
  validateSubject run request.stage request.subjectVersion
  match request.decision with
  | some existing =>
    failIf (existing.decision ≠ decision ∨ existing.actor ≠ actor)
      (.conflict "Approval request already has a different decision")
  | none => do
    let recorded : ApprovalDecision :=
      { id := decisionId, createdAt := now, requestId, decision, actor, reason }
    stage fun r => r.addDecision recorded
    let status : ApprovalStatus :=
      match decision with
      | .approve => .approved
      | .reject => .rejected
    note P run
      { eventType := .approvalRecorded
        occurredAt := now
        idempotencyKey := s!"operator-approval:{request.id.text}:decided"
        payload :=
          { approvalRequestId := some request.id
            approvalStage := some request.stage.value
            approvalSubjectDigest := some request.subjectDigest
            approvalActor := some actor
            status := some status.value
            reason := some reason } }
    setApprovalActorStatus P run request.id status now

end Orqalis
