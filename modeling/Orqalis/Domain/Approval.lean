import Orqalis.Domain.Base

/-!
# Operator approvals

The control policy of a run, the requests its gates raise and the decisions on them. A
request as it is stored carries no decision; the decision is joined to it on reading.
-/

namespace Orqalis

/-- Whether an operator watches a run. -/
inductive ControlMode
  | autonomous
  | supervised
deriving DecidableEq, Repr

/-- The word of a mode. -/
def ControlMode.value : ControlMode → String
  | autonomous => "AUTONOMOUS"
  | supervised => "SUPERVISED"

/-- The gates an approval can be required at. -/
inductive ApprovalStage
  | goal
  | plan
  | task
  | repair
  | delivery
deriving DecidableEq, Repr

/-- The word of a gate. -/
def ApprovalStage.value : ApprovalStage → String
  | goal => "GOAL"
  | plan => "PLAN"
  | task => "TASK"
  | repair => "REPAIR"
  | delivery => "DELIVERY"

/-- Where a request stands. -/
inductive ApprovalStatus
  | pending
  | approved
  | rejected
deriving DecidableEq, Repr

/-- The word of a request's status. -/
def ApprovalStatus.value : ApprovalStatus → String
  | pending => "PENDING"
  | approved => "APPROVED"
  | rejected => "REJECTED"

/-- What an operator can decide. -/
inductive ApprovalDecisionKind
  | approve
  | reject
deriving DecidableEq, Repr

/-- The gates of a supervised run that names none. -/
def supervisedGates : List ApprovalStage := [.goal, .plan, .repair, .delivery]

/-- The control policy of a run; its gates are a set, listed in the order of the stages. -/
structure ControlPolicy where
  runId : UUID
  mode : ControlMode := .autonomous
  gates : List ApprovalStage := []
deriving DecidableEq, Repr

/-- Whether a gate needs an approval. -/
def ControlPolicy.requires (p : ControlPolicy) (stage : ApprovalStage) : Bool :=
  p.mode = .supervised ∧ stage ∈ p.gates

/-- A decision of an operator. -/
structure ApprovalDecision where
  id : UUID
  createdAt : Time
  requestId : UUID
  decision : ApprovalDecisionKind
  actor : String
  reason : String := ""
deriving DecidableEq, Repr

/-- A request for an approval of one exact subject. -/
structure ApprovalRequest where
  id : UUID
  createdAt : Time
  runId : UUID
  stage : ApprovalStage
  subjectVersion : Nat
  subjectDigest : String
  reason : String := ""
  status : ApprovalStatus := .pending
  decision : Option ApprovalDecision := none
deriving DecidableEq, Repr

end Orqalis
