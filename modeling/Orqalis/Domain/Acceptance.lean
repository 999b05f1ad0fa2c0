import Orqalis.Domain.Base

/-!
# Goals, acceptance criteria and evidence

A goal is versioned: a revision is a new contract with criteria of its own. The evidence of
a criterion is kept apart from it and named by its references.
-/

namespace Orqalis

/-- The outcomes a criterion can have. -/
inductive AcceptanceStatus
  | pending
  | testing
  | pass
  | fail
deriving DecidableEq, Repr

/-- The word of an outcome. -/
def AcceptanceStatus.value : AcceptanceStatus → String
  | pending => "PENDING"
  | testing => "TESTING"
  | pass => "PASS"
  | fail => "FAIL"

/-- How a criterion is validated. -/
inductive ValidationSpec
  | command (kind : String) (argv : List String) (expectedExitCode timeoutSeconds : Nat)
  | file (path : String) (mustExist : Bool) (contains : Option String)
  | diff (baseCommit path contains : String)
  | review (instructions : String)
  | manual (instructions : String)
deriving DecidableEq, Repr

namespace ValidationSpec

/-- The kind of a validation; a command's is `command`, `test_suite` or
`static_analysis`. -/
def kind : ValidationSpec → String
  | command kind _ _ _ => kind
  | file _ _ _ => "file"
  | diff _ _ _ => "diff"
  | review _ => "review"
  | manual _ => "manual"

/-- Whether a reviewer, not a validator, settles the criterion. -/
def reviewed : ValidationSpec → Bool
  | review _ | manual _ => true
  | _ => false

end ValidationSpec

/-- Whether a criterion has to pass. -/
inductive Priority
  | required
  | optional
deriving DecidableEq, Repr

/-- A criterion as a draft states it. -/
structure CriterionDefinition where
  key : String
  description : String
  priority : Priority := .required
  validationSpec : ValidationSpec
deriving DecidableEq, Repr

/-- A goal as its author states it. -/
structure GoalDraft where
  goal : String
  scope : List String
  outOfScope : List String := []
  constraints : List String := []
  assumptions : List String := []
  definitionOfDone : List String
  criteria : List CriterionDefinition
deriving DecidableEq, Repr

/-- A version of a goal. -/
structure GoalVersion where
  id : UUID
  createdAt : Time
  runId : UUID
  version : Nat
  goal : String
  scope : List String
  outOfScope : List String := []
  constraints : List String := []
  assumptions : List String := []
  definitionOfDone : List String
  supersedesGoalVersionId : Option UUID := none
  revisionReason : Option String := none
deriving DecidableEq, Repr

/-- A criterion of a goal version, with its outcome so far. -/
structure AcceptanceCriterion where
  id : UUID
  createdAt : Time
  goalVersionId : UUID
  key : String
  description : String
  priority : Priority
  validationSpec : ValidationSpec
  status : AcceptanceStatus := .pending
  attemptCount : Nat := 0
  lastValidatedAt : Option Time := none
  evidenceRefs : List UUID := []
deriving DecidableEq, Repr

/-- A goal version with its criteria. -/
structure GoalContract where
  goal : GoalVersion
  criteria : List AcceptanceCriterion
deriving DecidableEq, Repr

/-- The criteria that have to pass. -/
def GoalContract.required (c : GoalContract) : List AcceptanceCriterion :=
  c.criteria.filter fun item => item.priority = .required

/-- What a validator saw. -/
structure ValidationObservation where
  validatorType : String
  passed : Bool
  exitCode : Option Int := none
  output : String := ""
  sourceRef : Option String := none
  contentHash : Option String := none
  errorCode : Option String := none
  durationMs : Nat
deriving DecidableEq, Repr

/-- A stored piece of evidence about a criterion. -/
structure Evidence where
  id : UUID
  createdAt : Time
  runId : UUID
  criterionId : UUID
  taskId : Option UUID := none
  taskExecutionId : Option UUID := none
  evidenceType : String
  structuredData : ValidationObservation
  valid : Bool := true
deriving DecidableEq, Repr

end Orqalis
