import Orqalis.Lib.Transaction
import Orqalis.Persistence.Auxiliary

/-!
# Transactions of a run

A command of the program is a transaction over the records of one run. A refusal stores
nothing, but for one case: a gate that finds no request stores the request it makes and then
refuses.

Two things come from outside and are taken as they are: the redactor of diagnostic texts and
the digest of an approval's subject. What the model asks of them is what the program relies
on: the texts it gives itself are not redacted, and a digest is one.

A transaction reads the clock once. Identifiers drawn at random are arguments.
-/

namespace Orqalis

open Lib Lib.Transaction

/-! ## Subjects -/

namespace Task

/-- What of a task stays while it is worked on. -/
def identity (t : Task) : Task :=
  { t with
    status := .pending
    readyAt := none
    startedAt := none
    completedAt := none
    attemptCount := 0 }

end Task

/-- What of a criterion stays while it is validated. -/
def AcceptanceCriterion.definition (c : AcceptanceCriterion) : AcceptanceCriterion :=
  { c with status := .pending, attemptCount := 0, lastValidatedAt := none, evidenceRefs := [] }

/-- What makes a plan the plan it is, whatever has become of its tasks. -/
structure PlanIdentity where
  runId : UUID
  goalVersionId : UUID
  version : Nat
  tasks : List Task
  dependencies : List TaskDependency
deriving DecidableEq

/-- The order the edges of an identity are listed in. -/
def TaskDependency.before (d e : TaskDependency) : Prop :=
  d.taskId.text < e.taskId.text ∨ d.taskId.text = e.taskId.text ∧
    (d.dependsOnTaskId.text < e.dependsOnTaskId.text ∨
      d.dependsOnTaskId.text = e.dependsOnTaskId.text ∧ d.dependencyType ≤ e.dependencyType)

instance : DecidableRel TaskDependency.before := fun d e => by
  unfold TaskDependency.before
  infer_instance

/-- The identity of a plan, its tasks and edges in a fixed order. -/
def planIdentity (plan : TaskPlan) : PlanIdentity where
  runId := plan.runId
  goalVersionId := plan.goalVersionId
  version := plan.version
  tasks := (plan.tasks.map Task.identity).insertionSort fun a b => a.id.text ≤ b.id.text
  dependencies := plan.dependencies.insertionSort TaskDependency.before

/-- What an approval is asked for. -/
inductive Subject
  | goal (goal : GoalVersion) (criteria : List AcceptanceCriterion)
  | plan (identity : PlanIdentity)
  | requirements (task : Task)
  | task (task : Task) (policy : ExecutionPolicy)
  | repair (reviewId : UUID) (planVersion : Nat) (result : ReviewResult)
  | delivery (goalVersionId : Option UUID) (planVersion : Nat) (reviewId : UUID)
      (treeHash : String) (policy : DeliveryPolicy)
deriving DecidableEq

/-- What is written out to be searched for secrets. -/
inductive Dump
  | plan (plan : TaskPlan)
  | draft (draft : GoalDraft)
  | observation (observation : ValidationObservation)
  | review (result : ReviewResult)
  | worker (summary : String) (completed : Bool) (artifactPaths : List String)
  | finding (criterionId : Option UUID) (severity : Severity) (summary : String)
      (sourceRef : Option String)

/-! ## The redactor and the digest -/

/-- The reasons the program gives for its requests. -/
def programReasons : List String :=
  ["Approve goal before planning", "Approve revised goal before replanning",
    "Review failed evidence before targeted repair", "Review the dependency plan before execution",
    "Approve dependency plan before execution", "Review the targeted repair DAG before execution",
    "Failed review requires targeted repair", "Configured repair limit reached",
    "Operator edited plan", "Operator edited plan before execution", "Explicit goal revision",
    "Explicit recovery authorized", "Operator control policy configured", ""]

/-- Whether a text is a SHA-256 digest in lower-case hexadecimal. -/
def isDigest (digest : String) : Bool :=
  digest.length = 64 ∧ digest.toList.all fun c => c ∈ "0123456789abcdef".toList

/-- A digest. -/
abbrev Digest := { digest : String // isDigest digest = true }

/-- The redactor and the digests: of a subject, of a call of a tool, of a text. -/
structure Primitives where
  redact : String → String
  safeDump : Dump → Bool
  fingerprint : Subject → String
  fingerprintCall : ProviderToolCall → String
  hash : String → String
  safe_reason : ∀ reason ∈ programReasons, redact reason = reason
  digest : ∀ subject, isDigest (fingerprint subject) = true
  hash_digest : ∀ text, isDigest (hash text) = true

namespace Primitives

/-- Whether a text is left alone by the redactor. -/
def safe (P : Primitives) (text : String) : Bool := P.redact text = text

/-- The subject of a goal. -/
def goalSubject (P : Primitives) (contract : GoalContract) : String :=
  P.fingerprint (.goal contract.goal (contract.criteria.map AcceptanceCriterion.definition))

/-- The subject of a plan. -/
def planSubject (P : Primitives) (plan : TaskPlan) : String :=
  P.fingerprint (.plan (planIdentity plan))

/-- The subject of the preparatory task. -/
def requirementsTaskSubject (P : Primitives) (task : Task) : String :=
  P.fingerprint (.requirements task.identity)

/-- The subject of a task. -/
def taskSubject (P : Primitives) (task : Task) (policy : ExecutionPolicy) : String :=
  P.fingerprint (.task task.identity policy)

/-- The subject of a repair. -/
def repairSubject (P : Primitives) (review : ReviewRecord) : String :=
  P.fingerprint (.repair review.id review.planVersion review.result)

/-- The subject of a delivery. -/
def deliverySubject (P : Primitives) (run : Run) (review : ReviewRecord)
    (policy : DeliveryPolicy) : String :=
  P.fingerprint
    (.delivery run.currentGoalVersionId run.planVersion review.id review.treeHash policy)

end Primitives

/-! ## Transactions -/

/-- Why a transaction was refused, and what it stored before. -/
structure Refusal where
  error : Error
  committed : Option Records := none

/-- A refusal that stores nothing. -/
def Refusal.of (e : Error) : Refusal := { error := e }

/-- Transactions over the records of a run. -/
abbrev RunTx := Tx Records Refusal

variable {α : Type}

/-- Raise an error. -/
def fail (e : Error) : RunTx α := refuse (.of e)

/-- Raise an error when a condition holds. -/
def failIf (c : Prop) [Decidable c] (e : Error) : RunTx Unit := refuseIf c (.of e)

/-- The value of a search that finds something, as `next` and an assertion take it. -/
def found (a : Option α) (e : Error) : RunTx α :=
  match a with
  | some a => pure a
  | none => fail e

/-- Read through a repository. -/
def ask (f : Records → Except Error α) : RunTx α := query .of f

/-- Stage a call of a repository. -/
def stage (f : Records → Except Error Records) : RunTx Unit :=
  update .of fun r => (f r).map fun r' => ((), r')

/-- Store what is staged, then raise an error. -/
def commitAndFail (e : Error) : RunTx α := refuseWith fun r => { error := e, committed := some r }

section Inversion

variable {r r' : Records} {a : α}

@[simp] theorem fail_ok {e : Error} : (fail e : RunTx α) r = .ok (a, r') ↔ False := refuse_ok

@[simp] theorem commitAndFail_ok {e : Error} :
    (commitAndFail e : RunTx α) r = .ok (a, r') ↔ False := refuseWith_ok

theorem failIf_ok {c : Prop} [Decidable c] {e : Error} {x : Unit} :
    failIf c e r = .ok (x, r') ↔ ¬ c ∧ r' = r := refuseIf_ok

theorem found_ok {o : Option α} {e : Error} :
    found o e r = .ok (a, r') ↔ o = some a ∧ r' = r := by
  cases o with
  | none => simp [found]
  | some b =>
    show (pure b : RunTx α) r = .ok (a, r') ↔ _
    rw [pure_ok]
    grind

theorem ask_ok {f : Records → Except Error α} : ask f r = .ok (a, r') ↔ f r = .ok a ∧ r' = r :=
  query_ok

theorem stage_ok {f : Records → Except Error Records} {x : Unit} :
    stage f r = .ok (x, r') ↔ f r = .ok r' := by
  unfold stage
  rw [update_ok]
  cases f r with
  | error e => simp [Except.map]
  | ok s => simp [Except.map]

end Inversion

end Orqalis
