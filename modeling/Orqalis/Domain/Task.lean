import Orqalis.Domain.Run
import Orqalis.Domain.Agent
import Mathlib.Data.Rat.Defs

/-!
# Tasks and plans

A task, the attempts at it, and the plan that orders the tasks of a run. A plan a caller
hands in is a `ValidPlan`: it passed `validateDag`, which every construction of a plan
runs. A plan the store answers is a plain `TaskPlan`, its tasks refreshed from the
records.
-/

namespace Orqalis

/-- A task. Plan version zero is preparatory work, before an accepted goal and plan. -/
structure Task where
  id : UUID
  createdAt : Time
  runId : UUID
  planVersion : Nat := 1
  parentTaskId : Option UUID := none
  description : String
  expectedOutcome : String
  status : TaskStatus := .pending
  risk : Rat := 0
  requiredCapabilities : List String := []
  preferredRole : AgentRole := .developer
  expectedArtifacts : List String := []
  validationMethod : String
  workWeight : Rat := 1
  readyAt : Option Time := none
  startedAt : Option Time := none
  completedAt : Option Time := none
  attemptCount : Nat := 0
  acceptanceCriterionIds : List UUID := []
deriving DecidableEq, Repr

/-- An edge of a plan: `taskId` waits for `dependsOnTaskId`. -/
structure TaskDependency where
  taskId : UUID
  dependsOnTaskId : UUID
  dependencyType : String := "finish_to_start"
deriving DecidableEq, Repr

/-- One attempt at a task. -/
structure TaskExecution where
  id : UUID
  createdAt : Time
  runId : UUID
  taskId : UUID
  attempt : Nat
  assignedActorSessionId : UUID
  readyAt : Option Time := none
  startedAt : Option Time := none
  completedAt : Option Time := none
  status : TaskStatus := .pending
  queueMs : Nat := 0
  activeMs : Nat := 0
  waitingMs : Nat := 0
  blockedMs : Nat := 0
deriving DecidableEq, Repr

/-- Whether an attempt or its task is under way. -/
def TaskStatus.active : TaskStatus → Bool
  | running | waiting | blocked => true
  | _ => false

/-- The tasks of a run and the order between them. -/
structure TaskPlan where
  runId : UUID
  goalVersionId : UUID
  version : Nat
  tasks : List Task
  dependencies : List TaskDependency := []
deriving DecidableEq, Repr

namespace TaskPlan

/-- The identifiers of a plan's tasks. -/
def ids (p : TaskPlan) : List UUID := p.tasks.map Task.id

/-- The tasks a task waits for. -/
def prerequisites (p : TaskPlan) (id : UUID) : List UUID :=
  (p.dependencies.filter fun e => e.taskId = id).map TaskDependency.dependsOnTaskId

/-- Take away, round by round, the tasks none of whose prerequisites is left. -/
def peel (p : TaskPlan) : Nat → List UUID → List UUID
  | 0, rest => rest
  | rounds + 1, rest =>
    p.peel rounds (rest.filter fun id => (p.prerequisites id).any fun q => q ∈ rest)

/-- Whether the tasks have a static order: each round takes at least one task away unless
those left wait for each other. -/
def acyclic (p : TaskPlan) : Bool := (p.peel p.tasks.length p.ids).isEmpty

/-- The check every construction of a plan runs. -/
def validateDag (p : TaskPlan) : Except Error Unit :=
  if p.version = 0 ∨ p.tasks = [] then
    .error (.input "Task plan is invalid")
  else if ¬ p.ids.Nodup then
    .error (.input "Task IDs must be unique")
  else if p.tasks.any fun t => t.runId ≠ p.runId ∨ p.version < t.planVersion then
    .error (.input "Tasks must belong to this run and cannot originate in a future plan")
  else if ¬ (p.dependencies.map fun e => (e.taskId, e.dependsOnTaskId)).Nodup then
    .error (.input "Duplicate dependencies")
  else if p.dependencies.any fun e => e.taskId ∉ p.ids ∨ e.dependsOnTaskId ∉ p.ids then
    .error (.input "Dependency references an unknown task")
  else if p.dependencies.any fun e => e.dependencyType ≠ "finish_to_start" then
    .error (.input "Unsupported dependency type")
  else if ¬ p.acyclic then
    .error (.input "Task plan contains a dependency cycle")
  else
    .ok ()

/-- What the check establishes. -/
structure Valid (p : TaskPlan) : Prop where
  version_pos : 0 < p.version
  nonempty : p.tasks ≠ []
  nodup : p.ids.Nodup
  own : ∀ t ∈ p.tasks, t.runId = p.runId ∧ t.planVersion ≤ p.version
  edges_nodup : (p.dependencies.map fun e => (e.taskId, e.dependsOnTaskId)).Nodup
  edges : ∀ e ∈ p.dependencies, e.taskId ∈ p.ids ∧ e.dependsOnTaskId ∈ p.ids
  types : ∀ e ∈ p.dependencies, e.dependencyType = "finish_to_start"
  acyclic : p.acyclic

/-- The check passes exactly the valid plans. -/
theorem validateDag_eq_ok {p : TaskPlan} : p.validateDag = .ok () ↔ p.Valid := by
  unfold validateDag
  constructor
  · intro h
    split_ifs at h with hversion hids hown hedges hknown htypes hacyclic
    exact
      { version_pos := by omega
        nonempty := fun h => hversion (.inr h)
        nodup := by simpa using hids
        own := by simpa [imp_and] using hown
        edges_nodup := by simpa using hedges
        edges := by simpa [imp_and] using hknown
        types := by simpa using htypes
        acyclic := by simpa using hacyclic }
  · intro h
    have hversion : ¬ (p.version = 0 ∨ p.tasks = []) := by
      have := h.version_pos
      have := h.nonempty
      grind
    rw [if_neg hversion, if_neg (by simpa using h.nodup),
      if_neg (by simpa [imp_and] using h.own), if_neg (by simpa using h.edges_nodup),
      if_neg (by simpa [imp_and] using h.edges), if_neg (by simpa using h.types),
      if_neg (by simpa using h.acyclic)]

end TaskPlan

/-- A plan that passed its check. -/
abbrev ValidPlan := { p : TaskPlan // p.validateDag = .ok () }

/-- Check a plan that was put together by hand. -/
def TaskPlan.modelValidate (p : TaskPlan) : Except Error ValidPlan :=
  match h : p.validateDag with
  | .ok () => .ok ⟨p, h⟩
  | .error e => .error e

theorem TaskPlan.modelValidate_eq_ok {p : TaskPlan} {q : ValidPlan} :
    p.modelValidate = .ok q ↔ p = q.1 := by
  unfold modelValidate
  constructor
  · intro h
    split at h
    · cases h
      rfl
    · cases h
  · rintro rfl
    split
    · rfl
    · next e he =>
      rw [q.2] at he
      cases he

/-- A plan that passed its check passes it again. -/
theorem ValidPlan.valid (p : ValidPlan) : p.1.Valid := TaskPlan.validateDag_eq_ok.mp p.2

end Orqalis
