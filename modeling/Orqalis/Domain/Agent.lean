import Orqalis.Domain.Base

/-!
# Actors

The sessions that act for a run: the orchestrator itself and the agents its tasks are
assigned to.
-/

namespace Orqalis

/-- Whether an actor coordinates a run or works for it. -/
inductive ActorType
  | orchestrator
  | agent
deriving DecidableEq, Repr

/-- The roles an agent can have. -/
inductive AgentRole
  | requirements
  | architect
  | planner
  | developer
  | tester
  | reviewer
  | changeGuardian
  | repair
  | documentation
  | gitops
  | memoryCurator
deriving DecidableEq, Repr

/-- The word of a role. -/
def AgentRole.value : AgentRole → String
  | requirements => "requirements"
  | architect => "architect"
  | planner => "planner"
  | developer => "developer"
  | tester => "tester"
  | reviewer => "reviewer"
  | changeGuardian => "change_guardian"
  | repair => "repair"
  | documentation => "documentation"
  | gitops => "gitops"
  | memoryCurator => "memory_curator"

/-- The statuses of an actor. -/
inductive ActorStatus
  | starting
  | working
  | waitingForDependency
  | idle
  | blocked
  | failed
  | complete
  | cancelled
deriving DecidableEq, Repr

/-- The word of an actor's status. -/
def ActorStatus.value : ActorStatus → String
  | starting => "STARTING"
  | working => "WORKING"
  | waitingForDependency => "WAITING_FOR_DEPENDENCY"
  | idle => "IDLE"
  | blocked => "BLOCKED"
  | failed => "FAILED"
  | complete => "COMPLETE"
  | cancelled => "CANCELLED"

/-- Whether an actor's work is over. -/
def ActorStatus.terminal : ActorStatus → Bool
  | complete | cancelled | failed => true
  | _ => false

/-- A session of an actor. -/
structure ActorSession where
  id : UUID
  createdAt : Time
  runId : UUID
  actorType : ActorType
  role : Option AgentRole := none
  provider : Option String := none
  model : Option String := none
  status : ActorStatus := .starting
  currentTaskId : Option UUID := none
  startedAt : Time
  completedAt : Option Time := none
  workingMs : Nat := 0
  waitingMs : Nat := 0
  blockedMs : Nat := 0
  loadedSkills : List String := []
  allowedTools : List String := []
  tasksAttempted : Nat := 0
  tasksCompleted : Nat := 0
  tasksFailed : Nat := 0
deriving DecidableEq, Repr

end Orqalis
