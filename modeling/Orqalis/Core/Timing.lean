import Orqalis.Domain.Event

/-!
# Times read off the log

How long an actor, a task or a phase was active, waiting or blocked, as its events tell: each
status lasts to the next event, and none after a terminal one counts.
-/

namespace Orqalis

/-- The parts of a time, in milliseconds. -/
structure TimingBreakdown where
  wallMs : Nat := 0
  activeMs : Nat := 0
  waitingMs : Nat := 0
  blockedMs : Nat := 0
  idleMs : Nat := 0
deriving DecidableEq, Repr

/-- What a status counts as. -/
inductive TimingCategory
  | active
  | waiting
  | blocked
  | idle
deriving DecidableEq, Repr

/-- The statuses that count as active. -/
def activeStatuses : List String :=
  ["WORKING", "RUNNING", "CONTEXT_SYNC", "ANALYZING", "GOAL_DEFINED", "PLANNED", "EXECUTING",
    "INTEGRATING", "TESTING", "REVIEWING", "REPAIR_PLANNING", "CHANGE_GUARD", "DOCUMENTING",
    "DELIVERY_VALIDATION", "COMMITTING", "PUSHING", "MEMORY_FINALIZATION"]

/-- The statuses that count as waiting. -/
def waitingStatuses : List String :=
  ["WAITING", "WAITING_FOR_DEPENDENCY", "PAUSED", "READY", "STARTING"]

/-- The statuses that count as blocked. -/
def blockedStatuses : List String := ["BLOCKED", "HUMAN_REVIEW_REQUIRED"]

/-- The statuses after which nothing counts. -/
def terminalStatuses : List String :=
  ["SUCCEEDED", "FAILED", "COMPLETE", "COMPLETED", "CANCELLED", "SKIPPED"]

/-- Whether an event is about an operator's approval; attestations of a delivery policy are
not. -/
def Event.operatorApproval (e : Event) : Bool :=
  (e.eventType = .approvalRequested ∨ e.eventType = .approvalRecorded) ∧
    "operator-approval:".toList.isPrefixOf e.idempotencyKey.toList ∧
    e.payload.approvalRequestId.isSome ∧ e.payload.approvalStage.isSome ∧
    e.payload.status ∈ [some "PENDING", some "APPROVED", some "REJECTED"]

/-- The status an event counts by. -/
def Event.timingStatus (e : Event) : Option String :=
  if e.operatorApproval then
    if e.payload.status = some "REJECTED" then some "BLOCKED" else some "WAITING"
  else
    e.payload.status

/-- What a status counts as. -/
def timingCategory (status : Option String) : TimingCategory :=
  if status.any (· ∈ activeStatuses) then
    .active
  else if status.any (· ∈ waitingStatuses) then
    .waiting
  else if status.any (· ∈ blockedStatuses) then
    .blocked
  else
    .idle

/-- Count a duration. -/
def TimingBreakdown.add (b : TimingBreakdown) (category : TimingCategory) (ms : Nat) :
    TimingBreakdown :=
  let b := { b with wallMs := b.wallMs + ms }
  match category with
  | .active => { b with activeMs := b.activeMs + ms }
  | .waiting => { b with waitingMs := b.waitingMs + ms }
  | .blocked => { b with blockedMs := b.blockedMs + ms }
  | .idle => { b with idleMs := b.idleMs + ms }

/-- The times of a sequence of events, up to an instant. -/
def intervals : List Event → Time → TimingBreakdown
  | [], _ => {}
  | e :: rest, now =>
    if e.timingStatus.any (· ∈ terminalStatuses) then
      {}
    else
      let finish := (rest.head?.map Event.occurredAt).getD now
      (intervals rest now).add (timingCategory e.timingStatus) ((finish - e.occurredAt) / 1000)

/-- The events of an actor's session. -/
def actorEvents : List EventType := [.actorStarted, .actorStatusChanged, .actorCompleted]

/-- The events of an attempt. -/
def taskEvents : List EventType :=
  [.taskStarted, .taskWaiting, .taskBlocked, .taskCompleted, .taskFailed, .taskCancelled]

/-- The times of an actor. -/
def actorTiming (events : List Event) (actorId : UUID) (now : Time) : TimingBreakdown :=
  intervals (events.filter fun e => e.actorSessionId = some actorId ∧ e.eventType ∈ actorEvents) now

/-- The times of an attempt. -/
def taskTiming (events : List Event) (executionId : UUID) (now : Time) : TimingBreakdown :=
  intervals
    (events.filter fun e => e.taskExecutionId = some executionId ∧ e.eventType ∈ taskEvents) now

/-- The times of a phase. -/
def phaseTiming (events : List Event) (phaseId : UUID) (now : Time) : TimingBreakdown :=
  intervals (events.filter fun e => e.payload.phaseExecutionId = some phaseId) now

end Orqalis
