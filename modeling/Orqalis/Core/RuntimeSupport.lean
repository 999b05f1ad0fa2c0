import Orqalis.Core.Primitives
import Orqalis.Core.StateMachine
import Orqalis.Core.Timing

/-!
# What the services share

Emitting an event, the actor of the orchestrator, the status of an actor, and the log of the
phases. `Noted` is what most of this leaves of the records: everything but the log and the
orchestrator's actor.
-/

namespace Orqalis

open Lib Lib.Transaction

/-! ## Keys, runs and events -/

/-- The characters Python strips from the ends of a text. -/
def isSpace (c : Char) : Bool :=
  c.toNat ∈ [0x20, 0x85, 0xa0, 0x1680, 0x2028, 0x2029, 0x202f, 0x205f, 0x3000] ||
    (0x09 ≤ c.toNat && c.toNat ≤ 0x0d) || (0x1c ≤ c.toNat && c.toNat ≤ 0x1f) ||
    (0x2000 ≤ c.toNat && c.toNat ≤ 0x200a)

/-- Whether nothing is left of a text when it is stripped. -/
def isBlank (text : String) : Bool := text.toList.all isSpace

/-- Check a command's key. The bound on its length is not measured: identifiers have longer
texts here than in the program, and the keys it builds of them are within the bound. -/
def requireKey (key : String) : RunTx Unit :=
  failIf (isBlank key) (.input "Command idempotency key must contain 1..120 characters")

/-- The run as a transaction finds it. -/
def lockedRun : RunTx Run := read Records.run

/-- Append an event in the phase of the run. -/
def emit (P : Primitives) (run : Run) (draft : EventDraft) : RunTx Event :=
  update .of fun r => r.append P.safe { draft with phase := some run.uiPhase }

/-- Append an event nothing further is asked of. -/
def note (P : Primitives) (run : Run) (draft : EventDraft) : RunTx Unit := do
  let _ ← emit P run draft

/-! ## Actors -/

/-- The identifier of the orchestrator's actor. -/
def orchestratorId (runId : UUID) : UUID := .uuid5 runId "orchestrator"

/-- The actor of the orchestrator; the first that asks for it makes it. -/
def orchestratorActor (P : Primitives) (run : Run) (now : Time) : RunTx ActorSession := do
  match ← read fun r => r.actors.get? (orchestratorId run.id) with
  | some actor => pure actor
  | none => do
    let actor : ActorSession :=
      { id := orchestratorId run.id
        createdAt := now
        runId := run.id
        actorType := .orchestrator
        status := .idle
        startedAt := now }
    change fun r => r.saveActor actor
    note P run
      { eventType := .actorStarted
        occurredAt := now
        idempotencyKey := "orchestrator:created"
        payload := { status := some actor.status.value }
        actorSessionId := some actor.id }
    pure actor

/-- Give an actor another status. -/
def setActorStatus (P : Primitives) (run : Run) (actor : ActorSession) (status : ActorStatus)
    (key : String) (now : Time) : RunTx ActorSession := do
  let event ← emit P run
    { eventType := if status.terminal then .actorCompleted else .actorStatusChanged
      occurredAt := now
      idempotencyKey := key
      payload :=
        { previousStatus := some actor.status.value, status := some status.value }
      actorSessionId := some actor.id }
  let timing ← read fun r => actorTiming r.events actor.id event.occurredAt
  let updated : ActorSession :=
    { actor with
      status
      completedAt := if status.terminal then some event.occurredAt else none
      workingMs := timing.activeMs
      waitingMs := timing.waitingMs
      blockedMs := timing.blockedMs }
  change fun r => r.saveActor updated
  pure updated

/-! ## Phases -/

/-- The open phase of a run: the last one listed that has not ended. -/
def openPhase (phases : List PhaseExecution) : Option PhaseExecution :=
  phases.reverse.find? fun phase => phase.completedAt = none

/-- End a phase. -/
def endPhase (P : Primitives) (run : Run) (key : String) (now : Time) (status : TaskStatus)
    (current : PhaseExecution) : RunTx Unit := do
  let event ← emit P { run with uiPhase := current.phase }
    { eventType := .phaseCompleted
      occurredAt := now
      idempotencyKey := s!"{key}:phase-end"
      payload := { status := some status.value, phaseExecutionId := some current.id } }
  let timing ← read fun r => phaseTiming r.events current.id event.occurredAt
  stage fun r => r.savePhase
    { current with
      status
      completedAt := some event.occurredAt
      activeMs := timing.activeMs
      waitingMs := timing.waitingMs
      blockedMs := timing.blockedMs }

/-- Begin a phase. -/
def startPhase (P : Primitives) (run : Run) (key : String) (now : Time) (status : TaskStatus)
    (phaseId : UUID) (phases : List PhaseExecution) : RunTx Unit := do
  let current : PhaseExecution :=
    { id := phaseId
      createdAt := now
      runId := run.id
      phase := run.uiPhase
      startedAt := now
      iteration := 1 + phases.countP fun phase => phase.phase = run.uiPhase
      status }
  stage fun r => r.savePhase current
  note P run
    { eventType := .phaseStarted
      occurredAt := now
      idempotencyKey := s!"{key}:phase-start"
      payload := { status := some status.value, phaseExecutionId := some current.id } }

/-- Bring the log of the phases in step with the run. -/
def updatePhase (P : Primitives) (run : Run) (key : String) (now : Time) (status : TaskStatus)
    (terminal : Bool) (phaseId : UUID) : RunTx Unit := do
  let phases ← read Records.phaseList
  match openPhase phases with
  | some current =>
    if current.phase ≠ run.uiPhase ∨ terminal = true then do
      endPhase P run key now (if terminal then status else .succeeded) current
      if terminal then pure () else startPhase P run key now status phaseId phases
    else if current.status ≠ status then do
      stage fun r => r.savePhase { current with status }
      note P run
        { eventType := .phaseStatusChanged
          occurredAt := now
          idempotencyKey := s!"{key}:phase-status"
          payload :=
            { previousStatus := some current.status.value
              status := some status.value
              phaseExecutionId := some current.id } }
    else
      pure ()
  | none => if terminal then pure () else startPhase P run key now status phaseId phases

end Orqalis
