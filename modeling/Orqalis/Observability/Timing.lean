import Mathlib.Algebra.Order.Sub.Unbundled.Basic
import Orqalis.Core.Timing

/-!
# Conservation of time

The time of a run, an attempt, an actor or a phase is read off the events that concern it
(`TimingSubject.events`). Each event opens an interval that the next one closes, the last one
is closed by the present, and a terminal status closes the sequence.

So the intervals tile the time from the first event to the end (`wallMs_intervals`), each of them
counts for one category (`Balanced`), and once a terminal status is in the sequence neither the
present nor a later event is looked at (`intervals_append`). That the tiles add up needs instants
that are whole milliseconds, since each duration is rounded down by itself.
-/

namespace Orqalis

/-- The events of a run. -/
def runEvents : List EventType :=
  [.runStarted, .runStateChanged, .runPaused, .runResumed, .runBlocked, .runCancelled, .runFailed,
    .runCompleted, .taskStarted]

/-- The times of a run. -/
def runTiming (events : List Event) (now : Time) : TimingBreakdown :=
  intervals (events.filter fun e => e.eventType ∈ runEvents ∨ e.operatorApproval) now

/-- What a projection of times is about. -/
inductive TimingSubject
  | run
  | task (executionId : UUID)
  | actor (actorId : UUID)
  | phase (phaseId : UUID)
deriving DecidableEq, Repr

namespace TimingSubject

/-- The events that concern a subject. -/
def events (log : List Event) : TimingSubject → List Event
  | run => log.filter fun e => e.eventType ∈ runEvents ∨ e.operatorApproval
  | task executionId =>
    log.filter fun e => e.taskExecutionId = some executionId ∧ e.eventType ∈ taskEvents
  | actor actorId => log.filter fun e => e.actorSessionId = some actorId ∧ e.eventType ∈ actorEvents
  | phase phaseId => log.filter fun e => e.payload.phaseExecutionId = some phaseId

/-- The times of a subject. -/
def timing (log : List Event) (now : Time) : TimingSubject → TimingBreakdown
  | run => runTiming log now
  | task executionId => taskTiming log executionId now
  | actor actorId => actorTiming log actorId now
  | phase phaseId => phaseTiming log phaseId now

variable {s : TimingSubject} {log : List Event}

theorem timing_eq (now : Time) : s.timing log now = intervals (s.events log) now := by
  cases s <;> rfl

theorem events_append (later : List Event) :
    s.events (log ++ later) = s.events log ++ s.events later := by
  cases s <;> exact List.filter_append ..

end TimingSubject

/-- Whether an event ends what it is about. -/
def Event.terminal (e : Event) : Bool := e.timingStatus.any (· ∈ terminalStatuses)

/-- When a sequence of events begins. -/
def began (events : List Event) (now : Time) : Time := (events.head?.map Event.occurredAt).getD now

/-- When a sequence of events ends: at the first terminal status, or not before now. -/
def ended (events : List Event) (now : Time) : Time :=
  ((events.find? Event.terminal).map Event.occurredAt).getD now

/-- One event comes no later than another. -/
def NotLater (x y : Event) : Prop := x.occurredAt ≤ y.occurredAt

/-- Whether all instants are whole milliseconds. -/
def WholeMs (events : List Event) (now : Time) : Prop :=
  1000 ∣ now ∧ ∀ e ∈ events, 1000 ∣ e.occurredAt

variable {events : List Event} {now : Time}

/-! ## Each duration counts once -/

/-- The wall time is the sum of its parts. -/
def TimingBreakdown.Balanced (b : TimingBreakdown) : Prop :=
  b.wallMs = b.activeMs + b.waitingMs + b.blockedMs + b.idleMs

/-- No part of a time is longer than in another. -/
structure TimingBreakdown.AtMost (b c : TimingBreakdown) : Prop where
  wall : b.wallMs ≤ c.wallMs
  active : b.activeMs ≤ c.activeMs
  waiting : b.waitingMs ≤ c.waitingMs
  blocked : b.blockedMs ≤ c.blockedMs
  idle : b.idleMs ≤ c.idleMs

theorem TimingBreakdown.AtMost.refl (b : TimingBreakdown) : b.AtMost b :=
  ⟨le_rfl, le_rfl, le_rfl, le_rfl, le_rfl⟩

@[simp] theorem TimingBreakdown.wallMs_add (b : TimingBreakdown) (category : TimingCategory)
    (ms : Nat) : (b.add category ms).wallMs = b.wallMs + ms := by
  cases category <;> rfl

theorem TimingBreakdown.Balanced.add {b : TimingBreakdown} (h : b.Balanced)
    (category : TimingCategory) (ms : Nat) : (b.add category ms).Balanced := by
  unfold Balanced at *
  cases category <;> simp only [TimingBreakdown.add] <;> omega

theorem TimingBreakdown.AtMost.add {b c : TimingBreakdown} (h : b.AtMost c)
    (category : TimingCategory) {m n : Nat} (hmn : m ≤ n) :
    (b.add category m).AtMost (c.add category n) := by
  obtain ⟨hwall, hactive, hwaiting, hblocked, hidle⟩ := h
  cases category <;> constructor <;> simp only [TimingBreakdown.add] <;> omega

theorem intervals_nil : intervals [] now = {} := rfl

theorem intervals_cons (e : Event) (rest : List Event) :
    intervals (e :: rest) now =
      if e.terminal then {}
      else (intervals rest now).add (timingCategory e.timingStatus)
        ((began rest now - e.occurredAt) / 1000) := rfl

theorem intervals_balanced : (intervals events now).Balanced := by
  induction events with
  | nil => rfl
  | cons e rest ih =>
    rw [intervals_cons]
    split_ifs
    · rfl
    · exact ih.add _ _

/-! ## The intervals tile the time -/

theorem ended_cons (e : Event) (rest : List Event) :
    ended (e :: rest) now = if e.terminal then e.occurredAt else ended rest now := by
  unfold ended
  rw [List.find?_cons]
  cases e.terminal <;> rfl

theorem dvd_began (h : WholeMs events now) : 1000 ∣ began events now := by
  cases events with
  | nil => exact h.1
  | cons e rest => exact h.2 e List.mem_cons_self

/-- A sequence does not end before it begins. -/
theorem began_le_ended (hsorted : events.Pairwise NotLater)
    (hnow : ∀ e ∈ events, e.occurredAt ≤ now) : began events now ≤ ended events now := by
  induction events with
  | nil => exact le_rfl
  | cons e rest ih =>
    rw [ended_cons]
    split_ifs with hterminal
    · exact le_rfl
    · obtain ⟨hfirst, hrest⟩ := List.pairwise_cons.mp hsorted
      have hnext : e.occurredAt ≤ began rest now := by
        cases rest with
        | nil => exact hnow e List.mem_cons_self
        | cons f later => exact hfirst f List.mem_cons_self
      exact hnext.trans (ih hrest fun f hf => hnow f (List.mem_cons_of_mem e hf))

/-- The wall time is the time from the first event to the end. -/
theorem wallMs_intervals (hsorted : events.Pairwise NotLater)
    (hnow : ∀ e ∈ events, e.occurredAt ≤ now) (hwhole : WholeMs events now) :
    (intervals events now).wallMs * 1000 = ended events now - began events now := by
  induction events with
  | nil => simp [intervals_nil, ended, began]
  | cons e rest ih =>
    rw [intervals_cons, ended_cons]
    split_ifs with hterminal
    · simp [began]
    · obtain ⟨hfirst, hrest⟩ := List.pairwise_cons.mp hsorted
      have hlater : ∀ f ∈ rest, f.occurredAt ≤ now := fun f hf => hnow f (List.mem_cons_of_mem e hf)
      have hwholeRest : WholeMs rest now :=
        ⟨hwhole.1, fun f hf => hwhole.2 f (List.mem_cons_of_mem e hf)⟩
      have hnext : e.occurredAt ≤ began rest now := by
        cases rest with
        | nil => exact hnow e List.mem_cons_self
        | cons f later => exact hfirst f List.mem_cons_self
      -- the first interval ends where the others begin
      have htile : (began rest now - e.occurredAt) / 1000 * 1000 = began rest now - e.occurredAt :=
        Nat.div_mul_cancel (Nat.dvd_sub (dvd_began hwholeRest) (hwhole.2 e List.mem_cons_self))
      have hordered := began_le_ended hrest hlater
      have hothers := ih hrest hlater hwholeRest
      have hstart : began (e :: rest) now = e.occurredAt := rfl
      rw [TimingBreakdown.wallMs_add, hstart, Nat.add_mul, hothers, htile]
      exact tsub_add_tsub_cancel hordered hnext

/-! ## The present and later events -/

theorem began_mono {later : Time} (h : now ≤ later) : began events now ≤ began events later := by
  cases events with
  | nil => exact h
  | cons e rest => exact le_rfl

/-- As time passes no part gets shorter. -/
theorem intervals_mono {later : Time} (h : now ≤ later) :
    (intervals events now).AtMost (intervals events later) := by
  induction events with
  | nil => exact .refl _
  | cons e rest ih =>
    rw [intervals_cons, intervals_cons]
    split_ifs
    · exact .refl _
    · exact ih.add _ (Nat.div_le_div_right (Nat.sub_le_sub_right (began_mono h) _))

/-- After a terminal status neither later events nor the present count. -/
theorem intervals_append (hterminal : ∃ e ∈ events, e.terminal) (later : List Event)
    (now' : Time) : intervals (events ++ later) now' = intervals events now := by
  induction events with
  | nil => simp at hterminal
  | cons e rest ih =>
    rw [List.cons_append, intervals_cons, intervals_cons]
    split_ifs with hfirst
    · rfl
    · have hrest : ∃ f ∈ rest, f.terminal := by
        obtain ⟨f, hf, hterm⟩ := hterminal
        rcases List.mem_cons.mp hf with rfl | hf
        · exact absurd hterm hfirst
        · exact ⟨f, hf, hterm⟩
      have hnext : began (rest ++ later) now' = began rest now := by
        cases rest with
        | nil => simp at hrest
        | cons f others => rfl
      rw [ih hrest, hnext]

/-- What a projection of times gives for the events that concern its subject. -/
structure TimingConserved (s : TimingSubject) (log : List Event) : Prop where
  wall : ∀ now, (∀ e ∈ s.events log, e.occurredAt ≤ now) → WholeMs (s.events log) now →
    (s.timing log now).wallMs * 1000 = ended (s.events log) now - began (s.events log) now
  balanced : ∀ now, (s.timing log now).Balanced
  monotone : ∀ now later, now ≤ later → (s.timing log now).AtMost (s.timing log later)
  settled : (∃ e ∈ s.events log, e.terminal) → ∀ now now' later,
    s.timing (log ++ later) now' = s.timing log now

/-- Times are conserved for every subject. -/
theorem timing_conserved (s : TimingSubject) (log : List Event)
    (hsorted : (s.events log).Pairwise NotLater) : TimingConserved s log where
  wall := by
    intro now hnow hwhole
    rw [TimingSubject.timing_eq]
    exact wallMs_intervals hsorted hnow hwhole
  balanced := by
    intro now
    rw [TimingSubject.timing_eq]
    exact intervals_balanced
  monotone := by
    intro now later h
    rw [TimingSubject.timing_eq, TimingSubject.timing_eq]
    exact intervals_mono h
  settled := by
    intro hterminal now now' later
    rw [TimingSubject.timing_eq, TimingSubject.timing_eq, TimingSubject.events_append]
    exact intervals_append hterminal _ _

/-- An event of an attempt. -/
def timedEvent (sequence : Nat) (eventType : EventType) (status : String) (ms : Nat) : Event :=
  { projectId := .uuid4 0
    runId := .uuid4 1
    sequence
    eventType
    occurredAt := ms * 1000
    taskExecutionId := some (.uuid4 2)
    payload := { status := some status }
    idempotencyKey := "" }

/-- An attempt that ran, waited and succeeded. -/
def timedLog : List Event :=
  [timedEvent 1 .taskStarted "RUNNING" 5, timedEvent 2 .taskWaiting "WAITING" 8,
    timedEvent 3 .taskCompleted "SUCCEEDED" 10]

theorem timed_conserved : TimingConserved (.task (.uuid4 2)) timedLog ∧
    taskTiming timedLog (.uuid4 2) 20000 = { wallMs := 5, activeMs := 3, waitingMs := 2 } := by
  have hevents : TimingSubject.events timedLog (.task (.uuid4 2)) = timedLog := by decide
  refine ⟨timing_conserved _ _ ?_, by decide⟩
  rw [hevents]
  simp [timedLog, timedEvent, NotLater]

end Orqalis
