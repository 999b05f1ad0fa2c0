import Orqalis.Lib.Outcome
import Orqalis.Persistence.Capsule
import Orqalis.Persistence.Staging

/-!
# Saving and loading

The state document of an aggregate and the lines of its log give the aggregate back. A
mapping is written sorted and read in that order, so it comes back as the same mapping,
not as the same list.
-/

namespace Orqalis

open Lib Lib.Outcome

/-! ## The same records -/

/-- The equality of records: the same run, log and extensions, and the same mappings. -/
structure Records.Same (r s : Records) : Prop where
  run : r.run = s.run
  goals : r.goals.Same s.goals
  evidence : r.evidence.Same s.evidence
  plans : r.plans.Same s.plans
  tasks : r.tasks.Same s.tasks
  actors : r.actors.Same s.actors
  executions : r.executions.Same s.executions
  phases : r.phases.Same s.phases
  controlPolicy : r.controlPolicy = s.controlPolicy
  approvalRequests : r.approvalRequests.Same s.approvalRequests
  approvalDecisions : r.approvalDecisions.Same s.approvalDecisions
  events : r.events = s.events
  extensions : r.extensions = s.extensions

/-- The equality of aggregates. -/
structure Aggregate.Same (a b : Aggregate) : Prop where
  capsuleId : a.capsuleId = b.capsuleId
  generation : a.generation = b.generation
  records : a.records.Same b.records
  dirty : a.dirty = b.dirty
  isNew : a.isNew = b.isNew
  persisted : a.persistedEventCount = b.persistedEventCount

theorem Records.Same.refl (r : Records) : r.Same r :=
  ⟨rfl, .refl _, .refl _, .refl _, .refl _, .refl _, .refl _, .refl _, rfl, .refl _, .refl _,
    rfl, rfl⟩

theorem Records.Same.symm {r s : Records} (h : r.Same s) : s.Same r :=
  ⟨h.run.symm, h.goals.symm, h.evidence.symm, h.plans.symm, h.tasks.symm, h.actors.symm,
    h.executions.symm, h.phases.symm, h.controlPolicy.symm, h.approvalRequests.symm,
    h.approvalDecisions.symm, h.events.symm, h.extensions.symm⟩

theorem Records.Same.trans {r s t : Records} (h : r.Same s) (h' : s.Same t) : r.Same t :=
  ⟨h.run.trans h'.run, h.goals.trans h'.goals, h.evidence.trans h'.evidence,
    h.plans.trans h'.plans, h.tasks.trans h'.tasks, h.actors.trans h'.actors,
    h.executions.trans h'.executions, h.phases.trans h'.phases,
    h.controlPolicy.trans h'.controlPolicy, h.approvalRequests.trans h'.approvalRequests,
    h.approvalDecisions.trans h'.approvalDecisions, h.events.trans h'.events,
    h.extensions.trans h'.extensions⟩

theorem Aggregate.Same.refl (a : Aggregate) : a.Same a := ⟨rfl, rfl, .refl _, rfl, rfl, rfl⟩

theorem Aggregate.Same.symm {a b : Aggregate} (h : a.Same b) : b.Same a :=
  ⟨h.capsuleId.symm, h.generation.symm, h.records.symm, h.dirty.symm, h.isNew.symm,
    h.persisted.symm⟩

theorem Aggregate.Same.trans {a b c : Aggregate} (h : a.Same b) (h' : b.Same c) : a.Same c :=
  ⟨h.capsuleId.trans h'.capsuleId, h.generation.trans h'.generation,
    h.records.trans h'.records, h.dirty.trans h'.dirty, h.isNew.trans h'.isNew,
    h.persisted.trans h'.persisted⟩

/-! ## Reading back what was written -/

@[simp] theorem Listing.read_of {α : Type} (key : String) (l : List α) :
    (Listing.of l).read key = .ok l := by
  unfold Listing.of Listing.read
  induction l with
  | nil => rfl
  | cons a l ih =>
    simp only at ih
    simp only [List.map_cons, List.mapM_cons, ih]
    rfl

@[simp] theorem mapM_parseEvent (events : List Event) :
    (events.map eventRecord).mapM parseEvent = .ok events := by
  induction events with
  | nil => rfl
  | cons e events ih =>
    simp only [List.map_cons, List.mapM_cons, parseEvent_eventRecord, ih]
    rfl

/-- A line that reads as an event is the line of that event. -/
theorem eventRecord_of_parseEvent {line : EventRecord} {e : Event}
    (h : parseEvent line = .ok e) : line = eventRecord e := by
  obtain ⟨version, body⟩ := line
  unfold parseEvent at h
  split_ifs at h with hversion
  cases body with
  | event e' =>
    cases h
    rw [not_not] at hversion
    exact congrArg (EventRecord.mk · (.event e)) hversion
  | other n => cases h

/-- Lines that read as events are the lines of those events. -/
theorem lines_of_mapM_parseEvent {lines : List EventRecord} {events : List Event}
    (h : lines.mapM parseEvent = .ok events) : lines = events.map eventRecord := by
  have hall := forall₂_of_mapM_eq_ok h
  clear h
  induction hall with
  | nil => rfl
  | cons hline _ ih => rw [List.map_cons, ← eventRecord_of_parseEvent hline, ← ih]

@[simp] theorem Field.optional_of {α : Type} (p : Option α) : (Field.of p).optional = .ok p := by
  cases p <;> rfl

/-- The check of a log accepts exactly the sequenced ones. -/
theorem checkEvents_eq_ok {r : Records} :
    checkEvents r.run r.events = .ok () ↔ r.Sequenced := by
  unfold checkEvents
  rw [ite_error_eq_ok, ite_error_eq_ok]
  constructor
  · intro ⟨hevents, hcursor, _⟩
    rw [not_or, not_not] at hevents
    exact ⟨by simpa using hevents.1, hevents.2, by simpa using hcursor⟩
  · intro h
    exact ⟨not_or.mpr ⟨by simpa using h.own, not_not.mpr h.numbered⟩,
      not_not.mpr h.cursor, rfl⟩

/-- The state document and the log of sequenced records read as those records. -/
theorem StateDocument.records_of (a : Aggregate) (generation : Nat)
    (h : a.records.Sequenced) :
    ∃ r, (a.stateDocument generation).records (a.records.events.map eventRecord) = .ok r ∧
      r.Same a.records := by
  have hcheck := checkEvents_eq_ok.mpr h
  refine ⟨?_, ?load, ?same⟩
  case load =>
    simp only [StateDocument.records, Aggregate.stateDocument, Field.validated,
      Listing.read_of, Field.optional_of, mapM_parseEvent, readExtensions, bind, Except.bind,
      hcheck]
    rfl
  case same =>
    exact
      { run := rfl
        goals := Table.same_ofList_insertionSort ..
        evidence := Table.same_ofList_insertionSort ..
        plans := Table.same_ofList_insertionSort ..
        tasks := Table.same_ofList_insertionSort ..
        actors := Table.same_ofList_insertionSort ..
        executions := Table.same_ofList_insertionSort ..
        phases := Table.same_ofList_insertionSort ..
        controlPolicy := rfl
        approvalRequests := Table.same_ofList_insertionSort ..
        approvalDecisions := Table.same_ofList_insertionSort ..
        events := rfl
        extensions := rfl }

/-- What a load accepts is sequenced, and its lines are those of its events. -/
theorem StateDocument.sequenced_of_records {d : StateDocument} {lines : List EventRecord}
    {r : Records} (h : d.records lines = .ok r) :
    r.Sequenced ∧ lines = r.events.map eventRecord := by
  unfold StateDocument.records at h
  obtain ⟨run, -, h⟩ := bind_eq_ok.mp h
  obtain ⟨goals, -, h⟩ := bind_eq_ok.mp h
  obtain ⟨evidence, -, h⟩ := bind_eq_ok.mp h
  obtain ⟨plans, -, h⟩ := bind_eq_ok.mp h
  obtain ⟨tasks, -, h⟩ := bind_eq_ok.mp h
  obtain ⟨actors, -, h⟩ := bind_eq_ok.mp h
  obtain ⟨executions, -, h⟩ := bind_eq_ok.mp h
  obtain ⟨phases, -, h⟩ := bind_eq_ok.mp h
  obtain ⟨controlPolicy, -, h⟩ := bind_eq_ok.mp h
  obtain ⟨requests, -, h⟩ := bind_eq_ok.mp h
  obtain ⟨decisions, -, h⟩ := bind_eq_ok.mp h
  obtain ⟨events, hevents, h⟩ := bind_eq_ok.mp h
  obtain ⟨_, hcheck, h⟩ := bind_eq_ok.mp h
  obtain ⟨extensions, -, h⟩ := bind_eq_ok.mp h
  cases h
  exact ⟨checkEvents_eq_ok.mp hcheck, lines_of_mapM_parseEvent hevents⟩

end Orqalis
