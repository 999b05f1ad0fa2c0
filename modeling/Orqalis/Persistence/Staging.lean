import Orqalis.Persistence.Documents

/-!
# What a unit of work can stage

Every change of a loaded aggregate goes through a repository method. A `Staging` is one
call; an aggregate is staged on another when calls lead from one to the other. Whatever
they are, the log only grows at its end and its cursor counts it.
-/

namespace Orqalis

open Lib

variable {safe : String → Bool}

/-- One call of a repository method. -/
inductive Staging (safe : String → Bool) : Records → Records → Prop
  | saveRun {r r' : Records} {run : Run} (hid : run.id = r.run.id)
      (h : r.saveRun run = .ok r') : Staging safe r r'
  | saveGoal {r r' : Records} {contract : GoalContract} (h : r.saveGoal contract = .ok r') :
      Staging safe r r'
  | setCurrentGoal {r r' : Records} {goalId : UUID} (h : r.setCurrentGoal goalId = .ok r') :
      Staging safe r r'
  | saveCriterion (r : Records) (criterion : AcceptanceCriterion) :
      Staging safe r (r.saveCriterion criterion)
  | saveEvaluation {r r' : Records} {criterion : AcceptanceCriterion} {evidence : Evidence}
      (h : r.saveEvaluation criterion evidence = .ok r') : Staging safe r r'
  | append {r r' : Records} {draft : EventDraft} {event : Event}
      (h : r.append safe draft = .ok (event, r')) : Staging safe r r'
  | addTask {r r' : Records} {task : Task} (h : r.addTask task = .ok r') : Staging safe r r'
  | savePlan {r r' : Records} {plan : TaskPlan} (h : r.savePlan plan = .ok r') :
      Staging safe r r'
  | saveTask (r : Records) (task : Task) : Staging safe r (r.saveTask task)
  | saveActor (r : Records) (actor : ActorSession) : Staging safe r (r.saveActor actor)
  | saveExecution (r : Records) (execution : TaskExecution) :
      Staging safe r (r.saveExecution execution)
  | savePhase {r r' : Records} {phase : PhaseExecution} (h : r.savePhase phase = .ok r') :
      Staging safe r r'
  | savePolicy (r : Records) (policy : ControlPolicy) : Staging safe r (r.savePolicy policy)
  | addRequest {r r' : Records} {request : ApprovalRequest}
      (h : r.addRequest request = .ok r') : Staging safe r r'
  | addDecision {r r' : Records} {decision : ApprovalDecision}
      (h : r.addDecision decision = .ok r') : Staging safe r r'
  | saveExtension (r : Records) (extensions : Extensions) :
      Staging safe r { r with extensions }

/-- The log of the records is complete: its events are the run's, numbered from one, and
the cursor counts them. -/
structure Records.Sequenced (r : Records) : Prop where
  own : ∀ e ∈ r.events, e.runId = r.run.id
  numbered : r.events.map Event.sequence = List.range' 1 r.events.length
  cursor : r.run.lastEventSequence = r.events.length

/-- What a call leaves of the records it found: the run's identity and its events, with
others after them. -/
structure Extends (r r' : Records) : Prop where
  id : r'.run.id = r.run.id
  events : r.events <+: r'.events
  sequenced : r.Sequenced → r'.Sequenced

theorem Extends.refl (r : Records) : Extends r r := ⟨rfl, List.prefix_rfl, fun h => h⟩

theorem Extends.trans {r s t : Records} (h : Extends r s) (h' : Extends s t) : Extends r t :=
  ⟨h'.id.trans h.id, h.events.trans h'.events, fun hr => h'.sequenced (h.sequenced hr)⟩

/-- A change that leaves the run's identity, the events and the cursor alone. -/
theorem Extends.of_eq {r r' : Records} (hid : r'.run.id = r.run.id)
    (hcursor : r'.run.lastEventSequence = r.run.lastEventSequence)
    (hevents : r'.events = r.events) : Extends r r' := by
  refine ⟨hid, hevents ▸ List.prefix_rfl, fun h => ⟨?_, ?_, ?_⟩⟩
  · rw [hevents, hid]
    exact h.own
  · rw [hevents]
    exact h.numbered
  · rw [hevents, hcursor]
    exact h.cursor

/-- An appended event is the run's and has the next number. -/
theorem Extends.of_append {r r' : Records} {draft : EventDraft} {event : Event}
    (h : r.append safe draft = .ok (event, r')) : Extends r r' := by
  unfold Records.append at h
  cases hk : r.byKey draft.idempotencyKey with
  | some existing =>
    simp only [hk] at h
    split at h
    · cases h
      exact Extends.refl r
    · cases h
  | none =>
    simp only [hk] at h
    split at h
    · cases h
      refine ⟨rfl, List.prefix_append _ _, fun hr => ⟨?_, ?_, ?_⟩⟩
      · intro e he
        rcases List.mem_append.mp he with he | he
        · exact hr.own e he
        · rw [List.mem_singleton.mp he]
          rfl
      · simp [hr.numbered, List.range'_concat, Records.eventOf, hr.cursor, Nat.add_comm]
      · simp [Records.eventOf, hr.cursor]
    · cases h

theorem Extends.of_saveCriterion (r : Records) (criterion : AcceptanceCriterion) :
    Extends r (r.saveCriterion criterion) := by
  unfold Records.saveCriterion
  split
  · exact Extends.refl r
  · split
    · exact .of_eq rfl rfl rfl
    · exact Extends.refl r

/-- Every call extends the records. -/
theorem Staging.extends {r r' : Records} (h : Staging safe r r') : Extends r r' := by
  cases h with
  | saveRun hid h =>
    unfold Records.saveRun at h
    split at h
    · cases h
    · cases h
      exact .of_eq hid rfl rfl
  | append h => exact .of_append h
  | saveCriterion criterion => exact .of_saveCriterion r criterion
  | @saveEvaluation _ criterion evidence h =>
    unfold Records.saveEvaluation at h
    split at h
    · cases h
      have hput : Extends r { r with evidence := r.evidence.put evidence } :=
        .of_eq rfl rfl rfl
      exact hput.trans (.of_saveCriterion _ criterion)
    · cases h
  | saveTask task =>
    unfold Records.saveTask
    split <;> exact .of_eq rfl rfl rfl
  | saveGoal h =>
    unfold Records.saveGoal at h
    split_ifs at h
    cases h
    exact .of_eq rfl rfl rfl
  | setCurrentGoal h =>
    unfold Records.setCurrentGoal at h
    split_ifs at h
    cases h
    exact .of_eq rfl rfl rfl
  | addTask h =>
    unfold Records.addTask at h
    split_ifs at h
    cases h
    exact .of_eq rfl rfl rfl
  | savePlan h =>
    unfold Records.savePlan at h
    split_ifs at h
    cases h
    exact .of_eq rfl rfl rfl
  | savePhase h =>
    unfold Records.savePhase at h
    split_ifs at h
    cases h
    exact .of_eq rfl rfl rfl
  | addRequest h =>
    unfold Records.addRequest at h
    split_ifs at h
    cases h
    exact .of_eq rfl rfl rfl
  | addDecision h =>
    unfold Records.addDecision at h
    split_ifs at h
    cases h
    exact .of_eq rfl rfl rfl
  | saveActor | saveExecution | savePolicy | saveExtension => exact .of_eq rfl rfl rfl

/-- So does any sequence of calls. -/
theorem Extends.of_calls {r r' : Records}
    (h : Relation.ReflTransGen (Staging safe) r r') : Extends r r' := by
  induction h with
  | refl => exact Extends.refl r
  | tail _ hlast ih => exact ih.trans hlast.extends

/-- The aggregate `a` was staged on `base` by calls of repository methods. -/
structure Staged (safe : String → Bool) (base a : Aggregate) : Prop where
  calls : Relation.ReflTransGen (Staging safe) base.records a.records
  capsuleId : a.capsuleId = base.capsuleId
  generation : a.generation = base.generation
  persisted : a.persistedEventCount = base.persistedEventCount
  isNew : a.isNew = base.isNew
  dirty : a.dirty = true

end Orqalis
