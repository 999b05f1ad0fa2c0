import Orqalis.Lib.Outcome
import Orqalis.Persistence.Documents

/-!
# The documents of a commit

Which documents a commit of an aggregate writes, and what they are made from. Two
documents of one name cannot be written, so the set is a table; a later one of a name
takes the earlier one's place.
-/

namespace Orqalis

open Lib Lib.Outcome

namespace Aggregate

variable (a : Aggregate)

/-- The documents of a context pack. A pack of another project is refused. -/
def contextDocuments (generation : Nat) : Except Error (List (DocumentName × Content)) :=
  match a.records.extensions.context with
  | .absent => .ok []
  | .foreign | .corrupt =>
    .error (.conflict "Task Capsule context projection source is invalid")
  | .document pack =>
    if pack.schemaVersion ≠ taskSchemaVersion ∨
        pack.projectId ≠ a.records.run.projectId.text then
      .error (.conflict "Task Capsule context projection source belongs to another project")
    else
      .ok ([.contextPack, .memoryUsed, .filesUsed, .graphQuery].map fun name =>
        (name, .projection generation (.context pack)))

/-- The order of a phase's executions in their projection. -/
def phaseBefore (x y : PhaseExecution) : Prop :=
  x.iteration < y.iteration ∨
    (x.iteration = y.iteration ∧ createdBefore x.startedAt x.id y.startedAt y.id)

instance : DecidableRel phaseBefore := fun x y => by
  unfold phaseBefore
  infer_instance

/-- The phases of the log, in the order of their projections. -/
def phaseDocuments (generation : Nat) : List (DocumentName × Content) :=
  [UIPhase.context, .goal, .plan, .implement, .test, .review, .repair, .docs, .deliver].filterMap
    fun p =>
      match a.records.phases.entries.filter (fun x => x.phase = p) with
      | [] => none
      | phases =>
        some (.phase p, .projection generation (.phases p (phases.insertionSort phaseBefore)))

/-- The documents of the actors and of the tasks with their attempts. -/
def workerDocuments (generation : Nat) : List (DocumentName × Content) :=
  let r := a.records
  let attempted := (r.executionList.map TaskExecution.taskId).filter fun id => ¬ r.tasks.has id
  r.actors.entries.map (fun x => (.agentSession x.id, .projection generation (.actor x))) ++
    (r.tasks.entries.map Task.id ++ attempted).map fun id =>
      (.subtask id, .projection generation
        (.subtask (r.tasks.get? id) (r.executionList.filter fun e => e.taskId = id)))

/-- The entries a projection shows of a list of an extension: those of the run, sorted. -/
def projectionEntities {α : Type} (createdAt : α → Time) (id owner : α → UUID) (key : String)
    (values : List α) : Except Error (List α) :=
  if values.any fun v => owner v ≠ a.records.run.id then
    .error (.conflict s!"Task Capsule {key} projection source belongs to another run")
  else
    .ok (sortEntities createdAt id values)

/-- The document of a namespace a projection is made from. -/
def projectionExtension {α : Type} (empty : α) (key : String) :
    Extension α → Except Error α
  | .absent | .foreign => .ok empty
  | .document d => .ok d
  | .corrupt => .error (.conflict s!"Task Capsule {key} projection source is invalid")

/-- The summary of a finished run. -/
def finalResult (reviews : List ReviewRecord) (guardians : List ChangeReport)
    (validations : List FinalValidation) (artifacts : List Artifact) (findings : List Finding)
    (delivery : Option GitDelivery) : FinalResult :=
  let r := a.records
  let criteria := match r.currentGoal r.run with
    | some c => c.criteria
    | none => []
  { run := r.run
    goalVersionId := (r.currentGoal r.run).map fun c => c.goal.id
    acceptance := [AcceptanceStatus.pending, .testing, .pass, .fail].map fun s =>
      (s, criteria.countP fun c => c.status = s)
    tasks := [TaskStatus.pending, .ready, .running, .waiting, .blocked, .succeeded, .failed,
      .cancelled, .skipped].map fun s => (s, r.tasks.entries.countP fun t => t.status = s)
    executionAttempts := r.executions.entries.length
    actors := r.actors.entries.length
    evidence := r.evidence.entries.length
    reviews, findings := findings.length, artifacts := artifacts.length
    guardians, validations, delivery }

/-- The documents of the reviews, the delivery and the outcome. -/
def stageDocuments (generation : Nat) : Except Error (List (DocumentName × Content)) := do
  let r := a.records
  let context ← a.contextDocuments generation
  let execution ← projectionExtension {} "reviews" r.extensions.execution
  let extension ← projectionExtension {} "delivery" r.extensions.delivery
  let reviews ← a.projectionEntities ReviewRecord.createdAt ReviewRecord.id ReviewRecord.runId
    "reviews" execution.reviews
  let guardians ← a.projectionEntities ChangeReport.createdAt ChangeReport.id
    ChangeReport.runId "guardians" extension.guardians
  let validations ← a.projectionEntities FinalValidation.createdAt FinalValidation.id
    FinalValidation.runId "validations" extension.validations
  let artifacts ← a.projectionEntities Artifact.createdAt Artifact.id Artifact.runId
    "artifacts" extension.artifacts
  let findings ← a.projectionEntities Finding.createdAt Finding.id Finding.runId
    "findings" extension.findings
  let delivery := extension.gitDelivery
  if delivery.any fun d => d.runId ≠ r.run.id then
    .error (.conflict "Task Capsule Git delivery belongs to another run")
  else
    let current := r.currentGoal r.run
    let evidence := sortEntities Evidence.createdAt Evidence.id r.evidence.entries
    let accepted := ¬ evidence.isEmpty ∨ ¬ reviews.isEmpty ∨ ¬ validations.isEmpty ∨
      current.any fun c => c.criteria.any fun item => item.status ≠ .pending
    let projected (name : DocumentName) (p : Projection) :=
      (name, Content.projection generation p)
    let result := a.finalResult reviews guardians validations artifacts findings delivery
    .ok (context ++ a.phaseDocuments generation ++ a.workerDocuments generation ++
      reviews.map (fun x => projected (.review x.id) (.review x)) ++
      (if findings.isEmpty then [] else [projected .findings (.findings findings)]) ++
      (if guardians.isEmpty then [] else [projected .changeGuardian (.guardians guardians)]) ++
      (if accepted then
        [projected .acceptanceResults (.acceptance current evidence reviews validations)]
      else []) ++
      (if artifacts.isEmpty then [] else [projected .artifactIndex (.artifacts artifacts)]) ++
      (match guardians.getLast? with
        | none => []
        | some report =>
          [projected .changedFiles (.changes report), projected .diffSummary (.changes report)]) ++
      (match delivery with
        | none => []
        | some d => [projected .commit (.delivery d), projected .push (.delivery d)]) ++
      (if r.run.state.terminal then
        [projected .finalResult (.result result), projected .finalSummary (.result result)]
      else []))

/-- The plan a projection shows: the newest, with the current records of its tasks. -/
def newestPlan : Except Error (Option TaskPlan) :=
  match a.records.plans.entries.map TaskPlan.version with
  | [] => .ok none
  | v :: vs => a.records.getPlan (vs.foldl max v)

/-- The documents of a commit. The redactor has to leave the state document alone
(`secretSafe`), or the commit is refused. -/
def documents (secretSafe : StateDocument → Bool) (generation : Nat) :
    Except Error Documents := do
  let r := a.records
  if ¬ secretSafe (a.stateDocument generation) then
    .error (.policyDenied "Task Capsule state cannot contain credentials or private data")
  else
    let projected (name : DocumentName) (p : Projection) :=
      (name, Content.projection generation p)
    let plan ← a.newestPlan
    let staged ← a.stageDocuments generation
    .ok (Table.ofList (
      [(.task, .task a.taskDocument), (.request, .request r.run.requestText),
        (.state, .state (a.stateDocument generation))] ++
      (match r.currentGoal r.run with
        | none => []
        | some c =>
          [projected .goal (.goal c.goal),
            projected .goalAcceptance (.criteria c.goal.id c.criteria)]) ++
      r.goals.entries.map (fun c => projected (.goalVersion c.goal.version) (.contract c)) ++
      (match plan with
        | none => []
        | some p =>
          [projected .planDag (.plan p), projected .planSubtasks (.tasks p.tasks),
            projected .plan (.tasks p.tasks)]) ++
      (if r.controlPolicy.isSome ∨ ¬ r.approvalRequests.entries.isEmpty then
        [projected .approvals (.approvals r.controlPolicy r.requestList)]
      else []) ++
      r.evidence.entries.map (fun e => projected (.evidence e.id) (.evidence e)) ++
      staged))

end Aggregate

/-! ## The documents every commit writes -/

/-- Whether a document is a projection. The others are the metadata, the request and the
state. -/
def DocumentName.projected : DocumentName → Bool
  | task | request | state => false
  | _ => true

namespace Aggregate

variable {a : Aggregate} {generation : Nat} {staged : List (DocumentName × Content)}

theorem contextDocuments_projected (h : a.contextDocuments generation = .ok staged) :
    ∀ d ∈ staged, d.1.projected = true := by
  unfold contextDocuments at h
  split at h
  · cases h
    simp
  · cases h
  · cases h
  · split_ifs at h
    cases h
    simp [DocumentName.projected]

theorem phaseDocuments_projected :
    ∀ d ∈ a.phaseDocuments generation, d.1.projected = true := by
  intro d hd
  obtain ⟨p, -, hp⟩ := List.mem_filterMap.mp hd
  split at hp
  · cases hp
  · cases hp
    rfl

theorem workerDocuments_projected :
    ∀ d ∈ a.workerDocuments generation, d.1.projected = true := by
  intro d hd
  rcases List.mem_append.mp hd with hd | hd
  · obtain ⟨x, -, rfl⟩ := List.mem_map.mp hd
    rfl
  · obtain ⟨id, -, rfl⟩ := List.mem_map.mp hd
    rfl

/-- The documents of the reviews, the delivery and the outcome are projections. -/
theorem stageDocuments_projected (h : a.stageDocuments generation = .ok staged) :
    ∀ d ∈ staged, d.1.projected = true := by
  unfold stageDocuments at h
  obtain ⟨context, hcontext, h⟩ := bind_eq_ok.mp h
  obtain ⟨execution, -, h⟩ := bind_eq_ok.mp h
  obtain ⟨extension, -, h⟩ := bind_eq_ok.mp h
  obtain ⟨reviews, -, h⟩ := bind_eq_ok.mp h
  obtain ⟨guardians, -, h⟩ := bind_eq_ok.mp h
  obtain ⟨validations, -, h⟩ := bind_eq_ok.mp h
  obtain ⟨artifacts, -, h⟩ := bind_eq_ok.mp h
  obtain ⟨findings, -, h⟩ := bind_eq_ok.mp h
  obtain ⟨-, h⟩ := ite_error_eq_ok.mp h
  cases h
  simp only [List.forall_mem_append]
  refine ⟨⟨⟨⟨⟨⟨⟨⟨⟨⟨contextDocuments_projected hcontext, phaseDocuments_projected⟩,
    workerDocuments_projected⟩, ?reviews⟩, ?_⟩, ?_⟩, ?_⟩, ?_⟩, ?_⟩, ?_⟩, ?_⟩
  case reviews =>
    intro d hd
    obtain ⟨x, -, rfl⟩ := List.mem_map.mp hd
    rfl
  all_goals split <;> simp [DocumentName.projected]

/-- A commit writes the metadata, the request and the state, and projections after them. -/
theorem documents_eq_ok {secretSafe : StateDocument → Bool} {documents : Documents}
    (h : a.documents secretSafe generation = .ok documents) :
    ∃ projections : List (DocumentName × Content),
      (∀ d ∈ projections, d.1.projected = true) ∧
      documents = Table.ofList (
        [(.task, .task a.taskDocument), (.request, .request a.records.run.requestText),
          (.state, .state (a.stateDocument generation))] ++ projections) := by
  unfold Aggregate.documents at h
  obtain ⟨-, h⟩ := ite_error_eq_ok.mp h
  obtain ⟨plan, -, h⟩ := bind_eq_ok.mp h
  obtain ⟨staged, hstaged, h⟩ := bind_eq_ok.mp h
  cases h
  simp only [List.append_assoc]
  refine ⟨_, ?_, rfl⟩
  simp only [List.forall_mem_append]
  refine ⟨?_, ?_, ?_, ?_, ?_, stageDocuments_projected hstaged⟩
  · split <;> simp [DocumentName.projected]
  · intro d hd
    obtain ⟨x, -, rfl⟩ := List.mem_map.mp hd
    rfl
  · split <;> simp [DocumentName.projected]
  · split <;> simp [DocumentName.projected]
  · intro d hd
    obtain ⟨x, -, rfl⟩ := List.mem_map.mp hd
    rfl

section Written

variable {secretSafe : StateDocument → Bool} {documents : Documents}

theorem get?_state_documents (h : a.documents secretSafe generation = .ok documents) :
    documents.get? .state = some (.state, .state (a.stateDocument generation)) := by
  obtain ⟨projections, hprojected, rfl⟩ := documents_eq_ok h
  have hother : ∀ d ∈ projections, d.1 ≠ .state := by
    intro d hd hname
    have hd := hprojected d hd
    rw [hname] at hd
    cases hd
  let before : List (DocumentName × Content) :=
    [(.task, .task a.taskDocument), (.request, .request a.records.run.requestText)]
  exact Table.get?_ofList_of_last (l := before) hother

theorem get?_task_documents (h : a.documents secretSafe generation = .ok documents) :
    documents.get? .task = some (.task, .task a.taskDocument) := by
  obtain ⟨projections, hprojected, rfl⟩ := documents_eq_ok h
  have hother : ∀ d ∈ projections, d.1 ≠ .task := by
    intro d hd hname
    have hd := hprojected d hd
    rw [hname] at hd
    cases hd
  refine Table.get?_ofList_of_last (l := ([] : List (DocumentName × Content))) ?_
  rintro d (_ | ⟨_, _ | ⟨_, hd⟩⟩)
  · exact fun h => by cases h
  · exact fun h => by cases h
  · exact hother d hd

end Written

end Aggregate

end Orqalis
