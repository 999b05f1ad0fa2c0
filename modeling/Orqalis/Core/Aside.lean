import Orqalis.Lib.Outcome
import Orqalis.Core.Frame

/-!
# The commands beside the work

What the repositories change, and from it what the commands change that neither move a run
nor work on its tasks: each stays within a few parts of the records.
-/

namespace Orqalis

open Lib Lib.Transaction

/-! ## Repositories -/

section Repositories

variable {r r' : Records}

/-- Records with the same run and log differ at most in the parts they differ in. -/
theorem frame_of_same {S : List Part} (hrun : r'.run = r.run) (hevents : r'.events = r.events)
    (hretained : Retained r r')
    (hsame : ∀ p, p ∉ S → p ∉ [Part.endings, .repairs] → p.same r r') : Frame S r r' := by
  refine ⟨⟨by rw [hrun], by rw [hrun], by rw [hrun]⟩, hretained, hevents ▸ List.prefix_refl _,
    fun h => ?_, fun p hp => ?_⟩
  · rwa [Records.Chronological, hevents]
  by_cases hlog : p ∈ [Part.endings, .repairs]
  · rcases List.mem_pair.mp hlog with rfl | rfl
    · exact GrownBy.of_eq hevents
    · exact GrownBy.of_eq hevents
  · exact hsame p hp hlog

/-- Records that differ at most in the stores of some parts. -/
structure StoresApart (S : List Part) (r r' : Records) : Prop where
  run : r'.run = r.run
  staffed : ∀ id, r.actors.has id = true → r'.actors.has id = true
  asked : ∀ id, r.approvalRequests.has id = true → r'.approvalRequests.has id = true
  events : r'.events = r.events
  extensions : r'.extensions = r.extensions
  actors : (.workers ∈ S ∧ .coordinator ∈ S) ∨ r'.actors = r.actors
  goals : .goals ∈ S ∨ r'.goals = r.goals
  evidence : .evidence ∈ S ∨ r'.evidence = r.evidence
  plans : .plans ∈ S ∨ r'.plans = r.plans
  tasks : .tasks ∈ S ∨ r'.tasks = r.tasks
  executions : .executions ∈ S ∨ r'.executions = r.executions
  phases : .phases ∈ S ∨ r'.phases = r.phases
  policy : .policy ∈ S ∨ r'.controlPolicy = r.controlPolicy
  requests : .requests ∈ S ∨ r'.approvalRequests = r.approvalRequests
  decisions : .decisions ∈ S ∨ r'.approvalDecisions = r.approvalDecisions

theorem StoresApart.refl (S : List Part) (r : Records) : StoresApart S r r :=
  ⟨rfl, fun _ h => h, fun _ h => h, rfl, rfl, .inr rfl, .inr rfl, .inr rfl, .inr rfl, .inr rfl,
    .inr rfl, .inr rfl, .inr rfl, .inr rfl, .inr rfl⟩

/-- The extensions of one run answer the same with the same documents. -/
theorem same_of_extensions (hrun : r'.run = r.run) (hextensions : r'.extensions = r.extensions)
    {p : Part} (hp : p ∈ [.reviews, .tools, .workspace, .providers, .certificates, .reports]) :
    p.same r r' := by
  have hexecution : r'.executionDocument = r.executionDocument := by
    unfold Records.executionDocument
    rw [hextensions]
  have hproviders : r'.providerDocument = r.providerDocument := by
    unfold Records.providerDocument
    rw [hextensions]
  have hdelivery : r'.deliveryDocument = r.deliveryDocument := by
    unfold Records.deliveryDocument
    rw [hextensions]
  simp only [List.mem_cons, List.not_mem_nil, or_false] at hp
  rcases hp with rfl | rfl | rfl | rfl | rfl | rfl
  · simp [Part.same, Records.storedReviews, hexecution, hrun]
  · simp [Part.same, Records.storedTools, hexecution, hrun]
  · simp [Part.same, Records.workspace, hexecution, hrun]
  · simp [Part.same, Records.storedProviders, hproviders, hrun]
  · simp [Part.same, Records.storedGuardians, Records.storedValidations, Records.delivery,
      hdelivery, hrun]
  · simp [Part.same, Records.storedArtifacts, Records.storedFindings, hdelivery, hrun]

theorem StoresApart.frame {S : List Part} (h : StoresApart S r r') : Frame S r r' := by
  refine frame_of_same h.run h.events ⟨h.staffed, h.asked⟩ fun p hp hlog => ?_
  have hactor (hactors : r'.actors = r.actors) (id : UUID) : r'.actor id = r.actor id := by
    simp only [Records.actor, hactors]
  cases p with
  | lifecycle => exact congrArg Run.lifecycle h.run
  | currentGoal => exact congrArg Run.currentGoalVersionId h.run
  | goals => exact h.goals.resolve_left hp
  | evidence => exact h.evidence.resolve_left hp
  | plans => exact h.plans.resolve_left hp
  | tasks => exact h.tasks.resolve_left hp
  | workers =>
    intro id _
    exact hactor (h.actors.resolve_left fun h' => hp h'.1) id
  | coordinator => exact hactor (h.actors.resolve_left fun h' => hp h'.2) _
  | executions => exact h.executions.resolve_left hp
  | phases => exact h.phases.resolve_left hp
  | policy => exact h.policy.resolve_left hp
  | requests => exact h.requests.resolve_left hp
  | decisions => exact h.decisions.resolve_left hp
  | endings => simp at hlog
  | repairs => simp at hlog
  | _ => exact same_of_extensions h.run h.extensions (by simp)

theorem frame_goals (goals) : Frame [.goals] r { r with goals } :=
  StoresApart.frame { StoresApart.refl _ r with goals := .inl (by simp) }

theorem frame_evidence (evidence) : Frame [.evidence] r { r with evidence } :=
  StoresApart.frame { StoresApart.refl _ r with evidence := .inl (by simp) }

theorem frame_plans (plans) : Frame [.plans] r { r with plans } :=
  StoresApart.frame { StoresApart.refl _ r with plans := .inl (by simp) }

theorem frame_tasks (tasks) : Frame [.tasks] r { r with tasks } :=
  StoresApart.frame { StoresApart.refl _ r with tasks := .inl (by simp) }

theorem frame_executions (executions) : Frame [.executions] r { r with executions } :=
  StoresApart.frame { StoresApart.refl _ r with executions := .inl (by simp) }

theorem frame_phases (phases) : Frame [.phases] r { r with phases } :=
  StoresApart.frame { StoresApart.refl _ r with phases := .inl (by simp) }

theorem frame_policy (controlPolicy) : Frame [.policy] r { r with controlPolicy } :=
  StoresApart.frame { StoresApart.refl _ r with policy := .inl (by simp) }

theorem frame_putRequest (q : ApprovalRequest) :
    Frame [.requests] r { r with approvalRequests := r.approvalRequests.put q } :=
  StoresApart.frame { StoresApart.refl _ r with
    asked := fun _ h => Table.has_put h
    requests := .inl (by simp) }

theorem frame_decisions (approvalDecisions) : Frame [.decisions] r { r with approvalDecisions } :=
  StoresApart.frame { StoresApart.refl _ r with decisions := .inl (by simp) }

/-- A stored actor is no other part. -/
theorem frame_saveActor (a : ActorSession) : Frame [.workers, .coordinator] r (r.saveActor a) :=
  StoresApart.frame { StoresApart.refl _ r with
    staffed := fun _ h => Table.has_put h
    actors := .inl (by simp) }

theorem actor_saveActor (a : ActorSession) (id : UUID) :
    (r.saveActor a).actor id = if a.id = id then some a.bare else r.actor id := by
  unfold Records.actor Records.saveActor
  rw [Table.get?_put]
  split_ifs <;> rfl

/-- The coordinator's actor is no worker. -/
theorem frame_saveCoordinator {a : ActorSession} (h : a.id = orchestratorId r.run.id) :
    Frame [.coordinator] r (r.saveActor a) := by
  have hsaved := frame_saveActor (r := r) a
  refine ⟨hsaved.identical, hsaved.retained, hsaved.grown, hsaved.timed, fun p hp => ?_⟩
  by_cases hworkers : p = .workers
  · subst hworkers
    intro id hid
    rw [actor_saveActor, if_neg (by rw [h]; exact fun h' => hid h'.symm)]
  · exact hsaved.same p (by simp [hworkers, List.mem_singleton.not.mp hp])

/-- An actor with other equipment is the same actor. -/
theorem frame_equip {a : ActorSession} {id : UUID} {old : ActorSession}
    (hold : r.actors.get? id = some old) (hid : a.id = id) (hbare : a.bare = old.bare) :
    Frame [] r (r.saveActor a) := by
  have hactor : ∀ k, (r.saveActor a).actor k = r.actor k := by
    intro k
    rw [actor_saveActor]
    split_ifs with hk
    · have hk' : r.actor k = some old.bare := by
        unfold Records.actor
        rw [← hk, hid, hold]
        rfl
      rw [hk', hbare]
    · rfl
  have hsaved := frame_saveActor (r := r) a
  refine ⟨hsaved.identical, hsaved.retained, hsaved.grown, hsaved.timed, fun p _ => ?_⟩
  by_cases hactors : p = .workers ∨ p = .coordinator
  · rcases hactors with rfl | rfl
    · exact fun k _ => hactor k
    · exact hactor _
  · exact hsaved.same p (by simpa using hactors)

theorem frame_saveTask (t : Task) : Frame [.tasks] r (r.saveTask t) := by
  unfold Records.saveTask
  split
  · exact frame_tasks _
  · exact Frame.refl _ r

theorem frame_saveExecution (e : TaskExecution) : Frame [.executions] r (r.saveExecution e) :=
  frame_executions _

theorem frame_saveCriterion (c : AcceptanceCriterion) : Frame [.goals] r (r.saveCriterion c) := by
  unfold Records.saveCriterion
  split
  · exact Frame.refl _ r
  · split
    · exact frame_goals _
    · exact Frame.refl _ r

theorem frame_saveGoal {c : GoalContract} (h : r.saveGoal c = .ok r') : Frame [.goals] r r' := by
  unfold Records.saveGoal at h
  split_ifs at h
  cases h
  exact frame_goals _

theorem frame_setCurrentGoal {id : UUID} (h : r.setCurrentGoal id = .ok r') :
    Frame [.currentGoal] r r' := by
  unfold Records.setCurrentGoal at h
  split_ifs at h
  cases h
  refine ⟨⟨rfl, rfl, rfl⟩, .of_eq rfl rfl, List.prefix_refl _, fun h => h, fun p hp => ?_⟩
  cases p with
  | currentGoal => simp at hp
  | workers => exact fun _ _ => rfl
  | endings => exact GrownBy.of_eq rfl
  | repairs => exact GrownBy.of_eq rfl
  | certificates => exact ⟨rfl, rfl, rfl⟩
  | reports => exact ⟨rfl, rfl⟩
  | _ => rfl

theorem frame_saveEvaluation {c : AcceptanceCriterion} {e : Evidence}
    (h : r.saveEvaluation c e = .ok r') : Frame [.goals, .evidence] r r' := by
  unfold Records.saveEvaluation at h
  split_ifs at h
  cases h
  exact ((frame_evidence _).append (frame_saveCriterion c)).mono (by decide)

theorem frame_addTask {t : Task} (h : r.addTask t = .ok r') : Frame [.tasks] r r' := by
  unfold Records.addTask at h
  split_ifs at h
  cases h
  exact frame_tasks _

theorem frame_savePlan {p : TaskPlan} (h : r.savePlan p = .ok r') :
    Frame [.tasks, .plans] r r' := by
  unfold Records.savePlan at h
  split_ifs at h
  cases h
  exact ((frame_tasks (Records.introduce r.tasks p.tasks)).append (frame_plans _)).mono
    (by decide)

theorem frame_savePhase {p : PhaseExecution} (h : r.savePhase p = .ok r') :
    Frame [.phases] r r' := by
  unfold Records.savePhase at h
  split_ifs at h
  cases h
  exact frame_phases _

theorem frame_addRequest {q : ApprovalRequest} (h : r.addRequest q = .ok r') :
    Frame [.requests] r r' := by
  unfold Records.addRequest at h
  split_ifs at h
  cases h
  exact frame_putRequest _

theorem frame_addDecision {d : ApprovalDecision} (h : r.addDecision d = .ok r') :
    Frame [.decisions] r r' := by
  unfold Records.addDecision at h
  split_ifs at h
  cases h
  exact frame_decisions _

theorem frame_saveRun {run : Run} (h : r.saveRun run = .ok r')
    (hid : run.id = r.run.id) (hgoal : run.currentGoalVersionId = r.run.currentGoalVersionId) :
    Frame [.lifecycle] r r' := by
  unfold Records.saveRun at h
  split_ifs at h with hne
  cases h
  have hexecution : ∀ run : Run, run.id = r.run.id →
      ({ r with run } : Records).storedReviews = r.storedReviews ∧
      ({ r with run } : Records).storedTools = r.storedTools ∧
      ({ r with run } : Records).workspace = r.workspace ∧
      ({ r with run } : Records).storedProviders = r.storedProviders := by
    intro run hrun
    simp [Records.storedReviews, Records.storedTools, Records.workspace,
      Records.storedProviders, Records.executionDocument, Records.providerDocument, hrun]
  have hdelivery : ∀ run : Run, run.id = r.run.id →
      (({ r with run } : Records).storedGuardians = r.storedGuardians ∧
        ({ r with run } : Records).storedValidations = r.storedValidations ∧
        ({ r with run } : Records).delivery = r.delivery) ∧
      ({ r with run } : Records).storedArtifacts = r.storedArtifacts ∧
      ({ r with run } : Records).storedFindings = r.storedFindings := by
    intro run hrun
    simp [Records.storedGuardians, Records.storedValidations, Records.delivery,
      Records.storedArtifacts, Records.storedFindings, Records.deliveryDocument, hrun]
  refine ⟨⟨hid, ?_, ?_⟩, .of_eq rfl rfl, List.prefix_refl _, fun h => h, fun p hp => ?_⟩
  · exact not_not.mp fun h' => hne (.inl h')
  · exact not_not.mp fun h' => hne (.inr h')
  · cases p
    case lifecycle => exact absurd (by decide) hp
    case currentGoal => exact hgoal
    case workers => exact fun _ _ => rfl
    case reviews => exact (hexecution _ hid).1
    case tools => exact (hexecution _ hid).2.1
    case workspace => exact (hexecution _ hid).2.2.1
    case providers => exact (hexecution _ hid).2.2.2
    case certificates => exact (hdelivery _ hid).1
    case reports => exact (hdelivery _ hid).2
    case endings => exact GrownBy.of_eq rfl
    case repairs => exact GrownBy.of_eq rfl
    all_goals rfl

/-! ### Extensions -/

section Extensions

/-- What of an execution document a change leaves alone stays in the records. -/
theorem frame_executionDocument {S : List Part} {d d' : ExecutionDocument}
    (h : r.executionDocument = .ok d) (hreviews : .reviews ∈ S ∨ d'.reviews = d.reviews)
    (htools : .tools ∈ S ∨ d'.tools = d.tools)
    (hworkspace : .workspace ∈ S ∨ d'.workspace = d.workspace) :
    Frame S r (r.saveExecutionDocument d') := by
  have h' : (r.saveExecutionDocument d').executionDocument = .ok d' := rfl
  refine frame_of_same rfl rfl (.of_eq rfl rfl) fun p hp hlog => ?_
  cases p
  case reviews =>
    have heq := hreviews.resolve_left hp
    show Records.storedReviews _ = Records.storedReviews _
    unfold Records.storedReviews
    rw [h, h', Outcome.ok_bind, Outcome.ok_bind, heq]
    rfl
  case tools =>
    have heq := htools.resolve_left hp
    show Records.storedTools _ = Records.storedTools _
    unfold Records.storedTools
    rw [h, h', Outcome.ok_bind, Outcome.ok_bind, heq]
    rfl
  case workspace =>
    have heq := hworkspace.resolve_left hp
    show Records.workspace _ = Records.workspace _
    unfold Records.workspace
    rw [h, h', Outcome.ok_bind, Outcome.ok_bind, heq]
    rfl
  case endings => exact absurd (by decide) hlog
  case repairs => exact absurd (by decide) hlog
  case workers => exact fun _ _ => rfl
  case certificates => exact ⟨rfl, rfl, rfl⟩
  case reports => exact ⟨rfl, rfl⟩
  all_goals rfl

theorem frame_providerDocument (d) : Frame [.providers] r
    { r with extensions := { r.extensions with providers := d } } := by
  refine frame_of_same rfl rfl (.of_eq rfl rfl) fun p hp hlog => ?_
  cases p with
  | providers => simp at hp
  | endings => simp at hlog
  | repairs => simp at hlog
  | workers => exact fun _ _ => rfl
  | certificates => exact ⟨rfl, rfl, rfl⟩
  | reports => exact ⟨rfl, rfl⟩
  | _ => rfl

/-- What of a delivery document a change leaves alone stays in the records. -/
theorem frame_deliveryDocument {S : List Part} {d d' : DeliveryDocument}
    (h : r.deliveryDocument = .ok d)
    (hcertificates : .certificates ∈ S ∨ d'.guardians = d.guardians ∧
      d'.validations = d.validations ∧ d'.gitDelivery = d.gitDelivery)
    (hreports : .reports ∈ S ∨ d'.artifacts = d.artifacts ∧ d'.findings = d.findings) :
    Frame S r (r.saveDeliveryDocument d') := by
  have h' : (r.saveDeliveryDocument d').deliveryDocument = .ok d' := rfl
  refine frame_of_same rfl rfl (.of_eq rfl rfl) fun p hp hlog => ?_
  cases p
  case certificates =>
    obtain ⟨hguardians, hvalidations, hdelivery⟩ := hcertificates.resolve_left hp
    refine ⟨?_, ?_, ?_⟩
    · unfold Records.storedGuardians
      rw [h, h', Outcome.ok_bind, Outcome.ok_bind, hguardians]
      rfl
    · unfold Records.storedValidations
      rw [h, h', Outcome.ok_bind, Outcome.ok_bind, hvalidations]
      rfl
    · unfold Records.delivery
      rw [h, h', Outcome.ok_bind, Outcome.ok_bind, hdelivery]
      rfl
  case reports =>
    obtain ⟨hartifacts, hfindings⟩ := hreports.resolve_left hp
    refine ⟨?_, ?_⟩
    · unfold Records.storedArtifacts
      rw [h, h', Outcome.ok_bind, Outcome.ok_bind, hartifacts]
      rfl
    · unfold Records.storedFindings
      rw [h, h', Outcome.ok_bind, Outcome.ok_bind, hfindings]
      rfl
  case endings => exact absurd (by decide) hlog
  case repairs => exact absurd (by decide) hlog
  case workers => exact fun _ _ => rfl
  all_goals rfl

theorem frame_saveReview {x : ReviewRecord} (h : r.saveReview x = .ok r') :
    Frame [.reviews] r r' := by
  unfold Records.saveReview at h
  obtain ⟨values, -, h⟩ := Outcome.bind_eq_ok.mp h
  split_ifs at h
  obtain ⟨d, hd, h⟩ := Outcome.bind_eq_ok.mp h
  cases h
  exact frame_executionDocument hd (.inl (by decide)) (.inr rfl) (.inr rfl)

theorem frame_saveTool {x : ToolInvocation} (h : r.saveTool x = .ok r') :
    Frame [.tools] r r' := by
  unfold Records.saveTool at h
  obtain ⟨values, -, h⟩ := Outcome.bind_eq_ok.mp h
  split_ifs at h
  obtain ⟨d, hd, h⟩ := Outcome.bind_eq_ok.mp h
  cases h
  exact frame_executionDocument hd (.inr rfl) (.inl (by decide)) (.inr rfl)

theorem frame_saveWorkspace {x : RunWorkspace} (h : r.saveWorkspace x = .ok r') :
    Frame [.workspace] r r' := by
  unfold Records.saveWorkspace at h
  obtain ⟨d, hd, h⟩ := Outcome.bind_eq_ok.mp h
  cases h
  exact frame_executionDocument hd (.inr rfl) (.inr rfl) (.inl (by decide))

theorem frame_saveProvider {x : ProviderExecution} (h : r.saveProvider x = .ok r') :
    Frame [.providers] r r' := by
  unfold Records.saveProvider at h
  obtain ⟨values, -, h⟩ := Outcome.bind_eq_ok.mp h
  split_ifs at h
  cases h
  exact frame_providerDocument _

theorem frame_saveGuardian {x : ChangeReport} (h : r.saveGuardian x = .ok r') :
    Frame [.certificates, .reports] r r' := by
  unfold Records.saveGuardian at h
  obtain ⟨values, -, h⟩ := Outcome.bind_eq_ok.mp h
  split_ifs at h
  obtain ⟨findings, -, h⟩ := Outcome.bind_eq_ok.mp h
  obtain ⟨d, hd, h⟩ := Outcome.bind_eq_ok.mp h
  cases h
  exact frame_deliveryDocument hd (.inl (by decide)) (.inl (by decide))

theorem frame_saveValidation {x : FinalValidation} (h : r.saveValidation x = .ok r') :
    Frame [.certificates] r r' := by
  unfold Records.saveValidation at h
  obtain ⟨values, -, h⟩ := Outcome.bind_eq_ok.mp h
  split_ifs at h
  obtain ⟨d, hd, h⟩ := Outcome.bind_eq_ok.mp h
  cases h
  exact frame_deliveryDocument hd (.inl (by decide)) (.inr ⟨rfl, rfl⟩)

theorem frame_saveDelivery {x : GitDelivery} (h : r.saveDelivery x = .ok r') :
    Frame [.certificates] r r' := by
  unfold Records.saveDelivery at h
  obtain ⟨d, hd, h⟩ := Outcome.bind_eq_ok.mp h
  obtain ⟨existing, -, h⟩ := Outcome.bind_eq_ok.mp h
  split_ifs at h
  cases h
  exact frame_deliveryDocument hd (.inl (by decide)) (.inr ⟨rfl, rfl⟩)

theorem frame_saveArtifact {x : Artifact} (h : r.saveArtifact x = .ok r') :
    Frame [.reports] r r' := by
  unfold Records.saveArtifact at h
  obtain ⟨values, -, h⟩ := Outcome.bind_eq_ok.mp h
  obtain ⟨d, hd, h⟩ := Outcome.bind_eq_ok.mp h
  cases h
  exact frame_deliveryDocument hd (.inr ⟨rfl, rfl, rfl⟩) (.inl (by decide))

theorem frame_saveFinding {x : Finding} (h : r.saveFinding x = .ok r') :
    Frame [.reports] r r' := by
  unfold Records.saveFinding at h
  obtain ⟨values, -, h⟩ := Outcome.bind_eq_ok.mp h
  obtain ⟨d, hd, h⟩ := Outcome.bind_eq_ok.mp h
  cases h
  exact frame_deliveryDocument hd (.inr ⟨rfl, rfl, rfl⟩) (.inl (by decide))

end Extensions

end Repositories

/-! ## What the services share -/

section Services

variable {id : UUID} {S : List Part} {α : Type} {P : Primitives} {run : Run} {now : Time}

/-- The orchestrator's actor is the one with its identifier; the first that asks for it makes
it. -/
theorem orchestratorActor_ok {r r' : Records} {a : ActorSession} (hrun : run.id = r.run.id)
    (h : orchestratorActor P run now r = .ok (a, r')) :
    a.id = orchestratorId r.run.id ∧ Frame [.coordinator] r r' ∧
      (∀ b, r.actors.get? (orchestratorId r.run.id) = some b → a = b ∧ r' = r) := by
  unfold orchestratorActor at h
  obtain ⟨o, s, hread, h⟩ := bind_ok.mp h
  obtain ⟨rfl, rfl⟩ := read_ok.mp hread
  rw [hrun] at h
  cases hget : s.actors.get? (orchestratorId s.run.id) with
  | some b =>
    rw [hget] at h
    obtain ⟨rfl, rfl⟩ := pure_ok.mp h
    exact ⟨Table.key_of_get? hget, Frame.refl _ _, fun b hb => ⟨by simpa using hb, rfl⟩⟩
  | none =>
    rw [hget] at h
    obtain ⟨x, t, hchange, h⟩ := bind_ok.mp h
    obtain ⟨y, u, hnote, h⟩ := bind_ok.mp h
    obtain ⟨rfl, rfl⟩ := pure_ok.mp h
    have ht := change_ok.mp hchange
    have hsaved : Frame [.coordinator] s t := by
      rw [ht]
      exact frame_saveCoordinator rfl
    exact ⟨rfl, hsaved.trans (Within.frame (Within.note (quiet_of_apart (by rfl))) hnote),
      fun b hb => absurd hb.symm (Option.some_ne_none b)⟩

theorem Silent.orchestratorActor (P : Primitives) (run : Run) (now : Time) :
    Silent (orchestratorActor P run now) := by
  refine Silent.bind (Silent.read _) fun o => ?_
  split
  · exact Silent.pure _
  · exact Silent.bind (Silent.change _) fun _ => Silent.bind (Silent.note P run _) fun _ =>
      Silent.pure _

theorem Silent.setActorStatus (P : Primitives) (run : Run) (actor : ActorSession)
    (status : ActorStatus) (key : String) (now : Time) :
    Silent (setActorStatus P run actor status key now) :=
  Silent.bind (Silent.emit P run _) fun _ => Silent.bind (Silent.read _) fun _ =>
    Silent.bind (Silent.change _) fun _ => Silent.pure _

theorem Within.coordinated {f : ActorSession → RunTx α} (hrun : run.id = id)
    (hS : Part.coordinator ∈ S) (h : ∀ a, a.id = orchestratorId id → Within id S (f a)) :
    Within id S (orchestratorActor P run now >>= f) := by
  intro r r' hid hr
  obtain ⟨b, s, hactor, hr⟩ := (Silent.orchestratorActor P run now).stored_bind hr
  obtain ⟨hb, hframe, -⟩ := orchestratorActor_ok (hrun.trans hid.symm) hactor
  have hframe : Frame S r s := hframe.mono (by simpa using hS)
  exact hframe.trans (h b (by rw [hb, hid]) s r' (hframe.id.trans hid) hr)

theorem quiet_actor {status : ActorStatus} {d : EventDraft} (hexec : d.taskExecutionId = none)
    (htype : d.eventType = if status.terminal then .actorCompleted else .actorStatusChanged) :
    d.Quiet := by
  refine quiet_of_none hexec fun h => ?_
  rw [htype] at h
  split_ifs at h

theorem Within.setCoordinator {a : ActorSession} {status : ActorStatus} {key : String}
    (ha : a.id = orchestratorId id) (hS : Part.coordinator ∈ S) :
    Within id S (setActorStatus P run a status key now) := by
  refine Within.bind (Within.emit (quiet_actor rfl rfl)) fun event =>
    Within.bind (Within.read _) fun timing => Within.bind ?_ fun _ => Within.pure _
  refine Within.change fun r hid => ?_
  exact (frame_saveCoordinator (by simpa [hid] using ha)).mono (by simpa using hS)

theorem Within.setApprovalActorStatus {requestId : UUID} {status : ApprovalStatus}
    (hrun : run.id = id) (hS : Part.coordinator ∈ S) :
    Within id S (setApprovalActorStatus P run requestId status now) := by
  refine Within.coordinated hrun hS fun a ha => Within.ite (Within.pure ()) (Within.ite ?_ ?_)
  · exact Within.bind (Within.setCoordinator ha hS) fun _ => Within.pure ()
  · exact Within.pure ()

theorem Within.safeFields {digest reason : String} : Within id S (safeFields P digest reason) :=
  Within.bind (Within.failIf _) fun _ => Within.failIf _

theorem Within.validateSubject {stage : ApprovalStage} {version : Nat} :
    Within id S (validateSubject run stage version) :=
  Within.bind (Within.read _) fun _ =>
    Within.ite (Within.failIf _) (Within.ite (Within.pure ()) (Within.failIf _))

theorem Within.addApprovalRequest {stage : ApprovalStage} {version : Nat}
    {digest reason : String} (hrun : run.id = id) :
    Within id [.requests, .coordinator]
      (addApprovalRequest P run stage version digest reason now) := by
  refine Within.bind ?_ fun _ => Within.bind (Within.note (quiet_of_apart (by rfl))) fun _ =>
    Within.bind (Within.setApprovalActorStatus hrun (by decide)) fun _ => Within.pure _
  exact Within.stage fun r r' _ h => (frame_addRequest h).mono (by decide)

theorem Within.prepareApprovalRequest {stage : ApprovalStage} {version : Nat}
    {digest reason : String} (hrun : run.id = id) :
    Within id [.requests, .coordinator]
      (prepareApprovalRequest P run stage version digest reason now) := by
  refine Within.bind Within.safeFields fun _ => Within.bind (Within.read _) fun r =>
    Within.ite (Within.bind Within.validateSubject fun _ => ?_) (Within.pure _)
  split
  · exact Within.pure _
  · exact Within.bind (Within.addApprovalRequest hrun) fun _ => Within.pure _

theorem ApprovalService.ensure_within {stage : ApprovalStage} {version : Nat}
    {digest reason : String} :
    Within id [.requests, .coordinator]
      (ApprovalService.ensure P stage version digest reason now) :=
  Within.bind Within.safeFields fun _ => Within.locked fun _ hrun =>
    Within.bind (Within.prepareApprovalRequest hrun) fun _ => Within.pure _

theorem ApprovalService.decide_within {requestId decisionId : UUID}
    {decision : ApprovalDecisionKind}
    {actor digest reason : String} :
    Within id [.decisions, .coordinator]
      (ApprovalService.decide P requestId decision actor digest reason decisionId now) := by
  refine Within.bind Within.safeFields fun _ => Within.bind (Within.failIf _) fun _ =>
    Within.bind (Within.failIf _) fun _ => Within.locked fun run hrun =>
    Within.bind (Within.read _) fun r => Within.bind (Within.found _ _) fun request =>
    Within.bind (Within.failIf _) fun _ => Within.bind (Within.failIf _) fun _ =>
    Within.bind Within.validateSubject fun _ => ?_
  split
  · exact Within.failIf _
  · refine Within.bind ?_ fun _ => Within.bind (Within.note (quiet_of_apart (by rfl))) fun _ =>
      Within.setApprovalActorStatus hrun (by decide)
    exact Within.stage fun r r' _ h => (frame_addDecision h).mono (by decide)

theorem Within.saveInitialControlPolicy {mode : ControlMode}
    {gates : Option (List ApprovalStage)} :
    Within id [.policy] (saveInitialControlPolicy P run mode gates now) := by
  refine Within.bind (Within.failIf _) fun _ => Within.bind (Within.read _) fun r => ?_
  split
  · exact Within.failIf _
  · refine Within.bind (Within.failIf _) fun _ => Within.bind (Within.failIf _) fun _ =>
      Within.ite (Within.pure ()) (Within.bind ?_ fun _ => Within.note (quiet_of_apart (by rfl)))
    exact Within.change fun r _ => frame_policy _

theorem ApprovalService.configure_within {mode : ControlMode}
    {gates : Option (List ApprovalStage)} :
    Within id [.policy] (ApprovalService.configure P mode gates now) :=
  Within.locked fun _ _ => Within.saveInitialControlPolicy

theorem safeFields_ok {digest reason : String} {r r' : Records} {x : Unit}
    (h : safeFields P digest reason r = .ok (x, r')) : r' = r :=
  (failIf_ok.mp (failIf_bind_ok.mp h).2).2

theorem validateSubject_ok {stage : ApprovalStage} {version : Nat} {r r' : Records} {x : Unit}
    (h : validateSubject run stage version r = .ok (x, r')) : r' = r := by
  unfold validateSubject at h
  rw [read_bind_ok] at h
  split_ifs at h
  · exact (failIf_ok.mp h).2
  · exact (pure_ok.mp h).2
  · exact (failIf_ok.mp h).2

/-- A gate that lets a transaction pass leaves the records alone. -/
theorem requireApproval_ok {stage : ApprovalStage} {version : Nat} {digest reason : String}
    {r r' : Records} {x : Unit}
    (h : requireApproval P run stage version digest reason now r = .ok (x, r')) :
    r' = r ∧ (r.policy.requires stage = true →
      ∃ request, r.getRequest (approvalRequestId run.id stage version digest) = some request ∧
        request.status = .approved) := by
  unfold requireApproval at h
  rw [read_bind_ok] at h
  split_ifs at h with hpolicy
  · obtain ⟨x, t, hsafe, h⟩ := bind_ok.mp h
    obtain rfl := safeFields_ok hsafe
    obtain ⟨y, u, hvalid, h⟩ := bind_ok.mp h
    obtain rfl := validateSubject_ok hvalid
    cases hrequest : Records.getRequest (id u) (approvalRequestId run.id stage version digest) with
    | some request =>
      rw [hrequest] at h
      obtain ⟨hstatus, rfl⟩ := failIf_ok.mp h
      exact ⟨rfl, fun _ => ⟨request, hrequest, not_not.mp hstatus⟩⟩
    | none =>
      rw [hrequest] at h
      obtain ⟨request, v, -, h⟩ := bind_ok.mp h
      exact (commitAndFail_ok.mp h).elim
  · obtain ⟨-, rfl⟩ := pure_ok.mp h
    exact ⟨rfl, fun hrequires => absurd hrequires hpolicy⟩

theorem Within.requireApproval {stage : ApprovalStage} {version : Nat} {digest reason : String}
    (hrun : run.id = id) :
    Within id [.requests, .coordinator]
      (requireApproval P run stage version digest reason now) := by
  refine Within.bind (Within.read _) fun r => Within.ite (Within.bind Within.safeFields fun _ =>
    Within.bind Within.validateSubject fun _ => ?_) (Within.pure ())
  split
  · exact Within.failIf _
  · exact Within.bind (Within.addApprovalRequest hrun) fun _ => Within.commitAndFail _

theorem Reads.requireDeliveryBinding : Reads (requireDeliveryBinding run) :=
  Reads.bind (Reads.read _) fun _ => Reads.bind (Reads.found _ _) fun _ =>
    Reads.ite (Reads.bind (Reads.ask _) fun _ => Reads.failIf _ _) (Reads.pure ())

theorem Reads.guardCommit {target : RunState} {reports : List ChangeReport} :
    Reads (guardCommit run target reports) :=
  Reads.bind (Reads.ask _) fun _ => Reads.bind (Reads.failIf _ _) fun _ =>
    Reads.ite (Reads.pure ()) (Reads.bind (Reads.ask _) fun _ =>
      Reads.bind (Reads.failIf _ _) fun _ => Reads.bind (Reads.failIf _ _) fun _ =>
        Reads.failIf _ _)

theorem Reads.guardImplementation {target : RunState} {review : ReviewRecord} :
    Reads (guardImplementation run target review) :=
  Reads.bind (Reads.ask _) fun _ => Reads.bind (Reads.failIf _ _) fun _ =>
    Reads.ite (Reads.pure ()) (Reads.bind (Reads.ask _) fun _ =>
      Reads.bind (Reads.failIf _ _) fun _ => Reads.ite (Reads.pure ()) Reads.guardCommit)

theorem Reads.guardReview {target : RunState} : Reads (guardReview run target) := by
  refine Reads.bind (Reads.ask _) fun _ => Reads.bind (Reads.failIf _ _) fun _ =>
    Reads.bind (Reads.ask _) fun reviews => ?_
  split
  · exact Reads.fail _
  · exact Reads.bind (Reads.failIf _ _) fun _ => Reads.ite (Reads.pure ())
      Reads.guardImplementation

theorem Reads.guardDelivery {target : RunState} : Reads (guardDelivery run target) := by
  refine Reads.ite (Reads.bind ?_ fun _ => Reads.guardReview)
    (Reads.ite Reads.guardReview (Reads.pure ()))
  exact Reads.bind (Reads.read _) fun _ => Reads.bind (Reads.failIf _ _) fun _ =>
    Reads.bind (Reads.ask _) fun _ => Reads.failIf _ _

end Services

/-! ## Providers and tools -/

section Workers

variable {id : UUID} {P : Primitives} {project : Option Project} {now : Time}

/-- The event of the end of an invocation is under a key of its own kind. -/
theorem quiet_finish (key : String) {d : EventDraft}
    (hkey : d.idempotencyKey = key ++ ":finish") (htype : d.eventType ≠ .repairStarted) :
    d.Quiet := by
  refine quiet_of_key ?_ htype
  rw [hkey, String.toList_append]
  simp

theorem AgentExecution.finish_within {invocation : ProviderExecution}
    {outcome : Except String ProviderResult} :
    Within id [.providers] (AgentExecution.finish P invocation outcome now) := by
  refine Within.locked fun run _ => Within.bind (Within.stage fun r r' _ h => ?_) fun _ =>
    Within.note ?_
  · exact frame_saveProvider h
  · exact quiet_finish s!"provider:{invocation.idempotencyKey}" (by simp [toString])
      (by intro h; cases h)

theorem AgentExecution.replay_within {existing : ProviderExecution} {requestHash : String} :
    Within id [.providers] (AgentExecution.replay P existing requestHash now) := by
  refine Within.bind (Within.failIf _) fun _ => ?_
  split
  · exact Within.pure _
  · exact Within.bind (Within.failIf _) fun _ => Within.bind AgentExecution.finish_within fun _ =>
      Within.commitAndFail _
  · exact Within.fail _

theorem AgentExecution.announceSkills_within {run : Run} {attempt : TaskExecution} {task : Task}
    {actor : ActorSession} {prepared : AgentExecution.Prepared} {invocation : ProviderExecution} :
    Within id [] (AgentExecution.beginInvocation.announceSkills P run attempt task actor prepared
      now invocation) :=
  Within.ite (Within.pure ()) (Within.note (quiet_of_status (by intro word _ h; cases h) (by simp)))

/-- An invocation is stored with its actor's equipment. -/
theorem AgentExecution.beginInvocation_frame {run : Run} {attempt : TaskExecution} {task : Task}
    {actor : ActorSession} {key : String} {prepared : AgentExecution.Prepared}
    {r r' : Records} {x : ProviderExecution} (hactor : r.actors.get? actor.id = some actor)
    (h : AgentExecution.beginInvocation P run attempt task actor key prepared now r =
      .ok (x, r')) :
    Frame [.providers] r r' := by
  unfold AgentExecution.beginInvocation at h
  obtain ⟨s, hs, h⟩ := stage_bind_ok.mp h
  have hprovider : Frame [.providers] r s := frame_saveProvider hs
  have hactors : s.actors = r.actors := by
    unfold Records.saveProvider at hs
    obtain ⟨values, -, hs⟩ := Outcome.bind_eq_ok.mp hs
    split_ifs at hs
    cases hs
    rfl
  rw [change_bind_ok] at h
  have hactor' : s.actors.get? actor.id = some actor := by rw [hactors, hactor]
  have hequip := frame_equip (a := { actor with
      provider := some prepared.provider
      model := some prepared.model
      loadedSkills := prepared.skillRefs
      allowedTools := prepared.allowedTools.map ToolName.value }) hactor' rfl rfl
  have hrest := Within.frame (Within.bind AgentExecution.announceSkills_within fun _ =>
    Within.bind (Within.note (quiet_of_status
      (by simp [settledWords, TaskStatus.value, InvocationStatus.value]) (by simp))) fun _ =>
      Within.pure _) h
  exact hprovider.trans ((hequip.trans hrest).mono (by simp))

theorem Reads.contractOf (run : Run) (executionId : UUID) :
    Reads (AgentExecution.contractOf run executionId) :=
  Reads.bind (Reads.read _) fun _ => Reads.bind (Reads.ask _) fun _ =>
    Reads.bind (Reads.found _ _) fun _ => Reads.bind (Reads.found _ _) fun _ =>
      Reads.bind (Reads.found _ _) fun _ => Reads.pure _

theorem AgentExecution.contractOf_ok {run : Run} {executionId : UUID} {r r' : Records}
    {attempt : TaskExecution} {task : Task} {actor : ActorSession} {plan : Option TaskPlan}
    (h : AgentExecution.contractOf run executionId r = .ok ((attempt, task, actor, plan), r')) :
    r.getPlan run.planVersion = .ok plan ∧ r.executions.get? executionId = some attempt ∧
      r.tasks.get? attempt.taskId = some task ∧
      r.actors.get? attempt.assignedActorSessionId = some actor := by
  unfold AgentExecution.contractOf at h
  rw [read_bind_ok] at h
  obtain ⟨plan', hplan, h⟩ := ask_bind_ok.mp h
  obtain ⟨attempt', hattempt, h⟩ := found_bind_ok.mp h
  obtain ⟨task', htask, h⟩ := found_bind_ok.mp h
  obtain ⟨actor', hactor, h⟩ := found_bind_ok.mp h
  cases h
  exact ⟨hplan, hattempt, htask, hactor⟩

theorem Reads.checkRole (run : Run) (task : Task) (plan : Option TaskPlan) (withTools : Bool) :
    Reads (AgentExecution.checkRole run task plan withTools) :=
  Reads.bind (Reads.failIf _ _) fun _ => Reads.bind (Reads.read _) fun _ =>
    Reads.ite (Reads.failIf _ _) (Reads.failIf _ _)

theorem Silent.beginInvocation (run : Run) (attempt : TaskExecution) (task : Task)
    (actor : ActorSession) (key : String) (prepared : AgentExecution.Prepared) :
    Silent (AgentExecution.beginInvocation P run attempt task actor key prepared now) :=
  Silent.bind (Silent.stage _) fun _ => Silent.bind (Silent.change _) fun _ =>
    Silent.bind (Silent.ite (Silent.pure ()) (Silent.note P run _)) fun _ =>
      Silent.bind (Silent.note P run _) fun _ => Silent.pure _

theorem AgentExecution.start_within {executionId : UUID} {providerId : String}
    {prepared : Except Error AgentExecution.Prepared} {withTools : Bool} {key : String} :
    Within id [.providers]
      (AgentExecution.start P project executionId providerId prepared withTools key now) := by
  refine Within.bind (Within.requireKey key) fun _ => Within.locked fun run _ =>
    Within.bind (Within.found _ _) fun project => Within.bind (Within.failIf _) fun _ => ?_
  intro r r' hid hr
  obtain ⟨⟨attempt, task, actor, plan⟩, hcontract, hr⟩ :=
    (Reads.contractOf run executionId).stored_bind hr
  obtain ⟨-, -, -, hactor⟩ := AgentExecution.contractOf_ok hcontract
  obtain ⟨-, -, hr⟩ := (Reads.checkRole run task plan withTools).stored_bind hr
  obtain ⟨prepared, -, hr⟩ := (Reads.ask _).stored_bind hr
  obtain ⟨providers, -, hr⟩ := (Reads.ask _).stored_bind hr
  split at hr
  · exact AgentExecution.replay_within _ _ hid hr
  · obtain ⟨-, -, hr⟩ := (Reads.failIf _ _).stored_bind hr
    obtain ⟨invocation, t, hbegin, hr⟩ :=
      (Silent.beginInvocation run attempt task actor key prepared).stored_bind hr
    cases hr
    rw [← Table.key_of_get? hactor] at hactor
    exact AgentExecution.beginInvocation_frame hactor hbegin

theorem AgentExecution.complete_within {invocation executionId : UUID}
    {outcome : Except String ProviderResult} :
    Within id [.providers] (AgentExecution.complete P invocation executionId outcome now) :=
  Within.locked fun _ _ => Within.bind (Within.ask _) fun _ => Within.bind (Within.found _ _)
    fun _ => Within.bind (Within.failIf _) fun _ => Within.bind (Within.read _) fun _ =>
      Within.bind (Within.found _ _) fun _ => AgentExecution.finish_within

theorem ToolService.start_within {providerInvocationId : UUID} {call : ProviderToolCall}
    {permitted : List ToolName} {verified : Except Error Unit} :
    Within id [.tools]
      (ToolService.start P project providerInvocationId call permitted verified now) := by
  refine Within.bind (Within.ask _) fun _ => Within.bind (Within.found _ _) fun _ =>
    Within.locked fun run _ => Within.bind (Within.failIf _) fun _ =>
    Within.bind (Within.ask _) fun tools => ?_
  split
  · refine Within.bind (Within.failIf _) fun _ => ?_
    split
    · exact Within.pure _
    · exact Within.fail _
  · refine Within.bind (Within.read _) fun _ => Within.bind (Within.found _ _) fun _ =>
      Within.bind (Within.found _ _) fun _ => Within.bind (Within.ask _) fun _ =>
      Within.bind (Within.found _ _) fun _ => Within.bind (Within.failIf _) fun _ =>
      Within.bind ?_ fun _ => Within.bind (Within.ask _) fun _ =>
      Within.bind ?_ fun _ => Within.pure _
    · exact Within.bind (Within.failIf _) fun _ => Within.bind (Within.failIf _) fun _ =>
        Within.bind (Within.ask _) fun _ => Within.failIf _
    · exact Within.bind (Within.stage fun r r' _ h => frame_saveTool h) fun _ =>
        Within.bind (Within.note (quiet_of_status
          (by simp [settledWords, TaskStatus.value, InvocationStatus.value]) (by simp)))
          fun _ => Within.pure _

theorem ToolService.complete_within {invocation : ToolInvocation}
    {observation : ToolObservation} :
    Within id [.tools] (ToolService.complete P invocation observation now) := by
  refine Within.locked fun run _ => Within.bind (Within.stage fun r r' _ h => ?_) fun _ =>
    Within.note ?_
  · exact frame_saveTool h
  · exact quiet_finish s!"tool:{invocation.id.text}" (by simp [toString])
      (by intro h; cases h)

theorem ensureWorkspace_within {policy : ExecutionPolicy} {path branch baseCommit : String} :
    Within id [.workspace] (ensureWorkspace project policy path branch baseCommit) := by
  refine Within.locked fun run _ => Within.bind (Within.failIf _) fun _ =>
    Within.bind (Within.ask _) fun existing => Within.bind (Within.failIf _) fun _ =>
    Within.bind (Within.failIf _) fun _ => ?_
  split
  · exact Within.bind (Within.failIf _) fun _ => Within.pure _
  · exact Within.bind (Within.stage fun r r' _ h => frame_saveWorkspace h) fun _ =>
      Within.pure _

theorem recordArtifacts_within {attempt : TaskExecution} {files : List ReportedFile} :
    Within id [.reports] (recordArtifacts attempt files now) := by
  refine Within.locked fun run _ => Within.bind (Within.ask _) fun existing =>
    Within.forM fun file _ => ?_
  unfold recordArtifact
  dsimp only
  split
  · exact Within.failIf _
  · exact Within.stage fun r r' _ h => frame_saveArtifact h

theorem ExternalWork.assign_within {attempt : TaskExecution} {refs : List String}
    {tools : List ToolName} :
    Within id [] (ExternalWork.assign P attempt refs tools now) := by
  refine Within.locked fun run _ => ?_
  intro r r' hid hr
  rw [stored_read_bind] at hr
  obtain ⟨actor, hactor, hr⟩ := (Reads.found _ _).stored_bind hr
  obtain ⟨hactor, -⟩ := found_ok.mp hactor
  obtain ⟨x, s, hchange, hr⟩ := (Silent.change _).stored_bind hr
  have hequip : Frame [] r s := by
    have hkey : actor.id = attempt.assignedActorSessionId := Table.key_of_get? hactor
    rw [change_ok.mp hchange]
    exact frame_equip hactor hkey rfl
  refine hequip.trans (Within.stored (Within.bind (Within.note ?_) fun _ =>
    Within.forM fun ref _ => Within.note ?_) hr)
  · exact quiet_of_status (by intro word _ h; cases h) (by simp)
  · exact quiet_of_status (by intro word _ h; cases h) (by simp)

/-- A digest is no word of a status. -/
theorem digest_not_word (digest : Digest) : ∀ word ∈ settledWords, some digest.1 ≠ some word := by
  intro word hword h
  have hlength : digest.1.length = 64 := by
    have := digest.2
    simp only [isDigest, Bool.decide_and, Bool.decide_eq_true, Bool.and_eq_true,
      decide_eq_true_eq] at this
    exact this.1
  rw [Option.some.inj h] at hlength
  simp only [settledWords, List.mem_cons, List.not_mem_nil, or_false] at hword
  rcases hword with rfl | rfl | rfl <;> exact absurd hlength (by decide)

theorem ExternalWork.report_within {executionId : UUID} {result : ExternalWork.WorkerResult}
    {fingerprint : String} {digest : Except Error Digest} {files : List ReportedFile} :
    Within id [.reports]
      (ExternalWork.report P executionId result fingerprint digest files now) := by
  refine Within.locked fun run _ => Within.bind (Within.failIf _) fun _ =>
    Within.bind (Within.read _) fun r => Within.bind (Within.found _ _) fun attempt => ?_
  split
  · exact Within.failIf _
  · exact Within.bind (Within.failIf _) fun _ => Within.bind (Within.failIf _) fun _ =>
      Within.bind (Within.ask _) fun _ => Within.bind (Within.failIf _) fun _ =>
      Within.bind (Within.ask _) fun digest => Within.bind recordArtifacts_within fun _ =>
        Within.note (quiet_of_status (digest_not_word digest) (by simp))

theorem ExternalWork.storeFinding_within {run : Run} {attempt : TaskExecution}
    {report : ExternalWork.FindingReport} {key fingerprint : String} :
    Within id [.reports]
      (ExternalWork.storeFinding P run attempt report key fingerprint now) := by
  refine Within.bind (Within.stage fun r r' _ h => frame_saveFinding h) fun _ =>
    Within.bind (Within.note (quiet_of_status ?_ (by simp))) fun _ => Within.pure _
  cases report.severity <;> simp [settledWords, TaskStatus.value, Severity.value]

theorem ExternalWork.reportFinding_within {executionId : UUID}
    {report : ExternalWork.FindingReport} {fingerprint : String} {located : Except Error Unit}
    {key : String} :
    Within id [.reports]
      (ExternalWork.reportFinding P executionId report fingerprint located key now) := by
  refine Within.bind (Within.requireKey key) fun _ => Within.bind (Within.failIf _) fun _ =>
    Within.locked fun run _ => Within.bind (Within.read _) fun r =>
    Within.bind (Within.found _ _) fun attempt => ?_
  split
  · exact Within.bind (Within.failIf _) fun _ => Within.bind (Within.ask _) fun _ =>
      Within.found _ _
  · exact Within.bind (Within.failIf _) fun _ => Within.bind (Within.failIf _) fun _ =>
      Within.bind (Within.ask _) fun _ => Within.bind (Within.failIf _) fun _ =>
      Within.ite (Within.bind (Within.ask _) fun _ => ExternalWork.storeFinding_within)
        ExternalWork.storeFinding_within

theorem startContext_within : Within id [] (startContext P now) :=
  Within.locked fun _ _ => Within.bind (Within.read _) fun _ =>
    Within.ite (Within.pure ()) (Within.note (quiet_of_apart (by rfl)))

theorem finishContext_within {memoryIds : List UUID} :
    Within id [] (finishContext P memoryIds now) :=
  Within.locked fun _ _ => Within.bind (Within.failIf _) fun _ =>
    Within.bind (Within.note (quiet_of_apart (by rfl))) fun _ =>
      Within.note (quiet_of_apart (by rfl))

end Workers

/-! ## The review and the repair -/

section Reviews

variable {id : UUID} {P : Primitives} {now : Time} {run : Run}

theorem Reads.requireSources {view : SourceView} {checks : List SourceCheck} {e : Error} :
    Reads (ReviewService.requireSources view checks e) :=
  Reads.forM fun _ _ => Reads.bind (Reads.ask _) fun _ => Reads.failIf _ _

theorem Reads.checkReference {goal : GoalContract} {finding : Finding} {view : SourceView}
    {reference : UUID} :
    Reads (ReviewService.checkReference run goal finding view reference) := by
  refine Reads.bind (Reads.read _) fun _ => Reads.bind (Reads.found _ _) fun _ => ?_
  split
  · exact Reads.pure _
  · exact Reads.bind (Reads.failIf _ _) fun _ => Reads.pure _

theorem ReviewService.dispose_within {actorId reviewId : UUID} {goal : GoalContract}
    {view : SourceView} {findings : List Finding} {review : FindingReview} :
    Within id [.reports]
      (ReviewService.dispose P run actorId reviewId goal view findings now review) := by
  refine Within.bind (Within.found _ _) fun finding => Within.bind (Within.failIf _) fun _ =>
    Within.ite ?_ (Within.pure ())
  refine Within.bind (Within.failIf _) fun _ => Within.bind
    (Reads.within (Reads.mapM fun _ _ => Reads.checkReference)) fun verified =>
    Within.bind (Within.failIf _) fun _ => Within.bind Reads.requireSources.within fun _ =>
    Within.bind (Within.stage fun r r' _ h => frame_saveFinding h) fun _ =>
    Within.note (quiet_of_apart (by rfl))

theorem ReviewService.reviewExternalFindings_within {actorId reviewId : UUID}
    {result : ReviewResult} {goal : GoalContract} {view : SourceView} :
    Within id [.reports]
      (ReviewService.reviewExternalFindings P run actorId reviewId result goal view now) :=
  Within.bind (Within.ask _) fun _ => Within.bind (Within.failIf _) fun _ =>
    Within.bind (Within.forM fun _ _ => ReviewService.dispose_within) fun _ =>
    Within.bind (Within.failIf _) fun _ => Within.pure _

theorem ReviewService.judge_within {actorId reviewId : UUID} {goal : GoalContract}
    {view : SourceView} {item : CriterionReview} :
    Within id [.goals, .evidence]
      (ReviewService.judge P run actorId reviewId goal view now item) := by
  refine Within.bind (Within.found _ _) fun criterion => Within.bind
    (Within.bind (Within.read _) fun _ => Within.found _ _) fun evidence => ?_
  split
  · refine Within.ite ?_ (Within.failIf _)
    refine Within.bind (Within.failIf _) fun _ => Within.bind Reads.requireSources.within fun _ =>
      Within.bind (Within.stage fun r r' _ h => frame_saveEvaluation h) fun _ =>
      Within.bind (Within.note (quiet_of_apart (by rfl))) fun _ =>
      Within.note (quiet_of_apart (by rfl))
  · refine Within.bind (Within.failIf _) fun _ =>
      Within.bind (Within.stage fun r r' _ h => frame_saveEvaluation h) fun _ =>
      Within.note (quiet_of_apart (by rfl))

theorem Reads.requireReviewer {actorId : UUID} {result : ReviewResult} :
    Reads (ReviewService.requireReviewer run actorId result) :=
  Reads.bind (Reads.read _) fun _ => Reads.bind (Reads.found _ _) fun _ =>
    Reads.bind (Reads.failIf _ _) fun _ => Reads.bind (Reads.ask _) fun _ => Reads.failIf _ _

theorem Reads.reviewedGoal {result : ReviewResult} :
    Reads (ReviewService.reviewedGoal run result) :=
  Reads.bind (Reads.read _) fun _ => Reads.bind (Reads.ask _) fun _ =>
    Reads.bind (Reads.found _ _) fun _ => Reads.bind (Reads.failIf _ _) fun _ =>
    Reads.bind (Reads.failIf _ _) fun _ => Reads.pure _

theorem ReviewService.storeReview_within {actorId reviewId : UUID} {result : ReviewResult}
    {goal : GoalContract} {view : SourceView} :
    Within id [.reviews]
      (ReviewService.storeReview P run actorId reviewId result goal view now) :=
  Within.bind (Within.ask _) fun _ =>
    Within.bind (Within.stage fun _ _ _ h => frame_saveReview h) fun _ =>
    Within.bind (Within.note (quiet_of_apart (by rfl))) fun _ => Within.pure _

theorem ReviewService.record_within {actorId : UUID} {result : ReviewResult} {key : String}
    {view : SourceView} :
    Within id [.goals, .evidence, .reviews, .reports]
      (ReviewService.record P actorId result key view now) := by
  refine Within.bind (Within.failIf _) fun _ => Within.locked fun run _ =>
    Within.bind (Within.ask _) fun reviews => ?_
  split
  · exact Within.bind (Within.failIf _) fun _ => Within.pure _
  · exact Within.bind Reads.requireReviewer.within fun _ =>
      Within.bind Reads.reviewedGoal.within fun _ =>
      Within.bind (ReviewService.reviewExternalFindings_within.mono (by decide)) fun _ =>
      Within.bind (Within.failIf _) fun _ =>
      Within.bind (Within.forM fun _ _ => ReviewService.judge_within.mono (by decide)) fun _ =>
        ReviewService.storeReview_within.mono (by decide)

theorem RepairCoordinator.request_within {reviewId : UUID} {planVersion : Nat} :
    Within id [] (RepairCoordinator.request P reviewId planVersion now) :=
  Within.locked fun _ _ => Within.note (quiet_of_apart (by rfl))

theorem RepairCoordinator.reportCompletion_within {review : ReviewRecord} :
    Within id [] (RepairCoordinator.reportCompletion P review now) :=
  Within.locked fun _ _ => Within.ite (Within.pure ()) (Within.note (quiet_of_apart (by rfl)))

theorem RepairCoordinator.survey_within : Within id [] (RepairCoordinator.survey P now) :=
  Within.locked fun _ _ => Within.bind (Within.ask _) fun _ => Within.bind (Within.ask _) fun _ =>
    Within.bind (Within.read _) fun _ => Within.bind (Within.found _ _) fun _ =>
    Within.bind (Within.found _ _) fun _ => Within.bind (Within.found _ _) fun _ =>
    Within.bind (Within.failIf _) fun _ => Within.bind (Within.failIf _) fun _ =>
    Within.bind (Within.failIf _) fun _ => Within.ite
      (Within.bind (Within.note (quiet_of_apart (by rfl))) fun _ => Within.pure _) (Within.pure _)

end Reviews

/-! ## The delivery -/

section Delivery

variable {id : UUID} {P : Primitives} {project : Option Project} {now : Time}

theorem bindDelivery_within {fingerprint : String} {request : Option (UUID × String)} :
    Within id [] (bindDelivery P fingerprint request now) :=
  Within.locked fun _ _ => Within.bind (Within.read _) fun _ =>
    Within.ite (Within.pure ()) (Within.note (quiet_of_apart (by rfl)))

theorem Reads.workingActor {actorId : UUID} {role : AgentRole} {message : String} :
    Reads (workingActor actorId role message) :=
  Reads.bind (Reads.read _) fun _ => Reads.found _ _

theorem Reads.objections {policy : DeliveryPolicy} {checkpoint : Checkpoint}
    {reports : List ChangeReport} {inspection : GuardianService.Inspection} {n : Nat} :
    Reads (GuardianService.objections policy checkpoint reports inspection n) := by
  unfold GuardianService.objections
  split
  · exact Reads.pure _
  · exact Reads.bind (Reads.found _ _) fun _ => Reads.pure _

theorem GuardianService.inspect_within {actorId : UUID} {policy : DeliveryPolicy}
    {fingerprint : String} {checkpoint : Checkpoint} {inspection : GuardianService.Inspection}
    {n : Nat} :
    Within id [.certificates, .reports]
      (GuardianService.inspect P actorId policy fingerprint checkpoint inspection n now) := by
  refine Within.locked fun run _ => Within.bind Reads.workingActor.within fun _ =>
    Within.bind (Within.ask _) fun _ => Within.bind (Within.failIf _) fun _ =>
    Within.bind (Within.read _) fun _ => Within.bind (Within.failIf _) fun _ =>
    Within.bind (Within.ask _) fun reports => Within.bind Reads.objections.within fun flags => ?_
  dsimp only
  split
  · exact Within.pure _
  · exact Within.bind (Within.stage fun _ _ _ h => frame_saveGuardian h) fun _ =>
      Within.bind (Within.note (quiet_of_apart (by rfl))) fun _ => Within.pure _

theorem writeDocumentation_within {actorId : UUID} {report : ChangeReport}
    {written : Except Error (String × String)} {intact : Bool} :
    Within id [.reports] (writeDocumentation P actorId report written intact now) := by
  refine Within.locked fun run _ => Within.bind (Within.read _) fun _ =>
    Within.bind (Within.ask _) fun _ => Within.bind (Within.ask _) fun _ =>
    Within.bind (Within.found _ _) fun review => Within.bind Reads.workingActor.within fun _ =>
    Within.bind (Within.failIf _) fun _ => Within.bind (Within.ask _) fun artifacts => ?_
  split
  · exact Within.bind (Within.failIf _) fun _ => Within.pure _
  · exact Within.bind (Within.ask _) fun _ =>
      Within.bind (Within.stage fun _ _ _ h => frame_saveArtifact h) fun _ =>
      Within.bind (Within.note (quiet_of_apart (by rfl))) fun _ => Within.pure _

theorem FinalValidationService.record_within {attempt : TaskExecution} {goalId : UUID}
    {evidenceIds : List UUID} {outcome : FinalValidationService.Outcome} :
    Within id [.certificates]
      (FinalValidationService.record P attempt goalId evidenceIds outcome now) := by
  refine Within.locked fun run _ => Within.bind (Within.read _) fun _ =>
    Within.bind (Within.found _ _) fun _ => Within.bind (Within.ask _) fun reviews =>
    Within.bind (Within.stage fun _ _ _ h => frame_saveValidation h) fun _ =>
    Within.bind (Within.note (quiet_of_status ?_ (by simp))) fun _ => Within.pure _
  dsimp only
  split_ifs <;> simp [settledWords, TaskStatus.value, Verdict.value]

theorem CommitService.begin_within {policy : DeliveryPolicy} {actorId : UUID}
    {name email : String} {tree : Except Error String} :
    Within id [.certificates]
      (CommitService.begin' P project policy actorId name email tree now) := by
  refine Within.locked fun run _ => Within.bind (Within.failIf _) fun _ =>
    Within.bind Reads.workingActor.within fun _ => Within.bind Reads.guardDelivery.within fun _ =>
    Within.bind (Within.ask _) fun _ => Within.bind (Within.found _ _) fun _ =>
    Within.bind (Within.found _ _) fun _ => Within.bind (Within.failIf _) fun _ =>
    Within.bind (Within.ask _) fun delivery => Within.bind (Within.failIf _) fun _ =>
    Within.bind (Within.bind (Within.read _) fun _ =>
      Within.ite (Within.note (quiet_of_apart (by rfl))) (Within.pure ())) fun _ => ?_
  unfold CommitService.storeIntent
  split
  · exact Within.pure _
  · exact Within.bind (Within.ask _) fun _ => Within.bind (Within.found _ _) fun _ =>
      Within.bind (Within.ask _) fun _ => Within.bind (Within.read _) fun _ =>
      Within.bind (Within.found _ _) fun _ =>
      Within.bind (Within.stage fun _ _ _ h => frame_saveDelivery h) fun _ => Within.pure _

theorem CommitService.created_within {delivery : GitDelivery} {sha : String} :
    Within id [.certificates] (CommitService.created delivery sha) :=
  Within.locked fun _ _ => Within.stage fun _ _ _ h => frame_saveDelivery h

theorem CommitService.attach_within {delivery : GitDelivery} {actorId : UUID} :
    Within id [.certificates] (CommitService.attach P delivery actorId now) :=
  Within.locked fun _ _ => Within.bind (Within.stage fun _ _ _ h => frame_saveDelivery h)
    fun _ => Within.note (quiet_of_apart (by rfl))

theorem CommitService.pushed_within {delivery : GitDelivery} {actorId : UUID} :
    Within id [.certificates] (CommitService.pushed P delivery actorId now) :=
  Within.locked fun _ _ => Within.bind (Within.stage fun _ _ _ h => frame_saveDelivery h)
    fun _ => Within.note (quiet_of_apart (by rfl))

theorem promoteMemory_within {actorId : UUID} {proposal : String} {approved : Bool} :
    Within id [] (promoteMemory P actorId proposal approved now) := by
  refine Within.locked fun run _ => Within.bind (Within.failIf _) fun _ =>
    Within.bind Reads.guardDelivery.within fun _ => Within.bind (Within.read _) fun r => ?_
  split
  · exact Within.pure _
  · exact Within.bind (Within.note (quiet_of_apart (by rfl))) fun _ => Within.pure _

end Delivery

/-! ## Goals -/

section Goals

variable {id : UUID} {P : Primitives} {now : Time}

theorem Reads.contract {runId : UUID} {draft : GoalDraft} {version : Nat}
    {supersedes : Option UUID} {reason : Option String} {n : Nat} :
    Reads (GoalService.contract P runId draft version supersedes reason n now) :=
  Reads.bind (Reads.failIf _ _) fun _ => Reads.pure _

theorem GoalService.announceGoal_within {run : Run} {contract : GoalContract}
    {reason : Option String} {attempt : Option TaskExecution}
    (hcriteria : ∀ item ∈ contract.criteria, item.status = .pending) :
    Within id [] (GoalService.announceGoal P run contract reason attempt now) := by
  refine Within.bind (Within.note ?_) fun _ => Within.forM fun item hitem => Within.note ?_
  · exact quiet_of_status (by intro word _ h; cases h) (by simp)
  · refine quiet_of_status ?_ (by simp)
    dsimp only
    rw [hcriteria item hitem]
    simp [settledWords, TaskStatus.value, AcceptanceStatus.value]

/-- The criteria of a new contract are pending. -/
theorem GoalService.contractOf_pending {runId : UUID} {draft : GoalDraft} {version : Nat}
    {supersedes : Option UUID} {reason : Option String} {n : Nat} :
    ∀ item ∈ (GoalService.contractOf runId draft version supersedes reason n now).criteria,
      item.status = .pending := by
  intro item hitem
  obtain ⟨i, hi, rfl⟩ := List.mem_mapIdx.mp hitem
  rfl

theorem Reads.requirementsAttempt {executionId : UUID} {draft : GoalDraft} :
    Reads (GoalService.requirementsAttempt executionId draft) :=
  Reads.bind (Reads.read _) fun _ => Reads.bind (Reads.failIf _ _) fun _ =>
    Reads.bind (Reads.found _ _) fun _ => Reads.bind (Reads.ask _) fun _ =>
    Reads.bind (Reads.failIf _ _) fun _ => Reads.pure _

theorem contract_ok {runId : UUID} {draft : GoalDraft} {version : Nat}
    {supersedes : Option UUID} {reason : Option String} {n : Nat} {c : GoalContract}
    {r r' : Records}
    (h : GoalService.contract P runId draft version supersedes reason n now r = .ok (c, r')) :
    c = GoalService.contractOf runId draft version supersedes reason n now := by
  obtain ⟨-, h⟩ := failIf_bind_ok.mp h
  exact (pure_ok.mp h).1

theorem GoalService.defineInitial_within {executionId : UUID} {draft : GoalDraft} {n : Nat} :
    Within id [.goals, .currentGoal]
      (GoalService.defineInitial P executionId draft n now) := by
  refine Within.locked fun run _ => Within.bind (Within.failIf _) fun _ =>
    Within.bind (Within.read _) fun r => Within.ite ?_ ?_
  · exact Within.bind (Within.found _ _) fun _ => Within.bind (Within.failIf _) fun _ =>
      Within.pure _
  · refine Within.bind Reads.requirementsAttempt.within fun attempt => ?_
    intro s s' hid hs
    obtain ⟨c, hc, hs⟩ := Reads.contract.stored_bind hs
    obtain rfl := contract_ok hc
    refine Within.stored (Within.bind (Within.stage fun _ _ _ h => (frame_saveGoal h).mono
      (by decide)) fun _ => Within.bind (Within.stage fun _ _ _ h =>
      (frame_setCurrentGoal h).mono (by decide)) fun _ => Within.bind
      ((GoalService.announceGoal_within GoalService.contractOf_pending).mono (by decide))
      fun _ => Within.pure _) hs

theorem GoalService.revise_within {draft : GoalDraft} {reason : String}
    {expectedVersion n : Nat} :
    Within id [.goals, .currentGoal]
      (GoalService.revise P draft reason expectedVersion n now) := by
  refine Within.bind (Within.failIf _) fun _ => Within.locked fun run _ =>
    Within.bind (Within.failIf _) fun _ => Within.bind (Within.failIf _) fun _ =>
    Within.bind (Within.read _) fun r => Within.bind (Within.failIf _) fun _ =>
    Within.bind (Within.found _ _) fun current => ?_
  intro s s' hid hs
  obtain ⟨c, hc, hs⟩ := Reads.contract.stored_bind hs
  obtain rfl := contract_ok hc
  refine Within.stored (Within.bind (Within.stage fun _ _ _ h => (frame_saveGoal h).mono
    (by decide)) fun _ => Within.bind (Within.stage fun _ _ _ h =>
    (frame_setCurrentGoal h).mono (by decide)) fun _ => Within.bind
    ((GoalService.announceGoal_within GoalService.contractOf_pending).mono (by decide))
    fun _ => Within.pure _) hs

theorem Reads.validatedGoal {run : Run} : Reads (GoalService.validatedGoal run) :=
  Reads.bind (Reads.read _) fun _ => Reads.bind (Reads.failIf _ _) fun _ => Reads.found _ _

theorem Reads.validatingAttempt {executionId : Option UUID} :
    Reads (GoalService.validatingAttempt executionId) := by
  refine Reads.bind (Reads.read _) fun _ => ?_
  split
  · exact Reads.pure _
  · exact Reads.bind (Reads.found _ _) fun _ => Reads.pure _

theorem GoalService.startValidation_within {criterionKey key : String}
    {executionId : Option UUID} :
    Within id [.goals] (GoalService.startValidation P criterionKey key executionId now) := by
  refine Within.bind (Within.failIf _) fun _ => Within.locked fun run _ =>
    Within.bind Reads.validatedGoal.within fun contract => Within.bind (Within.found _ _)
    fun criterion => Within.bind (Within.read _) fun r => ?_
  split
  · exact Within.pure _
  · refine Within.bind (Within.failIf _) fun _ => Within.bind Reads.validatingAttempt.within
      fun attempt => Within.bind (Within.change fun r _ => frame_saveCriterion _) fun _ =>
      Within.bind (Within.note (quiet_of_status ?_ (by simp))) fun _ => Within.pure _
    simp [settledWords, TaskStatus.value, AcceptanceStatus.value]

theorem GoalService.announceOutcome_within {run : Run} {evidence : Evidence}
    {status : AcceptanceStatus} {actorId : Option UUID} :
    Within id [] (GoalService.announceOutcome P run evidence status actorId) := by
  have hwords : ∀ word ∈ settledWords, some status.value ≠ some word := by
    cases status <;> simp [settledWords, TaskStatus.value, AcceptanceStatus.value]
  refine Within.bind (Within.note (quiet_of_status hwords (by simp))) fun _ =>
    Within.bind (Within.note (quiet_of_status hwords (by simp))) fun _ => Within.ite
      (Within.note (quiet_of_status hwords ?_)) (Within.pure ())
  dsimp only
  split_ifs <;> simp

theorem GoalService.finishValidation_within {criterion : AcceptanceCriterion} {key : String}
    {actorId taskId executionId : Option UUID}
    {observation : Except String ValidationObservation} :
    Within id [.goals, .evidence]
      (GoalService.finishValidation P criterion key actorId taskId executionId observation now) :=
  Within.locked fun _ _ => Within.bind (Within.failIf _) fun _ => Within.bind (Within.read _)
    fun _ => Within.bind (Within.found _ _) fun _ => Within.bind (Within.found _ _) fun _ =>
    Within.bind (Within.stage fun _ _ _ h => frame_saveEvaluation h) fun _ =>
    Within.bind (GoalService.announceOutcome_within.mono (by decide)) fun _ => Within.pure _

end Goals

end Orqalis
