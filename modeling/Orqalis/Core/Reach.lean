import Orqalis.Core.Aside

/-!
# How far a command reaches

What the commands that move a run and work on its tasks change, and from it, for every
command, the parts of the records it can change at all.
-/

namespace Orqalis

open Lib Lib.Transaction

/-! ## Tasks and attempts -/

section Work

variable {id : UUID} {P : Primitives} {run : Run} {now : Time} {S : List Part}

theorem Silent.markReady {key : String} {task : Task} : Silent (markReady P run key now task) :=
  Silent.ite (Silent.bind (Silent.change _) fun _ => Silent.note P run _) (Silent.pure ())

theorem Silent.refreshReady {key : String} : Silent (refreshReady P run key now) := by
  refine Silent.bind (Silent.ask _) fun plan => ?_
  split
  · exact Silent.pure ()
  · exact Silent.forM fun _ _ => Silent.markReady

theorem refreshReady_within {key : String} : Within id [.tasks] (refreshReady P run key now) := by
  refine Within.bind (Within.ask _) fun plan => ?_
  split
  · exact Within.pure ()
  · exact Within.forM fun task _ => Within.ite (Within.bind (Within.change fun _ _ =>
      frame_saveTask _) fun _ => Within.note (quiet_of_apart (by rfl))) (Within.pure ())

theorem setActorStatus_within {actor : ActorSession} {status : ActorStatus} {key : String} :
    Within id [.workers, .coordinator] (setActorStatus P run actor status key now) :=
  Within.bind (Within.emit (quiet_actor rfl rfl)) fun _ => Within.bind (Within.read _) fun _ =>
    Within.bind (Within.change fun _ _ => frame_saveActor _) fun _ => Within.pure _

theorem TaskRuntime.launch_within {task : Task} {key : String} (hrun : run.id = id) :
    Within id [.executions, .tasks, .workers, .coordinator]
      (TaskRuntime.launch P run task key now) := by
  refine Within.bind (Within.change fun _ _ => (frame_saveActor _).mono (by decide)) fun _ =>
    Within.bind (Within.change fun _ _ => (frame_saveExecution _).mono (by decide)) fun _ =>
    Within.bind (Within.change fun _ _ => (frame_saveTask _).mono (by decide)) fun _ =>
    Within.bind (Within.note (quiet_of_status ?_ (by simp))) fun _ =>
    Within.bind (Within.note (quiet_of_status (by simp [settledWords, TaskStatus.value])
      (by simp))) fun _ =>
    Within.coordinated hrun (by decide) fun a ha =>
    Within.bind (Within.setCoordinator ha (by decide)) fun _ => Within.pure _
  simp [settledWords, TaskStatus.value, ActorStatus.value]

theorem Silent.launch {task : Task} {key : String} :
    Silent (TaskRuntime.launch P run task key now) :=
  Silent.bind (Silent.change _) fun _ => Silent.bind (Silent.change _) fun _ =>
    Silent.bind (Silent.change _) fun _ => Silent.bind (Silent.note _ _ _) fun _ =>
    Silent.bind (Silent.note _ _ _) fun _ => Silent.bind (Silent.orchestratorActor _ _ _) fun _ =>
    Silent.bind (Silent.setActorStatus _ _ _ _ _ _) fun _ => Silent.pure _

theorem Reads.startable {plan : Option TaskPlan} {taskId : UUID} :
    Reads (TaskRuntime.startable run plan taskId) :=
  Reads.bind (Reads.read _) fun _ => Reads.ite
    (Reads.bind (Reads.failIf _ _) fun _ => Reads.found _ _)
    (Reads.bind (Reads.failIf _ _) fun _ => Reads.found _ _)

theorem TaskRuntime.requireTaskApproval_within {task : Task} (hrun : run.id = id) :
    Within id [.requests, .coordinator] (TaskRuntime.requireTaskApproval P run task now) := by
  refine Within.bind (Within.read _) fun r => Within.ite (Within.ite
    (Within.requireApproval hrun) (Within.bind (Within.ask _) fun workspace => ?_))
    (Within.pure ())
  split
  · exact Within.fail _
  · exact Within.requireApproval hrun

theorem TaskRuntime.start_within {taskId : UUID} {key : String} :
    Within id [.executions, .tasks, .workers, .coordinator, .requests]
      (TaskRuntime.start P taskId key now) := by
  refine Within.bind (Within.requireKey key) fun _ => Within.locked fun run hrun =>
    Within.bind (Within.read _) fun r => ?_
  split
  · exact Within.bind (Within.failIf _) fun _ => Within.found _ _
  · exact Within.bind (Within.failIf _) fun _ => Within.bind (Within.ask _) fun plan =>
      Within.bind Reads.startable.within fun task => Within.bind
      ((TaskRuntime.requireTaskApproval_within hrun).mono (by decide)) fun _ =>
      Within.bind (Within.failIf _) fun _ =>
        (TaskRuntime.launch_within hrun).mono (by decide)

theorem Silent.coordinate {status : TaskStatus} {key : String} :
    Silent (TaskRuntime.coordinate P run status key now) :=
  Silent.ite (Silent.bind (Silent.read _) fun _ => Silent.bind (Silent.orchestratorActor _ _ _)
    fun _ => Silent.bind (Silent.setActorStatus _ _ _ _ _ _) fun _ => Silent.pure ())
    (Silent.pure ())

theorem TaskRuntime.coordinate_within {status : TaskStatus} {key : String} (hrun : run.id = id) :
    Within id [.coordinator] (TaskRuntime.coordinate P run status key now) :=
  Within.ite (Within.bind (Within.read _) fun _ => Within.coordinated hrun (by decide)
    fun _ ha => Within.bind (Within.setCoordinator ha (by decide)) fun _ => Within.pure ())
    (Within.pure ())

theorem Silent.settle {execution : TaskExecution} {status : TaskStatus} {key : String} :
    Silent (TaskRuntime.settle P run execution status key now) :=
  Silent.bind (Silent.read _) fun _ => Silent.bind (Silent.found _ _) fun _ =>
    Silent.bind (Silent.found _ _) fun _ => Silent.bind (Silent.emit _ _ _) fun _ =>
    Silent.bind (Silent.read _) fun _ => Silent.bind (Silent.change _) fun _ =>
    Silent.bind (Silent.change _) fun _ => Silent.bind (Silent.setActorStatus _ _ _ _ _ _)
    fun _ => Silent.bind Silent.coordinate fun _ =>
    Silent.bind (Silent.ite Silent.refreshReady (Silent.pure ())) fun _ => Silent.pure _

theorem attemptEvent_ne {status : TaskStatus} : attemptEvent status ≠ .repairStarted := by
  cases status <;> simp [attemptEvent]

theorem TaskRuntime.settle_within {execution : TaskExecution} {status : TaskStatus}
    {key : String} (hrun : run.id = id) :
    Within id [.executions, .tasks, .workers, .coordinator, .endings]
      (TaskRuntime.settle P run execution status key now) :=
  Within.bind (Within.read _) fun _ => Within.bind (Within.found _ _) fun _ =>
    Within.bind (Within.found _ _) fun _ => Within.bind
    (Within.emitted (fun h => absurd (by decide) h) fun _ => attemptEvent_ne) fun _ =>
    Within.bind (Within.read _) fun _ =>
    Within.bind (Within.change fun _ _ => (frame_saveExecution _).mono (by decide)) fun _ =>
    Within.bind (Within.change fun _ _ => (frame_saveTask _).mono (by decide)) fun _ =>
    Within.bind (setActorStatus_within.mono (by decide)) fun _ =>
    Within.bind ((TaskRuntime.coordinate_within hrun).mono (by decide)) fun _ =>
    Within.bind (Within.ite (refreshReady_within.mono (by decide)) (Within.pure ())) fun _ =>
    Within.pure _

theorem Silent.transitionInTransaction {executionId : UUID} {status : TaskStatus}
    {key : String} :
    Silent (TaskRuntime.transitionInTransaction P run executionId status key now) := by
  refine Silent.bind (Silent.read _) fun r => Silent.bind (Silent.found _ _) fun execution => ?_
  split
  · exact Silent.bind (Silent.failIf _ _) fun _ => Silent.pure _
  · exact Silent.bind (Silent.failIf _ _) fun _ => Silent.settle

theorem TaskRuntime.transitionInTransaction_within {executionId : UUID} {status : TaskStatus}
    {key : String} (hrun : run.id = id) :
    Within id [.executions, .tasks, .workers, .coordinator, .endings]
      (TaskRuntime.transitionInTransaction P run executionId status key now) := by
  refine Within.bind (Within.read _) fun r => Within.bind (Within.found _ _) fun execution => ?_
  split
  · exact Within.bind (Within.failIf _) fun _ => Within.pure _
  · exact Within.bind (Within.failIf _) fun _ => TaskRuntime.settle_within hrun

theorem TaskRuntime.transition_within {executionId : UUID} {status : TaskStatus}
    {key : String} :
    Within id [.executions, .tasks, .workers, .coordinator, .endings]
      (TaskRuntime.transition P executionId status key now) :=
  Within.bind (Within.requireKey key) fun _ => Within.locked fun _ hrun =>
    Within.bind (Within.failIf _) fun _ => TaskRuntime.transitionInTransaction_within hrun

theorem Reads.recoverable {executionId : UUID} :
    Reads (RecoveryService.recoverable run executionId) :=
  Reads.bind (Reads.ask _) fun _ => Reads.bind (Reads.failIf _ _) fun _ =>
    Reads.bind (Reads.read _) fun _ => Reads.bind (Reads.found _ _) fun _ =>
    Reads.bind (Reads.found _ _) fun _ => Reads.bind (Reads.failIf _ _) fun _ => Reads.pure _

theorem Reads.checkRetry {project : Option Project} {attempt : TaskExecution} {task : Task} :
    Reads (RecoveryService.checkRetry project run attempt task) :=
  Reads.bind (Reads.failIf _ _) fun _ => Reads.bind (Reads.failIf _ _) fun _ =>
    Reads.bind (Reads.failIf _ _) fun _ => Reads.bind (Reads.read _) fun _ => Reads.failIf _ _

theorem RecoveryService.interruptProvider_within {task : Task} {attempt : TaskExecution}
    {provider : ProviderExecution} :
    Within id [.providers] (RecoveryService.interruptProvider P run task attempt now provider) :=
  Within.ite (Within.bind (Within.stage fun _ _ _ h => frame_saveProvider h) fun _ =>
    Within.note (quiet_finish s!"provider:{provider.idempotencyKey}"
      (by simp [toString]) (by intro h; cases h))) (Within.pure ())

theorem RecoveryService.interruptTool_within {task : Task} {attempt : TaskExecution}
    {tool : ToolInvocation} :
    Within id [.tools] (RecoveryService.interruptTool P run task attempt now tool) :=
  Within.ite (Within.bind (Within.stage fun _ _ _ h => frame_saveTool h) fun _ =>
    Within.note (quiet_finish s!"tool:{tool.id.text}"
      (by simp [toString]) (by intro h; cases h))) (Within.pure ())

theorem RecoveryService.authorize_within {attempt : TaskExecution} {task : Task}
    {fingerprint reason key : String} :
    Within id [.tasks]
      (RecoveryService.authorize P run attempt task fingerprint reason key now) :=
  Within.bind (Within.change fun _ _ => frame_saveTask _) fun _ =>
    Within.bind (Within.note (quiet_of_status (by simp [settledWords, TaskStatus.value]) (by simp)))
      fun _ => Within.bind (Within.note (quiet_of_apart (by rfl))) fun _ => Within.pure _

theorem RecoveryService.retry_within {project : Option Project} {executionId : UUID}
    {reason key : String} {acknowledged : Bool} :
    Within id [.executions, .tasks, .workers, .coordinator, .providers, .tools, .endings]
      (RecoveryService.retry P project executionId reason key acknowledged now) := by
  refine Within.bind (Within.requireKey key) fun _ => Within.bind (Within.failIf _) fun _ =>
    Within.bind (Within.failIf _) fun _ => Within.locked fun run hrun =>
    Within.bind (Within.read _) fun r => Within.bind (Within.failIf _) fun _ =>
    Within.bind Reads.recoverable.within fun found => Within.ite (Within.pure _) ?_
  exact Within.bind Reads.checkRetry.within fun _ => Within.bind (Within.ask _) fun _ =>
    Within.bind (Within.forM fun _ _ => RecoveryService.interruptProvider_within.mono
      (by decide)) fun _ => Within.bind (Within.ask _) fun _ =>
    Within.bind (Within.forM fun _ _ => RecoveryService.interruptTool_within.mono
      (by decide)) fun _ =>
    Within.bind ((TaskRuntime.transitionInTransaction_within hrun).mono (by decide)) fun _ =>
      RecoveryService.authorize_within.mono (by decide)

theorem Orchestrator.ensureRequirements_within :
    Within id [.tasks] (Orchestrator.ensureRequirements P run now) := by
  refine Within.bind (Within.read _) fun o => ?_
  split
  · exact Within.pure _
  · exact Within.bind (Within.stage fun _ _ _ h => frame_addTask h) fun _ =>
      Within.bind (Within.bind (Within.note (quiet_of_apart (by rfl))) fun _ =>
        Within.note (quiet_of_apart (by rfl)))
      fun _ => Within.pure _

theorem Orchestrator.startRequirements_within :
    Within id [.tasks] (Orchestrator.startRequirements P now) :=
  Within.locked fun _ _ => Within.bind (Within.failIf _) fun _ =>
    Within.bind Orchestrator.ensureRequirements_within fun _ =>
    Within.bind (Within.read _) fun _ => Within.pure _

end Work

/-! ## Plans -/

section Plans

variable {id : UUID} {P : Primitives} {run : Run} {now : Time}

theorem announce_within {label : String} {tasks : List Task} :
    Within id [] (announce P run label now tasks) :=
  Within.forM fun _ _ => Within.note (quiet_of_apart (by rfl))

theorem Silent.announce {label : String} {tasks : List Task} :
    Silent (announce P run label now tasks) :=
  Silent.forM fun _ _ => Silent.note _ _ _

theorem cancelTask_within {label : String} {reason : Option String} {task : Task} :
    Within id [.tasks] (cancelTask P run label reason now task) :=
  Within.ite (Within.bind (Within.change fun _ _ => frame_saveTask _) fun _ =>
    Within.note (quiet_of_apart (by rfl))) (Within.pure ())

theorem Silent.cancelTask {label : String} {reason : Option String} {task : Task} :
    Silent (cancelTask P run label reason now task) :=
  Silent.ite (Silent.bind (Silent.change _) fun _ => Silent.note _ _ _) (Silent.pure ())

/-- A stored run keeps the cursor of its log. -/
theorem saveRun_ok {r r' : Records} {updated : Run} (h : r.saveRun updated = .ok r') :
    r' = { r with run := { updated with lastEventSequence := r.run.lastEventSequence } } := by
  unfold Records.saveRun at h
  split at h
  · cases h
  · exact (Except.ok.inj h).symm

/-- A stored plan introduces its tasks; those on record are the ones it holds. -/
theorem savePlan_ok {r r' : Records} {plan : TaskPlan} (h : r.savePlan plan = .ok r') :
    r' = { r with
      tasks := Records.introduce r.tasks plan.tasks
      plans := r.plans.put plan } ∧
      ∀ t ∈ plan.tasks, ∀ u, r.tasks.get? t.id = some u → u = t := by
  unfold Records.savePlan at h
  split_ifs at h with hplan hrecorded
  refine ⟨(Except.ok.inj h).symm, fun t ht u hu => ?_⟩
  by_contra hne
  refine hrecorded (List.any_eq_true.mpr ⟨t, ht, ?_⟩)
  rw [hu]
  exact decide_eq_true hne

/-- What a transaction stores of a run it has found, after it has changed some parts. -/
theorem frame_stored {r s t : Records} {updated : Run} {S : List Part} (h : Frame S r s)
    (ht : s.saveRun updated = .ok t) (hid : updated.id = r.run.id)
    (hgoal : updated.currentGoalVersionId = r.run.currentGoalVersionId)
    (hS : Part.currentGoal ∉ S) : Frame [.lifecycle] s t :=
  frame_saveRun ht (by rw [hid, h.id]) (by rw [hgoal, h.currentGoal hS])

/-- The run and the plans after a plan is stored and made the current one. -/
theorem installed_run {r s t r' : Records} {plan : TaskPlan} {updated : Run} {S : List Part}
    (hs : r.savePlan plan = .ok s) (ht : s.saveRun updated = .ok t) (h : Frame S t r')
    (hplans : Part.plans ∉ S) (hlifecycle : Part.lifecycle ∉ S) :
    r'.plans = r.plans.put plan ∧ r'.run.lifecycle = updated.lifecycle := by
  rw [h.plans hplans, h.lifecycle hlifecycle, saveRun_ok ht, (savePlan_ok hs).1]
  exact ⟨rfl, rfl⟩

theorem Silent.storeInitialPlan {preparation : List Task} {plan : TaskPlan} {key : String} :
    Silent (Orchestrator.storeInitialPlan P run preparation plan key now) :=
  Silent.bind (Silent.stage _) fun _ => Silent.bind (Silent.stage _) fun _ =>
    Silent.bind (Silent.note _ _ _) fun _ => Silent.bind Silent.announce fun _ =>
      Silent.refreshReady

theorem Orchestrator.storeInitialPlan_frame {preparation : List Task} {plan : TaskPlan}
    {key : String} {r r' : Records} {x : Unit}
    (h : Orchestrator.storeInitialPlan P r.run preparation plan key now r = .ok (x, r')) :
    Frame [.lifecycle, .plans, .tasks] r r' := by
  obtain ⟨s, hs, h⟩ := stage_bind_ok.mp h
  obtain ⟨t, ht, h⟩ := stage_bind_ok.mp h
  have hplan := frame_savePlan hs
  have hrun := frame_stored hplan ht rfl rfl (by decide)
  refine ((hplan.mono (by decide)).trans (hrun.mono (by decide))).trans
    (Within.frame (Within.bind (Within.note (quiet_of_apart (by rfl))) fun _ => Within.bind
      (announce_within.mono (by simp)) fun _ => refreshReady_within.mono (by decide)) h)

theorem Orchestrator.storeInitialPlan_run {preparation : List Task} {plan : TaskPlan}
    {key : String} {r r' : Records} {x : Unit}
    (h : Orchestrator.storeInitialPlan P run preparation plan key now r = .ok (x, r')) :
    r'.plans = r.plans.put plan ∧
      r'.run.lifecycle = { run with planVersion := plan.version }.lifecycle := by
  obtain ⟨s, hs, h⟩ := stage_bind_ok.mp h
  obtain ⟨t, ht, h⟩ := stage_bind_ok.mp h
  exact installed_run hs ht (S := [.tasks]) (Within.frame (Within.bind
    (Within.note (quiet_of_apart (by rfl))) fun _ => Within.bind
    (announce_within.mono (by simp)) fun _ => refreshReady_within) h)
    (by decide) (by decide)

theorem Reads.prepend {preparation : List Task} {plan : TaskPlan} :
    Reads (Orchestrator.prepend preparation plan) :=
  Reads.ite (Reads.bind (Reads.failIf _ _) fun _ => Reads.pure _) (Reads.pure _)

theorem Reads.checkInitialPlan {preparation : List Task} {plan : TaskPlan} :
    Reads (Orchestrator.checkInitialPlan P run preparation plan) :=
  Reads.bind (Reads.failIf _ _) fun _ => Reads.bind (Reads.failIf _ _) fun _ =>
    Reads.bind (Reads.failIf _ _) fun _ => Reads.bind (Reads.failIf _ _) fun _ =>
    Reads.bind (Reads.read _) fun _ => Reads.bind (Reads.found _ _) fun _ =>
    Reads.bind (Reads.failIf _ _) fun _ => Reads.pure _

/-- What a gate stores: nothing where it lets a transaction pass, its request where it makes
one. -/
theorem requireApproval_bind {α : Type} {stage : ApprovalStage} {version : Nat}
    {digest reason : String} {f : Unit → RunTx α} {r r' : Records} (hrun : run.id = r.run.id)
    (h : stored (requireApproval P run stage version digest reason now >>= f) r = some r') :
    stored (f ()) r = some r' ∨ Frame [.requests, .coordinator] r r' := by
  rcases stored_bind.mp h with ⟨x, s, hs, h⟩ | ⟨e, he, hcommitted⟩
  · rw [(requireApproval_ok hs).1] at h
    exact .inl h
  · exact .inr (Within.requireApproval hrun r r' rfl (stored_of_error he hcommitted))

/-- The preparatory tasks of a run, listed. -/
def Records.preparation (r : Records) : List Task :=
  r.taskList.filter fun t => t.planVersion = 0

/-- What the installation of a first plan passes through. -/
theorem Orchestrator.installPlan_stored {plan : ValidPlan} {key : String} {r r' : Records}
    (hr : stored (Orchestrator.installPlan P plan key now) r = some r') :
    r' = r ∨ Frame [.requests, .coordinator] r r' ∨
      ∃ (valid : ValidPlan) (contract : GoalContract),
        Orchestrator.prepend r.preparation plan.1 r = .ok (valid.1, r) ∧
        (∀ t ∈ valid.1.tasks, t.planVersion = 0 → t ∈ r.preparation) ∧
        (r.byKey s!"{key}:plan").isSome = false ∧
        Orchestrator.checkInitialPlan P r.run r.preparation valid.1 r = .ok (contract, r) ∧
        Orchestrator.storeInitialPlan P r.run r.preparation valid.1 key now r = .ok ((), r') := by
  obtain ⟨x, -, hr⟩ := (Reads.requireKey key).stored_bind hr
  obtain ⟨run, hrun, hr⟩ := (Reads.lockedRunOf _).stored_bind hr
  obtain ⟨rfl, -, -⟩ := lockedRunOf_ok.mp hrun
  rw [stored_read_bind] at hr
  obtain ⟨combined, hcombined, hr⟩ := Reads.prepend.stored_bind hr
  obtain ⟨x, hhistory, hr⟩ := (Reads.failIf _ _).stored_bind hr
  have hhistory := (failIf_ok.mp hhistory).1
  obtain ⟨valid, hvalid, hr⟩ := (Reads.ask _).stored_bind hr
  have hsame := TaskPlan.modelValidate_eq_ok.mp (ask_ok.mp hvalid).1
  rw [hsame] at hhistory hcombined
  rw [stored_read_bind] at hr
  split at hr
  · exact .inl ((Reads.bind (Reads.requireSamePlan _ _) fun _ => Reads.pure _).stored_eq hr)
  · next hfresh =>
    obtain ⟨contract, hcheck, hr⟩ := Reads.checkInitialPlan.stored_bind hr
    rcases requireApproval_bind rfl hr with hr | hframe
    · obtain ⟨x, s, hs, hr⟩ := Silent.storeInitialPlan.stored_bind hr
      rw [Reads.locked.stored_eq hr]
      refine .inr (.inr ⟨valid, contract, hcombined, fun t ht hzero => ?_,
        Bool.of_not_eq_true hfresh, hcheck, hs⟩)
      by_contra hnot
      exact hhistory (List.any_eq_true.mpr ⟨t, ht, decide_eq_true ⟨hzero, hnot⟩⟩)
    · exact .inr (.inl hframe)

theorem Orchestrator.installPlan_within {plan : ValidPlan} {key : String} :
    Within id [.lifecycle, .plans, .tasks, .requests, .coordinator]
      (Orchestrator.installPlan P plan key now) := by
  intro r r' hid hr
  rcases Orchestrator.installPlan_stored hr with rfl | hframe | ⟨valid, contract, -, -, -, -, hs⟩
  · exact Frame.refl _ _
  · exact hframe.mono (by decide)
  · exact (Orchestrator.storeInitialPlan_frame hs).mono (by decide)

theorem Reads.checkExtension {current plan : TaskPlan} {goal : GoalContract} :
    Reads (PlanRevision.checkExtension P current plan goal) :=
  Reads.bind (Reads.failIf _ _) fun _ => Reads.bind (Reads.failIf _ _) fun _ =>
    Reads.bind (Reads.failIf _ _) fun _ => Reads.bind (Reads.failIf _ _) fun _ =>
    Reads.bind (Reads.failIf _ _) fun _ => Reads.bind (Reads.failIf _ _) fun _ =>
    Reads.failIf _ _

theorem Silent.storeExtension {current plan : TaskPlan} {key : String} {repair : Bool} :
    Silent (PlanRevision.storeExtension P run current plan key repair now) :=
  Silent.bind (Silent.stage _) fun _ => Silent.bind (Silent.stage _) fun _ =>
    Silent.bind (Silent.note _ _ _) fun _ =>
    Silent.bind (Silent.ite (Silent.note _ _ _) (Silent.pure ())) fun _ =>
    Silent.bind Silent.announce fun _ => Silent.refreshReady

theorem PlanRevision.storeExtension_frame {current plan : TaskPlan} {key : String}
    {repair : Bool} {r r' : Records} {x : Unit}
    (h : PlanRevision.storeExtension P r.run current plan key repair now r = .ok (x, r')) :
    Frame [.lifecycle, .plans, .tasks, .repairs] r r' := by
  obtain ⟨s, hs, h⟩ := stage_bind_ok.mp h
  obtain ⟨t, ht, h⟩ := stage_bind_ok.mp h
  have hplan := frame_savePlan hs
  have hrun := frame_stored hplan ht rfl rfl (by decide)
  refine ((hplan.mono (by decide)).trans (hrun.mono (by decide))).trans
    (Within.frame (Within.bind (Within.note (quiet_of_apart (by rfl))) fun _ => Within.bind
      (Within.ite (Within.noted (fun _ => .inl rfl) fun h => absurd (by decide) h)
      (Within.pure ())) fun _ => Within.bind
      (announce_within.mono (by simp)) fun _ => refreshReady_within.mono (by decide)) h)

theorem PlanRevision.storeExtension_run {current plan : TaskPlan} {key : String}
    {repair : Bool} {r r' : Records} {x : Unit}
    (h : PlanRevision.storeExtension P run current plan key repair now r = .ok (x, r')) :
    r'.plans = r.plans.put plan ∧
      r'.run.lifecycle = { run with
        planVersion := plan.version
        repairIteration := run.repairIteration + if repair then 1 else 0 }.lifecycle := by
  obtain ⟨s, hs, h⟩ := stage_bind_ok.mp h
  obtain ⟨t, ht, h⟩ := stage_bind_ok.mp h
  exact installed_run hs ht (S := [.repairs, .tasks]) (Within.frame (Within.bind
    (Within.note (quiet_of_apart (by rfl))) fun _ => Within.bind
    (Within.ite (Within.noted (fun _ => .inl rfl) fun h => absurd (by decide) h)
      (Within.pure ())) fun _ => Within.bind
    (announce_within.mono (by simp)) fun _ => refreshReady_within.mono (by decide)) h)
    (by decide) (by decide)

/-- The basis of an extension leaves the records alone where it lets a plan pass. -/
theorem PlanRevision.requireBasis_same {repair : Bool} {r r' : Records} {x : Unit}
    (h : PlanRevision.requireBasis P run repair now r = .ok (x, r')) : r' = r := by
  unfold PlanRevision.requireBasis at h
  split_ifs at h
  · obtain ⟨reviews, -, h⟩ := ask_bind_ok.mp h
    obtain ⟨review, -, h⟩ := found_bind_ok.mp h
    obtain ⟨-, h⟩ := failIf_bind_ok.mp h
    exact (requireApproval_ok h).1
  · exact (Reads.bind Reads.guardDelivery fun _ => Reads.requireDeliveryBinding).same _ _ _ h

theorem PlanRevision.requireBasis_within {repair : Bool} (hrun : run.id = id) :
    Within id [.requests, .coordinator] (PlanRevision.requireBasis P run repair now) :=
  Within.ite (Within.bind (Within.ask _) fun _ => Within.bind (Within.found _ _)
    fun _ => Within.bind (Within.failIf _) fun _ => Within.requireApproval hrun)
    (Reads.bind Reads.guardDelivery fun _ => Reads.requireDeliveryBinding).within

/-- What the installation of a plan that extends the current one passes through. -/
theorem PlanRevision.install_stored {plan : ValidPlan} {key : String} {repair : Bool}
    {r r' : Records} (hr : stored (PlanRevision.install P plan key repair now) r = some r') :
    r' = r ∨ Frame [.requests, .coordinator] r r' ∨
      ∃ current goal, (r.byKey s!"{key}:revised").isSome = false ∧
        PlanRevision.extensible r.run repair = true ∧ plan.1.version = r.run.planVersion + 1 ∧
        some plan.1.goalVersionId = r.run.currentGoalVersionId ∧
        r.getPlan r.run.planVersion = .ok (some current) ∧
        r.getGoal plan.1.goalVersionId = some goal ∧
        PlanRevision.requireBasis P r.run repair now r = .ok ((), r) ∧
        PlanRevision.checkExtension P current plan.1 goal r = .ok ((), r) ∧
        PlanRevision.storeExtension P r.run current plan.1 key repair now r = .ok ((), r') := by
  obtain ⟨x, -, hr⟩ := (Reads.requireKey key).stored_bind hr
  obtain ⟨run, hrun, hr⟩ := (Reads.lockedRunOf _).stored_bind hr
  obtain ⟨rfl, -, -⟩ := lockedRunOf_ok.mp hrun
  rw [stored_read_bind] at hr
  split at hr
  · exact .inl ((Reads.bind (Reads.requireSamePlan _ _) fun _ => Reads.pure _).stored_eq hr)
  · next hfresh =>
    obtain ⟨x, hextensible, hr⟩ := (Reads.failIf _ _).stored_bind hr
    obtain ⟨x, hnext, hr⟩ := (Reads.failIf _ _).stored_bind hr
    obtain ⟨o, hcurrent, hr⟩ := (Reads.ask _).stored_bind hr
    obtain ⟨current, hfound, hr⟩ := (Reads.found _ _).stored_bind hr
    have hcurrent := (ask_ok.mp hcurrent).1
    rw [(found_ok.mp hfound).1] at hcurrent
    obtain ⟨goal, hgoal, hr⟩ := (Reads.found _ _).stored_bind hr
    obtain ⟨hversion, hsame⟩ := not_or.mp (failIf_ok.mp hnext).1
    rcases stored_bind.mp hr with ⟨y, s, hs, hr⟩ | ⟨e, he, hcommitted⟩
    · have hbasis := PlanRevision.requireBasis_same hs
      rw [hbasis] at hr hs
      obtain ⟨x, hcheck, hr⟩ := Reads.checkExtension.stored_bind hr
      obtain ⟨y, s, hs', hr⟩ := Silent.storeExtension.stored_bind hr
      rw [Reads.locked.stored_eq hr]
      exact .inr (.inr ⟨current, goal, Bool.of_not_eq_true hfresh,
        Bool.of_not_eq_false (failIf_ok.mp hextensible).1, not_not.mp hversion,
        not_not.mp hsame, hcurrent, (found_ok.mp hgoal).1, hs, hcheck, hs'⟩)
    · exact .inr (.inl (Within.stored (PlanRevision.requireBasis_within rfl)
        (stored_of_error he hcommitted)))

theorem PlanRevision.install_within {plan : ValidPlan} {key : String} {repair : Bool} :
    Within id [.lifecycle, .plans, .tasks, .requests, .coordinator, .repairs]
      (PlanRevision.install P plan key repair now) := by
  intro r r' hid hr
  rcases PlanRevision.install_stored hr with
    rfl | hframe | ⟨current, goal, -, -, -, -, -, -, -, -, hs⟩
  · exact Frame.refl _ _
  · exact hframe.mono (by decide)
  · exact (PlanRevision.storeExtension_frame hs).mono (by decide)

theorem Silent.retireAttempt {key : String} {attempt : TaskExecution} :
    Silent (GoalReplanning.retireAttempt P run key now attempt) :=
  Silent.ite (Silent.fail _) (Silent.ite
    (Silent.bind Silent.transitionInTransaction fun _ => Silent.pure ()) (Silent.pure ()))

theorem GoalReplanning.retireAttempt_within {key : String} {attempt : TaskExecution}
    (hrun : run.id = id) :
    Within id [.executions, .tasks, .workers, .coordinator, .endings]
      (GoalReplanning.retireAttempt P run key now attempt) :=
  Within.ite (Within.fail _) (Within.ite (Within.bind
    (TaskRuntime.transitionInTransaction_within hrun) fun _ => Within.pure ()) (Within.pure ()))

theorem Silent.storeReplacement {current plan : TaskPlan} {key : String} :
    Silent (GoalReplanning.storeReplacement P run current plan key now) :=
  Silent.bind (Silent.read _) fun _ => Silent.bind (Silent.forM fun _ _ => Silent.retireAttempt)
    fun _ => Silent.bind (Silent.forM fun _ _ => Silent.cancelTask) fun _ =>
    Silent.bind (Silent.stage _) fun _ => Silent.bind (Silent.stage _) fun _ =>
    Silent.bind (Silent.note _ _ _) fun _ => Silent.bind Silent.announce fun _ =>
    Silent.refreshReady

theorem GoalReplanning.storeReplacement_frame {current plan : TaskPlan} {key : String}
    {r r' : Records} {x : Unit}
    (h : GoalReplanning.storeReplacement P r.run current plan key now r = .ok (x, r')) :
    Frame [.lifecycle, .plans, .executions, .tasks, .workers, .coordinator, .endings] r r' := by
  unfold GoalReplanning.storeReplacement at h
  rw [read_bind_ok] at h
  obtain ⟨x, s, hs, h⟩ := bind_ok.mp h
  obtain ⟨x, t, ht, h⟩ := bind_ok.mp h
  obtain ⟨u, hu, h⟩ := stage_bind_ok.mp h
  obtain ⟨v, hv, h⟩ := stage_bind_ok.mp h
  have hretired := Within.frame (Within.forM fun _ _ => GoalReplanning.retireAttempt_within rfl) hs
  have hcancelled := Within.frame (Within.forM fun _ _ => cancelTask_within) ht
  have hplan := (hretired.append hcancelled).append (frame_savePlan hu)
  have hrun := frame_stored hplan hv rfl rfl (by decide)
  refine ((hplan.mono (by decide)).trans (hrun.mono (by decide))).trans
    (Within.frame (Within.bind (Within.note (quiet_of_apart (by rfl))) fun _ => Within.bind
      (announce_within.mono (by simp)) fun _ => refreshReady_within.mono (by decide)) h)

theorem GoalReplanning.storeReplacement_run {current plan : TaskPlan} {key : String}
    {r r' : Records} {x : Unit}
    (h : GoalReplanning.storeReplacement P r.run current plan key now r = .ok (x, r')) :
    r'.plans = r.plans.put plan ∧
      r'.run.lifecycle =
        { r.run with planVersion := plan.version, resumeState := some .planned }.lifecycle := by
  unfold GoalReplanning.storeReplacement at h
  rw [read_bind_ok] at h
  obtain ⟨x, s, hs, h⟩ := bind_ok.mp h
  obtain ⟨x, t, ht, h⟩ := bind_ok.mp h
  obtain ⟨u, hu, h⟩ := stage_bind_ok.mp h
  obtain ⟨v, hv, h⟩ := stage_bind_ok.mp h
  have hretired := Within.frame (Within.forM fun _ _ => GoalReplanning.retireAttempt_within rfl) hs
  have hcancelled : Frame [.tasks] s t := Within.frame (Within.forM fun _ _ => cancelTask_within) ht
  obtain ⟨hplans, hrun⟩ := installed_run hu hv (S := [.tasks]) (Within.frame (Within.bind
    (Within.note (quiet_of_apart (by rfl))) fun _ => Within.bind
    (announce_within.mono (by simp)) fun _ => refreshReady_within) h)
    (by decide) (by decide)
  rw [hcancelled.plans (by decide), hretired.plans (by decide)] at hplans
  exact ⟨hplans, hrun⟩

theorem GoalReplanning.checkReplacement_within {plan : TaskPlan} (hrun : run.id = id) :
    Within id [.requests, .coordinator] (GoalReplanning.checkReplacement P run plan now) :=
  Within.bind (Within.ask _) fun _ => Within.bind (Within.failIf _) fun _ =>
    Within.bind (Within.found _ _) fun _ => Within.bind (Within.failIf _) fun _ =>
    Within.bind (Within.read _) fun _ => Within.bind (Within.failIf _) fun _ =>
    Within.bind (Within.failIf _) fun _ => Within.bind (Within.failIf _) fun _ =>
    Within.bind (Within.found _ _) fun _ => Within.bind (Within.requireApproval hrun) fun _ =>
    Within.bind (Within.failIf _) fun _ => Within.bind (Within.failIf _) fun _ => Within.pure _

/-- What a replacement that passes its checks has found. -/
theorem GoalReplanning.checkReplacement_ok {plan current : TaskPlan} {r r' : Records}
    (h : GoalReplanning.checkReplacement P run plan now r = .ok (current, r')) :
    r' = r ∧ r.getPlan run.planVersion = .ok (some current) ∧
      (run.state = .paused ∨ run.state = .humanReviewRequired) ∧
      plan.version = run.planVersion + 1 ∧
      some current.goalVersionId ≠ run.currentGoalVersionId ∧
      some plan.goalVersionId = run.currentGoalVersionId ∧
      (r.byKey "delivery:policy").isSome = false ∧
      ∀ t ∈ plan.tasks, r.tasks.has t.id = false ∧ t.unexecuted plan.version = true := by
  unfold GoalReplanning.checkReplacement at h
  obtain ⟨stored, hstored, h⟩ := ask_bind_ok.mp h
  obtain ⟨hstate, h⟩ := failIf_bind_ok.mp h
  obtain ⟨found, hfound, h⟩ := found_bind_ok.mp h
  obtain ⟨hgoal, h⟩ := failIf_bind_ok.mp h
  rw [read_bind_ok] at h
  obtain ⟨hpolicy, h⟩ := failIf_bind_ok.mp h
  obtain ⟨hnext, h⟩ := failIf_bind_ok.mp h
  obtain ⟨hfresh, h⟩ := failIf_bind_ok.mp h
  obtain ⟨goal, -, h⟩ := found_bind_ok.mp h
  obtain ⟨x, s, hs, h⟩ := bind_ok.mp h
  obtain ⟨-, h⟩ := failIf_bind_ok.mp h
  obtain ⟨-, h⟩ := failIf_bind_ok.mp h
  obtain ⟨rfl, rfl⟩ := pure_ok.mp h
  subst hfound
  refine ⟨(requireApproval_ok hs).1, hstored, by tauto, by tauto, hgoal, by tauto,
    by simpa using hpolicy, ?_⟩
  simpa [not_or] using hfresh

/-- What the installation of a plan for a revised goal passes through. -/
theorem GoalReplanning.install_stored {plan : ValidPlan} {key : String} {r r' : Records}
    (hr : stored (GoalReplanning.install P plan key now) r = some r') :
    r' = r ∨ Frame [.requests, .coordinator] r r' ∨
      ∃ current, (r.byKey s!"replan:{key}").isSome = false ∧
        GoalReplanning.checkReplacement P r.run plan.1 now r = .ok (current, r) ∧
        GoalReplanning.storeReplacement P r.run current plan.1 key now r = .ok ((), r') := by
  obtain ⟨x, -, hr⟩ := (Reads.requireKey key).stored_bind hr
  obtain ⟨run, hrun, hr⟩ := (Reads.lockedRunOf _).stored_bind hr
  obtain ⟨rfl, -, -⟩ := lockedRunOf_ok.mp hrun
  rw [stored_read_bind] at hr
  split at hr
  · exact .inl ((Reads.bind (Reads.requireSamePlan _ _) fun _ => Reads.pure _).stored_eq hr)
  · next hfresh =>
    rcases stored_bind.mp hr with ⟨current, s, hs, hr⟩ | ⟨e, he, hcommitted⟩
    · have hsame := (GoalReplanning.checkReplacement_ok hs).1
      rw [hsame] at hr hs
      obtain ⟨x, t, ht, hr⟩ := Silent.storeReplacement.stored_bind hr
      rw [Reads.locked.stored_eq hr]
      exact .inr (.inr ⟨current, Bool.of_not_eq_true hfresh, hs, ht⟩)
    · exact .inr (.inl (Within.stored (GoalReplanning.checkReplacement_within rfl)
        (stored_of_error he hcommitted)))

theorem GoalReplanning.install_within {plan : ValidPlan} {key : String} :
    Within id
      [.lifecycle, .plans, .executions, .tasks, .workers, .coordinator, .requests, .endings]
      (GoalReplanning.install P plan key now) := by
  intro r r' hid hr
  rcases GoalReplanning.install_stored hr with rfl | hframe | ⟨current, -, -, hs⟩
  · exact Frame.refl _ _
  · exact hframe.mono (by decide)
  · exact (GoalReplanning.storeReplacement_frame hs).mono (by decide)

theorem Reads.checkUnexecuted {plan : TaskPlan} {expectedVersion : Nat} :
    Reads (PreviewRevision.checkUnexecuted run plan expectedVersion) :=
  Reads.bind (Reads.failIf _ _) fun _ => Reads.bind (Reads.failIf _ _) fun _ =>
    Reads.bind (Reads.failIf _ _) fun _ => Reads.bind (Reads.ask _) fun _ =>
    Reads.bind (Reads.failIf _ _) fun _ => Reads.bind (Reads.read _) fun _ =>
    Reads.bind (Reads.failIf _ _) fun _ => Reads.bind (Reads.ask _) fun _ =>
    Reads.bind (Reads.found _ _) fun _ => Reads.bind (Reads.found _ _) fun _ =>
    Reads.bind (Reads.failIf _ _) fun _ => Reads.pure _

theorem Reads.checkEdit {current plan : TaskPlan} {goal : GoalContract} :
    Reads (PreviewRevision.checkEdit P current plan goal) :=
  Reads.bind (Reads.read _) fun _ => Reads.bind (Reads.failIf _ _) fun _ =>
    Reads.bind (Reads.bind (Reads.failIf _ _) fun _ => Reads.bind (Reads.failIf _ _) fun _ =>
      Reads.failIf _ _) fun _ => Reads.bind (Reads.failIf _ _) fun _ =>
    Reads.bind (Reads.ask _) fun _ => Reads.bind (Reads.failIf _ _) fun _ => Reads.pure _

theorem Reads.requireSameEdit {plan : TaskPlan} :
    Reads (PreviewRevision.requireSameEdit plan) :=
  Reads.bind (Reads.ask _) fun _ => Reads.failIf _ _

theorem Silent.addApprovalRequest {stage : ApprovalStage} {version : Nat}
    {digest reason : String} :
    Silent (addApprovalRequest P run stage version digest reason now) := by
  refine Silent.bind (Silent.stage _) fun _ => Silent.bind (Silent.note _ _ _) fun _ =>
    Silent.bind (Silent.bind (Silent.orchestratorActor _ _ _) fun _ =>
      Silent.ite (Silent.pure ()) (Silent.ite (Silent.bind (Silent.setActorStatus _ _ _ _ _ _)
        fun _ => Silent.pure ()) (Silent.pure ()))) fun _ => Silent.pure _

theorem Silent.prepareApprovalRequest {stage : ApprovalStage} {version : Nat}
    {digest reason : String} :
    Silent (prepareApprovalRequest P run stage version digest reason now) := by
  refine Silent.bind (Silent.bind (Silent.failIf _ _) fun _ => Silent.failIf _ _) fun _ =>
    Silent.bind (Silent.read _) fun r => Silent.ite (Silent.bind (Silent.bind (Silent.read _)
      fun _ => Silent.ite (Silent.failIf _ _) (Silent.ite (Silent.pure ()) (Silent.failIf _ _)))
      fun _ => ?_) (Silent.pure _)
  split
  · exact Silent.pure _
  · exact Silent.bind Silent.addApprovalRequest fun _ => Silent.pure _

theorem Silent.supersede {key : String} {task : Task} :
    Silent (PreviewRevision.supersede P run key now task) :=
  Silent.ite (Silent.pure ()) (Silent.bind (Silent.failIf _ _) fun _ => Silent.cancelTask)

theorem PreviewRevision.supersede_within {key : String} {task : Task} :
    Within id [.tasks] (PreviewRevision.supersede P run key now task) :=
  Within.ite (Within.pure ()) (Within.bind (Within.failIf _) fun _ => cancelTask_within)

theorem Silent.storeEdit {current plan revised : TaskPlan} {key : String} :
    Silent (PreviewRevision.storeEdit P run current plan revised key now) :=
  Silent.bind (Silent.forM fun _ _ => Silent.supersede) fun _ => Silent.bind (Silent.stage _)
    fun _ => Silent.bind (Silent.stage _) fun _ => Silent.bind (Silent.note _ _ _) fun _ =>
    Silent.bind Silent.announce fun _ => Silent.bind Silent.refreshReady fun _ =>
    Silent.bind Silent.prepareApprovalRequest fun _ => Silent.pure ()

theorem PreviewRevision.storeEdit_frame {current plan revised : TaskPlan} {key : String}
    {r r' : Records} {x : Unit}
    (h : PreviewRevision.storeEdit P r.run current plan revised key now r = .ok (x, r')) :
    Frame [.lifecycle, .plans, .tasks, .requests, .coordinator] r r' := by
  obtain ⟨x, s, hs, h⟩ := bind_ok.mp h
  obtain ⟨t, ht, h⟩ := stage_bind_ok.mp h
  obtain ⟨u, hu, h⟩ := stage_bind_ok.mp h
  have hplan := (Within.frame (Within.forM fun _ _ => PreviewRevision.supersede_within) hs).append
    (frame_savePlan ht)
  have hrun := frame_stored hplan hu rfl rfl (by decide)
  have hid : u.run.id = r.run.id := hrun.id.trans hplan.id
  refine ((hplan.mono (by decide)).trans (hrun.mono (by decide))).trans
    (Within.frame (Within.bind (Within.note (quiet_of_apart (by rfl))) fun _ => Within.bind
      (announce_within.mono (by simp)) fun _ => Within.bind (refreshReady_within.mono (by decide))
      fun _ => Within.bind ((Within.prepareApprovalRequest (by simpa using hid.symm)).mono
      (by decide)) fun _ => Within.pure ()) h)

theorem PreviewRevision.storeEdit_run {current plan revised : TaskPlan} {key : String}
    {r r' : Records} {x : Unit}
    (h : PreviewRevision.storeEdit P r.run current plan revised key now r = .ok (x, r')) :
    r'.plans = r.plans.put revised ∧
      r'.run.lifecycle = { r.run with planVersion := revised.version }.lifecycle := by
  obtain ⟨x, s, hs, h⟩ := bind_ok.mp h
  obtain ⟨t, ht, h⟩ := stage_bind_ok.mp h
  obtain ⟨u, hu, h⟩ := stage_bind_ok.mp h
  have hsuperseded : Frame [.tasks] r s :=
    Within.frame (Within.forM fun _ _ => PreviewRevision.supersede_within) hs
  have hplan := hsuperseded.append (frame_savePlan ht)
  have hid : u.run.id = r.run.id := (frame_stored hplan hu rfl rfl (by decide)).id.trans hplan.id
  obtain ⟨hplans, hrun⟩ := installed_run ht hu (S := [.tasks, .requests, .coordinator])
    (Within.frame (Within.bind (Within.note (quiet_of_apart (by rfl))) fun _ => Within.bind
      (announce_within.mono (by simp)) fun _ => Within.bind (refreshReady_within.mono (by decide))
      fun _ => Within.bind ((Within.prepareApprovalRequest (by simpa using hid.symm)).mono
      (by decide)) fun _ => Within.pure ()) h) (by decide) (by decide)
  rw [hsuperseded.plans (by decide)] at hplans
  exact ⟨hplans, hrun⟩

/-- What the replacement of a plan that has not begun passes through. -/
theorem PreviewRevision.replace_stored {plan : ValidPlan} {expectedVersion : Nat}
    {key : String} {r r' : Records}
    (hr : stored (PreviewRevision.replace P plan expectedVersion key now) r = some r') :
    r' = r ∨ ∃ (current : TaskPlan) (goal : GoalContract) (revised : ValidPlan),
      (r.byKey s!"preview-edit:{key}").isSome = false ∧
        PreviewRevision.checkUnexecuted r.run plan.1 expectedVersion r =
          .ok ((current, goal), r) ∧
        PreviewRevision.checkEdit P current plan.1 goal r = .ok (revised, r) ∧
        PreviewRevision.storeEdit P r.run current plan.1 revised.1 key now r = .ok ((), r') := by
  obtain ⟨x, -, hr⟩ := (Reads.requireKey key).stored_bind hr
  obtain ⟨run, hrun, hr⟩ := (Reads.lockedRunOf _).stored_bind hr
  obtain ⟨rfl, -, -⟩ := lockedRunOf_ok.mp hrun
  rw [stored_read_bind] at hr
  split at hr
  · exact .inl ((Reads.bind Reads.requireSameEdit fun _ => Reads.pure _).stored_eq hr)
  · next hfresh =>
    obtain ⟨⟨current, goal⟩, hcheck, hr⟩ := Reads.checkUnexecuted.stored_bind hr
    obtain ⟨revised, hedit, hr⟩ := Reads.checkEdit.stored_bind hr
    obtain ⟨x, s, hs, hr⟩ := Silent.storeEdit.stored_bind hr
    rw [Reads.locked.stored_eq hr]
    exact .inr ⟨current, goal, revised, Bool.of_not_eq_true hfresh, hcheck, hedit, hs⟩

theorem PreviewRevision.replace_within {plan : ValidPlan} {expectedVersion : Nat}
    {key : String} :
    Within id [.lifecycle, .plans, .tasks, .requests, .coordinator]
      (PreviewRevision.replace P plan expectedVersion key now) := by
  intro r r' hid hr
  rcases PreviewRevision.replace_stored hr with rfl | ⟨current, goal, revised, -, -, -, hs⟩
  · exact Frame.refl _ _
  · exact PreviewRevision.storeEdit_frame hs

end Plans

/-! ## Transitions -/

section Transitions

variable {id : UUID} {P : Primitives} {run : Run} {now : Time}

theorem Reads.guardRepaired : Reads (Orchestrator.guardRepaired run) :=
  Reads.bind (Reads.ask _) fun _ => Reads.failIf _ _

theorem Reads.guardSuspension : Reads Orchestrator.guardSuspension :=
  Reads.bind (Reads.read _) fun _ => Reads.failIf _ _

theorem Reads.guardAcceptance : Reads (Orchestrator.guardAcceptance run) :=
  Reads.bind (Reads.read _) fun _ => Reads.failIf _ _

theorem Orchestrator.guardPlan_within {target : RunState} (hrun : run.id = id) :
    Within id [.requests, .coordinator] (Orchestrator.guardPlan P run target now) :=
  Within.bind (Within.ask _) fun _ => Within.bind (Within.found _ _) fun _ =>
    Within.ite (Within.requireApproval hrun) (Within.pure ())

theorem Orchestrator.guardRepair_within (hrun : run.id = id) :
    Within id [.requests, .coordinator] (Orchestrator.guardRepair P run now) :=
  Within.bind (Within.ask _) fun _ => Within.bind (Within.found _ _) fun _ =>
    Within.bind (Within.failIf _) fun _ => Within.requireApproval hrun

theorem Orchestrator.guard_within {target : RunState} (hrun : run.id = id) :
    Within id [.requests, .coordinator] (Orchestrator.guard P run target now) := by
  refine Within.bind Reads.guardDelivery.within fun _ => ?_
  unfold Orchestrator.guardState
  split
  · exact (Reads.bind Reads.requireDeliveryBinding fun _ => Reads.guardAcceptance).within
  · exact Orchestrator.guardRepair_within hrun
  · exact Within.failIf _
  · exact Orchestrator.guardPlan_within hrun
  · exact Within.ite (Within.bind Reads.guardRepaired.within fun _ =>
      Orchestrator.guardPlan_within hrun) (Orchestrator.guardPlan_within hrun)
  · exact Reads.guardSuspension.within
  · exact Reads.guardSuspension.within
  · exact Reads.guardSuspension.within
  · exact Within.pure ()

/-- A guard that lets a transition pass leaves the records alone. -/
theorem Orchestrator.guardPlan_same {target : RunState} {r r' : Records} {x : Unit}
    (h : Orchestrator.guardPlan P run target now r = .ok (x, r')) : r' = r := by
  obtain ⟨plan, -, h⟩ := ask_bind_ok.mp h
  obtain ⟨current, -, h⟩ := found_bind_ok.mp h
  split_ifs at h
  · exact (requireApproval_ok h).1
  · exact (pure_ok.mp h).2

theorem Orchestrator.guardState_same {target : RunState} {r r' : Records} {x : Unit}
    (h : Orchestrator.guardState P run target now r = .ok (x, r')) : r' = r := by
  unfold Orchestrator.guardState at h
  split at h
  · exact (Reads.bind Reads.requireDeliveryBinding fun _ => Reads.guardAcceptance).same _ _ _ h
  · obtain ⟨reviews, -, h⟩ := ask_bind_ok.mp h
    obtain ⟨failed, -, h⟩ := found_bind_ok.mp h
    obtain ⟨-, h⟩ := failIf_bind_ok.mp h
    exact (requireApproval_ok h).1
  · exact (failIf_ok.mp h).2
  · exact Orchestrator.guardPlan_same h
  · split_ifs at h
    · obtain ⟨-, -, h⟩ := Reads.guardRepaired.bind_ok h
      exact Orchestrator.guardPlan_same h
    · exact Orchestrator.guardPlan_same h
  · exact Reads.guardSuspension.same _ _ _ h
  · exact Reads.guardSuspension.same _ _ _ h
  · exact Reads.guardSuspension.same _ _ _ h
  · exact (pure_ok.mp h).2

theorem Orchestrator.guard_ok {target : RunState} {r r' : Records} {x : Unit}
    (h : Orchestrator.guard P run target now r = .ok (x, r')) :
    r' = r ∧ guardDelivery run target r = .ok ((), r) ∧
      Orchestrator.guardState P run target now r = .ok ((), r) := by
  obtain ⟨y, hdelivery, h⟩ := Reads.guardDelivery.bind_ok h
  have hsame := Orchestrator.guardState_same h
  subst hsame
  exact ⟨rfl, hdelivery, h⟩

theorem Silent.cancelAttempts {key : String} :
    Silent (Orchestrator.cancelAttempts P run key now) :=
  Silent.bind (Silent.read _) fun _ => Silent.forM fun _ _ =>
    Silent.bind Silent.transitionInTransaction fun _ => Silent.pure ()

theorem Orchestrator.cancelAttempts_within {key : String} (hrun : run.id = id) :
    Within id [.executions, .tasks, .workers, .coordinator, .endings]
      (Orchestrator.cancelAttempts P run key now) :=
  Within.bind (Within.read _) fun _ => Within.forM fun _ _ => Within.bind
    (TaskRuntime.transitionInTransaction_within hrun) fun _ => Within.pure ()

theorem Silent.close {target : RunState} {key : String} :
    Silent (Orchestrator.close P run target key now) := by
  refine Silent.ite (Silent.bind Silent.cancelAttempts fun _ => Silent.bind (Silent.ask _)
    fun plan => ?_) (Silent.pure ())
  split
  · exact Silent.pure ()
  · exact Silent.forM fun _ _ => Silent.cancelTask

theorem Orchestrator.close_within {target : RunState} {key : String} (hrun : run.id = id) :
    Within id [.executions, .tasks, .workers, .coordinator, .endings]
      (Orchestrator.close P run target key now) := by
  refine Within.ite (Within.bind (Orchestrator.cancelAttempts_within hrun) fun _ =>
    Within.bind (Within.ask _) fun plan => ?_) (Within.pure ())
  split
  · exact Within.pure ()
  · exact Within.forM fun _ _ => cancelTask_within.mono (by decide)

theorem Silent.endPhase {key : String} {status : TaskStatus} {current : PhaseExecution} :
    Silent (endPhase P run key now status current) :=
  Silent.bind (Silent.emit _ _ _) fun _ => Silent.bind (Silent.read _) fun _ => Silent.stage _

theorem Silent.startPhase {key : String} {status : TaskStatus} {phaseId : UUID}
    {phases : List PhaseExecution} :
    Silent (startPhase P run key now status phaseId phases) :=
  Silent.bind (Silent.stage _) fun _ => Silent.note _ _ _

theorem Silent.updatePhase {key : String} {status : TaskStatus} {terminal : Bool}
    {phaseId : UUID} : Silent (updatePhase P run key now status terminal phaseId) := by
  refine Silent.bind (Silent.read _) fun phases => ?_
  split
  · exact Silent.ite (Silent.bind Silent.endPhase fun _ => Silent.ite (Silent.pure ())
      Silent.startPhase) (Silent.ite (Silent.bind (Silent.stage _) fun _ => Silent.note _ _ _)
        (Silent.pure ()))
  · exact Silent.ite (Silent.pure ()) Silent.startPhase

theorem endPhase_within {key : String} {status : TaskStatus} {current : PhaseExecution} :
    Within id [.phases] (endPhase P run key now status current) :=
  Within.bind (Within.emit (quiet_of_apart (by rfl))) fun _ => Within.bind (Within.read _) fun _ =>
    Within.stage fun _ _ _ h => frame_savePhase h

theorem startPhase_within {key : String} {status : TaskStatus} {phaseId : UUID}
    {phases : List PhaseExecution} :
    Within id [.phases] (startPhase P run key now status phaseId phases) :=
  Within.bind (Within.stage fun _ _ _ h => frame_savePhase h) fun _ =>
    Within.note (quiet_of_apart (by rfl))

theorem updatePhase_within {key : String} {status : TaskStatus} {terminal : Bool}
    {phaseId : UUID} :
    Within id [.phases] (updatePhase P run key now status terminal phaseId) := by
  refine Within.bind (Within.read _) fun phases => ?_
  split
  · exact Within.ite (Within.bind endPhase_within fun _ => Within.ite (Within.pure ())
      startPhase_within) (Within.ite (Within.bind (Within.stage fun _ _ _ h =>
        frame_savePhase h) fun _ => Within.note (quiet_of_apart (by rfl))) (Within.pure ()))
  · exact Within.ite (Within.pure ()) startPhase_within

theorem Silent.requestPlanApproval : Silent (Orchestrator.requestPlanApproval P run now) :=
  Silent.bind (Silent.ask _) fun _ => Silent.bind (Silent.found _ _) fun _ =>
    Silent.bind Silent.prepareApprovalRequest fun _ => Silent.pure ()

theorem Silent.enter {target : RunState} {key : String} {phaseId : UUID} :
    Silent (Orchestrator.enter P run target key now phaseId) :=
  Silent.bind (Silent.orchestratorActor _ _ _) fun _ => Silent.bind (Silent.stage _) fun _ =>
    Silent.bind (Silent.emit _ _ _) fun _ => Silent.bind (Silent.setActorStatus _ _ _ _ _ _)
    fun _ => Silent.bind Silent.updatePhase fun _ =>
    Silent.ite Silent.requestPlanApproval (Silent.pure ())

theorem quiet_transition {previous target : RunState} {d : EventDraft}
    (hexec : d.taskExecutionId = none)
    (htype : d.eventType = Orchestrator.transitionEvent previous target) : d.Quiet := by
  refine quiet_of_none hexec fun h => ?_
  rw [htype] at h
  cases target <;> simp only [Orchestrator.transitionEvent, reduceCtorEq] at h <;>
    split_ifs at h

theorem Orchestrator.requestPlanApproval_within (hrun : run.id = id) :
    Within id [.requests, .coordinator] (Orchestrator.requestPlanApproval P run now) :=
  Within.bind (Within.ask _) fun _ => Within.bind (Within.found _ _) fun _ =>
    Within.bind (Within.prepareApprovalRequest hrun) fun _ => Within.pure ()

/-- What a run that enters a state leaves alone. -/
theorem Orchestrator.enter_frame {target : RunState} {key : String} {phaseId : UUID}
    {r r' : Records} {x : Unit} (hid : run.id = r.run.id)
    (hgoal : run.currentGoalVersionId = r.run.currentGoalVersionId)
    (h : Orchestrator.enter P run target key now phaseId r = .ok (x, r')) :
    Frame [.lifecycle, .coordinator, .phases, .requests] r r' := by
  obtain ⟨actor, s, hs, h⟩ := bind_ok.mp h
  obtain ⟨hactor, hcoordinator, -⟩ := orchestratorActor_ok hid hs
  obtain ⟨t, ht, h⟩ := stage_bind_ok.mp h
  have hrun := frame_stored hcoordinator ht hid hgoal (by decide)
  have hidt : t.run.id = r.run.id := hrun.id.trans hcoordinator.id
  obtain ⟨event, u, hu, h⟩ := bind_ok.mp h
  obtain ⟨updated, v, hv, h⟩ := bind_ok.mp h
  obtain ⟨y, w, hw, h⟩ := bind_ok.mp h
  have hemitted : Frame [] t u := Within.frame (Within.emit (quiet_transition rfl rfl)) hu
  have hstatus : Frame [.coordinator] u v :=
    Within.frame (Within.setCoordinator (by rw [hactor, hemitted.id, hidt]) (by decide)) hv
  have hphase : Frame [.phases] v w := Within.frame updatePhase_within hw
  have hidw : (Orchestrator.moved run target now).id = w.run.id := by
    rw [hphase.id, hstatus.id, hemitted.id, hidt]
    exact hid
  have hrequested : Frame [.requests, .coordinator] w r' := by
    split_ifs at h
    · exact Within.frame (Orchestrator.requestPlanApproval_within hidw) h
    · rw [(pure_ok.mp h).2]
      exact Frame.refl _ _
  exact (((((hcoordinator.append hrun).append hemitted).append hstatus).append hphase).append
    hrequested).mono (by decide)

/-- A run that enters a state is moved to it. -/
theorem Orchestrator.enter_lifecycle {target : RunState} {key : String} {phaseId : UUID}
    {r r' : Records} {x : Unit} (hid : run.id = r.run.id)
    (h : Orchestrator.enter P run target key now phaseId r = .ok (x, r')) :
    r'.run.lifecycle = (Orchestrator.moved run target now).lifecycle := by
  obtain ⟨actor, s, hs, h⟩ := bind_ok.mp h
  obtain ⟨hactor, hcoordinator, -⟩ := orchestratorActor_ok hid hs
  obtain ⟨t, ht, h⟩ := stage_bind_ok.mp h
  have hidt : t.run.id = r.run.id ∧
      t.run.lifecycle = (Orchestrator.moved run target now).lifecycle := by
    unfold Records.saveRun at ht
    split_ifs at ht
    cases ht
    exact ⟨hid, rfl⟩
  obtain ⟨event, u, hu, h⟩ := bind_ok.mp h
  obtain ⟨updated, v, hv, h⟩ := bind_ok.mp h
  obtain ⟨y, w, hw, h⟩ := bind_ok.mp h
  have hemitted : Frame [] t u := Within.frame (Within.emit (quiet_transition rfl rfl)) hu
  have hstatus : Frame [.coordinator] u v :=
    Within.frame (Within.setCoordinator (by rw [hactor, hemitted.id, hidt.1]) (by decide)) hv
  have hphase : Frame [.phases] v w := Within.frame updatePhase_within hw
  have hidw : (Orchestrator.moved run target now).id = w.run.id := by
    rw [hphase.id, hstatus.id, hemitted.id, hidt.1]
    exact hid
  have hrequested : Frame [.requests, .coordinator] w r' := by
    split_ifs at h
    · exact Within.frame (Orchestrator.requestPlanApproval_within hidw) h
    · rw [(pure_ok.mp h).2]
      exact Frame.refl _ _
  rw [hrequested.lifecycle (by decide), hphase.lifecycle (by decide),
    hstatus.lifecycle (by decide), hemitted.lifecycle (by decide), hidt.2]

/-- What a transition that is made passes through: the guards, what it closes, and the state
it enters. -/
theorem Orchestrator.advance_stored {target : RunState} {key : String} {phaseId : UUID}
    {r r' : Records} (hr : stored (Orchestrator.advance P target key now phaseId) r = some r') :
    r' = r ∨ Frame [.requests, .coordinator] r r' ∨
      ∃ s t, validateTransition r.run.state target r.run.resumeState = .ok () ∧
        Orchestrator.guard P r.run target now r = .ok ((), r) ∧
        r.byKey s!"{key}:run" = none ∧
        (∃ actor, orchestratorActor P r.run now r = .ok (actor, s)) ∧ Frame [.coordinator] r s ∧
        Orchestrator.close P r.run target key now s = .ok ((), t) ∧
        Orchestrator.enter P r.run target key now phaseId t = .ok ((), r') := by
  obtain ⟨x, -, hr⟩ := (Reads.requireKey key).stored_bind hr
  obtain ⟨run, hrun, hr⟩ := Reads.locked.stored_bind hr
  obtain ⟨rfl, -⟩ := read_ok.mp hrun
  rw [stored_read_bind] at hr
  cases hkey : r.byKey s!"{key}:run" with
  | some existing =>
    simp only [id_eq, hkey] at hr
    exact .inl ((Reads.bind (Reads.failIf _ _) fun _ => Reads.pure _).stored_eq hr)
  | none =>
    simp only [id_eq, hkey] at hr
    obtain ⟨x, hvalid, hr⟩ := (Reads.ask _).stored_bind hr
    rcases stored_bind.mp hr with ⟨x, s, hs, hr⟩ | ⟨e, he, hcommitted⟩
    · have hsame := (Orchestrator.guard_ok hs).1
      rw [hsame] at hr hs
      obtain ⟨actor, s, hactor, hr⟩ := (Silent.orchestratorActor _ _ _).stored_bind hr
      obtain ⟨y, t, ht, hr⟩ := Silent.close.stored_bind hr
      obtain ⟨z, u, hu, hr⟩ := Silent.enter.stored_bind hr
      rw [Reads.locked.stored_eq hr]
      exact .inr (.inr ⟨s, t, (ask_ok.mp hvalid).1, hs, rfl, ⟨actor, hactor⟩,
        (orchestratorActor_ok rfl hactor).2.1, ht, hu⟩)
    · exact .inr (.inl (Within.stored (Orchestrator.guard_within rfl)
        (stored_of_error he hcommitted)))

theorem Orchestrator.advance_within {target : RunState} {key : String} {phaseId : UUID} :
    Within id
      [.lifecycle, .executions, .tasks, .workers, .coordinator, .phases, .requests, .endings]
      (Orchestrator.advance P target key now phaseId) := by
  intro r r' hid hr
  rcases Orchestrator.advance_stored hr with rfl | hframe | ⟨s, t, -, -, -, -, hs, ht, hu⟩
  · exact Frame.refl _ _
  · exact hframe.mono (by decide)
  · have hclosed := hs.append (Within.frame (Orchestrator.close_within hs.id.symm) ht)
    have hentered := Orchestrator.enter_frame hclosed.id.symm
      (hclosed.currentGoal (by decide)).symm hu
    exact (hclosed.append hentered).mono (by decide)

end Transitions

/-! ## Commands -/

section Commands

variable {P : Primitives} {project : Project}

/-- The parts of the records a command can change. -/
def Command.parts : Command → List Part
  | advance .. =>
    [.lifecycle, .executions, .tasks, .workers, .coordinator, .phases, .requests, .endings]
  | installPlan .. | replacePreview .. => [.lifecycle, .plans, .tasks, .requests, .coordinator]
  | installRepair .. | installDelivery .. =>
    [.lifecycle, .plans, .tasks, .requests, .coordinator, .repairs]
  | replan .. =>
    [.lifecycle, .plans, .executions, .tasks, .workers, .coordinator, .requests, .endings]
  | startRequirements .. => [.tasks]
  | startTask .. => [.executions, .tasks, .workers, .coordinator, .requests]
  | transitionTask .. => [.executions, .tasks, .workers, .coordinator, .endings]
  | retry .. => [.executions, .tasks, .workers, .coordinator, .providers, .tools, .endings]
  | defineInitial .. | revise .. => [.goals, .currentGoal]
  | startValidation .. => [.goals]
  | finishValidation .. => [.goals, .evidence]
  | configure .. => [.policy]
  | ensure .. => [.requests, .coordinator]
  | decide .. => [.decisions, .coordinator]
  | startInvocation .. | completeInvocation .. => [.providers]
  | startTool .. | completeTool .. => [.tools]
  | ensureWorkspace .. => [.workspace]
  | recordArtifacts .. | report .. | reportFinding .. | writeDocumentation .. => [.reports]
  | recordReview .. => [.goals, .evidence, .reviews, .reports]
  | inspect .. => [.certificates, .reports]
  | recordValidation .. | beginCommit .. | commitCreated .. | commitAttached .. | pushed .. =>
    [.certificates]
  | assign .. | startContext .. | finishContext .. | survey .. | requestRepair ..
  | reportCompletion .. | bindDelivery .. | promoteMemory .. => []

/-- A command stays within its parts. -/
theorem Command.within {id : UUID} (cmd : Command) :
    Within id cmd.parts (cmd.perform P project) := by
  cases cmd with
  | advance => exact Within.quietly Orchestrator.advance_within
  | installPlan => exact Within.quietly Orchestrator.installPlan_within
  | installRepair => exact Within.quietly PlanRevision.install_within
  | installDelivery => exact Within.quietly PlanRevision.install_within
  | replan => exact Within.quietly GoalReplanning.install_within
  | replacePreview => exact Within.quietly PreviewRevision.replace_within
  | startRequirements => exact Within.quietly Orchestrator.startRequirements_within
  | startTask => exact Within.quietly TaskRuntime.start_within
  | transitionTask => exact Within.quietly TaskRuntime.transition_within
  | retry => exact Within.quietly RecoveryService.retry_within
  | defineInitial => exact Within.quietly GoalService.defineInitial_within
  | revise => exact Within.quietly GoalService.revise_within
  | startValidation => exact Within.quietly GoalService.startValidation_within
  | finishValidation => exact Within.quietly GoalService.finishValidation_within
  | configure => exact ApprovalService.configure_within
  | ensure => exact Within.quietly ApprovalService.ensure_within
  | decide => exact ApprovalService.decide_within
  | startInvocation => exact Within.quietly AgentExecution.start_within
  | completeInvocation => exact AgentExecution.complete_within
  | startTool => exact Within.quietly ToolService.start_within
  | completeTool => exact ToolService.complete_within
  | ensureWorkspace => exact Within.quietly ensureWorkspace_within
  | recordArtifacts => exact recordArtifacts_within
  | assign => exact ExternalWork.assign_within
  | report => exact ExternalWork.report_within
  | reportFinding => exact Within.quietly ExternalWork.reportFinding_within
  | startContext => exact startContext_within
  | finishContext => exact finishContext_within
  | recordReview => exact Within.quietly ReviewService.record_within
  | survey => exact Within.quietly RepairCoordinator.survey_within
  | requestRepair => exact RepairCoordinator.request_within
  | reportCompletion => exact RepairCoordinator.reportCompletion_within
  | bindDelivery => exact bindDelivery_within
  | inspect => exact Within.quietly GuardianService.inspect_within
  | writeDocumentation => exact Within.quietly writeDocumentation_within
  | recordValidation => exact Within.quietly FinalValidationService.record_within
  | beginCommit => exact Within.quietly CommitService.begin_within
  | commitCreated => exact CommitService.created_within
  | commitAttached => exact CommitService.attach_within
  | pushed => exact CommitService.pushed_within
  | promoteMemory => exact Within.quietly promoteMemory_within

/-- What a command leads to differs in its parts only. -/
theorem Command.Leads.frame {cmd : Command} {r r' : Records} (h : cmd.Leads P project r r') :
    Frame cmd.parts r r' :=
  Within.stored cmd.within h.2

/-- The identity of a run stays, and its log only grows. -/
theorem Step.identical {r r' : Records} (h : Step P project r r') :
    Identical r r' ∧ r.events <+: r'.events := by
  obtain ⟨cmd, h⟩ := h
  exact ⟨h.frame.identical, h.frame.grown⟩

end Commands

/-! ## The making of a run -/

section Making

variable {id : UUID} {P : Primitives} {project : Project} {mode : ControlMode}
  {gates : Option (List ApprovalStage)}

theorem GoalService.open_within {run : Run} (hrun : run.id = id) :
    Within id [.coordinator, .policy] (GoalService.open' P run mode gates) :=
  Within.bind (Within.note (quiet_of_apart (by rfl))) fun _ => Within.coordinated hrun (by decide)
    fun _ _ => Within.saveInitialControlPolicy.mono (by decide)

theorem GoalService.createPending_within :
    Within id [.coordinator, .policy] (GoalService.createPending P mode gates) :=
  Within.locked fun _ hrun => Within.bind (Within.failIf _) fun _ => GoalService.open_within hrun

theorem GoalService.create_within {draft : GoalDraft} {n : Nat} :
    Within id [.goals, .currentGoal, .coordinator, .policy]
      (GoalService.create P draft mode gates n) := by
  refine Within.locked fun run hrun => Within.bind (Within.failIf _) fun _ => ?_
  intro s s' hid hs
  obtain ⟨c, hc, hs⟩ := Reads.contract.stored_bind hs
  obtain rfl := contract_ok hc
  exact Within.stored (Within.bind (Within.stage fun _ _ _ h => (frame_saveGoal h).mono
    (by decide)) fun _ => Within.bind (Within.stage fun _ _ _ h =>
    (frame_setCurrentGoal h).mono (by decide)) fun _ => Within.bind
    ((GoalService.open_within (hrun.trans hid.symm)).mono (by decide)) fun _ =>
    (GoalService.announceGoal_within GoalService.contractOf_pending).mono (by decide)) hs

/-- A run that has just been made has a goal at most, its coordinator and its policy. -/
theorem Created.frame {r : Records} (h : Created P project r) :
    ∃ (request branch base : String) (n : Nat) (now : Time),
      Frame [.goals, .currentGoal, .coordinator, .policy]
        { run := GoalService.newRun project request branch base (.uuid4 n) now } r := by
  obtain ⟨request, branch, base, n, now, mode, gates, h⟩ := h
  refine ⟨request, branch, base, n, now, ?_⟩
  rcases h with h | ⟨draft, m, h⟩
  · exact (Within.stored GoalService.createPending_within h).mono (by decide)
  · exact Within.stored GoalService.create_within h

/-- The making of a run with a goal passes through the storing of its contract. -/
theorem GoalService.create_goal {draft : GoalDraft} {n : Nat} {r r' : Records}
    (h : stored (GoalService.create P draft mode gates n) r = some r') :
    ∃ s, r.saveGoal (GoalService.contractOf r.run.id draft 1 none none n r.run.createdAt) = .ok s ∧
      Frame [.currentGoal, .coordinator, .policy] s r' := by
  unfold GoalService.create at h
  rw [show lockedRun = Transaction.read Records.run from rfl, stored_read_bind] at h
  obtain ⟨-, -, h⟩ := (Reads.failIf _ _).stored_bind h
  obtain ⟨c, hc, h⟩ := Reads.contract.stored_bind h
  obtain rfl := contract_ok hc
  obtain ⟨x, s, hs, h⟩ := (Silent.stage _).stored_bind h
  have hs := stage_ok.mp hs
  have hid : r.run.id = s.run.id := (frame_saveGoal hs).id.symm
  refine ⟨s, hs, Within.stored (Within.bind (Within.stage fun _ _ _ h =>
    (frame_setCurrentGoal h).mono (by decide)) fun _ => Within.bind
    ((GoalService.open_within hid).mono (by decide)) fun _ =>
    (GoalService.announceGoal_within GoalService.contractOf_pending).mono (by decide)) h⟩

end Making

end Orqalis
