import Orqalis.Core.Effects
import Orqalis.Core.Labor

/-!
# What only the beginning of an attempt changes

Attempts move on in several commands, but one command alone begins them. What holds of records
while their attempts and the actors of these stay as they are, and wherever an attempt moves
on, holds of every other command.
-/

namespace Orqalis

open Lib Lib.Transaction

/-! ## Actors -/

section Actors

variable {P : Primitives} {r r' s : Records} {run : Run} {now : Time}

/-- What leaves the workers and the coordinator alone leaves every actor alone. -/
theorem Frame.actor {S : List Part} (h : Frame S r s) (hworkers : Part.workers ∉ S)
    (hcoordinator : Part.coordinator ∉ S) (id : UUID) : s.actor id = r.actor id := by
  by_cases hid : id = orchestratorId r.run.id
  · rw [hid]
    exact h.coordinator hcoordinator
  · exact h.workers hworkers hid

/-- An actor that is given a status has it, and no other actor changes. -/
theorem setActorStatus_ok {actor x : ActorSession} {status : ActorStatus} {key : String}
    (h : setActorStatus P run actor status key now r = .ok (x, r')) :
    (∃ a, r'.actor actor.id = some a ∧ a.status = status) ∧
      ∀ id, id ≠ actor.id → r'.actor id = r.actor id := by
  obtain ⟨event, s, hs, h⟩ := bind_ok.mp h
  have hemitted : Frame [] r s := Within.frame (Within.emit (quiet_actor rfl rfl)) hs
  rw [read_bind_ok, change_bind_ok] at h
  rw [(pure_ok.mp h).2]
  refine ⟨⟨_, (actor_saveActor _ _).trans (if_pos rfl), rfl⟩, fun id hid => ?_⟩
  rw [actor_saveActor, if_neg fun heq => hid heq.symm]
  exact hemitted.actor List.not_mem_nil List.not_mem_nil id

/-- What an attempt that moves on changes: its record, its actor, and the coordinator. -/
theorem TaskRuntime.settle_ok {execution x : TaskExecution} {status : TaskStatus} {key : String}
    (hrun : run.id = r.run.id)
    (h : TaskRuntime.settle P run execution status key now r = .ok (x, r')) :
    (∃ updated : TaskExecution, r'.executions = r.executions.put updated ∧
      updated.id = execution.id ∧ updated.status = status ∧
      updated.assignedActorSessionId = execution.assignedActorSessionId) ∧
    (execution.assignedActorSessionId ≠ orchestratorId r.run.id →
      ∃ a, r'.actor execution.assignedActorSessionId = some a ∧
        a.status = attemptActorStatus status) ∧
    ∀ id, id ≠ execution.assignedActorSessionId → id ≠ orchestratorId r.run.id →
      r'.actor id = r.actor id := by
  unfold TaskRuntime.settle at h
  rw [read_bind_ok] at h
  obtain ⟨task, -, h⟩ := found_bind_ok.mp h
  obtain ⟨actor, hactor, h⟩ := found_bind_ok.mp h
  obtain ⟨event, s, hs, h⟩ := bind_ok.mp h
  have hemitted : Frame [.endings] r s := Within.frame
    (Within.emitted (fun h => absurd (by decide) h) fun _ => attemptEvent_ne) hs
  rw [read_bind_ok, change_bind_ok, change_bind_ok] at h
  obtain ⟨shown, t, ht, h⟩ := bind_ok.mp h
  have hkey : actor.id = execution.assignedActorSessionId := Table.key_of_get? hactor
  have hsaved : ∀ (e : TaskExecution) (u : Task), Frame [.endings, .executions, .tasks] r
      ((s.saveExecution e).saveTask u) := fun e u =>
    hemitted.append ((frame_saveExecution e).append (frame_saveTask u))
  have hshown := Within.frame setActorStatus_within ht
  have hidt : run.id = t.run.id := by
    rw [hshown.id, (hsaved _ _).id]
    exact hrun
  have hrest : Frame [.tasks, .coordinator] t r' := Within.frame
    (Within.bind ((TaskRuntime.coordinate_within hidt).mono (by decide)) fun _ =>
    Within.bind (Within.ite (refreshReady_within.mono (by decide)) (Within.pure ()))
    fun _ => Within.pure _) h
  obtain ⟨⟨a, ha, hstatus⟩, hothers⟩ := setActorStatus_ok ht
  have hcoordinator : orchestratorId t.run.id = orchestratorId r.run.id := by
    rw [hshown.id, (hsaved _ _).id]
  have hput := ((hrest.executions (by decide)).trans (hshown.executions (by decide))).trans
    ((frame_saveTask _).executions (by decide))
  change r'.executions = s.executions.put _ at hput
  rw [hemitted.executions (by decide)] at hput
  refine ⟨⟨_, hput, rfl, rfl, rfl⟩, fun hne => ⟨a, ?_, hstatus⟩, fun id hid hne => ?_⟩
  · rw [hrest.workers (by decide) (hcoordinator ▸ hne), ← hkey]
    exact ha
  · rw [hrest.workers (by decide) (hcoordinator ▸ hne), hothers id (hkey ▸ hid)]
    exact (hsaved _ _).actor (by decide) (by decide) id

/-- What the beginning of an attempt changes: its record, its actor, and the coordinator. -/
theorem TaskRuntime.launch_ok {task : Task} {key : String} {x : TaskExecution}
    (hrun : run.id = r.run.id) (h : TaskRuntime.launch P run task key now r = .ok (x, r')) :
    r'.executions = r.executions.put (newExecution run task key now) ∧
      ∀ id, id ≠ orchestratorId r.run.id →
        r'.actor id = (r.saveActor (newActor run task key now)).actor id := by
  unfold TaskRuntime.launch at h
  rw [change_bind_ok, change_bind_ok] at h
  have hid : run.id = ((r.saveActor (newActor run task key now)).saveExecution
      (newExecution run task key now)).run.id := hrun
  have hrest := Within.frame (S := [.tasks, .coordinator]) (Within.bind
    (Within.change fun _ _ => (frame_saveTask _).mono (by decide)) fun _ =>
    Within.bind (Within.note (quiet_of_status (by
      simp [settledWords, TaskStatus.value, ActorStatus.value]) (by simp))) fun _ =>
    Within.bind (Within.note (quiet_of_status
      (by simp [settledWords, TaskStatus.value]) (by simp))) fun _ =>
    Within.coordinated hid (by decide) fun a ha =>
      Within.bind (Within.setCoordinator ha (by decide)) fun _ => Within.pure _) h
  exact ⟨hrest.executions (by decide), fun id hid => hrest.workers (by decide) hid⟩

end Actors

/-! ## Attempts -/

/-- A relation of records that holds while the attempts and their actors stay as they are, and
where an attempt moves on. -/
structure Attempting (P : Primitives) (R : Records → Records → Prop) : Prop where
  frame : ∀ (S : List Part) (r r' : Records), Frame S r r' → Part.executions ∉ S →
    Part.workers ∉ S → R r r'
  settle : ∀ (run : Run) (execution x : TaskExecution) (status : TaskStatus) (key : String)
    (now : Time) (r r' : Records), run.id = r.run.id →
    r.executions.get? execution.id = some execution →
    status ∈ attemptTransitions execution.status →
    TaskRuntime.settle P run execution status key now r = .ok (x, r') → R r r'

namespace Attempting

variable {P : Primitives} {R : Records → Records → Prop} {r r' : Records}
  {id : UUID} {run : Run} {now : Time}

/-- A transaction that leaves the attempts and their actors alone. -/
theorem of_within (hR : Attempting P R) {α : Type} {m : RunTx α} {S : List Part}
    (h : Within id S m) (hexecutions : Part.executions ∉ S) (hworkers : Part.workers ∉ S) :
    Effects R id m :=
  Effects.of_within h fun r r' hframe => hR.frame S r r' hframe hexecutions hworkers

theorem refl (hR : Attempting P R) (r : Records) : R r r :=
  hR.frame [] r r (Frame.refl [] r) List.not_mem_nil List.not_mem_nil

theorem transitionInTransaction (hR : Attempting P R) {executionId : UUID} {status : TaskStatus}
    {key : String} (hrun : run.id = id) :
    Effects R id (TaskRuntime.transitionInTransaction P run executionId status key now) := by
  intro r r' hid hstored
  obtain ⟨x, hr⟩ := Silent.transitionInTransaction.stored_ok hstored
  have hrun' := hrun.trans hid.symm
  refine ⟨(Within.frame (TaskRuntime.transitionInTransaction_within hrun') hr).id.trans hid, ?_⟩
  unfold TaskRuntime.transitionInTransaction at hr
  rw [read_bind_ok] at hr
  obtain ⟨execution, he, hr⟩ := found_bind_ok.mp hr
  have hkey : execution.id = executionId := Table.key_of_get? (t := r.executions) he
  cases hexisting : r.byKey s!"{key}:task" with
  | some existing =>
    simp only [id_eq, hexisting] at hr
    rw [(Reads.bind (Reads.failIf _ _) fun _ => Reads.pure _).same _ _ _ hr]
    exact hR.refl r
  | none =>
    simp only [id_eq, hexisting] at hr
    obtain ⟨hstatus, hr⟩ := failIf_bind_ok.mp hr
    exact hR.settle run execution x status key now r r' hrun' (hkey ▸ he) (not_not.mp hstatus) hr

variable [IsPreorder Records R]

theorem cancelAttempts (hR : Attempting P R) {key : String} (hrun : run.id = id) :
    Effects R id (Orchestrator.cancelAttempts P run key now) :=
  Effects.bind (.of_reads (Reads.read _)) fun _ => Effects.forM fun _ _ =>
    Effects.bind (hR.transitionInTransaction hrun) fun _ => .of_reads (Reads.pure _)

theorem close (hR : Attempting P R) {target : RunState} {key : String} (hrun : run.id = id) :
    Effects R id (Orchestrator.close P run target key now) := by
  refine Effects.ite (Effects.bind (hR.cancelAttempts hrun) fun _ =>
    Effects.bind (.of_reads (Reads.ask _)) fun plan => ?_) (.of_reads (Reads.pure _))
  cases plan with
  | none => exact .of_reads (Reads.pure _)
  | some plan =>
    exact Effects.forM fun _ _ => hR.of_within cancelTask_within (by decide) (by decide)

theorem advance (hR : Attempting P R) {target : RunState} {key : String} {phaseId : UUID}
    (hr : stored (Orchestrator.advance P target key now phaseId) r = some r') : R r r' := by
  rcases Orchestrator.advance_stored hr with rfl | hframe | ⟨s, t, -, -, -, -, hs, ht, hu⟩
  · exact hR.refl _
  · exact hR.frame _ _ _ hframe (by decide) (by decide)
  · have hclosed := Within.frame (Orchestrator.close_within hs.id.symm) ht
    have hgoal := (hclosed.currentGoal (by decide)).trans (hs.currentGoal (by decide))
    have hentered := Orchestrator.enter_frame (hclosed.id.trans hs.id).symm hgoal.symm hu
    have hbefore : R r s := hR.frame _ _ _ hs (by decide) (by decide)
    have hclosing : R s t := Effects.ok (hR.close hs.id.symm) ht
    have hafter : R t r' := hR.frame _ _ _ hentered (by decide) (by decide)
    exact trans_of R (trans_of R hbefore hclosing) hafter

theorem retireAttempt (hR : Attempting P R) {key : String} {attempt : TaskExecution}
    (hrun : run.id = id) :
    Effects R id (GoalReplanning.retireAttempt P run key now attempt) :=
  Effects.ite (hR.of_within (S := []) (Within.fail _) List.not_mem_nil List.not_mem_nil)
    (Effects.ite (Effects.bind (hR.transitionInTransaction hrun) fun _ =>
      .of_reads (Reads.pure _)) (.of_reads (Reads.pure _)))

theorem replan (hR : Attempting P R) {plan : ValidPlan} {key : String}
    (hr : stored (GoalReplanning.install P plan key now) r = some r') : R r r' := by
  rcases GoalReplanning.install_stored hr with rfl | hframe | ⟨current, -, -, h⟩
  · exact hR.refl _
  · exact hR.frame _ _ _ hframe (by decide) (by decide)
  · unfold GoalReplanning.storeReplacement at h
    rw [read_bind_ok] at h
    obtain ⟨x, s, hs, h⟩ := bind_ok.mp h
    obtain ⟨x, t, ht, h⟩ := bind_ok.mp h
    obtain ⟨u, hu, h⟩ := stage_bind_ok.mp h
    obtain ⟨v, hv, h⟩ := stage_bind_ok.mp h
    have hretired : R r s := Effects.ok (Effects.forM fun _ _ => hR.retireAttempt rfl) hs
    have hframe := Within.frame (Within.forM fun _ _ => GoalReplanning.retireAttempt_within rfl) hs
    have hcancelled : Frame [.tasks] s t :=
      Within.frame (Within.forM fun _ _ => cancelTask_within) ht
    have hplan := hcancelled.append (frame_savePlan hu)
    have hrun := frame_stored (hframe.append hplan) hv rfl rfl (by decide)
    have hrest : Frame [.tasks] v r' := Within.frame (Within.bind
      (Within.note (quiet_of_apart (by rfl))) fun _ => Within.bind
      (announce_within.mono (by simp)) fun _ => refreshReady_within) h
    have hafter : R s r' :=
      hR.frame _ _ _ ((hplan.append hrun).append hrest) (by decide) (by decide)
    exact trans_of R hretired hafter

theorem transition (hR : Attempting P R) {executionId : UUID} {status : TaskStatus}
    {key : String} : Effects R id (TaskRuntime.transition P executionId status key now) :=
  Effects.bind (.of_reads (Reads.requireKey key)) fun _ => Effects.locked fun _ hrun =>
    Effects.bind (.of_reads (Reads.failIf _ _)) fun _ => hR.transitionInTransaction hrun

theorem retry (hR : Attempting P R) {project : Option Project} {executionId : UUID}
    {reason key : String} {acknowledged : Bool} :
    Effects R id (RecoveryService.retry P project executionId reason key acknowledged now) := by
  refine Effects.bind (.of_reads (Reads.requireKey key)) fun _ =>
    Effects.bind (.of_reads (Reads.failIf _ _)) fun _ =>
    Effects.bind (.of_reads (Reads.failIf _ _)) fun _ => Effects.locked fun run hrun =>
    Effects.bind (.of_reads (Reads.read _)) fun _ =>
    Effects.bind (.of_reads (Reads.failIf _ _)) fun _ =>
    Effects.bind (.of_reads Reads.recoverable) fun _ => Effects.ite (.of_reads (Reads.pure _)) ?_
  exact Effects.bind (.of_reads Reads.checkRetry) fun _ =>
    Effects.bind (.of_reads (Reads.ask _)) fun _ =>
    Effects.bind (hR.of_within (Within.forM fun _ _ =>
      RecoveryService.interruptProvider_within) (by decide) (by decide)) fun _ =>
    Effects.bind (.of_reads (Reads.ask _)) fun _ =>
    Effects.bind (hR.of_within (Within.forM fun _ _ =>
      RecoveryService.interruptTool_within) (by decide) (by decide)) fun _ =>
    Effects.bind (hR.transitionInTransaction hrun) fun _ =>
      hR.of_within RecoveryService.authorize_within (by decide) (by decide)

/-- Only the start of a task begins an attempt. -/
theorem leads (hR : Attempting P R) {project : Project} {cmd : Command}
    (h : cmd.Leads P project r r') :
    R r r' ∨ ∃ taskId key now, cmd = .startTask taskId key now := by
  have hframe := h.frame
  obtain ⟨-, hr⟩ := h
  cases cmd with
  | startTask taskId key now => exact .inr ⟨taskId, key, now, rfl⟩
  | advance target key now phaseId => exact .inl (hR.advance (stored_quietly.mp hr))
  | replan plan key now => exact .inl (hR.replan (stored_quietly.mp hr))
  | transitionTask executionId status key now =>
    exact .inl (hR.transition r r' rfl (stored_quietly.mp hr)).2
  | retry executionId reason key acknowledged now =>
    exact .inl (hR.retry r r' rfl (stored_quietly.mp hr)).2
  | _ => exact .inl (hR.frame _ _ _ hframe (by simp [Command.parts]) (by simp [Command.parts]))

end Attempting

end Orqalis
