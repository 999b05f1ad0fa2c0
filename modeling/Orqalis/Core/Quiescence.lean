import Orqalis.Core.Authority
import Orqalis.Core.Denial
import Orqalis.Core.Phases

/-!
# What a run leaves behind when it ends

A run that ends closes its attempts, the tasks of its plan that have not begun, its open phase
and its coordinator, and a run that has ended is not worked on. What its termination leaves out
is a task outside the current plan: the preparatory task, as long as there is no plan.
-/

namespace Orqalis

open Lib Lib.Transaction

variable {limit : Nat} {r r' s t : Records} {P : Primitives} {run : Run} {now : Time}

/-! ## Tasks -/

theorem Task.not_open_cancelled {task : Task} {completedAt : Option Time} :
    ({ task with status := .cancelled, completedAt } : Task).open = false := rfl

/-- What the cancellation of a task that is on record does: the task is not open afterwards. -/
theorem cancelTask_ok {label : String} {reason : Option String} {task : Task} {x : Unit}
    (hget : r.tasks.get? task.id = some task)
    (hr : cancelTask P run label reason now task r = .ok (x, r')) :
    r'.tasks = r.tasks.put { task with status := .cancelled, completedAt := some now } ∨
      task.open = false ∧ r' = r := by
  unfold cancelTask at hr
  split_ifs at hr with hstatus
  · rw [change_bind_ok] at hr
    have hnoted : Frame [] _ r' := Within.frame (Within.note (quiet_of_apart (by rfl))) hr
    refine .inl ((hnoted.tasks (by decide)).trans ?_)
    unfold Records.saveTask
    rw [if_pos (has_of_get?_tasks hget)]
  · exact .inr ⟨decide_eq_false hstatus, (pure_ok.mp hr).2⟩

/-- After the cancellation of some tasks none of them is open, and a task that is open is one
of the others, as it was. -/
theorem cancelTasks_open {label : String} {reason : Option String} {l : List Task} {x : Unit}
    (hrecord : ∀ task ∈ l, r.tasks.get? task.id = some task) (hnodup : (l.map Task.id).Nodup)
    (hr : l.forM (cancelTask P run label reason now) r = .ok (x, r')) {u : Task}
    (hu : r'.tasks.get? u.id = some u) (hopen : u.open = true) :
    r.tasks.get? u.id = some u ∧ u.id ∉ l.map Task.id := by
  induction l generalizing r with
  | nil =>
    rw [(pure_ok.mp hr).2] at hu
    exact ⟨hu, List.not_mem_nil⟩
  | cons task l ih =>
    rw [List.forM_eq_forM, List.forM_cons] at hr
    obtain ⟨y, s, hs, hr⟩ := bind_ok.mp hr
    rw [List.map_cons] at hnodup
    obtain ⟨hnot, hnodup⟩ := List.nodup_cons.mp hnodup
    have hget := hrecord task List.mem_cons_self
    have hcases := cancelTask_ok hget hs
    have hothers : ∀ id, id ≠ task.id → s.tasks.get? id = r.tasks.get? id := by
      intro id hid
      rcases hcases with hput | ⟨-, rfl⟩
      · rw [hput, Table.get?_put_ne]
        exact fun heq => hid heq.symm
      · rfl
    obtain ⟨hbefore, hnotin⟩ := ih (fun v hv => by
      rw [hothers v.id fun heq => hnot (heq ▸ List.mem_map_of_mem hv)]
      exact hrecord v (List.mem_cons_of_mem task hv)) hnodup hr
    have hne : u.id ≠ task.id := by
      intro heq
      rw [heq] at hbefore
      rcases hcases with hput | ⟨hclosed, rfl⟩
      · rw [hput] at hbefore
        cases (Table.get?_put_self _ _).symm.trans hbefore
        cases hopen
      · cases hget.symm.trans hbefore
        rw [hclosed] at hopen
        cases hopen
    rw [hothers u.id hne] at hbefore
    refine ⟨hbefore, fun hmem => ?_⟩
    rcases List.mem_cons.mp hmem with heq | hmem
    · exact hne heq
    · exact hnotin hmem

/-- What a run that ends closes: every attempt, and every task but those that wait to begin
outside the current plan. -/
theorem Orchestrator.close_ok {target : RunState} {key : String} {x : Unit}
    (h : InOrder limit r) (hterminal : target.terminal = true) (hrun : run.id = r.run.id)
    (hversion : run.planVersion = r.run.planVersion)
    (hr : Orchestrator.close P run target key now r = .ok (x, r')) :
    (∀ e ∈ r'.executions, e.status.active = false) ∧ ∀ u ∈ r'.tasks,
      u.status.active = false ∧ (u.open = true → u ∈ r.tasks ∧ ¬ r.work.planned u.id) := by
  have horder := (Orchestrator.close_labor h hrun hr).inOrder
  unfold Orchestrator.close Orchestrator.cancelPending at hr
  rw [if_pos hterminal] at hr
  obtain ⟨y, s, hs, hr⟩ := bind_ok.mp hr
  obtain ⟨plan, hplan, hr⟩ := ask_bind_ok.mp hr
  have hretired := Orchestrator.cancelAttempts_retired h hrun hs
  have hframe := Within.frame (Orchestrator.cancelAttempts_within hrun) hs
  have hrest : Frame [.tasks] s r' ∧ ∀ u : Task, r'.tasks.get? u.id = some u → u.open = true →
      s.tasks.get? u.id = some u ∧ ¬ r.work.planned u.id := by
    have hplanned : ∀ p, r.plans.get? r.run.planVersion = some p →
        s.plans.get? run.planVersion = some p := by
      intro p hp
      rwa [hframe.plans (by decide), hversion]
    cases plan with
    | none =>
      rw [(pure_ok.mp hr).2]
      refine ⟨Frame.refl _ _, fun u hu _ => ⟨hu, ?_⟩⟩
      rintro ⟨p, hp, -⟩
      have hnone := (hplanned p hp).symm.trans (getPlan_none hplan)
      cases hnone
    | some plan =>
      obtain ⟨p, hp, -, hids, hrecord⟩ := getPlan_ok hplan
      refine ⟨Within.frame (Within.forM fun _ _ => cancelTask_within) hr, fun u hu hopen => ?_⟩
      obtain ⟨hbefore, hnot⟩ := cancelTasks_open hrecord
        (getPlan_nodup hretired.labor.inOrder hplan) hr hu hopen
      refine ⟨hbefore, ?_⟩
      rintro ⟨p', hp', hin⟩
      cases hp.symm.trans (hplanned p' hp')
      rw [← hids] at hin
      exact hnot hin
  obtain ⟨hlast, hopened⟩ := hrest
  have hover : ∀ e ∈ r'.executions, e.status.active = false :=
    fun e he => hretired.over (hlast.executions (by decide) ▸ he)
  refine ⟨hover, fun u hu => ⟨horder.idle hover hu, fun hopen => ?_⟩⟩
  obtain ⟨hbefore, hnot⟩ := hopened u (Table.get?_of_mem hu) hopen
  exact ⟨Table.mem_of_get? ((hretired.idle u hopen).mp hbefore), hnot⟩

/-! ## The coordinator -/

/-- The coordinator of a run is at rest. -/
def Rested (r : Records) : Prop :=
  ∃ a, r.actor (orchestratorId r.run.id) = some a ∧ a.status.terminal = true

/-- A coordinator that is at rest stays so. -/
def StaysRested (r r' : Records) : Prop := Rested r → Rested r'

instance isPreorder_staysRested : IsPreorder Records StaysRested where
  refl _ h := h
  trans _ _ _ h h' := fun hrested => h' (h hrested)

theorem Rested.of_frame {S : List Part} (h : Rested r) (hframe : Frame S r s)
    (hS : Part.coordinator ∉ S) : Rested s := by
  obtain ⟨a, ha, hstatus⟩ := h
  refine ⟨a, ?_, hstatus⟩
  rw [hframe.id, hframe.coordinator hS]
  exact ha

theorem coordinatorStatus_terminal {target : RunState} (h : target.terminal = true) :
    (Orchestrator.coordinatorStatus target).terminal = true := by
  cases target <;> first | rfl | cases h

/-- A run that ends lays its coordinator to rest. -/
theorem Orchestrator.enter_rested {target : RunState} {key : String} {phaseId : UUID} {x : Unit}
    (hterminal : target.terminal = true) (hid : run.id = r.run.id)
    (hgoal : run.currentGoalVersionId = r.run.currentGoalVersionId)
    (hr : Orchestrator.enter P run target key now phaseId r = .ok (x, r')) : Rested r' := by
  obtain ⟨actor, s, hs, hr⟩ := bind_ok.mp hr
  obtain ⟨hactor, hcoordinator, -⟩ := orchestratorActor_ok hid hs
  obtain ⟨t, ht, hr⟩ := stage_bind_ok.mp hr
  have hrun := frame_stored hcoordinator ht hid hgoal (by decide)
  obtain ⟨event, u, hu, hr⟩ := bind_ok.mp hr
  obtain ⟨updated, v, hv, hr⟩ := bind_ok.mp hr
  obtain ⟨y, w, hw, hr⟩ := bind_ok.mp hr
  have hemitted : Frame [] t u := Within.frame (Within.emit (quiet_transition rfl rfl)) hu
  have hshown : Frame [.workers, .coordinator] u v := Within.frame setActorStatus_within hv
  have hphase : Frame [.phases] v w := Within.frame updatePhase_within hw
  obtain ⟨⟨a, ha, hstatus⟩, -⟩ := setActorStatus_ok hv
  have hrested : Rested v := by
    refine ⟨a, ?_, hstatus ▸ coordinatorStatus_terminal hterminal⟩
    rw [hshown.id, hemitted.id, hrun.id, hcoordinator.id, ← hactor]
    exact ha
  have hplain : target ≠ .planned := by
    rintro rfl
    cases hterminal
  rw [if_neg hplain] at hr
  rw [(pure_ok.mp hr).2]
  exact hrested.of_frame hphase (by decide)

/-- An operator's checkpoint is not shown on a coordinator that is at rest. -/
theorem setApprovalActorStatus_rested {id requestId : UUID} {status : ApprovalStatus}
    (hrun : run.id = id) :
    Effects StaysRested id (setApprovalActorStatus P run requestId status now) := by
  intro r r' hid hr
  have hframe := Within.stored (S := [.coordinator])
    (Within.setApprovalActorStatus (hrun.trans hid.symm) (by decide)) hr
  refine ⟨hframe.id.trans hid, fun hrested => ?_⟩
  obtain ⟨a, ha, hstatus⟩ := hrested
  obtain ⟨b, hb, rfl⟩ := Option.map_eq_some_iff.mp ha
  obtain ⟨actor, s, hs, hset⟩ := (Silent.orchestratorActor P run now).stored_bind hr
  obtain ⟨-, -, hthere⟩ := orchestratorActor_ok (hrun.trans hid.symm) hs
  obtain ⟨rfl, rfl⟩ := hthere b hb
  have hterminal : actor.status.terminal = true := hstatus
  rw [if_pos hterminal] at hset
  rw [(Reads.pure ()).stored_eq hset]
  exact ⟨_, ha, hstatus⟩

theorem rested_of_within {α : Type} {id : UUID} {m : RunTx α} {S : List Part}
    (h : Within id S m) (hS : Part.coordinator ∉ S) : Effects StaysRested id m :=
  Effects.of_within h fun _ _ hframe hrested => hrested.of_frame hframe hS

theorem ApprovalService.ensure_rested {id : UUID} {stage : ApprovalStage} {version : Nat}
    {digest reason : String} :
    Effects StaysRested id (ApprovalService.ensure P stage version digest reason now) := by
  refine Effects.bind (.of_reads Reads.safeFields) fun _ => Effects.locked fun run hrun =>
    Effects.bind (Effects.bind (.of_reads Reads.safeFields) fun _ =>
    Effects.bind (.of_reads (Reads.read _)) fun _ => Effects.ite
    (Effects.bind (.of_reads Reads.validateSubject) fun _ => ?_) (.of_reads (Reads.pure _)))
    fun _ => .of_reads (Reads.pure _)
  split
  · exact .of_reads (Reads.pure _)
  · refine Effects.bind (Effects.bind ?_ fun _ => Effects.bind ?_ fun _ =>
      Effects.bind (setApprovalActorStatus_rested hrun) fun _ => .of_reads (Reads.pure _))
      fun _ => .of_reads (Reads.pure _)
    · exact rested_of_within (Within.stage fun _ _ _ h => frame_addRequest h) (by decide)
    · exact rested_of_within (S := []) (Within.note (quiet_of_apart (by rfl))) List.not_mem_nil

theorem ApprovalService.decide_rested {id requestId decisionId : UUID}
    {decision : ApprovalDecisionKind} {actor digest reason : String} :
    Effects StaysRested id
      (ApprovalService.decide P requestId decision actor digest reason decisionId now) := by
  refine Effects.bind (.of_reads Reads.safeFields) fun _ =>
    Effects.bind (.of_reads (Reads.failIf _ _)) fun _ =>
    Effects.bind (.of_reads (Reads.failIf _ _)) fun _ => Effects.locked fun run hrun =>
    Effects.bind (.of_reads (Reads.read _)) fun _ =>
    Effects.bind (.of_reads (Reads.found _ _)) fun request =>
    Effects.bind (.of_reads (Reads.failIf _ _)) fun _ =>
    Effects.bind (.of_reads (Reads.failIf _ _)) fun _ =>
    Effects.bind (.of_reads Reads.validateSubject) fun _ => ?_
  split
  · exact .of_reads (Reads.failIf _ _)
  · refine Effects.bind ?_ fun _ => Effects.bind ?_ fun _ => setApprovalActorStatus_rested hrun
    · exact rested_of_within (Within.stage fun _ _ _ h => frame_addDecision h) (by decide)
    · exact rested_of_within (S := []) (Within.note (quiet_of_apart (by rfl))) List.not_mem_nil

/-! ## Workers -/

/-- An attempt and its actor are named after one key, and the actor is at rest where the attempt
is over. -/
def Manned (r : Records) (e : TaskExecution) : Prop :=
  ∃ key : String, e.id = .uuid5 r.run.id s!"{key}:attempt" ∧
    e.assignedActorSessionId = .uuid5 r.run.id s!"{key}:actor" ∧
    ∃ a, r.actor e.assignedActorSessionId = some a ∧
      (e.status.active = false → a.status.terminal = true)

/-- Every attempt is manned. -/
def AllManned (r : Records) : Prop := ∀ e ∈ r.executions, Manned r e

/-- Manned attempts stay so. -/
def StaysManned (r r' : Records) : Prop := AllManned r → AllManned r'

instance isPreorder_staysManned : IsPreorder Records StaysManned where
  refl _ h := h
  trans _ _ _ h h' := fun hmanned => h' (h hmanned)

theorem actor_ne_orchestrator (runId : UUID) (key : String) :
    UUID.uuid5 runId s!"{key}:actor" ≠ orchestratorId runId := by
  intro h
  have hname : s!"{key}:actor" = "orchestrator" := (UUID.uuid5.inj h).2
  have hcolon : ':' ∈ "orchestrator".toList := by
    rw [← hname]
    simp [toString, String.toList_append]
  revert hcolon
  decide

theorem Manned.actor_ne {e : TaskExecution} (h : Manned r e) :
    e.assignedActorSessionId ≠ orchestratorId r.run.id := by
  obtain ⟨key, -, hactor, -⟩ := h
  rw [hactor]
  exact actor_ne_orchestrator r.run.id key

/-- Different attempts have different actors. -/
theorem Manned.actor_inj {e : TaskExecution} {id : UUID} {key : String} (h : Manned r e)
    (hid : id = .uuid5 r.run.id s!"{key}:attempt") (hne : e.id ≠ id) :
    e.assignedActorSessionId ≠ .uuid5 r.run.id s!"{key}:actor" := by
  obtain ⟨k, hname, hactor, -⟩ := h
  intro heq
  have hkey : s!"{k}:actor" = s!"{key}:actor" := (UUID.uuid5.inj (hactor.symm.trans heq)).2
  have hkey : k = key := by simpa [toString] using hkey
  exact hne (by rw [hname, hid, hkey])

/-- A manned attempt stays manned while its actor does. -/
theorem Manned.of_actor {e : TaskExecution} (h : Manned r e) (hid : r'.run.id = r.run.id)
    (hactor : r'.actor e.assignedActorSessionId = r.actor e.assignedActorSessionId) :
    Manned r' e := by
  obtain ⟨key, hname, hassigned, a, ha, hstatus⟩ := h
  exact ⟨key, hid ▸ hname, hid ▸ hassigned, a, hactor.trans ha, hstatus⟩

/-- The actor of an attempt that moves to its end is laid to rest. -/
theorem attemptActorStatus_terminal {before after : TaskStatus}
    (h : after ∈ attemptTransitions before) (hover : after.active = false) :
    (attemptActorStatus after).terminal = true := by
  cases after with
  | running | waiting | blocked => cases hover
  | succeeded | failed | cancelled => rfl
  | pending | ready | skipped => cases before <;> simp [attemptTransitions] at h

/-- Where no attempt begins, manned attempts stay so. -/
theorem attempting_staysManned : Attempting P StaysManned where
  frame S r r' hframe hexecutions hworkers := by
    intro h e he
    rw [hframe.executions hexecutions] at he
    exact (h e he).of_actor hframe.id (hframe.workers hworkers (h e he).actor_ne)
  settle run execution x status key now r r' hrun he hstatus hr := by
    intro h e' he'
    have hid : r'.run.id = r.run.id := (Within.frame (TaskRuntime.settle_within hrun) hr).id
    obtain ⟨⟨updated, hput, hsame, hupdated, hassigned⟩, hactor, hothers⟩ :=
      TaskRuntime.settle_ok hrun hr
    have hmanned := h execution (Table.mem_of_get? he)
    obtain ⟨a, ha, hshown⟩ := hactor hmanned.actor_ne
    obtain ⟨k, hname, hnamed, -⟩ := hmanned
    rw [hput] at he'
    rcases Table.mem_put.mp he' with rfl | ⟨hin, hne⟩
    · refine ⟨k, ?_, ?_, a, hassigned ▸ ha, fun hover => ?_⟩
      · rw [hsame, hname, hid]
      · rw [hassigned, hnamed, hid]
      · rw [hshown]
        exact attemptActorStatus_terminal hstatus (hupdated ▸ hover)
    · have hapart := (h e' hin).actor_inj hname (hsame ▸ hne)
      exact (h e' hin).of_actor hid (hothers _ (hnamed ▸ hapart) (h e' hin).actor_ne)

/-- An attempt begins with an actor of its own. -/
theorem TaskRuntime.start_manned {taskId : UUID} {key : String} (h : AllManned r)
    (hr : stored (TaskRuntime.start P taskId key now) r = some r') : AllManned r' := by
  rcases TaskRuntime.start_stored hr with
    rfl | ⟨-, hframe | ⟨plan, task, x, -, -, -, -, -, hr⟩⟩
  · exact h
  · exact attempting_staysManned.frame (P := P) _ _ _ hframe (by decide) (by decide) h
  · have hid : r'.run.id = r.run.id := (Within.frame (TaskRuntime.launch_within rfl) hr).id
    obtain ⟨hput, hactors⟩ := TaskRuntime.launch_ok rfl hr
    intro e he
    rw [hput] at he
    rcases Table.mem_put.mp he with rfl | ⟨hin, hne⟩
    · refine ⟨key, hid ▸ rfl, hid ▸ rfl, (newActor r.run task key now).bare, ?_, fun hover => ?_⟩
      · exact (hactors _ (actor_ne_orchestrator r.run.id key)).trans
          ((actor_saveActor _ _).trans (if_pos rfl))
      · cases hover
    · have hapart := (h e hin).actor_inj rfl hne
      refine (h e hin).of_actor hid ((hactors _ (h e hin).actor_ne).trans ?_)
      exact (actor_saveActor _ _).trans (if_neg fun heq => hapart heq.symm)

theorem Step.manned {project : Project} (h : AllManned r) (hstep : Step P project r r') :
    AllManned r' := by
  obtain ⟨cmd, hleads⟩ := hstep
  rcases attempting_staysManned.leads hleads with hstays | ⟨taskId, key, now, rfl⟩
  · exact hstays h
  · exact TaskRuntime.start_manned h (stored_quietly.mp hleads.2)

theorem Reachable.manned {project : Project} (h : Reachable P project r) : AllManned r := by
  refine h.induction (fun s hcreated => ?_) fun _ _ hmanned hstep => Step.manned hmanned hstep
  obtain ⟨request, branch, base, n, now, hframe⟩ := hcreated.frame
  intro e he
  rw [hframe.executions (by decide)] at he
  exact absurd he List.not_mem_nil

/-! ## Runs that have ended -/

/-- A plan that a key comes with is installed, or refused with a request, in a run that goes on
only. -/
theorem Orchestrator.installPlan_going {plan : ValidPlan} {key : String}
    (hr : stored (Orchestrator.installPlan P plan key now) r = some r') :
    r' = r ∨ r.run.state.terminal = false := by
  obtain ⟨x, -, hr⟩ := (Reads.requireKey key).stored_bind hr
  obtain ⟨run, hrun, hr⟩ := (Reads.lockedRunOf _).stored_bind hr
  obtain ⟨rfl, -, -⟩ := lockedRunOf_ok.mp hrun
  rw [stored_read_bind] at hr
  obtain ⟨combined, -, hr⟩ := Reads.prepend.stored_bind hr
  obtain ⟨x, -, hr⟩ := (Reads.failIf _ _).stored_bind hr
  obtain ⟨valid, -, hr⟩ := (Reads.ask _).stored_bind hr
  rw [stored_read_bind] at hr
  split at hr
  · exact .inl ((Reads.bind (Reads.requireSamePlan _ _) fun _ => Reads.pure _).stored_eq hr)
  · obtain ⟨contract, hcheck, -⟩ := Reads.checkInitialPlan.stored_bind hr
    obtain ⟨hstate, -⟩ := Orchestrator.checkInitialPlan_ok hcheck
    exact .inr (hstate ▸ rfl)

theorem PlanRevision.install_going {plan : ValidPlan} {key : String} {repair : Bool}
    (hr : stored (PlanRevision.install P plan key repair now) r = some r') :
    r' = r ∨ r.run.state.terminal = false := by
  obtain ⟨x, -, hr⟩ := (Reads.requireKey key).stored_bind hr
  obtain ⟨run, hrun, hr⟩ := (Reads.lockedRunOf _).stored_bind hr
  obtain ⟨rfl, -, -⟩ := lockedRunOf_ok.mp hrun
  rw [stored_read_bind] at hr
  split at hr
  · exact .inl ((Reads.bind (Reads.requireSamePlan _ _) fun _ => Reads.pure _).stored_eq hr)
  · obtain ⟨x, hextensible, -⟩ := (Reads.failIf _ _).stored_bind hr
    have hstate := PlanRevision.extensible_state (Bool.of_not_eq_false (failIf_ok.mp hextensible).1)
    simp only [List.mem_cons, List.not_mem_nil, or_false] at hstate
    refine .inr ?_
    rcases hstate with hstate | hstate | hstate
    · exact hstate ▸ rfl
    · exact hstate ▸ rfl
    · exact hstate ▸ rfl

theorem GoalReplanning.install_going {plan : ValidPlan} {key : String}
    (hr : stored (GoalReplanning.install P plan key now) r = some r') :
    r' = r ∨ r.run.state.terminal = false := by
  obtain ⟨x, -, hr⟩ := (Reads.requireKey key).stored_bind hr
  obtain ⟨run, hrun, hr⟩ := (Reads.lockedRunOf _).stored_bind hr
  obtain ⟨rfl, -, -⟩ := lockedRunOf_ok.mp hrun
  rw [stored_read_bind] at hr
  split at hr
  · exact .inl ((Reads.bind (Reads.requireSamePlan _ _) fun _ => Reads.pure _).stored_eq hr)
  · have hcheck : ∃ s, stored (GoalReplanning.checkReplacement P r.run plan.1 now) r = some s := by
      rcases stored_bind.mp hr with ⟨current, s, hs, -⟩ | ⟨e, he, hcommitted⟩
      · exact ⟨s, stored_of_ok hs⟩
      · exact ⟨r', stored_of_error he hcommitted⟩
    obtain ⟨s, hs⟩ := hcheck
    obtain ⟨current, -, hs⟩ := (Reads.ask _).stored_bind hs
    obtain ⟨x, hstate, -⟩ := (Reads.failIf _ _).stored_bind hs
    refine .inr ?_
    rcases not_and_or.mp (failIf_ok.mp hstate).1 with hstate | hstate
    · exact not_not.mp hstate ▸ rfl
    · exact not_not.mp hstate ▸ rfl

theorem PreviewRevision.replace_going {plan : ValidPlan} {expected : Nat} {key : String}
    (hr : stored (PreviewRevision.replace P plan expected key now) r = some r') :
    r' = r ∨ r.run.state.terminal = false := by
  rcases PreviewRevision.replace_stored hr with rfl | ⟨current, goal, revised, -, hcheck, -⟩
  · exact .inl rfl
  · obtain ⟨heditable, -⟩ := PreviewRevision.checkUnexecuted_ok hcheck
    refine .inr ?_
    rcases of_decide_eq_true heditable with hstate | ⟨hstate, -⟩
    · exact hstate ▸ rfl
    · exact hstate ▸ rfl

theorem Orchestrator.advance_going {target : RunState} {key : String} {phaseId : UUID}
    (hr : stored (Orchestrator.advance P target key now phaseId) r = some r') :
    r' = r ∨ r.run.state.terminal = false := by
  obtain ⟨x, -, hr⟩ := (Reads.requireKey key).stored_bind hr
  obtain ⟨run, hrun, hr⟩ := Reads.locked.stored_bind hr
  obtain ⟨rfl, -⟩ := read_ok.mp hrun
  rw [stored_read_bind] at hr
  cases hkey : r.byKey s!"{key}:run" with
  | some existing =>
    simp only [id_eq, hkey] at hr
    exact .inl ((Reads.bind (Reads.failIf _ _) fun _ => Reads.pure _).stored_eq hr)
  | none =>
    simp only [id_eq, hkey] at hr
    obtain ⟨x, hvalid, -⟩ := (Reads.ask _).stored_bind hr
    exact .inr (validateTransition_eq_ok.mp (ask_ok.mp hvalid).1).1

theorem Orchestrator.startRequirements_going
    (hr : stored (Orchestrator.startRequirements P now) r = some r') :
    r.run.state.terminal = false := by
  obtain ⟨run, hrun, hr⟩ := Reads.locked.stored_bind hr
  obtain ⟨rfl, -⟩ := read_ok.mp hrun
  obtain ⟨x, hstate, -⟩ := (Reads.failIf _ _).stored_bind hr
  obtain ⟨hstate, -⟩ := not_or.mp (failIf_ok.mp hstate).1
  exact not_not.mp hstate ▸ rfl

theorem executionStates_going {state : RunState} (h : state ∈ executionStates) :
    state.terminal = false := by
  revert h
  cases state <;> decide

/-- An attempt that is over does not move on. -/
theorem TaskRuntime.transition_still {executionId : UUID} {status : TaskStatus} {key : String}
    (hover : ∀ e ∈ r.executions, e.status.active = false)
    (hr : stored (TaskRuntime.transition P executionId status key now) r = some r') : r' = r := by
  obtain ⟨x, hr⟩ := Silent.transition.stored_ok hr
  obtain ⟨-, -, hr⟩ := (Reads.requireKey key).bind_ok hr
  rw [locked_bind_ok] at hr
  obtain ⟨-, hr⟩ := failIf_bind_ok.mp hr
  unfold TaskRuntime.transitionInTransaction at hr
  rw [read_bind_ok] at hr
  obtain ⟨execution, he, hr⟩ := found_bind_ok.mp hr
  cases hexisting : r.byKey s!"{key}:task" with
  | some existing =>
    simp only [id_eq, hexisting] at hr
    exact (Reads.bind (Reads.failIf _ _) fun _ => Reads.pure _).same _ _ _ hr
  | none =>
    simp only [id_eq, hexisting] at hr
    obtain ⟨hstatus, -⟩ := failIf_bind_ok.mp hr
    have hactive := Work.active_of_transition (not_not.mp hstatus)
    rw [hover execution (Table.mem_of_get? he)] at hactive
    cases hactive

theorem RecoveryService.retry_going {project : Option Project} {executionId : UUID}
    {reason key : String} {acknowledged : Bool}
    (hr : stored (RecoveryService.retry P project executionId reason key acknowledged now) r =
      some r') : r' = r ∨ r.run.state.terminal = false := by
  obtain ⟨x, -, hr⟩ := (Reads.requireKey key).stored_bind hr
  obtain ⟨x, -, hr⟩ := (Reads.failIf _ _).stored_bind hr
  obtain ⟨x, -, hr⟩ := (Reads.failIf _ _).stored_bind hr
  obtain ⟨run, hrun, hr⟩ := Reads.locked.stored_bind hr
  obtain ⟨rfl, -⟩ := read_ok.mp hrun
  rw [stored_read_bind] at hr
  obtain ⟨x, -, hr⟩ := (Reads.failIf _ _).stored_bind hr
  obtain ⟨⟨attempt, task⟩, -, hr⟩ := Reads.recoverable.stored_bind hr
  simp only at hr
  split_ifs at hr
  · exact .inl ((Reads.pure _).stored_eq hr)
  · obtain ⟨x, hcheck, -⟩ := Reads.checkRetry.stored_bind hr
    obtain ⟨hstate, -⟩ := failIf_bind_ok.mp hcheck
    exact .inr (Bool.of_not_eq_true (not_or.mp hstate).1)

/-! ## Every run -/

section Runs

variable {project : Project} {cmd : Command}

/-- What a run that has ended keeps: its tasks and its attempts are closed, and its coordinator
is at rest. -/
structure Ended (r : Records) : Prop where
  tasks : ∀ u ∈ r.tasks, u.open = false ∧ u.status.active = false
  executions : ∀ e ∈ r.executions, e.status.active = false
  rested : Rested r

theorem Ended.of_frame {S : List Part} (h : Ended r) (hframe : Frame S r r')
    (htasks : Part.tasks ∉ S) (hexecutions : Part.executions ∉ S) (hrested : Rested r') :
    Ended r' where
  tasks u hu := h.tasks u (hframe.tasks htasks ▸ hu)
  executions e he := h.executions e (hframe.executions hexecutions ▸ he)
  rested := hrested

/-- No command works on a run that has ended. -/
theorem Ended.step (h : Ended r) (hterminal : r.run.state.terminal = true)
    (hleads : cmd.Leads P project r r') : Ended r' := by
  have hframe := hleads.frame
  have hstill : r' = r ∨ r.run.state.terminal = false → Ended r' := by
    rintro (rfl | hgoing)
    · exact h
    · rw [hterminal] at hgoing
      cases hgoing
  obtain ⟨-, hr⟩ := hleads
  cases cmd with
  | advance => exact hstill (Orchestrator.advance_going (stored_quietly.mp hr))
  | installPlan => exact hstill (Orchestrator.installPlan_going (stored_quietly.mp hr))
  | installRepair => exact hstill (PlanRevision.install_going (stored_quietly.mp hr))
  | installDelivery => exact hstill (PlanRevision.install_going (stored_quietly.mp hr))
  | replan => exact hstill (GoalReplanning.install_going (stored_quietly.mp hr))
  | replacePreview => exact hstill (PreviewRevision.replace_going (stored_quietly.mp hr))
  | startRequirements =>
    exact hstill (.inr (Orchestrator.startRequirements_going (stored_quietly.mp hr)))
  | startTask =>
    exact hstill ((TaskRuntime.start_stored (stored_quietly.mp hr)).imp_right fun hstate =>
      executionStates_going hstate.1)
  | transitionTask =>
    exact hstill (.inl (TaskRuntime.transition_still h.executions (stored_quietly.mp hr)))
  | retry => exact hstill (RecoveryService.retry_going (stored_quietly.mp hr))
  | ensure =>
    exact h.of_frame hframe (by simp [Command.parts]) (by simp [Command.parts])
      ((ApprovalService.ensure_rested r r' rfl (stored_quietly.mp hr)).2 h.rested)
  | decide =>
    exact h.of_frame hframe (by simp [Command.parts]) (by simp [Command.parts])
      ((ApprovalService.decide_rested r r' rfl hr).2 h.rested)
  | _ =>
    exact h.of_frame hframe (by simp [Command.parts]) (by simp [Command.parts])
      (h.rested.of_frame hframe (by simp [Command.parts]))

/-- A task that waits to begin outside the current plan of its run. -/
def Stranded (r : Records) : Prop := ∃ u ∈ r.tasks, u.open = true ∧ ¬ r.work.planned u.id

/-- A transition that ends a run closes it, where no task is stranded. -/
theorem Orchestrator.advance_ended {target : RunState} {key : String} {phaseId : UUID}
    (h : InOrder limit r) (hstranded : ¬ Stranded r) (hterminal : target.terminal = true)
    (hr : stored (Orchestrator.advance P target key now phaseId) r = some r')
    (hstate : r'.run.state ≠ r.run.state) : Ended r' := by
  rcases Orchestrator.advance_stored hr with rfl | hframe | ⟨s, t, -, -, -, -, hs, ht, hu⟩
  · exact absurd rfl hstate
  · exact absurd (hframe.state (by decide)) hstate
  · have horder : InOrder limit s := (Labor.of_frame h hs (by decide)).inOrder
    have hwork : s.work = r.work :=
      work_of_frame hs (hs.planVersion (by decide)) (by decide) (by decide) (by decide)
    obtain ⟨hover, htasks⟩ := Orchestrator.close_ok horder hterminal hs.id.symm
      (hs.planVersion (by decide)).symm ht
    have hclosed := Within.frame (Orchestrator.close_within hs.id.symm) ht
    have hid := (hclosed.id.trans hs.id).symm
    have hgoal := ((hclosed.currentGoal (by decide)).trans (hs.currentGoal (by decide))).symm
    have hentered := Orchestrator.enter_frame hid hgoal hu
    refine ⟨fun u hu' => ?_, fun e he => ?_, Orchestrator.enter_rested hterminal hid hgoal hu⟩
    · obtain ⟨hidle, hopened⟩ := htasks u (hentered.tasks (by decide) ▸ hu')
      refine ⟨Bool.of_not_eq_true fun hopen => hstranded ?_, hidle⟩
      obtain ⟨hbefore, hnot⟩ := hopened hopen
      exact ⟨u, hs.tasks (by decide) ▸ hbefore, hopen, hwork ▸ hnot⟩
    · exact hover e (hentered.executions (by decide) ▸ he)

/-- A command that is no transition to the end of a run that goes on while a task is stranded. -/
def CleanStep (P : Primitives) (project : Project) (r r' : Records) : Prop :=
  ∃ cmd : Command, cmd.Leads P project r r' ∧ ∀ target key now phaseId,
    cmd = .advance target key now phaseId → target.terminal = true →
    r.run.state.terminal = false → ¬ Stranded r

theorem CleanStep.ended (hr : Reachable P project r)
    (h : r.run.state.terminal = true → Ended r) (hstep : CleanStep P project r r')
    (hterminal : r'.run.state.terminal = true) : Ended r' := by
  obtain ⟨cmd, hleads, hclean⟩ := hstep
  cases hgoing : r.run.state.terminal with
  | true => exact (h hgoing).step hgoing hleads
  | false =>
    have hstate : r'.run.state ≠ r.run.state := by
      intro hsame
      rw [hsame, hgoing] at hterminal
      cases hterminal
    cases hleads.movement with
    | stays hunmoved => exact absurd (Run.state_of_lifecycle hunmoved.run) hstate
    | defines _ hrun _ => exact absurd (Run.state_of_lifecycle hrun) hstate
    | plans plan _ hplanned | replans plan _ hplanned =>
      obtain ⟨repairs, hrun⟩ := hplanned.run
      exact absurd (Run.state_of_lifecycle hrun) hstate
    | moves target key now phaseId hcmd hmoved =>
      have htarget : r'.run.state = target := Run.state_of_lifecycle hmoved.run
      rw [htarget] at hterminal
      have hstranded := hclean target key now phaseId hcmd hterminal hgoing
      subst hcmd
      exact Orchestrator.advance_ended hr.inOrder hstranded hterminal
        (stored_quietly.mp hleads.2) hstate

theorem ended_of_clean {r₀ : Records} (hcreated : Created P project r₀)
    (hrun : Relation.ReflTransGen (CleanStep P project) r₀ r) :
    Reachable P project r ∧ (r.run.state.terminal = true → Ended r) := by
  induction hrun with
  | refl =>
    refine ⟨⟨r₀, hcreated, .refl⟩, fun hterminal => ?_⟩
    obtain ⟨request, branch, base, n, now, hframe⟩ := hcreated.frame
    rw [show r₀.run.state = .received from hframe.state (by decide)] at hterminal
    cases hterminal
  | tail _ hstep ih =>
    obtain ⟨hreached, hclosed⟩ := ih
    obtain ⟨r₁, hmade, hbefore⟩ := hreached
    refine ⟨⟨r₁, hmade, ?_⟩, CleanStep.ended ⟨r₁, hmade, hbefore⟩ hclosed hstep⟩
    obtain ⟨cmd, hleads, -⟩ := hstep
    exact hbefore.tail ⟨cmd, hleads⟩

/-- A run in which nothing is left to be done. -/
structure Quiescent (r : Records) : Prop where
  tasks : ∀ u ∈ r.tasks, u.status ∉ [TaskStatus.pending, .ready, .running, .waiting, .blocked]
  executions : ∀ e ∈ r.executions, e.status.active = false
  phases : ∀ p ∈ r.phases, p.completedAt ≠ none
  orchestrator : ∃ a, r.actors.get? (orchestratorId r.run.id) = some a ∧
    a.status.terminal = true
  workers : ∀ e ∈ r.executions, ∃ a, r.actors.get? e.assignedActorSessionId = some a ∧
    a.status.terminal = true

theorem Task.closed_status {u : Task} (hopen : u.open = false) (hidle : u.status.active = false) :
    u.status ∉ [TaskStatus.pending, .ready, .running, .waiting, .blocked] := by
  revert hopen hidle
  unfold Task.open
  cases u.status <;> decide

/-- An actor that is at rest, equipment or not. -/
theorem get?_of_actor {id : UUID} {a : ActorSession} (h : r.actor id = some a)
    (hstatus : a.status.terminal = true) :
    ∃ b, r.actors.get? id = some b ∧ b.status.terminal = true := by
  obtain ⟨b, hb, rfl⟩ := Option.map_eq_some_iff.mp h
  exact ⟨b, hb, hstatus⟩

/-- Where no transition ends a run while a task is stranded, nothing is left to be done in a run
that has ended. -/
theorem terminal_quiescence {r₀ : Records} (hcreated : Created P project r₀)
    (hrun : Relation.ReflTransGen (CleanStep P project) r₀ r)
    (hterminal : r.run.state.terminal = true) : Quiescent r := by
  obtain ⟨hreached, hclosed⟩ := ended_of_clean hcreated hrun
  obtain ⟨htasks, hexecutions, a, ha, hstatus⟩ := hclosed hterminal
  refine
    { tasks := fun u hu => Task.closed_status (htasks u hu).1 (htasks u hu).2
      executions := hexecutions
      phases := fun p hp hnone => ?_
      orchestrator := get?_of_actor ha hstatus
      workers := fun e he => ?_ }
  · have hgoing := (hreached.phaseLog.shown p hp hnone).2
    rw [hterminal] at hgoing
    cases hgoing
  · obtain ⟨-, -, -, b, hb, hrest⟩ := hreached.manned e he
    exact get?_of_actor hb (hrest (hexecutions e he))

/-- Commands that end no run are clean. -/
theorem clean_of_history {cmds : List Command}
    (hcmds : ∀ cmd ∈ cmds, ∀ target key now phaseId,
      cmd = .advance target key now phaseId → target.terminal = false)
    (h : history P project cmds r = some r') :
    Relation.ReflTransGen (CleanStep P project) r r' :=
  steps_of_history (fun cmd hcmd _ _ hleads =>
    ⟨cmd, hleads, fun target key now phaseId heq hends => by
      rw [hcmds cmd hcmd target key now phaseId heq] at hends
      cases hends⟩) h

/-! ### Runs that are cancelled -/

namespace Sample

/-- The cancellation of the run in which the task is worked on. -/
def cancelled : Records :=
  (history primitives Sample.project [.advance .cancelled "cancel" 8 (.uuid4 30)] working).get
    (by decide +kernel)

theorem cancelled_state : cancelled.run.state = .cancelled := by decide +kernel

theorem working_busy : (working.tasks.entries.all fun u => !u.open) = true := by decide +kernel

theorem working_clean :
    Relation.ReflTransGen (CleanStep primitives Sample.project) made working := by
  have hbeginning : history primitives Sample.project beginning made = some working :=
    (Option.some_get _).symm
  refine clean_of_history (fun cmd hcmd target key now phaseId heq => ?_) hbeginning
  subst heq
  simp only [beginning, List.mem_cons, List.not_mem_nil, or_false, Command.advance.injEq,
    reduceCtorEq, false_or] at hcmd
  rcases hcmd with ⟨rfl, -⟩ | ⟨rfl, -⟩ | ⟨rfl, -⟩ | ⟨rfl, -⟩ | ⟨rfl, -⟩ <;> rfl

theorem cancelled_clean :
    Relation.ReflTransGen (CleanStep primitives Sample.project) made cancelled := by
  have hcancelling : history primitives Sample.project
      [.advance .cancelled "cancel" 8 (.uuid4 30)] working = some cancelled :=
    (Option.some_get _).symm
  have hleads := leads_of_history hcancelling
  refine working_clean.tail ⟨_, hleads, fun _ _ _ _ _ _ _ hstranded => ?_⟩
  obtain ⟨u, hu, hopen, -⟩ := hstranded
  have hbusy := List.all_eq_true.mp working_busy u hu
  rw [hopen] at hbusy
  cases hbusy

/-- The run whose preparatory work is announced and which is then cancelled. -/
def abandoned : Records :=
  (history primitives Sample.project (beginning.take 2 ++ [.startRequirements 3,
    .advance .cancelled "cancel" 4 (.uuid4 22)]) undefinedRun).get (by decide +kernel)

theorem abandoned_reachable : Reachable primitives Sample.project abandoned :=
  undefinedRun_reachable.history (Option.some_get _).symm

theorem abandoned_ready : abandoned.run.state = .cancelled ∧
    (abandoned.tasks.entries.any fun u => u.status = .ready) = true := by
  decide +kernel

end Sample

theorem sample_terminal_quiescence : Quiescent Sample.cancelled :=
  terminal_quiescence Sample.made_created Sample.cancelled_clean
    (by rw [Sample.cancelled_state]; rfl)

/-- A run that is cancelled before it has a plan keeps its preparatory task ready. -/
theorem abandoned_preparation : ¬ ∀ r, Reachable Sample.primitives Sample.project r →
    r.run.state.terminal = true → Quiescent r := by
  intro h
  obtain ⟨hstate, hready⟩ := Sample.abandoned_ready
  have hquiet := h Sample.abandoned Sample.abandoned_reachable (by rw [hstate]; rfl)
  obtain ⟨u, hu, hstatus⟩ := List.any_eq_true.mp hready
  refine hquiet.tasks u (Table.mem_def.mpr hu) ?_
  rw [of_decide_eq_true hstatus]
  decide

end Runs

end Orqalis
