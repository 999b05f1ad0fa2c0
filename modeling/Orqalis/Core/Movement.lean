import Orqalis.Core.PlanHistory

/-!
# How a run moves

What a command does to the lifecycle of a run, to its plans and to its current goal, said once:
nothing, a goal where one can be revised, a transition its guards let pass, or a plan that
becomes the current one.
-/

namespace Orqalis

open Lib Lib.Transaction

variable {r r' : Records} {P : Primitives} {project : Project} {cmd : Command}

section Lifecycles

variable {run run' : Run}

theorem Run.state_of_lifecycle (h : run'.lifecycle = run.lifecycle) : run'.state = run.state :=
  (congrArg Run.state h :)

theorem Run.planVersion_of_lifecycle (h : run'.lifecycle = run.lifecycle) :
    run'.planVersion = run.planVersion :=
  (congrArg Run.planVersion h :)

end Lifecycles

/-- Two runs with one lifecycle, one list of plans and one goal. -/
structure Unmoved (r r' : Records) : Prop where
  run : r'.run.lifecycle = r.run.lifecycle
  plans : r'.plans = r.plans
  goal : r'.run.currentGoalVersionId = r.run.currentGoalVersionId

/-- A transition to a state that the checks of the state and its guards let pass. -/
structure Moved (P : Primitives) (target : RunState) (now : Time) (r r' : Records) : Prop where
  valid : validateTransition r.run.state target r.run.resumeState = .ok ()
  guarded : Orchestrator.guard P r.run target now r = .ok ((), r)
  run : r'.run.lifecycle = (Orchestrator.moved r.run target now).lifecycle
  plans : r'.plans = r.plans
  goal : r'.run.currentGoalVersionId = r.run.currentGoalVersionId

/-- A plan for the current goal that becomes the current one of a run, which may be sent back
to another state once it is resumed. -/
structure Planned (plan : TaskPlan) (resumeState : Option RunState) (r r' : Records) : Prop where
  version : plan.version = r.run.planVersion + 1
  bound : some plan.goalVersionId = r.run.currentGoalVersionId
  run : ∃ repairs, r'.run.lifecycle =
    { r.run with
      planVersion := plan.version
      repairIteration := repairs
      resumeState := resumeState }.lifecycle
  plans : r'.plans = r.plans.put plan
  goal : r'.run.currentGoalVersionId = r.run.currentGoalVersionId

/-- What a command does to the lifecycle of a run, to its plans and to its goal. -/
inductive Movement (P : Primitives) (cmd : Command) (r r' : Records) : Prop
  | stays (h : Unmoved r r')
  | defines (hstate : r.run.state ∈ GoalService.revisable)
      (hrun : r'.run.lifecycle = r.run.lifecycle) (hplans : r'.plans = r.plans)
  | moves (target : RunState) (key : String) (now : Time) (phaseId : UUID)
      (hcmd : cmd = .advance target key now phaseId) (h : Moved P target now r r')
  | plans (plan : TaskPlan)
      (hstate : r.run.state ∈ [RunState.goalDefined, .repairPlanning, .reviewing] ∨
        PreviewRevision.editable r.run = true)
      (h : Planned plan r.run.resumeState r r')
  | replans (plan : TaskPlan)
      (hstate : r.run.state = .paused ∨ r.run.state = .humanReviewRequired)
      (h : Planned plan (some .planned) r r')

/-! ## Commands -/

/-- A command that leaves the lifecycle, the plans and the goal alone. -/
theorem Unmoved.of_frame {S : List Part} (h : Frame S r r') (hlifecycle : Part.lifecycle ∉ S)
    (hplans : Part.plans ∉ S) (hgoal : Part.currentGoal ∉ S) : Unmoved r r' :=
  ⟨h.lifecycle hlifecycle, h.plans hplans, h.currentGoal hgoal⟩

theorem Unmoved.refl (r : Records) : Unmoved r r := ⟨rfl, rfl, rfl⟩

section Goals

variable {now : Time} {n : Nat} {draft : GoalDraft}

/-- A goal is defined while its run is analyzed. -/
theorem GoalService.defineInitial_state {executionId : UUID}
    (hr : stored (GoalService.defineInitial P executionId draft n now) r = some r') :
    r.run.state = .analyzing := by
  unfold GoalService.defineInitial at hr
  rw [show lockedRun = Transaction.read Records.run from rfl, stored_read_bind] at hr
  obtain ⟨x, hstate, hr⟩ := (Reads.failIf _ _).stored_bind hr
  exact not_not.mp (failIf_ok.mp hstate).1

/-- A goal is revised in the states it can be revised in. -/
theorem GoalService.revise_state {reason : String} {expectedVersion : Nat}
    (hr : stored (GoalService.revise P draft reason expectedVersion n now) r = some r') :
    r.run.state ∈ GoalService.revisable := by
  unfold GoalService.revise at hr
  obtain ⟨-, -, hr⟩ := (Reads.failIf _ _).stored_bind hr
  rw [show lockedRun = Transaction.read Records.run from rfl, stored_read_bind] at hr
  obtain ⟨-, -, hr⟩ := (Reads.failIf _ _).stored_bind hr
  obtain ⟨x, hstate, hr⟩ := (Reads.failIf _ _).stored_bind hr
  exact not_not.mp (failIf_ok.mp hstate).1

end Goals

/-- The state in which a repair or a delivery is planned. -/
theorem PlanRevision.extensible_state {run : Run} {repair : Bool}
    (h : PlanRevision.extensible run repair = true) :
    run.state ∈ [RunState.goalDefined, .repairPlanning, .reviewing] := by
  unfold PlanRevision.extensible at h
  split_ifs at h
  · simp [(of_decide_eq_true h).1]
  · simp [of_decide_eq_true h]

theorem PlanRevision.install_movement {plan : ValidPlan} {key : String} {repair : Bool}
    {now : Time} (hframe : Frame cmd.parts r r') (hgoal : Part.currentGoal ∉ cmd.parts)
    (hr : stored (PlanRevision.install P plan key repair now) r = some r') :
    Movement P cmd r r' := by
  rcases PlanRevision.install_stored hr with
    rfl | hrequest | ⟨current, goal, -, hextensible, hnext, hbound, -, -, -, -, hs⟩
  · exact .stays (.refl _)
  · exact .stays (.of_frame hrequest (by decide) (by decide) (by decide))
  · obtain ⟨hplans, hrun⟩ := PlanRevision.storeExtension_run hs
    exact .plans plan.1 (.inl (PlanRevision.extensible_state hextensible))
      ⟨hnext, hbound, ⟨_, hrun⟩, hplans, hframe.currentGoal hgoal⟩

/-- What a command does to the lifecycle of a run, to its plans and to its goal. -/
theorem Command.Leads.movement (h : cmd.Leads P project r r') : Movement P cmd r r' := by
  have hframe := h.frame
  obtain ⟨-, hstored⟩ := h
  cases cmd with
  | advance target key now phaseId =>
    rcases Orchestrator.advance_stored (stored_quietly.mp hstored) with
      rfl | hrequest | ⟨s, t, hvalid, hguard, -, -, hs, ht, hu⟩
    · exact .stays (.refl _)
    · exact .stays (.of_frame hrequest (by decide) (by decide) (by decide))
    · have hclosed := Within.frame (Orchestrator.close_within hs.id.symm) ht
      exact .moves target key now phaseId rfl
        ⟨hvalid, hguard, Orchestrator.enter_lifecycle (hclosed.id.trans hs.id).symm hu,
          hframe.plans (by simp [Command.parts]), hframe.currentGoal (by simp [Command.parts])⟩
  | installPlan plan key now =>
    rcases Orchestrator.installPlan_stored (stored_quietly.mp hstored) with
      rfl | hrequest | ⟨valid, contract, -, -, -, hcheck, hs⟩
    · exact .stays (.refl _)
    · exact .stays (.of_frame hrequest (by decide) (by decide) (by decide))
    · obtain ⟨hstate, hnone, hbound, hfirst, -, -⟩ := Orchestrator.checkInitialPlan_ok hcheck
      obtain ⟨hplans, hrun⟩ := Orchestrator.storeInitialPlan_run hs
      exact .plans valid.1 (.inl (by simp [hstate]))
        ⟨by omega, hbound, ⟨_, hrun⟩, hplans, hframe.currentGoal (by simp [Command.parts])⟩
  | installRepair plan key now =>
    exact PlanRevision.install_movement hframe (by simp [Command.parts])
      (stored_quietly.mp hstored)
  | installDelivery plan key now =>
    exact PlanRevision.install_movement hframe (by simp [Command.parts])
      (stored_quietly.mp hstored)
  | replan plan key now =>
    rcases GoalReplanning.install_stored (stored_quietly.mp hstored) with
      rfl | hrequest | ⟨current, -, hcheck, hs⟩
    · exact .stays (.refl _)
    · exact .stays (.of_frame hrequest (by decide) (by decide) (by decide))
    · obtain ⟨-, -, hstate, hnext, -, hbound, -, -⟩ := GoalReplanning.checkReplacement_ok hcheck
      obtain ⟨hplans, hrun⟩ := GoalReplanning.storeReplacement_run hs
      exact .replans plan.1 hstate
        ⟨hnext, hbound, ⟨_, hrun⟩, hplans, hframe.currentGoal (by simp [Command.parts])⟩
  | replacePreview plan expected key now =>
    rcases PreviewRevision.replace_stored (stored_quietly.mp hstored) with
      rfl | ⟨current, goal, revised, -, hcheck, hedit, hs⟩
    · exact .stays (.refl _)
    · obtain ⟨heditable, hversion, hnext, hbound, -, -, -⟩ :=
        PreviewRevision.checkUnexecuted_ok hcheck
      obtain ⟨hplans, hrun⟩ := PreviewRevision.storeEdit_run hs
      have hrevised := (PreviewRevision.checkEdit_ok hedit).1
      have hsame : revised.1.version = plan.1.version ∧
          revised.1.goalVersionId = plan.1.goalVersionId := by
        rw [hrevised]
        dsimp only
        split_ifs <;> exact ⟨rfl, rfl⟩
      exact .plans revised.1 (.inr heditable)
        ⟨by omega, hsame.2 ▸ hbound, ⟨_, hrun⟩, hplans,
          hframe.currentGoal (by simp [Command.parts])⟩
  | defineInitial executionId draft n now =>
    have hstate := GoalService.defineInitial_state (stored_quietly.mp hstored)
    exact .defines (by simp [hstate, GoalService.revisable])
      (hframe.lifecycle (by simp [Command.parts])) (hframe.plans (by simp [Command.parts]))
  | revise draft reason expected n now =>
    exact .defines (GoalService.revise_state (stored_quietly.mp hstored))
      (hframe.lifecycle (by simp [Command.parts])) (hframe.plans (by simp [Command.parts]))
  | _ =>
    exact .stays (.of_frame hframe (by simp [Command.parts]) (by simp [Command.parts])
      (by simp [Command.parts]))

end Orqalis
