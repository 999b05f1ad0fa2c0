import Orqalis.Core.Attempts
import Orqalis.Core.Consent

/-!
# What is worked on with approval

A run whose control policy asks for the approval of plans executes, integrates and tests plans
an operator has approved; one whose policy asks for the approval of tasks begins attempts at
approved tasks only. The policy is set before the first plan, but the work that prepares a goal
may have begun by then (`unapproved_work`).
-/

namespace Orqalis

open Lib Lib.Transaction

namespace RunState

/-- The states in which a plan is executed. -/
def executes : RunState → Bool
  | executing | integrating | testing => true
  | _ => false

theorem executes_of_transition {s t : RunState} (ht : t.executes = true) (hne : t ≠ executing)
    (h : t ∈ s.transitions) : s.executes = true := by
  cases s <;> first | rfl | (revert ht hne h; cases t <;> decide)

end RunState

section Runs

variable {r r' s t : Records} {P : Primitives} {project : Project} {cmd : Command} {now : Time}

/-! ## Plans -/

/-- The current plan is approved. -/
def PlanGranted (P : Primitives) (r : Records) : Prop :=
  ∃ p, r.plans.get? r.run.planVersion = some p ∧
    r.granted .plan r.run.planVersion (P.planSubject (r.refreshed p))

/-- Where the policy asks for the approval of plans, a plan that is executed is approved. -/
def Consented (P : Primitives) (r : Records) : Prop :=
  r.policy.requires .plan = true → r.run.stage.executes = true → PlanGranted P r

/-- The guard of the execution finds the approval of the plan it reads. -/
theorem Orchestrator.guardPlan_granted {x : Unit} (hr : Reachable P project r)
    (hpolicy : r.policy.requires .plan = true)
    (h : Orchestrator.guardPlan P r.run .executing now r = .ok (x, r')) : PlanGranted P r := by
  obtain ⟨plan, hplan, h⟩ := ask_bind_ok.mp h
  obtain ⟨current, hcurrent, hgate⟩ := found_bind_ok.mp h
  obtain ⟨rfl, -⟩ := Option.filter_eq_some_iff.mp hcurrent
  obtain ⟨p, hp, -⟩ := getPlan_ok hplan
  have hread := getPlan_eq_refreshed hr.inOrder.sane.numbered hp
  rw [hread] at hplan
  cases hplan
  rw [if_pos rfl] at hgate
  exact ⟨p, hp, (requireApproval_ok hgate).2 hpolicy⟩

/-- The approval of the current plan stays while the plan is the current one. -/
theorem PlanGranted.step (hr : Reachable P project r) (h : PlanGranted P r)
    (hleads : cmd.Leads P project r r') (hplans : r'.plans = r.plans)
    (hversion : r'.run.planVersion = r.run.planVersion) : PlanGranted P r' := by
  obtain ⟨p, hp, hgranted⟩ := h
  have hidentity := planIdentity_refreshed hr.inOrder.sane.numbered
    (hr.kept (.single ⟨cmd, hleads⟩)) (Table.mem_of_get? hp)
  refine ⟨p, by rw [hplans, hversion, hp], ?_⟩
  rw [hversion]
  unfold Primitives.planSubject
  rw [hidentity]
  exact hleads.granted hgranted

/-- A transition to the execution of a plan finds the plan approved; the other states of the
execution are entered from there. -/
theorem Moved.granted {target : RunState} (hr : Reachable P project r) (h : Consented P r)
    (hmoved : Moved P target now r r') (hpolicy : r.policy.requires .plan = true)
    (htarget : target.executes = true) : PlanGranted P r := by
  by_cases hexecuting : target = .executing
  · subst hexecuting
    have hguard := (Orchestrator.guard_ok hmoved.guarded).2.2
    unfold Orchestrator.guardState at hguard
    dsimp only at hguard
    split_ifs at hguard
    · obtain ⟨x, -, hguard⟩ := Reads.guardRepaired.bind_ok hguard
      exact Orchestrator.guardPlan_granted hr hpolicy hguard
    · exact Orchestrator.guardPlan_granted hr hpolicy hguard
  · refine h hpolicy ?_
    have hplain : target.interrupting = false := by
      cases target <;> first | rfl | exact absurd htarget (by decide)
    obtain ⟨-, hvalid⟩ := validateTransition_eq_ok.mp hmoved.valid
    rw [hplain] at hvalid
    rcases hvalid with ⟨hnot, -⟩ | ⟨-, ⟨-, hresume⟩ | ⟨hworking, hnext⟩⟩
    · cases hnot
    · rw [Run.stage, hresume]
      exact htarget
    · rw [hr.suspendable.stage_of_working hworking]
      exact RunState.executes_of_transition htarget hexecuting hnext

/-- A run makes a plan its current one where it executes none. -/
theorem stage_of_planning (hr : Reachable P project r)
    (hstate : r.run.state ∈ [RunState.goalDefined, .repairPlanning, .reviewing] ∨
      PreviewRevision.editable r.run = true) : r.run.stage.executes = false := by
  have hworking : ∀ s : RunState, r.run.state = s → s.suspended = false → s.executes = false →
      r.run.stage.executes = false := by
    rintro s rfl hsuspended hexecutes
    rwa [hr.suspendable.stage_of_working hsuspended]
  rcases hstate with hstate | heditable
  · simp only [List.mem_cons, List.not_mem_nil, or_false] at hstate
    rcases hstate with hstate | hstate | hstate
    · exact hworking _ hstate rfl rfl
    · exact hworking _ hstate rfl rfl
    · exact hworking _ hstate rfl rfl
  · rcases of_decide_eq_true heditable with hstate | ⟨-, hresume⟩
    · exact hworking _ hstate rfl rfl
    · rw [Run.stage, hresume]
      rfl

theorem Consented.step (hr : Reachable P project r) (h : Consented P r)
    (hleads : cmd.Leads P project r r') : Consented P r' := by
  intro hpolicy hstage
  rcases hleads.policy with hsame | ⟨hrun, hstate⟩
  · rw [hsame] at hpolicy
    cases hleads.movement with
    | stays hunmoved =>
      rw [Run.stage_of_lifecycle hunmoved.run] at hstage
      exact (h hpolicy hstage).step hr hleads hunmoved.plans
        (Run.planVersion_of_lifecycle hunmoved.run)
    | defines hstate hrun hplans =>
      rw [Run.stage_of_lifecycle hrun] at hstage
      exact (h hpolicy hstage).step hr hleads hplans (Run.planVersion_of_lifecycle hrun)
    | moves target key now phaseId hcmd hmoved =>
      refine PlanGranted.step hr ?_ hleads hmoved.plans
        ((Run.planVersion_of_lifecycle hmoved.run).trans rfl)
      rw [Run.stage_of_lifecycle hmoved.run, hr.suspendable.stage_moved now hmoved.valid] at hstage
      split_ifs at hstage
      · exact h hpolicy hstage
      · exact hmoved.granted hr h hpolicy hstage
    | plans plan hstate hplanned =>
      obtain ⟨repairs, hrun⟩ := hplanned.run
      rw [Run.stage_of_lifecycle hrun] at hstage
      exact absurd hstage (Bool.eq_false_iff.mp (stage_of_planning hr hstate))
    | replans plan hstate hplanned =>
      obtain ⟨repairs, hrun⟩ := hplanned.run
      rw [Run.stage_of_lifecycle hrun] at hstage
      cases hstage
  · rw [Run.stage_of_lifecycle hrun] at hstage
    have hworking : r.run.state.suspended = false ∧ r.run.state.executes = false := by
      revert hstate
      unfold configurable
      cases r.run.state <;> decide
    rw [hr.suspendable.stage_of_working hworking.1, hworking.2] at hstage
    cases hstage

theorem Reachable.consented (h : Reachable P project r) : Consented P r := by
  obtain ⟨r₀, hcreated, hrun⟩ := h
  induction hrun with
  | refl =>
    intro _ hstage
    obtain ⟨request, branch, base, n, now, hframe⟩ := hcreated.frame
    rw [Run.stage_of_lifecycle (hframe.lifecycle (by decide))] at hstage
    cases hstage
  | tail hbefore hstep ih =>
    obtain ⟨cmd, hleads⟩ := hstep
    exact Consented.step ⟨r₀, hcreated, hbefore⟩ ih hleads

/-! ## Attempts -/

/-- The attempts on record are the same ones. -/
def SameAttempts (r r' : Records) : Prop := ∀ k, r'.executions.has k = r.executions.has k

instance isPreorder_sameAttempts : IsPreorder Records SameAttempts where
  refl _ _ := rfl
  trans _ _ _ h h' := fun k => (h' k).trans (h k)

theorem SameAttempts.of_eq (h : r'.executions = r.executions) : SameAttempts r r' :=
  fun k => by rw [h]

/-- An attempt that moves on is no other. -/
theorem TaskRuntime.settle_attempts {run : Run} {execution : TaskExecution} {status : TaskStatus}
    {key : String} {x : TaskExecution} (hrun : run.id = r.run.id)
    (he : r.executions.get? execution.id = some execution)
    (hr : TaskRuntime.settle P run execution status key now r = .ok (x, r')) :
    SameAttempts r r' := by
  obtain ⟨⟨updated, hput, hid, -⟩, -⟩ := TaskRuntime.settle_ok hrun hr
  intro k
  unfold Table.has
  rw [hput, Table.get?_put]
  split_ifs with hk
  · have hold : r.executions.get? k = some execution := by rwa [← hk, hid]
    rw [hold]
    rfl
  · rfl

theorem SameAttempts.of_frame {S : List Part} (h : Frame S r r') (hS : Part.executions ∉ S) :
    SameAttempts r r' :=
  .of_eq (h.executions hS)

/-- Only the beginning of an attempt adds one. -/
theorem attempting_sameAttempts : Attempting P SameAttempts where
  frame _ _ _ hframe hexecutions _ := .of_frame hframe hexecutions
  settle _ _ _ _ _ _ _ _ hrun he _ hr := TaskRuntime.settle_attempts hrun he hr

/-! ## Tasks -/

/-- A gate finds the approval of a task, as the task prepares a goal or works in a workspace. -/
def TaskGranted (P : Primitives) (r : Records) (task : Task) : Prop :=
  ∃ version, r.granted .task version (P.requirementsTaskSubject task) ∨
    ∃ policy, r.granted .task version (P.taskSubject task policy)

/-- There is an approved request for a task. -/
def Records.taskApproved (P : Primitives) (r : Records) (task : Task) : Prop :=
  r.approved .task (P.requirementsTaskSubject task) ∨
    ∃ policy, r.approved .task (P.taskSubject task policy)

theorem TaskRuntime.requireTaskApproval_granted {task : Task} {x : Unit}
    (hpolicy : r.policy.requires .task = true)
    (hr : TaskRuntime.requireTaskApproval P r.run task now r = .ok (x, r')) :
    TaskGranted P r task := by
  unfold TaskRuntime.requireTaskApproval at hr
  rw [read_bind_ok] at hr
  rw [id_eq, if_pos hpolicy] at hr
  split_ifs at hr
  · exact ⟨_, .inl ((requireApproval_ok hr).2 hpolicy)⟩
  · obtain ⟨workspace, -, hr⟩ := ask_bind_ok.mp hr
    cases workspace with
    | none => exact absurd hr (by simp)
    | some workspace => exact ⟨_, .inr ⟨_, (requireApproval_ok hr).2 hpolicy⟩⟩

/-- An attempt that begins is one at a task its gate has let pass. -/
theorem TaskRuntime.start_granted {taskId : UUID} {key : String}
    (hr : stored (TaskRuntime.start P taskId key now) r = some r') :
    r'.executions = r.executions ∨ ∃ (task : Task) (execution : TaskExecution),
      r.tasks.get? task.id = some task ∧ execution.taskId = task.id ∧
        r'.executions = r.executions.put execution ∧
        (r.policy.requires .task = true → TaskGranted P r task) := by
  rcases TaskRuntime.start_stored hr with
    rfl | ⟨-, hframe | ⟨plan, task, x, -, hplan, htask, hgate, -, hr⟩⟩
  · exact .inl rfl
  · exact .inl (hframe.executions (by decide))
  · obtain ⟨hget, -, -⟩ := TaskRuntime.startable_ok hplan htask
    exact .inr ⟨task, newExecution r.run task key now, hget, rfl,
      (TaskRuntime.launch_ok rfl hr).1, fun hpolicy =>
        TaskRuntime.requireTaskApproval_granted hpolicy hgate⟩

/-- An attempt that begins while the policy asks for the approval of tasks is one at an approved
task. -/
theorem Command.Leads.begun (h : cmd.Leads P project r r')
    (hpolicy : r.policy.requires .task = true) {e : TaskExecution} (he : e ∈ r'.executions)
    (hnew : r.executions.has e.id = false) :
    ∃ task, r.tasks.get? e.taskId = some task ∧ TaskGranted P r task := by
  have hold : ¬ SameAttempts r r' := by
    intro hsame
    have hin : r'.executions.has e.id = true :=
      Option.isSome_of_eq_some (Table.get?_of_mem he)
    rw [hsame, hnew] at hin
    cases hin
  rcases attempting_sameAttempts.leads h with hsame | ⟨taskId, key, now, rfl⟩
  · exact absurd hsame hold
  · rcases TaskRuntime.start_granted (stored_quietly.mp h.2) with
      hsame | ⟨task, execution, htask, hid, hput, hgranted⟩
    · exact absurd (.of_eq hsame) hold
    · rw [hput] at he
      rcases Table.mem_put.mp he with rfl | ⟨hin, -⟩
      · exact ⟨task, hid ▸ htask, hgranted hpolicy⟩
      · rw [Table.has, Table.get?_of_mem hin] at hnew
        cases hnew

/-! ## Every run -/

/-- What is approved stays approved in every later state. -/
theorem granted_run {stage : ApprovalStage} {version : Nat} {digest : String}
    (h : r.granted stage version digest)
    (hrun : Relation.ReflTransGen (Step P project) r s) : s.granted stage version digest := by
  induction hrun with
  | refl => exact h
  | tail _ hstep ih =>
    obtain ⟨cmd, hleads⟩ := hstep
    exact hleads.granted ih

/-- What a run does with the approval of its operator. -/
structure ApprovalsSound (P : Primitives) (project : Project) (r : Records) : Prop where
  /-- A plan that is executed is approved, where plans need it. -/
  plan : r.policy.requires .plan = true → r.run.state.executes = true →
    ∃ p, r.getPlan r.run.planVersion = .ok (some p) ∧ r.approved .plan (P.planSubject p)
  /-- A task at which an attempt begins is approved from then on, where tasks need it. -/
  task : ∀ s t, Step P project r s → Relation.ReflTransGen (Step P project) s t →
    r.policy.requires .task = true → ∀ e ∈ s.executions, r.executions.has e.id = false →
    ∃ task, t.tasks.get? e.taskId = some task ∧ t.taskApproved P task
  /-- A decision stays as it is recorded. -/
  decisions : ∀ t, Relation.ReflTransGen (Step P project) r t → ∀ k d,
    r.approvalDecisions.get? k = some d → t.approvalDecisions.get? k = some d

end Runs

namespace Sample

/-- The run that has been made without a goal. -/
def undefinedRun : Records :=
  (stored (GoalService.createPending primitives .autonomous none)
    { run := GoalService.newRun project "Greet" "main" "base" (.uuid4 1) 0 }).get
    (by decide +kernel)

theorem undefinedRun_reachable : Reachable primitives project undefinedRun :=
  ⟨_, ⟨"Greet", "main", "base", 1, 0, .autonomous, none, .inl (Option.some_get _).symm⟩, .refl⟩

/-- The commands that begin the preparatory work and then have tasks approved. -/
def supervisingLate : List Command :=
  beginning.take 2 ++
    [.startRequirements 3,
      .startTask (Orchestrator.requirementsId (.uuid4 1)) "requirements:attempt:1" 4,
      .configure .supervised (some [.task]) 5]

/-- The run whose preparatory work has begun before its policy is set. -/
def lateSupervised : Records :=
  (history primitives project supervisingLate undefinedRun).get (by decide +kernel)

theorem lateSupervised_reachable : Reachable primitives project lateSupervised :=
  undefinedRun_reachable.history (Option.some_get _).symm

theorem lateSupervised_policy : lateSupervised.policy.requires .task = true ∧
    lateSupervised.executions.entries.length = 1 ∧ lateSupervised.requestList = [] := by
  decide +kernel

end Sample

end Orqalis
