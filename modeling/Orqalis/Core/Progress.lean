import Orqalis.Core.Labor

/-!
# Every run works by moves

The installation of a plan is a move; what a termination closes, what a replacement retires
and what an edit cancels are moves. With what the tasks do this makes every step of a run a
sequence of moves, and what moves keep holds of every run.
-/

namespace Orqalis

open Lib Lib.Transaction

variable {limit : Nat} {r r' s t : Records} {P : Primitives} {run : Run} {now : Time}

/-! ## Installation -/

/-- A plan that is stored and made the current one is installed. -/
theorem Labor.install {plan : TaskPlan} {updated : Run} (h : InOrder limit r)
    (hs : r.savePlan plan = .ok s) (ht : s.saveRun updated = .ok t)
    (hid : updated.id = r.run.id) (hversion : updated.planVersion = plan.version)
    (hnext : plan.version = r.run.planVersion + 1) (hnodup : plan.ids.Nodup)
    (hnew : ∀ u ∈ plan.tasks, r.tasks.has u.id = false →
      u.status = .pending ∧ u.attemptCount = 0 ∧ u.planVersion ≠ 0)
    (hunwritten : r.work.unwritten) :
    Labor limit r t ∧ t.work = r.work.install plan ∧ t.run.id = r.run.id := by
  obtain ⟨hstored, hrecorded⟩ := savePlan_ok hs
  have hwork : t.work = r.work.install plan := by
    rw [saveRun_ok ht, hstored]
    show Work.mk _ _ _ updated.planVersion = _
    rw [hversion]
    rfl
  have hsame : t.run.id = r.run.id ∧ t.events = r.events ∧ t.executions = r.executions := by
    rw [saveRun_ok ht, hstored]
    exact ⟨hid, rfl, rfl⟩
  refine ⟨Labor.of_moves h hsame.1 (GrownBy.of_eq hsame.2.1) ?_ hsame.2.2, hwork, hsame.1⟩
  rw [hwork]
  exact .single (.install ⟨hnext, hnodup, hrecorded, hnew, hunwritten⟩)

/-- A plan is installed, its tasks are announced, readiness is worked out anew, and what follows
does no work. -/
def Installs (limit : Nat) (P : Primitives) (plan : TaskPlan) (r r' : Records) : Prop :=
  ∃ (updated : Run) (key : String) (now : Time) (s t u : Records) (x : Unit),
    (∀ v ∈ plan.tasks, ∀ w, r.tasks.get? v.id = some w → w = v) ∧ Labor limit r s ∧
      s.work = r.work.install plan ∧ updated.planVersion = s.run.planVersion ∧
      Frame [.repairs] s t ∧ refreshReady P updated key now t = .ok (x, u) ∧
      Frame [.requests, .coordinator] u r'

theorem Installs.labor {plan : TaskPlan} (h : Installs limit P plan r r') : Labor limit r r' := by
  obtain ⟨updated, key, now, s, t, u, x, -, hinstalled, -, -, hbefore, hready, hafter⟩ := h
  have hannounced := Labor.of_frame hinstalled.inOrder hbefore (by decide)
  have hrefreshed := refreshReady_labor hannounced.inOrder hready
  exact ((hinstalled.trans hannounced).trans hrefreshed).trans
    (Labor.of_frame hrefreshed.inOrder hafter (by decide))

/-- A plan that is stored and made the current one, with what follows, is installed. -/
theorem Installs.intro {plan : TaskPlan} {updated : Run} {key : String} {u v : Records}
    {x : Unit} (h : InOrder limit r) (hs : r.savePlan plan = .ok s)
    (ht : s.saveRun updated = .ok t) (hid : updated.id = r.run.id)
    (hversion : updated.planVersion = plan.version)
    (hnext : plan.version = r.run.planVersion + 1) (hnodup : plan.ids.Nodup)
    (hnew : ∀ u ∈ plan.tasks, r.tasks.has u.id = false →
      u.status = .pending ∧ u.attemptCount = 0 ∧ u.planVersion ≠ 0)
    (hunwritten : r.work.unwritten) (hannounced : Frame [.repairs] t u)
    (hready : refreshReady P updated key now u = .ok (x, v))
    (hrest : Frame [.requests, .coordinator] v r') : Installs limit P plan r r' := by
  obtain ⟨hinstalled, hwork, -⟩ := Labor.install h hs ht hid hversion hnext hnodup hnew hunwritten
  have hsame : t.work.planVersion = plan.version := by
    rw [hwork]
    rfl
  exact ⟨updated, key, now, t, u, v, x, (savePlan_ok hs).2, hinstalled, hwork,
    hversion.trans hsame.symm, hannounced, hready, hrest⟩

/-- What an installation announces. -/
theorem announced_frame {d : EventDraft} {label : String} {tasks : List Task} {x y : Unit}
    (hd : d.Quiet) (hs : note P run d r = .ok (x, s))
    (ht : announce P run label now tasks s = .ok (y, t)) : Frame [.repairs] r t :=
  ((Within.frame (Within.note hd) hs : Frame [] r s).trans
    (Within.frame announce_within ht)).mono (by simp)

/-- No task of a writer is under way where the current plan has none. -/
theorem InOrder.unwritten_of_plan (h : InOrder limit r)
    (hplan : ∀ plan, r.getPlan r.run.planVersion = .ok (some plan) →
      ∀ u ∈ plan.tasks, u.status.active = false)
    (hread : (∃ plan, r.getPlan r.run.planVersion = .ok (some plan)) ∨
      r.plans.get? r.run.planVersion = none) : r.work.unwritten := by
  intro u hu hwrites
  by_contra hactive
  obtain ⟨p, hp, hin⟩ := h.sane.exclusive.planned u hu hwrites (Bool.of_not_eq_false hactive)
  rcases hread with ⟨plan, hget⟩ | hnone
  · obtain ⟨stored, hstored, -, hids, hrecord⟩ := getPlan_ok hget
    cases hp.symm.trans hstored
    rw [← hids] at hin
    obtain ⟨v, hv, hvid⟩ := List.mem_map.mp hin
    have hgetv := hrecord v hv
    rw [hvid] at hgetv
    cases (Table.get?_of_mem hu).symm.trans hgetv
    exact hactive (hplan plan hget u hv)
  · have hget : r.plans.get? r.run.planVersion = some p := hp
    rw [hnone] at hget
    cases hget

/-! ## The first plan -/

/-- What a first plan that passes its checks is. -/
theorem Orchestrator.checkInitialPlan_ok {preparation : List Task} {plan : TaskPlan}
    {contract : GoalContract}
    (hr : Orchestrator.checkInitialPlan P run preparation plan r = .ok (contract, r')) :
    run.state = .goalDefined ∧ run.planVersion = 0 ∧
      some plan.goalVersionId = run.currentGoalVersionId ∧ plan.version = 1 ∧
      (∀ u ∈ plan.tasks, u ∉ preparation → u.status = .pending ∧ u.attemptCount = 0) ∧
      r.getGoal plan.goalVersionId = some contract := by
  unfold Orchestrator.checkInitialPlan at hr
  obtain ⟨hstate, hr⟩ := failIf_bind_ok.mp hr
  obtain ⟨hgoal, hr⟩ := failIf_bind_ok.mp hr
  obtain ⟨hdone, hr⟩ := failIf_bind_ok.mp hr
  obtain ⟨-, hr⟩ := failIf_bind_ok.mp hr
  rw [read_bind_ok] at hr
  obtain ⟨found, hfound, hr⟩ := found_bind_ok.mp hr
  obtain ⟨-, hr⟩ := failIf_bind_ok.mp hr
  obtain ⟨rfl, -⟩ := pure_ok.mp hr
  refine ⟨by tauto, by tauto, by tauto, by tauto, fun u hu hnot => ?_, hfound⟩
  by_contra hne
  exact hdone (List.any_eq_true.mpr ⟨u, hu, by
    simp only [Bool.decide_and, Bool.and_eq_true, decide_eq_true_eq]
    exact ⟨by tauto, hnot⟩⟩)

theorem Orchestrator.storeInitialPlan_installs {preparation : List Task} {plan : TaskPlan}
    {key : String} {x : Unit} (h : InOrder limit r) (hnodup : plan.ids.Nodup)
    (hstart : r.run.planVersion = 0) (hfirst : plan.version = 1)
    (hnew : ∀ u ∈ plan.tasks, r.tasks.has u.id = false →
      u.status = .pending ∧ u.attemptCount = 0 ∧ u.planVersion ≠ 0)
    (hr : Orchestrator.storeInitialPlan P r.run preparation plan key now r = .ok (x, r')) :
    Installs limit P plan r r' := by
  obtain ⟨s, hs, hr⟩ := stage_bind_ok.mp hr
  obtain ⟨t, ht, hr⟩ := stage_bind_ok.mp hr
  have hnone : r.plans.get? r.run.planVersion = none := by
    rw [hstart]
    cases hget : r.plans.get? 0 with
    | none => rfl
    | some p =>
      have hversions := (h.sane.numbered.versions 0).mp (congrArg Option.isSome hget)
      omega
  have hunwritten : r.work.unwritten := h.unwritten_of_plan (fun plan hget => by
    obtain ⟨p, hp, -⟩ := getPlan_ok hget
    rw [hnone] at hp
    cases hp) (.inr hnone)
  obtain ⟨y, u, hu, hr⟩ := bind_ok.mp hr
  obtain ⟨z, v, hv, hr⟩ := bind_ok.mp hr
  exact .intro h hs ht rfl rfl (by rw [hfirst, hstart]) hnodup hnew hunwritten
    (announced_frame (quiet_of_apart (by rfl)) hu hv) hr (Frame.refl _ _)

theorem withPreparation_mem {prepared : List Task} {plan : TaskPlan} {u : Task}
    (h : u ∈ (withPreparation prepared plan).tasks) : u ∈ prepared ∨ u ∈ plan.tasks :=
  List.mem_append.mp h

/-- The first plan of a run is installed, or its gate leaves a request. -/
theorem Orchestrator.installPlan_labor {plan : ValidPlan} {key : String} (h : InOrder limit r)
    (hr : stored (Orchestrator.installPlan P plan key now) r = some r') : Labor limit r r' := by
  rcases Orchestrator.installPlan_stored hr with
    rfl | hframe | ⟨valid, contract, -, hhistory, -, hcheck, hs⟩
  · exact Labor.refl h
  · exact Labor.of_frame h hframe (by decide)
  · obtain ⟨-, hstart, -, hfirst, hdone, -⟩ := Orchestrator.checkInitialPlan_ok hcheck
    refine (Orchestrator.storeInitialPlan_installs h valid.valid.nodup hstart hfirst
      (fun u hu hfresh => ?_) hs).labor
    have hnot : u ∉ r.preparation := by
      intro hmem
      have hstored : u ∈ r.tasks := mem_sortEntities.mp (List.mem_filter.mp hmem).1
      have hhas := has_of_get?_tasks (Table.get?_of_mem hstored)
      rw [hfresh] at hhas
      cases hhas
    exact ⟨(hdone u hu hnot).1, (hdone u hu hnot).2, fun hzero => hnot (hhistory u hu hzero)⟩

/-! ## Extensions -/

theorem unexecuted_eq_true {u : Task} {version : Nat} (h : u.unexecuted version = true) :
    u.status = .pending ∧ u.attemptCount = 0 ∧ u.planVersion = version :=
  of_decide_eq_true h

/-- What a plan that extends the current one is. -/
theorem PlanRevision.checkExtension_ok {current plan : TaskPlan} {goal : GoalContract} {x : Unit}
    (hr : PlanRevision.checkExtension P current plan goal r = .ok (x, r')) :
    (∀ u ∈ current.tasks, plan.tasks.find? (fun v => v.id = u.id) = some u) ∧
      (∀ e ∈ current.dependencies, e ∈ plan.dependencies) ∧
      (∀ e ∈ plan.dependencies, e.taskId ∈ current.ids → e ∈ current.dependencies) ∧
      (∀ u ∈ plan.tasks, u.id ∉ current.ids → u.unexecuted plan.version = true) ∧
      ∀ u ∈ current.tasks, u.status.active = false := by
  unfold PlanRevision.checkExtension at hr
  obtain ⟨htasks, hr⟩ := failIf_bind_ok.mp hr
  obtain ⟨hkept, hr⟩ := failIf_bind_ok.mp hr
  obtain ⟨hedges, hr⟩ := failIf_bind_ok.mp hr
  obtain ⟨hadded, hr⟩ := failIf_bind_ok.mp hr
  obtain ⟨hidle, hr⟩ := failIf_bind_ok.mp hr
  refine ⟨by simpa using htasks, by simpa using hkept, fun e he hin => ?_, fun u hu hnot => ?_,
    by simpa using hidle⟩
  · by_contra hne
    exact hedges (List.any_eq_true.mpr ⟨e, he, by simpa using ⟨hne, hin⟩⟩)
  · by_contra hne
    refine hadded (.inr (List.any_eq_true.mpr ⟨u, List.mem_filter.mpr ⟨hu, ?_⟩, ?_⟩))
    · exact decide_eq_true hnot
    · exact decide_eq_true (Bool.of_not_eq_true hne)

theorem PlanRevision.storeExtension_installs {current plan : TaskPlan} {key : String}
    {repair : Bool} {x : Unit} (h : InOrder limit r) (hnodup : plan.ids.Nodup)
    (hcurrent : r.getPlan r.run.planVersion = .ok (some current))
    (hnext : plan.version = r.run.planVersion + 1)
    (hadded : ∀ u ∈ plan.tasks, u.id ∉ current.ids → u.unexecuted plan.version = true)
    (hidle : ∀ u ∈ current.tasks, u.status.active = false)
    (hr : PlanRevision.storeExtension P r.run current plan key repair now r = .ok (x, r')) :
    Installs limit P plan r r' := by
  obtain ⟨-, -, -, -, hrecord⟩ := getPlan_ok hcurrent
  obtain ⟨s, hs, hr⟩ := stage_bind_ok.mp hr
  obtain ⟨t, ht, hr⟩ := stage_bind_ok.mp hr
  have hunwritten : r.work.unwritten := h.unwritten_of_plan (fun p hp => by
    rw [hcurrent] at hp
    cases hp
    exact hidle) (.inl ⟨current, hcurrent⟩)
  have hnew : ∀ u ∈ plan.tasks, r.tasks.has u.id = false →
      u.status = .pending ∧ u.attemptCount = 0 ∧ u.planVersion ≠ 0 := by
    intro u hu hfresh
    have hnot : u.id ∉ current.ids := by
      intro hin
      obtain ⟨v, hv, hvid⟩ := List.mem_map.mp hin
      have hhas := has_of_get?_tasks (hrecord v hv)
      rw [hvid, hfresh] at hhas
      cases hhas
    obtain ⟨hstatus, hcount, hversion⟩ := unexecuted_eq_true (hadded u hu hnot)
    exact ⟨hstatus, hcount, by omega⟩
  obtain ⟨y, u, hu, hr⟩ := bind_ok.mp hr
  obtain ⟨z, v, hv, hr⟩ := bind_ok.mp hr
  obtain ⟨y, w, hw, hr⟩ := bind_ok.mp hr
  have hstarted : Frame [.repairs] u v := by
    unfold PlanRevision.storeExtension.announceRepair at hv
    split_ifs at hv
    · exact Within.frame
        (Within.noted (fun _ => .inl rfl) fun h => absurd (by decide) h) hv
    · rw [(pure_ok.mp hv).2]
      exact Frame.refl _ _
  have hrevised : Frame [] t u := Within.frame (Within.note (quiet_of_apart (by rfl))) hu
  have hannounced : Frame [] v w := Within.frame announce_within hw
  exact .intro h hs ht rfl rfl hnext hnodup hnew hunwritten
    (((hrevised.mono (by simp)).trans hstarted).trans (hannounced.mono (by simp))) hr
    (Frame.refl _ _)

/-- A plan that extends the current one is installed, or its gate leaves a request. -/
theorem PlanRevision.install_labor {plan : ValidPlan} {key : String} {repair : Bool}
    (h : InOrder limit r)
    (hr : stored (PlanRevision.install P plan key repair now) r = some r') :
    Labor limit r r' := by
  rcases PlanRevision.install_stored hr with
    rfl | hframe | ⟨current, goal, -, -, hnext, -, hcurrent, -, -, hcheck, hs⟩
  · exact Labor.refl h
  · exact Labor.of_frame h hframe (by decide)
  · obtain ⟨-, -, -, hadded, hidle⟩ := PlanRevision.checkExtension_ok hcheck
    exact
      (PlanRevision.storeExtension_installs h plan.valid.nodup hcurrent hnext hadded hidle hs).labor

/-! ## Attempts that end together -/

/-- A task that has not begun stays as it is while an attempt at another task ends. -/
theorem get?_of_put_open {task u : Task} {e : TaskExecution} (h : InOrder limit r)
    (he : r.executions.get? e.id = some e) (hactive : e.status.active = true)
    (htask : r.tasks.get? e.taskId = some task) {record : Task}
    (hput : r'.tasks = r.tasks.put record) (hid : record.id = task.id)
    (hu : r.tasks.get? u.id = some u)
    (hopen : u.open = true) : r'.tasks.get? u.id = some u := by
  rw [hput, Table.get?_put, if_neg]
  · exact hu
  · intro heq
    rw [hid] at heq
    have hkey : task.id = e.taskId := Table.key_of_get? htask
    rw [← heq, hkey, htask] at hu
    cases hu
    have hlive := (h.sane.sound.live e (Table.mem_of_get? he) hactive task htask).2
    have hidle := Work.idle_of_open hopen
    rw [hlive, hactive] at hidle
    cases hidle

/-- What a loop over attempts has done: those behind it are over, no attempt has been added,
and the tasks that had not begun are as they were. -/
structure Retired (limit : Nat) (r s : Records) (left : List TaskExecution) : Prop where
  labor : Labor limit r s
  id : s.run.id = r.run.id
  version : s.run.planVersion = r.run.planVersion
  has : ∀ id, s.executions.has id = r.executions.has id
  ended : ∀ e ∈ r.executions, e ∈ left ∨ s.work.ended e.id
  idle : ∀ u, u.open = true → (s.tasks.get? u.id = some u ↔ r.tasks.get? u.id = some u)

/-- A round of such a loop: the attempt at its head is over afterwards. -/
theorem Retired.round {attempt : TaskExecution} {left : List TaskExecution} {key : String}
    {x : TaskExecution} (hretired : Retired limit r s (attempt :: left))
    (hrun : run.id = r.run.id) (hmem : attempt ∈ r.executions)
    (hr : TaskRuntime.transitionInTransaction P run attempt.id .cancelled key now s =
      .ok (x, t)) : Retired limit r t left := by
  have horder := hretired.labor.inOrder
  have hhas : s.executions.has attempt.id = true := by
    rw [hretired.has]
    exact congrArg Option.isSome (Table.get?_of_mem hmem)
  obtain ⟨current, hcurrent⟩ := Option.isSome_iff_exists.mp hhas
  have hid : current.id = attempt.id := Table.key_of_get? hcurrent
  rw [← hid] at hr hcurrent
  have hrun' : run.id = s.run.id := hrun.trans hretired.id.symm
  obtain ⟨hlabor, hsame, hended, hput⟩ :=
    TaskRuntime.transitionInTransaction_labor horder hrun' hcurrent hr
  have hframe := Within.frame (TaskRuntime.transitionInTransaction_within hrun') hr
  have htasks : (∃ task completedAt, (current.status.active = true ∧
      s.tasks.get? current.taskId = some task) ∧
      t.tasks = s.tasks.put { task with status := .cancelled, completedAt }) ∨
      t.tasks = s.tasks := by
    by_cases hactive : current.status.active = true
    · obtain ⟨task, htask, -⟩ := horder.sane.sound.owned current (Table.mem_of_get? hcurrent)
      have htask : s.tasks.get? current.taskId = some task := htask
      obtain ⟨completedAt, hput⟩ := hput (by decide) hactive rfl task htask
      exact .inl ⟨task, completedAt, ⟨hactive, htask⟩, hput⟩
    · refine .inr ?_
      unfold TaskRuntime.transitionInTransaction at hr
      rw [read_bind_ok] at hr
      obtain ⟨found, hfound, hr⟩ := found_bind_ok.mp hr
      cases hcurrent.symm.trans hfound
      cases hexisting : s.byKey s!"{key}:task" with
      | some existing =>
        simp only [id_eq, hexisting] at hr
        obtain ⟨-, hr⟩ := failIf_bind_ok.mp hr
        rw [(pure_ok.mp hr).2]
      | none =>
        simp only [id_eq, hexisting] at hr
        obtain ⟨hstatus, -⟩ := failIf_bind_ok.mp hr
        exact absurd (Work.active_of_transition (not_not.mp hstatus)) hactive
  refine
    { labor := hretired.labor.trans hlabor
      id := hframe.id.trans hretired.id
      version := (hframe.planVersion (by decide)).trans hretired.version
      has := fun id => (hsame id).trans (hretired.has id)
      ended := fun e he => ?_
      idle := fun u hopen => (Iff.intro ?_ ?_).trans (hretired.idle u hopen) }
  · rcases hretired.ended e he with hleft | hover
    · rcases List.mem_cons.mp hleft with rfl | hleft
      · rw [← hid]
        exact .inr (hended rfl)
      · exact .inl hleft
    · exact .inr (Work.ended_kept hover (hlabor.kept horder))
  · intro hu
    rcases htasks with ⟨task, completedAt, -, hput⟩ | hsame
    · rw [hput, Table.get?_put] at hu
      split_ifs at hu
      · cases hu
        cases hopen
      · exact hu
    · rwa [← hsame]
  · intro hu
    rcases htasks with ⟨task, completedAt, ⟨hactive, htask⟩, hput⟩ | hsame
    · exact get?_of_put_open horder hcurrent hactive htask hput rfl hu hopen
    · rwa [hsame]

/-- After such a loop no attempt is under way. -/
theorem Retired.over (h : Retired limit r s []) {e : TaskExecution} (he : e ∈ s.executions) :
    e.status.active = false := by
  have hhas : r.executions.has e.id = true := by
    rw [← h.has]
    exact congrArg Option.isSome (Table.get?_of_mem he)
  obtain ⟨old, hold⟩ := Option.isSome_iff_exists.mp hhas
  have hid : old.id = e.id := Table.key_of_get? hold
  rcases h.ended old (Table.mem_of_get? hold) with hleft | ⟨e', he', hend⟩
  · cases hleft
  · rw [hid] at he'
    cases (Table.get?_of_mem he).symm.trans he'
    exact hend

/-- Where no attempt is under way no task is. -/
theorem InOrder.idle (h : InOrder limit r) (hover : ∀ e ∈ r.executions, e.status.active = false)
    {u : Task} (hu : u ∈ r.tasks) : u.status.active = false := by
  by_contra hactive
  have hactive := Bool.of_not_eq_false hactive
  obtain ⟨e, he, -, -, hstatus⟩ := h.sane.sound.active u hu hactive
  have hend := hover e he
  rw [hstatus, hactive] at hend
  cases hend

/-- Such a loop can begin with any attempts, the ones left out being over. -/
theorem Retired.start {left : List TaskExecution} (h : InOrder limit r)
    (hleft : ∀ e ∈ r.executions, e ∈ left ∨ e.status.active = false) :
    Retired limit r r left where
  labor := Labor.refl h
  id := rfl
  version := rfl
  has _ := rfl
  ended e he := (hleft e he).imp_right fun hover => ⟨e, Table.get?_of_mem he, hover⟩
  idle _ _ := Iff.rfl

/-! ## Replacements -/

theorem GoalReplanning.retireAttempt_retired {key : String} {attempts : List TaskExecution}
    {x : Unit} (h : InOrder limit r) (hattempts : attempts = r.executionList)
    (hrun : run.id = r.run.id)
    (hr : attempts.forM (GoalReplanning.retireAttempt P run key now) r = .ok (x, s)) :
    Retired limit r s [] := by
  have hloop := forM_ok (fun left s => (∀ e ∈ left, e ∈ r.executions) ∧ Retired limit r s left) hr
    ⟨fun e he => mem_sortEntities.mp (hattempts ▸ he), Retired.start h fun e he =>
      .inl (hattempts ▸ mem_sortEntities.mpr he)⟩ ?_
  · exact hloop.2
  · rintro attempt left s t ⟨hmem, hretired⟩ hbody
    have hmem' : ∀ e ∈ left, e ∈ r.executions := fun e he => hmem e (List.mem_cons_of_mem _ he)
    refine ⟨hmem', ?_⟩
    unfold GoalReplanning.retireAttempt at hbody
    split_ifs at hbody with hrunning hactive
    · exact absurd hbody (by simp)
    · obtain ⟨y, u, hu, hbody⟩ := bind_ok.mp hbody
      rw [(pure_ok.mp hbody).2]
      exact hretired.round hrun (hmem attempt List.mem_cons_self) hu
    · rw [(pure_ok.mp hbody).2]
      refine { hretired with ended := fun e he => ?_ }
      rcases hretired.ended e he with hleft | hover
      · rcases List.mem_cons.mp hleft with rfl | hleft
        · have hover : e.status.active = false := by
            cases hstatus : e.status <;> simp_all [TaskStatus.active]
          exact .inr (Work.ended_kept ⟨e, Table.get?_of_mem he, hover⟩ (hretired.labor.kept h))
        · exact .inl hleft
      · exact .inr hover

/-- Tasks that are cancelled where they have not begun. -/
theorem cancelTasks_labor {label : String} {reason : Option String} {l : List Task} {x : Unit}
    (h : InOrder limit r) (hnodup : (l.map Task.id).Nodup)
    (hrecord : ∀ task ∈ l, task.open = true → r.tasks.get? task.id = some task)
    (hr : l.forM (cancelTask P run label reason now) r = .ok (x, r')) : Labor limit r r' :=
  forM_labor h hrecord hnodup (fun _ _ _ _ _ hs hrecord hbody => cancelTask_labor hs hrecord hbody)
    hr

/-- What a replacement does before it installs its plan: the attempts end, and the tasks that
have not begun are cancelled. -/
theorem GoalReplanning.storeReplacement_installs {current plan : TaskPlan} {key : String} {x : Unit}
    (h : InOrder limit r) (hnodup : plan.ids.Nodup)
    (hcurrent : r.getPlan r.run.planVersion = .ok (some current))
    (hnext : plan.version = r.run.planVersion + 1)
    (hnew : ∀ u ∈ plan.tasks, u.unexecuted plan.version = true)
    (hr : GoalReplanning.storeReplacement P r.run current plan key now r = .ok (x, r')) :
    ∃ (s t : Records) (y z : Unit),
      r.executionList.forM (GoalReplanning.retireAttempt P r.run key now) r = .ok (y, s) ∧
        current.tasks.forM (cancelTask P r.run s!"replan:{key}:cancel"
          (some "Explicit goal revision") now) s = .ok (z, t) ∧
        Retired limit r s [] ∧ Labor limit s t ∧ Installs limit P plan t r' := by
  obtain ⟨-, -, -, -, hrecord⟩ := getPlan_ok hcurrent
  unfold GoalReplanning.storeReplacement at hr
  rw [read_bind_ok] at hr
  obtain ⟨y, s, hs, hr⟩ := bind_ok.mp hr
  obtain ⟨z, t, ht, hr⟩ := bind_ok.mp hr
  obtain ⟨u, hu, hr⟩ := stage_bind_ok.mp hr
  obtain ⟨v, hv, hr⟩ := stage_bind_ok.mp hr
  have hretired := GoalReplanning.retireAttempt_retired h rfl rfl hs
  have hcancelled : Labor limit s t := cancelTasks_labor hretired.labor.inOrder
    (getPlan_nodup h hcurrent)
    (fun task htask hopen => (hretired.idle task hopen).mpr (hrecord task htask)) ht
  have hframe : Frame [.tasks] s t := Within.frame (Within.forM fun _ _ => cancelTask_within) ht
  have hversion : t.run.planVersion = r.run.planVersion :=
    (hframe.planVersion (by decide)).trans hretired.version
  have hunwritten : t.work.unwritten := fun w hw _ =>
    hcancelled.inOrder.idle (fun e he => hretired.over (hframe.executions (by decide) ▸ he)) hw
  have hfresh : ∀ w ∈ plan.tasks, t.tasks.has w.id = false →
      w.status = .pending ∧ w.attemptCount = 0 ∧ w.planVersion ≠ 0 := by
    intro w hw _
    obtain ⟨hstatus, hcount, hplan⟩ := unexecuted_eq_true (hnew w hw)
    exact ⟨hstatus, hcount, by omega⟩
  obtain ⟨x, a, ha, hr⟩ := bind_ok.mp hr
  obtain ⟨x', b, hb, hr⟩ := bind_ok.mp hr
  exact ⟨s, t, y, z, hs, ht, hretired, hcancelled, .intro hcancelled.inOrder hu hv
    (hretired.id.symm.trans hframe.id.symm) rfl (by rw [hversion, hnext]) hnodup hfresh hunwritten
    (announced_frame (quiet_of_apart (by rfl)) ha hb) hr (Frame.refl _ _)⟩

/-- A plan for a revised goal is installed, or its gate leaves a request. -/
theorem GoalReplanning.install_labor {plan : ValidPlan} {key : String} (h : InOrder limit r)
    (hr : stored (GoalReplanning.install P plan key now) r = some r') : Labor limit r r' := by
  rcases GoalReplanning.install_stored hr with rfl | hframe | ⟨current, -, hcheck, hs⟩
  · exact Labor.refl h
  · exact Labor.of_frame h hframe (by decide)
  · obtain ⟨-, hcurrent, -, hnext, -, -, -, hnew⟩ := GoalReplanning.checkReplacement_ok hcheck
    obtain ⟨s, t, y, z, -, -, hretired, hcancelled, hinstalls⟩ :=
      GoalReplanning.storeReplacement_installs h plan.valid.nodup hcurrent hnext
        (fun u hu => (hnew u hu).2) hs
    exact (hretired.labor.trans hcancelled).trans hinstalls.labor

/-! ## Edits -/

theorem PreviewRevision.checkUnexecuted_ok {plan current : TaskPlan} {goal : GoalContract}
    {expected : Nat}
    (hr : PreviewRevision.checkUnexecuted run plan expected r = .ok ((current, goal), r')) :
    PreviewRevision.editable run = true ∧ run.planVersion = expected ∧
      plan.version = expected + 1 ∧ some plan.goalVersionId = run.currentGoalVersionId ∧
      r.getPlan expected = .ok (some current) ∧
      some current.goalVersionId = run.currentGoalVersionId ∧
      ∀ e ∈ r.executions, ∀ task, r.tasks.get? e.taskId = some task → task.planVersion = 0 := by
  unfold PreviewRevision.checkUnexecuted at hr
  obtain ⟨heditable, hr⟩ := failIf_bind_ok.mp hr
  obtain ⟨hversion, hr⟩ := failIf_bind_ok.mp hr
  obtain ⟨hgoal, hr⟩ := failIf_bind_ok.mp hr
  obtain ⟨workspace, -, hr⟩ := ask_bind_ok.mp hr
  obtain ⟨-, hr⟩ := failIf_bind_ok.mp hr
  rw [read_bind_ok] at hr
  obtain ⟨hbegun, hr⟩ := failIf_bind_ok.mp hr
  obtain ⟨o, hcurrent, hr⟩ := ask_bind_ok.mp hr
  obtain ⟨found, hfound, hr⟩ := found_bind_ok.mp hr
  obtain ⟨goal', -, hr⟩ := found_bind_ok.mp hr
  obtain ⟨hsame, hr⟩ := failIf_bind_ok.mp hr
  cases (pure_ok.mp hr).1
  subst hfound
  refine ⟨Bool.of_not_eq_false heditable, by tauto, by tauto, not_not.mp hgoal, hcurrent,
    not_not.mp hsame, fun e he task htask => ?_⟩
  by_contra hne
  refine hbegun (List.any_eq_true.mpr ⟨e, he, ?_⟩)
  simp only [id_eq, htask, Option.any_some, decide_eq_true_eq]
  omega

theorem PreviewRevision.checkEdit_ok {current plan : TaskPlan} {goal : GoalContract}
    {revised : ValidPlan}
    (hr : PreviewRevision.checkEdit P current plan goal r = .ok (revised, r')) :
    revised.1 = (let prepared := current.tasks.filter fun t => t.planVersion = 0
        if prepared = [] then plan else withPreparation prepared plan) ∧
      ∀ u ∈ plan.tasks, r.tasks.has u.id = false ∧ u.unexecuted plan.version = true := by
  unfold PreviewRevision.checkEdit at hr
  rw [read_bind_ok] at hr
  obtain ⟨hfresh, hr⟩ := failIf_bind_ok.mp hr
  obtain ⟨x, -, hr⟩ := (Reads.bind (Reads.failIf _ _) fun _ => Reads.bind (Reads.failIf _ _)
    fun _ => Reads.failIf _ _ : Reads (PreviewRevision.validateRoles plan)).bind_ok hr
  obtain ⟨-, hr⟩ := failIf_bind_ok.mp hr
  obtain ⟨valid, hvalid, hr⟩ := ask_bind_ok.mp hr
  obtain ⟨-, hr⟩ := failIf_bind_ok.mp hr
  obtain ⟨rfl, -⟩ := pure_ok.mp hr
  refine ⟨(TaskPlan.modelValidate_eq_ok.mp hvalid).symm, fun u hu => ?_⟩
  by_contra hne
  refine hfresh (List.any_eq_true.mpr ⟨u, hu, decide_eq_true ?_⟩)
  by_cases hhas : r.tasks.has u.id = true
  · exact .inl hhas
  · exact .inr (decide_eq_false fun hfresh' => hne ⟨Bool.of_not_eq_true hhas, hfresh'.1⟩)

theorem supersedes_labor {key : String} {l : List Task} {x : Unit} (h : InOrder limit r)
    (hnodup : (l.map Task.id).Nodup)
    (hrecord : ∀ task ∈ l, task.open = true → r.tasks.get? task.id = some task)
    (hr : l.forM (PreviewRevision.supersede P run key now) r = .ok (x, r')) :
    Labor limit r r' := by
  refine forM_labor h hrecord hnodup (fun task _ s s' y hs hrecord hbody => ?_) hr
  unfold PreviewRevision.supersede at hbody
  split_ifs at hbody
  · rw [(pure_ok.mp hbody).2]
    exact ⟨Labor.refl hs, fun _ _ => rfl⟩
  · obtain ⟨-, hbody⟩ := failIf_bind_ok.mp hbody
    exact cancelTask_labor hs hrecord hbody

/-- What an edit does before it installs its plan: the tasks of the plan before are cancelled. -/
theorem PreviewRevision.storeEdit_installs {current plan revised : TaskPlan} {key : String}
    {x : Unit} (h : InOrder limit r) (hnodup : revised.ids.Nodup)
    (hcurrent : r.getPlan r.run.planVersion = .ok (some current))
    (hnext : revised.version = r.run.planVersion + 1)
    (hnew : ∀ u ∈ revised.tasks, u ∈ current.tasks ∨
      u.status = .pending ∧ u.attemptCount = 0 ∧ u.planVersion ≠ 0)
    (hbegun : ∀ e ∈ r.executions, ∀ task, r.tasks.get? e.taskId = some task →
      task.planVersion = 0)
    (hr : PreviewRevision.storeEdit P r.run current plan revised key now r = .ok (x, r')) :
    ∃ (s : Records) (y : Unit),
      current.tasks.forM (PreviewRevision.supersede P r.run key now) r = .ok (y, s) ∧
        Labor limit r s ∧ Installs limit P revised s r' := by
  obtain ⟨-, -, -, -, hrecord⟩ := getPlan_ok hcurrent
  unfold PreviewRevision.storeEdit at hr
  obtain ⟨y, s, hs, hr⟩ := bind_ok.mp hr
  obtain ⟨t, ht, hr⟩ := stage_bind_ok.mp hr
  obtain ⟨u, hu, hr⟩ := stage_bind_ok.mp hr
  have hsuperseded : Labor limit r s := supersedes_labor h (getPlan_nodup h hcurrent)
    (fun task htask _ => hrecord task htask) hs
  have hframe : Frame [.tasks] r s :=
    Within.frame (Within.forM fun _ _ => PreviewRevision.supersede_within) hs
  have hkept := hsuperseded.kept h
  have horder := hsuperseded.inOrder
  have hunwritten : s.work.unwritten := by
    intro w hw hwrites
    by_contra hactive
    obtain ⟨e, he, htask, -⟩ :=
      horder.sane.sound.active w hw (Bool.of_not_eq_false hactive)
    have he : e ∈ r.executions := hframe.executions (by decide) ▸ he
    obtain ⟨old, hold, -⟩ := h.sane.sound.owned e he
    obtain ⟨now', hnow, hidentity⟩ := hkept.tasks _ old hold
    have hw' : s.work.tasks.get? e.taskId = some w := by
      rw [htask]
      exact Table.get?_of_mem hw
    cases hw'.symm.trans hnow
    have hzero := hbegun e he old hold
    have hrole := h.sane.exclusive.preparatory old (Table.mem_of_get? hold) hzero
    have hsame : w.identity.preferredRole = old.identity.preferredRole := by rw [hidentity]
    change w.preferredRole = old.preferredRole at hsame
    simp [Task.writes, hsame, hrole, writeRoles] at hwrites
  have hadded : ∀ w ∈ revised.tasks, s.tasks.has w.id = false →
      w.status = .pending ∧ w.attemptCount = 0 ∧ w.planVersion ≠ 0 := by
    intro w hw hfresh
    refine (hnew w hw).resolve_left fun hin => ?_
    have hhas : s.tasks.has w.id = true := hkept.has (has_of_get?_tasks (hrecord w hin))
    rw [hfresh] at hhas
    cases hhas
  obtain ⟨x, a, ha, hr⟩ := bind_ok.mp hr
  obtain ⟨x', b, hb, hr⟩ := bind_ok.mp hr
  obtain ⟨x'', c, hc, hr⟩ := bind_ok.mp hr
  have hannounced := announced_frame (quiet_of_apart (by rfl)) ha hb
  have hid : ({ r.run with planVersion := revised.version } : Run).id = c.run.id := by
    rw [(Within.frame refreshReady_within hc : Frame [.tasks] b c).id, hannounced.id,
      saveRun_ok hu]
  have hrest : Frame [.requests, .coordinator] c r' :=
    Within.frame (Within.bind (Within.prepareApprovalRequest hid) fun _ => Within.pure ()) hr
  exact ⟨s, y, hs, hsuperseded, .intro horder ht hu hframe.id.symm rfl
    (by rw [hframe.planVersion (by decide), hnext]) hnodup hadded hunwritten hannounced hc hrest⟩

/-- What an edit passes through: nothing is stored, or the plan is installed after the
preparatory tasks of the plan it replaces. -/
theorem PreviewRevision.replace_installs {plan : ValidPlan} {expected : Nat} {key : String}
    (h : InOrder limit r)
    (hr : stored (PreviewRevision.replace P plan expected key now) r = some r') :
    r' = r ∨ ∃ (current : TaskPlan) (revised : ValidPlan) (s : Records) (y : Unit),
      r.getPlan r.run.planVersion = .ok (some current) ∧
        revised.1 = (let prepared := current.tasks.filter fun t => t.planVersion = 0
          if prepared = [] then plan.1 else withPreparation prepared plan.1) ∧
        (∀ u ∈ plan.1.tasks, u.status = .pending ∧ u.attemptCount = 0 ∧ u.planVersion ≠ 0) ∧
        current.tasks.forM (PreviewRevision.supersede P r.run key now) r = .ok (y, s) ∧
        Labor limit r s ∧ Installs limit P revised.1 s r' := by
  rcases PreviewRevision.replace_stored hr with
    rfl | ⟨current, goal, revised, -, hcheck, hedit, hs⟩
  · exact .inl rfl
  · obtain ⟨-, hversion, hnext, -, hcurrent, -, hbegun⟩ :=
      PreviewRevision.checkUnexecuted_ok hcheck
    obtain ⟨hrevised, hfresh⟩ := PreviewRevision.checkEdit_ok hedit
    rw [← hversion] at hcurrent hnext
    have hnext' : revised.1.version = r.run.planVersion + 1 := by
      rw [hrevised, ← hnext]
      dsimp only
      split_ifs <;> rfl
    have hadded : ∀ u ∈ plan.1.tasks,
        u.status = .pending ∧ u.attemptCount = 0 ∧ u.planVersion ≠ 0 := by
      intro u hu
      obtain ⟨hstatus, hcount, hplan⟩ := unexecuted_eq_true (hfresh u hu).2
      exact ⟨hstatus, hcount, by omega⟩
    have hnew : ∀ u ∈ revised.1.tasks, u ∈ current.tasks ∨
        u.status = .pending ∧ u.attemptCount = 0 ∧ u.planVersion ≠ 0 := by
      intro u hu
      rw [hrevised] at hu
      dsimp only at hu
      split_ifs at hu
      · exact .inr (hadded u hu)
      · exact (withPreparation_mem hu).imp (fun hin => (List.mem_filter.mp hin).1) (hadded u)
    obtain ⟨s, y, hs, hsuperseded, hinstalls⟩ := PreviewRevision.storeEdit_installs h
      revised.valid.nodup hcurrent hnext' hnew hbegun hs
    exact .inr ⟨current, revised, s, y, hcurrent, hrevised, hadded, hs, hsuperseded, hinstalls⟩

/-- An edited plan is installed. -/
theorem PreviewRevision.replace_labor {plan : ValidPlan} {expected : Nat} {key : String}
    (h : InOrder limit r)
    (hr : stored (PreviewRevision.replace P plan expected key now) r = some r') :
    Labor limit r r' := by
  rcases PreviewRevision.replace_installs h hr with
    rfl | ⟨current, revised, s, y, -, -, -, -, hsuperseded, hinstalls⟩
  · exact Labor.refl h
  · exact hsuperseded.trans hinstalls.labor

/-! ## Transitions -/

/-- A termination ends every attempt that is under way. -/
theorem Orchestrator.cancelAttempts_retired {key : String} {x : Unit} (h : InOrder limit r)
    (hrun : run.id = r.run.id)
    (hr : Orchestrator.cancelAttempts P run key now r = .ok (x, r')) : Retired limit r r' [] := by
  unfold Orchestrator.cancelAttempts at hr
  rw [read_bind_ok] at hr
  have hloop := forM_ok (fun left s => (∀ e ∈ left, e ∈ r.executions) ∧ Retired limit r s left) hr
    ⟨fun e he => mem_sortEntities.mp (List.mem_filter.mp he).1, Retired.start h fun e he => ?_⟩ ?_
  · exact hloop.2
  · cases hactive : e.status.active with
    | true => exact .inl (List.mem_filter.mpr ⟨mem_sortEntities.mpr he, hactive⟩)
    | false => exact .inr rfl
  · rintro attempt left s t ⟨hmem, hretired⟩ hbody
    obtain ⟨y, u, hu, hbody⟩ := bind_ok.mp hbody
    rw [(pure_ok.mp hbody).2]
    exact ⟨fun e he => hmem e (List.mem_cons_of_mem _ he),
      hretired.round hrun (hmem attempt List.mem_cons_self) hu⟩

theorem Orchestrator.close_labor {target : RunState} {key : String} {x : Unit}
    (h : InOrder limit r) (hrun : run.id = r.run.id)
    (hr : Orchestrator.close P run target key now r = .ok (x, r')) : Labor limit r r' := by
  unfold Orchestrator.close Orchestrator.cancelPending at hr
  split_ifs at hr
  · obtain ⟨y, s, hs, hr⟩ := bind_ok.mp hr
    obtain ⟨plan, hplan, hr⟩ := ask_bind_ok.mp hr
    have hended := (Orchestrator.cancelAttempts_retired h hrun hs).labor
    cases plan with
    | none =>
      rw [(pure_ok.mp hr).2]
      exact hended
    | some plan =>
      obtain ⟨-, -, -, -, hrecord⟩ := getPlan_ok hplan
      exact hended.trans (cancelTasks_labor hended.inOrder (getPlan_nodup hended.inOrder hplan)
        (fun task htask _ => hrecord task htask) hr)
  · rw [(pure_ok.mp hr).2]
    exact Labor.refl h

/-- A run that enters a state does no work. -/
theorem Orchestrator.enter_labor {target : RunState} {key : String} {phaseId : UUID} {x : Unit}
    (h : InOrder limit r) (hid : run.id = r.run.id)
    (hgoal : run.currentGoalVersionId = r.run.currentGoalVersionId)
    (hversion : run.planVersion = r.run.planVersion)
    (hr : Orchestrator.enter P run target key now phaseId r = .ok (x, r')) :
    Labor limit r r' :=
  Labor.of_quiet h (Orchestrator.enter_frame hid hgoal hr)
    ((congrArg Run.planVersion (Orchestrator.enter_lifecycle hid hr)).trans hversion) (by decide)

theorem Orchestrator.advance_labor {target : RunState} {key : String} {phaseId : UUID}
    (h : InOrder limit r)
    (hr : stored (Orchestrator.advance P target key now phaseId) r = some r') :
    Labor limit r r' := by
  rcases Orchestrator.advance_stored hr with rfl | hframe | ⟨s, t, -, -, -, -, hs, ht, hu⟩
  · exact Labor.refl h
  · exact Labor.of_frame h hframe (by decide)
  · have hcoordinated := Labor.of_frame h hs (by decide)
    have hclosed := Orchestrator.close_labor hcoordinated.inOrder hs.id.symm ht
    have hframe := Within.frame (Orchestrator.close_within hs.id.symm) ht
    have hentered := Orchestrator.enter_labor hclosed.inOrder (hframe.id.trans hs.id).symm
      ((hframe.currentGoal (by decide)).trans (hs.currentGoal (by decide))).symm
      ((hframe.planVersion (by decide)).trans (hs.planVersion (by decide))).symm
      hu
    exact (hcoordinated.trans hclosed).trans hentered

/-! ## Every run -/

section Runs

variable {project : Project}

/-- Every step of a run works by moves. -/
theorem Step.labor (h : InOrder project.maxTaskAttempts r) (hstep : Step P project r r') :
    Labor project.maxTaskAttempts r r' := by
  obtain ⟨cmd, hpossible, hstored⟩ := hstep
  have hframe := Command.Leads.frame ⟨hpossible, hstored⟩
  cases cmd with
  | advance target key now phaseId =>
    exact Orchestrator.advance_labor h (stored_quietly.mp hstored)
  | installPlan plan key now => exact Orchestrator.installPlan_labor h (stored_quietly.mp hstored)
  | installRepair plan key now => exact PlanRevision.install_labor h (stored_quietly.mp hstored)
  | installDelivery plan key now => exact PlanRevision.install_labor h (stored_quietly.mp hstored)
  | replan plan key now => exact GoalReplanning.install_labor h (stored_quietly.mp hstored)
  | replacePreview plan expected key now =>
    exact PreviewRevision.replace_labor h (stored_quietly.mp hstored)
  | startRequirements now =>
    exact Orchestrator.startRequirements_labor h (stored_quietly.mp hstored)
  | startTask taskId key now => exact TaskRuntime.start_labor h (stored_quietly.mp hstored)
  | transitionTask executionId status key now =>
    obtain ⟨x, hr⟩ := Silent.transition.stored_ok (stored_quietly.mp hstored)
    exact TaskRuntime.transition_labor h hr
  | retry executionId reason key acknowledged now =>
    exact RecoveryService.retry_labor h (stored_quietly.mp hstored)
  | _ =>
    exact Labor.of_frame h hframe (by simp [Command.parts])

/-- A run that has just been made has no work. -/
theorem Created.inOrder (h : Created P project r) : InOrder project.maxTaskAttempts r := by
  obtain ⟨request, branch, base, n, now, hframe⟩ := h.frame
  have hwork : r.work = Work.empty :=
    work_of_frame hframe (hframe.planVersion (by decide)) (by decide)
    (by decide) (by decide)
  refine ⟨hwork ▸ Work.Sane.empty _, fun ev hev id hsettles => ?_, fun e he => ?_⟩
  · exact absurd hsettles
      (not_settles_of_idle ((hframe.endings (by decide)).new hev List.not_mem_nil) id)
  · rw [hframe.executions (by decide)] at he
    exact absurd he List.not_mem_nil

/-- The records of every run are in order. -/
theorem Reachable.inOrder (h : Reachable P project r) : InOrder project.maxTaskAttempts r :=
  h.induction (fun _ => Created.inOrder) fun _ _ horder hstep => (Step.labor horder hstep).inOrder

/-- What a run keeps of its work from some state on. -/
theorem Reachable.kept (h : Reachable P project r)
    (hrun : Relation.ReflTransGen (Step P project) r r') : Work.Kept r.work r'.work := by
  have hlabor : Labor project.maxTaskAttempts r r' := by
    induction hrun with
    | refl => exact Labor.refl h.inOrder
    | tail _ hstep ih => exact ih.trans (Step.labor ih.inOrder hstep)
  exact hlabor.kept h.inOrder

/-! ### One writer -/

/-- The tasks of writers that are under way. -/
def Records.writing (r : Records) : List Task :=
  r.tasks.entries.filter fun t => t.preferredRole ∈ writeRoles ∧
    (t.status = .running ∨ t.status = .waiting ∨ t.status = .blocked)

theorem mem_writing {t : Task} :
    t ∈ r.writing ↔ t ∈ r.tasks ∧ t.writes = true ∧ t.status.active = true := by
  have hactive : t.status.active = true ↔
      t.status = .running ∨ t.status = .waiting ∨ t.status = .blocked := by
    cases t.status <;> simp [TaskStatus.active]
  simp [Records.writing, Table.mem_def, Task.writes, hactive]

/-- In every state of a run at most one task of a writer is under way. -/
theorem single_writer (h : Reachable P project r) : r.writing.length ≤ 1 := by
  have hnodup : r.writing.Nodup := (List.Nodup.of_map _ r.tasks.nodup).filter _
  have hsame : ∀ t ∈ r.writing, ∀ u ∈ r.writing, t = u := by
    intro t ht u hu
    obtain ⟨ht, hwrites, hactive⟩ := mem_writing.mp ht
    obtain ⟨hu, hwrites', hactive'⟩ := mem_writing.mp hu
    exact h.inOrder.sane.exclusive.single t ht u hu hwrites hwrites' hactive hactive'
  match hl : r.writing with
  | [] | [_] => simp
  | t :: u :: rest =>
    rw [hl] at hnodup hsame
    have heq := hsame t List.mem_cons_self u (List.mem_cons_of_mem t List.mem_cons_self)
    simp [heq] at hnodup

theorem sample_single_writer : Sample.working.writing.length ≤ 1 :=
  single_writer Sample.working_reachable

/-! ### The history of attempts -/

/-- The attempts at a task, as they are stored. -/
def Records.attemptsAt (r : Records) (taskId : UUID) : List TaskExecution :=
  r.executions.entries.filter fun e => e.taskId = taskId

theorem mem_attemptsAt {taskId : UUID} {e : TaskExecution} :
    e ∈ r.attemptsAt taskId ↔ e ∈ r.executions ∧ e.taskId = taskId := by
  simp [Records.attemptsAt, Table.mem_def]

/-- The numbers of the attempts at a task are those from one to its count. -/
theorem attempts_numbered (h : r.work.Sound limit) {t : Task} (ht : t ∈ r.tasks) :
    ((r.attemptsAt t.id).map TaskExecution.attempt).Perm (List.range' 1 t.attemptCount) := by
  refine (List.perm_ext_iff_of_nodup ?_ List.nodup_range').mpr fun n => ?_
  · refine List.Nodup.map_on (fun e he e' he' heq => ?_)
      ((List.Nodup.of_map _ r.executions.nodup).filter _)
    rw [mem_attemptsAt] at he he'
    exact h.unique e he.1 e' he'.1 (he.2.trans he'.2.symm) heq
  · simp only [List.mem_map, mem_attemptsAt, List.mem_range'_1]
    constructor
    · rintro ⟨e, ⟨he, htask⟩, rfl⟩
      obtain ⟨owner, howner, hfirst, hlast⟩ := h.owned e he
      rw [htask] at howner
      cases howner.symm.trans (Table.get?_of_mem ht)
      omega
    · rintro ⟨hfirst, hlast⟩
      obtain ⟨e, he, htask, hattempt⟩ := h.complete t ht n hfirst (by omega)
      exact ⟨e, ⟨he, htask⟩, hattempt⟩

/-- In every state of a run the attempts at a task are numbered from one to its count, at most
the last of them is under way, the task has the status of an attempt under way exactly where
its last attempt has it, and the count stays within the limit. -/
theorem attempt_history (h : Reachable P project r) {t : Task} (ht : t ∈ r.tasks) :
    ((r.attemptsAt t.id).map TaskExecution.attempt).Perm (List.range' 1 t.attemptCount) ∧
      (∀ e ∈ r.attemptsAt t.id, e.status.active = true → e.attempt = t.attemptCount) ∧
      (∀ status : TaskStatus, status.active = true → (t.status = status ↔
        ∃ e ∈ r.attemptsAt t.id, e.attempt = t.attemptCount ∧ e.status = status)) ∧
      t.attemptCount ≤ max 1 project.maxTaskAttempts := by
  have hsound := h.inOrder.sane.sound
  have hlive : ∀ e ∈ r.attemptsAt t.id, e.status.active = true →
      e.attempt = t.attemptCount ∧ t.status = e.status := by
    intro e he hactive
    obtain ⟨he, htask⟩ := mem_attemptsAt.mp he
    exact hsound.live e he hactive t (by rw [htask]; exact Table.get?_of_mem ht)
  refine ⟨attempts_numbered hsound ht, fun e he hactive => (hlive e he hactive).1,
    fun status hactive => ⟨fun hstatus => ?_, ?_⟩, hsound.bounded t ht⟩
  · obtain ⟨e, he, htask, hattempt, hsame⟩ := hsound.active t ht (by rw [hstatus]; exact hactive)
    exact ⟨e, mem_attemptsAt.mpr ⟨he, htask⟩, hattempt, hsame.trans hstatus⟩
  · rintro ⟨e, he, -, rfl⟩
    exact (hlive e he hactive).2

theorem sample_attempt_history :
    ((Sample.working.attemptsAt Sample.workedOn.id).map TaskExecution.attempt).Perm
        (List.range' 1 Sample.workedOn.attemptCount) ∧
      (∀ e ∈ Sample.working.attemptsAt Sample.workedOn.id, e.status.active = true →
        e.attempt = Sample.workedOn.attemptCount) ∧
      (∀ status : TaskStatus, status.active = true → (Sample.workedOn.status = status ↔
        ∃ e ∈ Sample.working.attemptsAt Sample.workedOn.id,
          e.attempt = Sample.workedOn.attemptCount ∧ e.status = status)) ∧
      Sample.workedOn.attemptCount ≤ max 1 Sample.project.maxTaskAttempts :=
  attempt_history Sample.working_reachable (Table.mem_of_get? Sample.working_task)

end Runs

end Orqalis
