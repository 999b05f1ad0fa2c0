import Orqalis.Core.Progress
import Orqalis.Lib.Readiness

/-!
# Dependencies over whole runs

The tasks of a run are a board: a task needs its prerequisites in the current plan, it is done
where it has succeeded, live where it is ready or has been attempted, and it waits where it is
pending in the current plan. Readiness is worked out anew where a plan is installed and where
an attempt succeeds; every other command releases nothing and completes nothing.
-/

namespace Orqalis

open Lib Lib.Transaction Lib.Readiness

namespace Work

/-- The board of a run. -/
def board (w : Work) : Board UUID where
  needs a q := ∃ p, w.plans.get? w.planVersion = some p ∧ q ∈ p.prerequisites a
  done a := ∃ t, w.tasks.get? a = some t ∧ t.status = .succeeded
  live a := ∃ t, w.tasks.get? a = some t ∧ (t.status = .ready ∨ 0 < t.attemptCount)
  waiting a := w.planned a ∧ ∃ t, w.tasks.get? a = some t ∧ t.status = .pending

/-- The edges of the current plan lead to tasks of the plan, and none begins at a preparatory
task. -/
def Edged (w : Work) : Prop :=
  ∀ p, w.plans.get? w.planVersion = some p → ∀ e ∈ p.dependencies,
    e.dependsOnTaskId ∈ p.ids ∧ ∃ t, w.tasks.get? e.taskId = some t ∧ t.planVersion ≠ 0

/-- What is ready or has been attempted has its prerequisites, and what is pending lacks one. -/
structure Orderly (w : Work) : Prop where
  ordered : w.board.Ordered
  prompt : w.board.Prompt
  edged : w.Edged

variable {limit : Nat} {w w' : Work}

/-! ## Records of tasks -/

theorem Edged.kept (h : w.Edged) (hkept : Kept w w') (hplans : w'.plans = w.plans)
    (hversion : w'.planVersion = w.planVersion) : w'.Edged := by
  intro p hp e he
  rw [hplans, hversion] at hp
  obtain ⟨hin, t, ht, hzero⟩ := h p hp e he
  obtain ⟨t', ht', hidentity⟩ := hkept.tasks _ t ht
  refine ⟨hin, t', ht', ?_⟩
  have hsame : t'.identity.planVersion = t.identity.planVersion := by rw [hidentity]
  exact fun hzero' => hzero (hsame.symm.trans hzero')

theorem needs_iff {p : TaskPlan} (hp : w.plans.get? w.planVersion = some p) {a q : UUID} :
    w.board.needs a q ↔ q ∈ p.prerequisites a := by
  constructor
  · rintro ⟨p', hp', hq⟩
    cases hp.symm.trans hp'
    exact hq
  · exact fun hq => ⟨p, hp, hq⟩

theorem mem_prerequisites {p : TaskPlan} {a q : UUID} :
    q ∈ p.prerequisites a ↔ ∃ e ∈ p.dependencies, e.taskId = a ∧ e.dependsOnTaskId = q := by
  simp [TaskPlan.prerequisites, and_assoc]

/-- A preparatory task needs nothing. -/
theorem Edged.free (h : w.Edged) {t : Task} (ht : w.tasks.get? t.id = some t)
    (hzero : t.planVersion = 0) : w.board.cleared t.id := by
  rintro q ⟨p, hp, hq⟩
  obtain ⟨e, he, hid, -⟩ := mem_prerequisites.mp hq
  obtain ⟨-, u, hu, hne⟩ := h p hp e he
  rw [hid, ht] at hu
  cases hu
  exact absurd hzero hne

/-- A record of a task is replaced: the task comes to live, and to wait, at most as before. -/
theorem works_putTask {t t' : Task} (ht : w.tasks.get? t'.id = some t)
    (hdone : t.status = .succeeded → t'.status = .succeeded)
    (hlive : t'.status = .ready ∨ 0 < t'.attemptCount → t.status = .ready ∨ 0 < t.attemptCount)
    (hwaiting : t'.status = .pending → t.status = .pending) :
    Board.Works w.board (w.putTask t').board where
  needs _ _ := Iff.rfl
  done a ha := by
    obtain ⟨u, hu, hstatus⟩ := ha
    refine ⟨if t'.id = a then t' else u, ?_, ?_⟩
    · rw [get?_putTask]
      split_ifs
      · rfl
      · exact hu
    · split_ifs with hid
      · rw [← hid, ht] at hu
        cases hu
        exact hdone hstatus
      · exact hstatus
  live a ha := by
    obtain ⟨u, hu, hcase⟩ := ha
    rw [get?_putTask] at hu
    split_ifs at hu with hid
    · cases hu
      exact ⟨t, hid ▸ ht, hlive hcase⟩
    · exact ⟨u, hu, hcase⟩
  waiting a ha := by
    obtain ⟨hplanned, u, hu, hstatus⟩ := ha
    refine ⟨hplanned, ?_⟩
    rw [get?_putTask] at hu
    split_ifs at hu with hid
    · cases hu
      exact ⟨t, hid ▸ ht, hwaiting hstatus⟩
    · exact ⟨u, hu, hstatus⟩

/-- A record of a task that does not succeed. -/
theorem rests_putTask {t t' : Task} (ht : w.tasks.get? t'.id = some t)
    (hdone : t.status = .succeeded ↔ t'.status = .succeeded)
    (hlive : t'.status = .ready ∨ 0 < t'.attemptCount → t.status = .ready ∨ 0 < t.attemptCount)
    (hwaiting : t'.status = .pending → t.status = .pending) :
    Board.Rests w.board (w.putTask t').board where
  toWorks := works_putTask ht hdone.mp hlive hwaiting
  undone a ha := by
    obtain ⟨u, hu, hstatus⟩ := ha
    rw [get?_putTask] at hu
    split_ifs at hu with hid
    · cases hu
      exact ⟨t, hid ▸ ht, hdone.mpr hstatus⟩
    · exact ⟨u, hu, hstatus⟩

/-- A record of a task that needs nothing more and comes to live. -/
theorem releases_putTask {t t' : Task} (ht : w.tasks.get? t'.id = some t)
    (hcleared : w.board.cleared t'.id) (hdone : t.status ≠ .succeeded)
    (hdone' : t'.status ≠ .succeeded) (hwaiting : t'.status ≠ .pending) :
    Board.Releases w.board (w.putTask t').board where
  needs _ _ := Iff.rfl
  done a := by
    have hget : (w.putTask t').tasks.get? a = _ := get?_putTask a
    constructor
    · rintro ⟨u, hu, hstatus⟩
      rw [hget] at hu
      split_ifs at hu
      · cases hu
        exact absurd hstatus hdone'
      · exact ⟨u, hu, hstatus⟩
    · rintro ⟨u, hu, hstatus⟩
      refine ⟨u, ?_, hstatus⟩
      rw [hget, if_neg]
      · exact hu
      · rintro rfl
        cases ht.symm.trans hu
        exact hdone hstatus
  live a ha := by
    obtain ⟨u, hu, hcase⟩ := ha
    rw [get?_putTask] at hu
    split_ifs at hu with hid
    · exact .inr (hid ▸ hcleared)
    · exact .inl ⟨u, hu, hcase⟩
  waiting a ha := by
    obtain ⟨hplanned, u, hu, hstatus⟩ := ha
    refine ⟨hplanned, u, ?_, hstatus⟩
    rw [get?_putTask] at hu
    split_ifs at hu
    · cases hu
      exact absurd hstatus hwaiting
    · exact hu

theorem Orderly.rests (h : w.Orderly) (hboard : Board.Rests w.board w'.board)
    (hedged : w'.Edged) : w'.Orderly :=
  ⟨h.ordered.works hboard.toWorks, h.prompt.rests hboard, hedged⟩

/-- A task that is under way has been attempted. -/
theorem Sound.attempted (h : w.Sound limit) {t : Task} (ht : t ∈ w.tasks)
    (hactive : t.status.active = true) : 0 < t.attemptCount := by
  obtain ⟨e, he, hid, hattempt, -⟩ := h.active t ht hactive
  obtain ⟨u, hu, hfirst, hlast⟩ := h.owned e he
  omega

end Work

variable {limit : Nat} {r r' s t : Records} {P : Primitives} {run : Run} {now : Time}

/-! ## Readiness -/

/-- A task of the current plan is satisfied exactly where it needs nothing more. -/
theorem satisfied_iff {plan : TaskPlan} (hedged : r.work.Edged)
    (hplan : r.getPlan r.run.planVersion = .ok (some plan)) (id : UUID) :
    plan.satisfied id = true ↔ r.work.board.cleared id := by
  obtain ⟨p, hp, hsame, hids, hrecord⟩ := getPlan_ok hplan
  have hneeds : ∀ q, r.work.board.needs id q ↔ q ∈ plan.prerequisites id := by
    intro q
    rw [Work.needs_iff hp, hsame]
    rfl
  have hsucceeded : ∀ q, q ∈ plan.succeeded ↔ q ∈ plan.ids ∧ r.work.board.done q := by
    intro q
    simp only [TaskPlan.succeeded, List.mem_map, List.mem_filter, decide_eq_true_eq]
    constructor
    · rintro ⟨u, ⟨hu, hstatus⟩, rfl⟩
      exact ⟨List.mem_map_of_mem hu, u, hrecord u hu, hstatus⟩
    · rintro ⟨hq, u, hu, hstatus⟩
      obtain ⟨v, hv, rfl⟩ := List.mem_map.mp hq
      cases (hrecord v hv).symm.trans hu
      exact ⟨u, ⟨hv, hstatus⟩, rfl⟩
  unfold TaskPlan.satisfied
  rw [List.all_eq_true]
  simp only [decide_eq_true_eq, hsucceeded]
  constructor
  · intro h q hq
    exact (h q ((hneeds q).mp hq)).2
  · intro h q hq
    refine ⟨?_, h q ((hneeds q).mpr hq)⟩
    have hq := (hneeds q).mpr hq
    rw [Work.needs_iff hp, Work.mem_prerequisites] at hq
    obtain ⟨e, he, -, rfl⟩ := hq
    rw [hids]
    exact (hedged p hp e he).1

theorem markReady_releases {key : String} {task : Task} {x : Unit}
    (hrecord : r.tasks.get? task.id = some task)
    (hcleared : r.work.board.cleared task.id)
    (hr : markReady P run key now task r = .ok (x, r')) :
    Board.Releases r.work.board r'.work.board ∧ ¬ r'.work.board.waiting task.id ∧
      ∀ id, id ≠ task.id → r'.tasks.get? id = r.tasks.get? id := by
  unfold markReady at hr
  split_ifs at hr with hstatus
  · rw [change_bind_ok] at hr
    set ready : Task := { task with status := .ready, readyAt := some now }
    have hnoted : Frame [] (r.saveTask ready) r' :=
      Within.frame (Within.note (quiet_of_apart (by rfl))) hr
    have hwork : r'.work = r.work.putTask ready :=
      (work_of_frame hnoted (hnoted.planVersion (by decide)) (by decide) (by decide)
        (by decide)).trans (saveTask_work (has_of_get?_tasks hrecord))
    rw [hwork]
    refine ⟨Work.releases_putTask hrecord hcleared (by simp [hstatus]) (by simp [ready])
      (by simp [ready]), ?_,
      fun id hid => ?_⟩
    · rintro ⟨-, u, hu, hpending⟩
      cases (Table.get?_put_self r.tasks ready).symm.trans hu
      cases hpending
    · rw [hnoted.tasks (by decide)]
      exact get?_saveTask fun heq => hid heq.symm
  · rw [(pure_ok.mp hr).2]
    refine ⟨Board.Releases.refl _, ?_,
      fun _ _ => rfl⟩
    rintro ⟨-, u, hu, hpending⟩
    cases hrecord.symm.trans hu
    exact hstatus hpending

/-- Tasks that need nothing more are marked as ready: none of them waits afterwards. -/
theorem markReadies_releases {key : String} {l : List Task} {x : Unit}
    (hrecord : ∀ task ∈ l, r.tasks.get? task.id = some task)
    (hcleared : ∀ task ∈ l, r.work.board.cleared task.id)
    (hnodup : (l.map Task.id).Nodup)
    (hr : l.forM (markReady P run key now) r = .ok (x, r')) :
    Board.Releases r.work.board r'.work.board ∧ ∀ task ∈ l, ¬ r'.work.board.waiting task.id := by
  induction l generalizing r with
  | nil =>
    rw [(pure_ok.mp hr).2]
    exact ⟨Board.Releases.refl _,
      fun _ h => absurd h List.not_mem_nil⟩
  | cons task l ih =>
    rw [List.forM_eq_forM, List.forM_cons] at hr
    obtain ⟨y, s, hs, hr⟩ := bind_ok.mp hr
    rw [List.map_cons] at hnodup
    obtain ⟨hnot, hnodup⟩ := List.nodup_cons.mp hnodup
    obtain ⟨hfirst, hmarked, hothers⟩ := markReady_releases (hrecord task List.mem_cons_self)
      (hcleared task List.mem_cons_self) hs
    obtain ⟨hrest, hwaiting⟩ := ih (fun u hu => by
      rw [hothers u.id fun heq => hnot (heq ▸ List.mem_map_of_mem hu)]
      exact hrecord u (List.mem_cons_of_mem task hu)) (fun u hu =>
      hfirst.cleared_iff.mpr (hcleared u (List.mem_cons_of_mem task hu))) hnodup hr
    refine ⟨hfirst.trans hrest, List.forall_mem_cons.mpr ⟨fun h => ?_, hwaiting⟩⟩
    exact hmarked (hrest.waiting _ h)

/-- Readiness is worked out anew. -/
theorem refreshReady_refreshes {key : String} {x : Unit} (h : InOrder limit r)
    (hedged : r.work.Edged) (hversion : run.planVersion = r.run.planVersion)
    (hr : refreshReady P run key now r = .ok (x, r')) :
    Board.Refreshes r.work.board r'.work.board := by
  unfold refreshReady at hr
  rw [hversion] at hr
  obtain ⟨plan, hplan, hr⟩ := ask_bind_ok.mp hr
  cases plan with
  | none =>
    rw [(pure_ok.mp hr).2]
    refine ⟨Board.Releases.refl _, ?_⟩
    rintro a ⟨⟨p, hp, -⟩, -⟩
    have hnone : r.work.plans.get? r.work.planVersion = none := getPlan_none hplan
    rw [hnone] at hp
    cases hp
  | some plan =>
    obtain ⟨p, hp, -, hids, hrecord⟩ := getPlan_ok hplan
    have hready : ∀ u, u ∈ readyTasks plan ↔
        u ∈ plan.tasks ∧ u.open = true ∧ r.work.board.cleared u.id := by
      intro u
      rw [← satisfied_iff hedged hplan]
      simp [readyTasks, Task.open]
    have hsub : (readyTasks plan).Sublist plan.tasks := List.filter_sublist
    obtain ⟨hreleases, hmarked⟩ := markReadies_releases
      (fun u hu => hrecord u (hsub.subset hu)) (fun u hu => ((hready u).mp hu).2.2)
      ((getPlan_nodup h hplan).sublist (hsub.map Task.id)) hr
    refine ⟨hreleases, fun a ha hcleared => ?_⟩
    obtain ⟨⟨p', hp', hin⟩, u, hu, hpending⟩ := hreleases.waiting a ha
    cases hp'.symm.trans hp
    rw [← hids] at hin
    obtain ⟨v, hv, rfl⟩ := List.mem_map.mp hin
    cases (hrecord v hv).symm.trans hu
    exact hmarked u ((hready u).mpr ⟨hv, decide_eq_true (.inl hpending), hcleared⟩) ha

theorem Work.Orderly.refreshes {w w' : Work} (h : w.board.Ordered)
    (hboard : Board.Refreshes w.board w'.board) (hedged : w'.Edged) : w'.Orderly :=
  ⟨h.releases hboard.toReleases, hboard.prompt, hedged⟩

/-- Readiness that is worked out anew puts the tasks in order again. -/
theorem refreshReady_orderly {key : String} {x : Unit} (h : InOrder limit r)
    (hordered : r.work.board.Ordered) (hedged : r.work.Edged)
    (hversion : run.planVersion = r.run.planVersion)
    (hr : refreshReady P run key now r = .ok (x, r')) : r'.work.Orderly := by
  have hframe : Frame [.tasks] r r' := Within.frame refreshReady_within hr
  exact .refreshes hordered (refreshReady_refreshes h hedged hversion hr)
    (hedged.kept ((refreshReady_labor h hr).kept h) (hframe.plans (by decide))
      (hframe.planVersion (by decide)))

/-! ## Attempts -/

/-- An attempt that moves on leaves the tasks in order. -/
theorem TaskRuntime.settle_orderly {execution : TaskExecution} {status : TaskStatus}
    {key : String} {x : TaskExecution} (h : InOrder limit r) (ho : r.work.Orderly)
    (hrun : run.id = r.run.id)
    (hversion : status = .succeeded → run.planVersion = r.run.planVersion)
    (he : r.executions.get? execution.id = some execution)
    (hstatus : status ∈ attemptTransitions execution.status)
    (hr : TaskRuntime.settle P run execution status key now r = .ok (x, r')) :
    r'.work.Orderly := by
  obtain ⟨task, updated, completedAt, later, s, y, htask, -, -, hlabor, hwork, hr⟩ :=
    TaskRuntime.settle_released h hrun he hstatus hr
  have hactive := Work.active_of_transition hstatus
  have hlive := (h.sane.sound.live execution (Table.mem_of_get? he) hactive task htask).2
  have hcount := h.sane.sound.attempted (Table.mem_of_get? htask) (by rw [hlive]; exact hactive)
  have hid : task.id = execution.taskId := Table.key_of_get? htask
  have hbegun : status ≠ .pending ∧ status ≠ .ready ∧ execution.status ≠ .succeeded := by
    cases hold : execution.status <;> rw [hold] at hstatus <;>
      simp [attemptTransitions] at hstatus <;> grind
  have hrecord : (r.work.putExecution updated).tasks.get? task.id = some task := by
    rw [hid]
    exact htask
  have hedged : s.work.Edged :=
    ho.edged.kept (hlabor.kept h) (by rw [hwork]; rfl) (by rw [hwork]; rfl)
  have hworks : Board.Works r.work.board s.work.board := by
    rw [hwork]
    exact Work.works_putTask (w := r.work.putExecution updated) hrecord
      (fun hdone => absurd (hlive.symm.trans hdone) hbegun.2.2) (fun _ => .inr hcount)
      fun hpending => absurd hpending hbegun.1
  unfold TaskRuntime.release at hr
  split_ifs at hr with hsucceeded
  · refine refreshReady_orderly hlabor.inOrder (ho.ordered.works hworks) hedged ?_ hr
    have hsame : s.work.planVersion = r.work.planVersion := by
      rw [hwork]
      rfl
    exact (hversion hsucceeded).trans hsame.symm
  · rw [(pure_ok.mp hr).2]
    have hrests : Board.Rests r.work.board ((r.work.putExecution updated).putTask
        { task with status, completedAt }).board :=
      Work.rests_putTask (w := r.work.putExecution updated) hrecord
        ⟨fun hdone => absurd (hlive.symm.trans hdone) hbegun.2.2,
          fun hdone => absurd hdone hsucceeded⟩ (fun _ => .inr hcount)
        fun hpending => absurd hpending hbegun.1
    exact ho.rests (hwork ▸ hrests) hedged

theorem TaskRuntime.transitionInTransaction_orderly {executionId : UUID} {status : TaskStatus}
    {key : String} {x : TaskExecution} (h : InOrder limit r) (ho : r.work.Orderly)
    (hrun : run.id = r.run.id)
    (hversion : status = .succeeded → run.planVersion = r.run.planVersion)
    (hr : TaskRuntime.transitionInTransaction P run executionId status key now r = .ok (x, r')) :
    InOrder limit r' ∧ r'.work.Orderly := by
  have hlater := hr
  unfold TaskRuntime.transitionInTransaction at hr
  rw [read_bind_ok] at hr
  obtain ⟨execution, he, hr⟩ := found_bind_ok.mp hr
  obtain rfl := Table.key_of_get? (t := r.executions) he
  refine ⟨(TaskRuntime.transitionInTransaction_labor h hrun he hlater).1.inOrder, ?_⟩
  cases hexisting : r.byKey s!"{key}:task" with
  | some existing =>
    simp only [id_eq, hexisting] at hr
    obtain ⟨-, hr⟩ := failIf_bind_ok.mp hr
    rw [(pure_ok.mp hr).2]
    exact ho
  | none =>
    simp only [id_eq, hexisting] at hr
    obtain ⟨hstatus, hr⟩ := failIf_bind_ok.mp hr
    exact TaskRuntime.settle_orderly h ho hrun hversion he (not_not.mp hstatus) hr

theorem TaskRuntime.transition_orderly {executionId : UUID} {status : TaskStatus} {key : String}
    {x : TaskExecution} (h : InOrder limit r) (ho : r.work.Orderly)
    (hr : TaskRuntime.transition P executionId status key now r = .ok (x, r')) :
    r'.work.Orderly := by
  obtain ⟨-, -, hr⟩ := (Reads.requireKey key).bind_ok hr
  rw [locked_bind_ok] at hr
  obtain ⟨-, hr⟩ := failIf_bind_ok.mp hr
  exact (TaskRuntime.transitionInTransaction_orderly h ho rfl (fun _ => rfl) hr).2

/-- A task that can be started needs nothing more. -/
theorem TaskRuntime.startable_cleared {plan : Option TaskPlan} {taskId : UUID} {task : Task}
    (hedged : r.work.Edged) (hplan : r.getPlan r.run.planVersion = .ok plan)
    (hr : TaskRuntime.startable r.run plan taskId r = .ok (task, r')) :
    r.work.board.cleared task.id := by
  have hget := (TaskRuntime.startable_ok hplan hr).1
  unfold TaskRuntime.startable at hr
  rw [read_bind_ok] at hr
  split_ifs at hr
  · obtain ⟨-, hr⟩ := failIf_bind_ok.mp hr
    obtain ⟨hfound, -⟩ := found_ok.mp hr
    obtain ⟨-, hfilter⟩ := Option.filter_eq_some_iff.mp hfound
    simp only [Bool.decide_and, Bool.and_eq_true, decide_eq_true_eq] at hfilter
    exact hedged.free hget hfilter.2.1
  · obtain ⟨-, hr⟩ := failIf_bind_ok.mp hr
    obtain ⟨hfound, -⟩ := found_ok.mp hr
    obtain ⟨p, rfl, hfind⟩ := Option.bind_eq_some_iff.mp hfound
    obtain ⟨-, hready⟩ := List.mem_filter.mp (List.mem_of_find?_eq_some hfind)
    simp only [Bool.decide_and, Bool.and_eq_true, decide_eq_true_eq, Bool.decide_eq_true]
      at hready
    exact (satisfied_iff hedged hplan task.id).mp hready.2

/-- The work after an attempt begins. -/
theorem TaskRuntime.launch_work {task : Task} {key : String} {x : TaskExecution}
    (hrun : run.id = r.run.id) (htask : r.tasks.get? task.id = some task)
    (hr : TaskRuntime.launch P run task key now r = .ok (x, r')) :
    r'.work = (r.work.putExecution (newExecution run task key now)).putTask
      { task with
        status := .running, startedAt := some now, attemptCount := task.attemptCount + 1 } := by
  unfold TaskRuntime.launch at hr
  rw [change_bind_ok, change_bind_ok, change_bind_ok] at hr
  set saved := ((r.saveActor (newActor run task key now)).saveExecution
    (newExecution run task key now)).saveTask
    { task with
      status := .running, startedAt := some now,
      attemptCount := (newExecution run task key now).attempt } with hsaved
  have hbefore : Frame [.workers, .coordinator, .executions, .tasks] r saved :=
    ((frame_saveActor _).append (frame_saveExecution _)).append (frame_saveTask _)
  have hrest : Frame [.coordinator] saved r' := Within.frame (Within.bind
    (Within.note (quiet_of_status (by simp [settledWords, TaskStatus.value, ActorStatus.value])
      (by simp))) fun _ => Within.bind (Within.note (quiet_of_status
      (by simp [settledWords, TaskStatus.value]) (by simp))) fun _ =>
    Within.coordinated (hrun.trans hbefore.id.symm) (by decide) fun a ha =>
      Within.bind (Within.setCoordinator ha (by decide)) fun _ => Within.pure _) hr
  have hwork : saved.work = (r.work.putExecution (newExecution run task key now)).putTask
      { task with
        status := .running, startedAt := some now,
        attemptCount := (newExecution run task key now).attempt } :=
    saveTask_work (has_of_get?_tasks htask)
  exact (work_of_frame hrest (hrest.planVersion (by decide)) (by decide) (by decide)
    (by decide)).trans hwork

theorem TaskRuntime.start_orderly {taskId : UUID} {key : String} (h : InOrder limit r)
    (ho : r.work.Orderly) (hr : stored (TaskRuntime.start P taskId key now) r = some r') :
    r'.work.Orderly := by
  have hkept := (TaskRuntime.start_labor h hr).kept h
  rcases TaskRuntime.start_stored hr with
    rfl | ⟨-, hframe | ⟨plan, task, x, -, hplan, htask, -, -, hr⟩⟩
  · exact ho
  · rw [work_of_frame hframe (hframe.planVersion (by decide)) (by decide) (by decide) (by decide)]
    exact ho
  · obtain ⟨hget, hopen, -⟩ := TaskRuntime.startable_ok hplan htask
    have hcleared := TaskRuntime.startable_cleared ho.edged hplan htask
    have hwork := TaskRuntime.launch_work rfl hget hr
    have hreleases : Board.Releases r.work.board r'.work.board := by
      rw [hwork]
      refine Work.releases_putTask (w := r.work.putExecution _) hget hcleared ?_ (by simp) (by simp)
      intro hdone
      simp [Task.open, hdone] at hopen
    exact ⟨ho.ordered.releases hreleases, ho.prompt.releases hreleases,
      ho.edged.kept hkept (by rw [hwork]; rfl) (by rw [hwork]; rfl)⟩

/-! ## What releases nothing -/

/-- A record of a task that comes to live at most as before, and does not succeed. -/
theorem Work.Orderly.record {w w' : Work} {task task' : Task} (ho : w.Orderly)
    (hkept : Work.Kept w w') (hwork : w' = w.putTask task')
    (ht : w.tasks.get? task'.id = some task)
    (hdone : task.status ≠ .succeeded) (hdone' : task'.status ≠ .succeeded)
    (hlive : task'.status = .ready ∨ 0 < task'.attemptCount →
      task.status = .ready ∨ 0 < task.attemptCount)
    (hwaiting : task'.status ≠ .pending) : w'.Orderly := by
  subst hwork
  exact ho.rests (Work.rests_putTask ht ⟨fun h => absurd h hdone, fun h => absurd h hdone'⟩ hlive
    fun h => absurd h hwaiting) (ho.edged.kept hkept rfl rfl)

/-- A task that has not begun is cancelled. -/
theorem cancelTask_orderly {label : String} {reason : Option String} {task : Task} {x : Unit}
    (h : InOrder limit r) (ho : r.work.Orderly)
    (hrecord : task.open = true → r.tasks.get? task.id = some task)
    (hr : cancelTask P run label reason now task r = .ok (x, r')) : r'.work.Orderly := by
  have hkept := (cancelTask_labor h hrecord hr).1.kept h
  unfold cancelTask at hr
  split_ifs at hr with hstatus
  · rw [change_bind_ok] at hr
    have hget := hrecord (decide_eq_true hstatus)
    have hnoted : Frame [] _ r' := Within.frame (Within.note (quiet_of_apart (by rfl))) hr
    refine ho.record hkept ((work_of_frame hnoted (hnoted.planVersion (by decide)) (by decide)
      (by decide) (by decide)).trans (saveTask_work (has_of_get?_tasks hget))) hget ?_ (by simp)
      ?_ (by simp)
    · rcases hstatus with hstatus | hstatus <;> simp [hstatus]
    · rintro (hready | hcount)
      · cases hready
      · exact .inr hcount
  · rw [(pure_ok.mp hr).2]
    exact ho

theorem cancelTasks_orderly {label : String} {reason : Option String} {l : List Task} {x : Unit}
    (h : InOrder limit r) (ho : r.work.Orderly) (hnodup : (l.map Task.id).Nodup)
    (hrecord : ∀ task ∈ l, task.open = true → r.tasks.get? task.id = some task)
    (hr : l.forM (cancelTask P run label reason now) r = .ok (x, r')) : r'.work.Orderly := by
  refine (forM_tasks (I := fun s => InOrder limit s ∧ s.work.Orderly) ⟨h, ho⟩ hrecord hnodup
    (fun task _ s s' y hs hrecord hbody => ?_) hr).2
  obtain ⟨hlabor, hother⟩ := cancelTask_labor hs.1 hrecord hbody
  exact ⟨⟨hlabor.inOrder, cancelTask_orderly hs.1 hs.2 hrecord hbody⟩, hother⟩

/-- Attempts that are cancelled one after the other. -/
theorem cancelled_orderly {l : List TaskExecution} {f : TaskExecution → RunTx Unit} {x : Unit}
    (h : InOrder limit r) (ho : r.work.Orderly)
    (hbody : ∀ attempt ∈ l, ∀ s s' y, s.run.id = r.run.id → f attempt s = .ok (y, s') →
      s' = s ∨ ∃ (key : String) (z : TaskExecution),
        TaskRuntime.transitionInTransaction P run attempt.id .cancelled key now s = .ok (z, s'))
    (hrun : run.id = r.run.id) (hr : l.forM f r = .ok (x, r')) :
    InOrder limit r' ∧ r'.work.Orderly := by
  have hloop := forM_ok (fun left s => (∀ attempt ∈ left, attempt ∈ l) ∧
    (InOrder limit s ∧ s.work.Orderly) ∧ s.run.id = r.run.id) hr
    ⟨fun _ h => h, ⟨h, ho⟩, rfl⟩ ?_
  · exact hloop.2.1
  · rintro attempt left s t ⟨hleft, ⟨hs, hos⟩, hid⟩ hr
    refine ⟨fun e he => hleft e (List.mem_cons_of_mem _ he), ?_⟩
    rcases hbody attempt (hleft attempt List.mem_cons_self) s t () hid hr with
      rfl | ⟨key, z, hr⟩
    · exact ⟨⟨hs, hos⟩, hid⟩
    · have hrun' := hrun.trans hid.symm
      have hunsucceeded : TaskStatus.cancelled = .succeeded → run.planVersion = s.run.planVersion :=
        fun heq => absurd heq (by decide)
      exact ⟨TaskRuntime.transitionInTransaction_orderly hs hos hrun' hunsucceeded hr,
        (Within.frame (TaskRuntime.transitionInTransaction_within hrun') hr).id.trans hid⟩

/-- What a termination closes. -/
theorem Orchestrator.close_orderly {target : RunState} {key : String} {x : Unit}
    (h : InOrder limit r) (ho : r.work.Orderly) (hrun : run.id = r.run.id)
    (hr : Orchestrator.close P run target key now r = .ok (x, r')) : r'.work.Orderly := by
  unfold Orchestrator.close Orchestrator.cancelPending at hr
  split_ifs at hr
  · obtain ⟨y, s, hs, hr⟩ := bind_ok.mp hr
    obtain ⟨plan, hplan, hr⟩ := ask_bind_ok.mp hr
    unfold Orchestrator.cancelAttempts at hs
    rw [read_bind_ok] at hs
    obtain ⟨horder, hos⟩ := cancelled_orderly h ho (fun attempt _ s s' y _ hbody => by
      obtain ⟨z, u, hu, hbody⟩ := bind_ok.mp hbody
      rw [(pure_ok.mp hbody).2]
      exact .inr ⟨_, z, hu⟩) hrun hs
    cases plan with
    | none =>
      rw [(pure_ok.mp hr).2]
      exact hos
    | some plan =>
      obtain ⟨-, -, -, -, hrecord⟩ := getPlan_ok hplan
      exact cancelTasks_orderly horder hos (getPlan_nodup horder hplan)
        (fun task htask _ => hrecord task htask) hr
  · rw [(pure_ok.mp hr).2]
    exact ho

theorem Orchestrator.advance_orderly {target : RunState} {key : String} {phaseId : UUID}
    (h : InOrder limit r) (ho : r.work.Orderly)
    (hr : stored (Orchestrator.advance P target key now phaseId) r = some r') :
    r'.work.Orderly := by
  rcases Orchestrator.advance_stored hr with rfl | hframe | ⟨s, t, -, -, -, -, hs, ht, hu⟩
  · exact ho
  · rw [work_of_frame hframe (hframe.planVersion (by decide)) (by decide) (by decide) (by decide)]
    exact ho
  · have hcoordinated := Labor.of_frame h hs (by decide)
    have hos : s.work.Orderly := by
      rw [work_of_frame hs (hs.planVersion (by decide)) (by decide) (by decide) (by decide)]
      exact ho
    have hclosed := Orchestrator.close_orderly hcoordinated.inOrder hos hs.id.symm ht
    have hframe := Within.frame (Orchestrator.close_within hs.id.symm) ht
    have hid := (hframe.id.trans hs.id).symm
    have hgoal := ((hframe.currentGoal (by decide)).trans (hs.currentGoal (by decide))).symm
    have hversion : r'.run.planVersion = t.run.planVersion :=
      (congrArg Run.planVersion (Orchestrator.enter_lifecycle hid hu)).trans
        ((hframe.planVersion (by decide)).trans (hs.planVersion (by decide))).symm
    have hentered := Orchestrator.enter_frame hid hgoal hu
    rw [work_of_frame hentered hversion (by decide) (by decide) (by decide)]
    exact hclosed

/-- The preparatory task is made before there is a plan. -/
theorem Orchestrator.startRequirements_orderly (h : InOrder limit r)
    (hr : stored (Orchestrator.startRequirements P now) r = some r') : r'.work.Orderly := by
  obtain ⟨run, hrun, hr⟩ := Reads.locked.stored_bind hr
  obtain ⟨rfl, -⟩ := read_ok.mp hrun
  obtain ⟨x, hcheck, hr⟩ := (Reads.failIf _ _).stored_bind hr
  have hversion : r.run.planVersion = 0 := by
    by_contra hne
    exact (failIf_ok.mp hcheck).1 (.inr hne)
  have hframe : Frame [.tasks] r r' := Within.stored
    (Within.bind Orchestrator.ensureRequirements_within fun _ =>
      Within.bind (Within.read _) fun _ => Within.pure _) hr
  have hnone : ∀ p, r'.work.plans.get? r'.work.planVersion ≠ some p := by
    intro p hp
    have hp : r'.plans.get? r'.run.planVersion = some p := hp
    rw [hframe.plans (by decide), hframe.planVersion (by decide), hversion] at hp
    have hversions := (h.sane.numbered.versions 0).mp (congrArg Option.isSome hp)
    omega
  refine ⟨?_, ?_, fun p hp => absurd hp (hnone p)⟩
  · rintro a - q ⟨p, hp, -⟩
    exact absurd hp (hnone p)
  · rintro a ⟨⟨p, hp, -⟩, -⟩
    exact absurd hp (hnone p)

/-- An attempt is replaced: its task has been attempted and is ready again. -/
theorem RecoveryService.retry_orderly {project : Project} {executionId : UUID}
    {reason key : String} {acknowledged : Bool} (h : InOrder project.maxTaskAttempts r)
    (ho : r.work.Orderly)
    (hr : stored (RecoveryService.retry P (some project) executionId reason key acknowledged now)
      r = some r') : r'.work.Orderly := by
  rcases RecoveryService.retry_stored hr with
    rfl | ⟨attempt, task, x, y, s, t, hget, htask, hactive, -, hbefore, ht, hr⟩
  · exact ho
  · have hinterrupted := Labor.of_frame h hbefore (by decide)
    have hos : s.work.Orderly := by
      rw [work_of_frame hbefore (hbefore.planVersion (by decide)) (by decide) (by decide)
        (by decide)]
      exact ho
    have hunsucceeded : TaskStatus.failed = .succeeded → r.run.planVersion = s.run.planVersion :=
      fun heq => absurd heq (by decide)
    obtain ⟨hretired, hot⟩ := TaskRuntime.transitionInTransaction_orderly hinterrupted.inOrder hos
      hbefore.id.symm hunsucceeded ht
    have hcount : 0 < task.attemptCount := by
      obtain ⟨owner, howner, hfirst, hlast⟩ := h.sane.sound.owned attempt (Table.mem_of_get? hget)
      cases htask.symm.trans howner
      omega
    rw [← hbefore.executions (by decide)] at hget
    rw [← hbefore.tasks (by decide)] at htask
    obtain ⟨-, -, -, hput⟩ := TaskRuntime.transitionInTransaction_labor
      hinterrupted.inOrder hbefore.id.symm hget ht
    obtain ⟨completedAt, hput⟩ := hput (by decide) hactive rfl task htask
    have hrecord : t.tasks.get? task.id = some { task with status := .failed, completedAt } := by
      rw [hput]
      exact Table.get?_put_self _ _
    have hframe := RecoveryService.authorize_ok hr
    have hwork := (work_of_frame hframe (hframe.planVersion (by decide)) (by decide) (by decide)
      (by decide)).trans (saveTask_work (has_of_get?_tasks hrecord))
    refine hot.record ?_ hwork hrecord (by simp) (by simp) (fun _ => .inr hcount) (by simp)
    rw [hwork]
    exact Work.Kept.putTask (t := { task with status := .failed, completedAt }) hrecord
      ⟨rfl, rfl, rfl, rfl⟩

/-! ## New plans -/

/-- A plan that is installed: what it brings is new or as it is on record, its edges begin at
no preparatory task, and what is ready or has been attempted has no edge in it, or those of
the plan before alone. -/
structure Work.Fitting (w : Work) (plan : TaskPlan) : Prop where
  valid : plan.Valid
  recorded : ∀ t ∈ plan.tasks, ∀ u, w.tasks.get? t.id = some u → u = t
  new : ∀ t ∈ plan.tasks, w.tasks.has t.id = false → t.status = .pending ∧ t.attemptCount = 0
  free : ∀ e ∈ plan.dependencies, ∃ t ∈ plan.tasks, t.id = e.taskId ∧ t.planVersion ≠ 0
  live : ∀ t ∈ plan.tasks, t.status = .ready ∨ 0 < t.attemptCount →
    ∀ e ∈ plan.dependencies, e.taskId = t.id →
      ∃ p, w.plans.get? w.planVersion = some p ∧ e ∈ p.dependencies

/-- The record of a task after a plan is installed. -/
theorem Work.Fitting.get? {w : Work} {plan : TaskPlan} (h : w.Fitting plan) {t : Task}
    (ht : t ∈ plan.tasks) : (w.install plan).tasks.get? t.id = some t := by
  show (Records.introduce w.tasks plan.tasks).get? t.id = some t
  rw [Work.get?_introduce]
  cases hold : w.tasks.get? t.id with
  | some u => rw [h.recorded t ht u hold]
  | none =>
    cases hfind : plan.tasks.find? fun u => u.id = t.id with
    | none =>
      have hne := List.find?_eq_none.mp hfind t ht
      simp at hne
    | some u =>
      have hid : u.id = t.id := by simpa using List.find?_some hfind
      have hmem := List.mem_of_find?_eq_some hfind
      rw [List.inj_on_of_nodup_map h.valid.nodup hmem ht hid]

/-- A plan all of whose tasks but the preparatory ones are new fits. -/
theorem Work.Fitting.of_prepared {w : Work} {plan : TaskPlan} (hvalid : plan.Valid)
    (hrecorded : ∀ t ∈ plan.tasks, ∀ u, w.tasks.get? t.id = some u → u = t)
    (hprepared : ∀ t ∈ plan.tasks, t.planVersion = 0 → w.tasks.has t.id = true)
    (hnew : ∀ t ∈ plan.tasks, t.planVersion ≠ 0 → t.status = .pending ∧ t.attemptCount = 0)
    (hfree : ∀ e ∈ plan.dependencies, ∃ t ∈ plan.tasks, t.id = e.taskId ∧ t.planVersion ≠ 0) :
    w.Fitting plan where
  valid := hvalid
  recorded := hrecorded
  new t ht hhas := by
    refine hnew t ht fun hzero => ?_
    rw [hprepared t ht hzero] at hhas
    cases hhas
  free := hfree
  live t ht hlive e he hid := by
    obtain ⟨u, hu, hu', hzero⟩ := hfree e he
    cases List.inj_on_of_nodup_map hvalid.nodup hu ht (hu'.trans hid)
    obtain ⟨hstatus, hcount⟩ := hnew t ht hzero
    simp [hstatus, hcount] at hlive

theorem Work.Fitting.replaces {w : Work} {plan : TaskPlan} (h : w.Fitting plan) :
    Board.Replaces w.board (w.install plan).board where
  done a ha := by
    obtain ⟨t, ht, hstatus⟩ := ha
    refine ⟨t, ?_, hstatus⟩
    show (Records.introduce w.tasks plan.tasks).get? a = some t
    rw [Work.get?_introduce, ht]
  live a ha := by
    obtain ⟨t, ht, hlive⟩ := ha
    have hplan : (w.install plan).plans.get? (w.install plan).planVersion = some plan :=
      Table.get?_put_self _ _
    by_cases hin : a ∈ plan.ids
    · obtain ⟨u, hu, rfl⟩ := List.mem_map.mp hin
      cases (h.get? hu).symm.trans ht
      refine .inl ⟨?_, fun q hq => ?_⟩
      · cases hhas : w.tasks.has t.id with
        | true =>
          obtain ⟨v, hv⟩ := Work.get?_of_has hhas
          rw [h.recorded t hu v hv] at hv
          exact ⟨t, hv, hlive⟩
        | false =>
          obtain ⟨hstatus, hcount⟩ := h.new t hu hhas
          simp [hstatus, hcount] at hlive
      · rw [Work.needs_iff hplan, Work.mem_prerequisites] at hq
        obtain ⟨e, he, hid, hq⟩ := hq
        obtain ⟨p, hp, hmem⟩ := h.live t hu hlive e he hid
        rw [Work.needs_iff hp, Work.mem_prerequisites]
        exact ⟨e, hmem, hid, hq⟩
    · refine .inr fun q hq => ?_
      rw [Work.needs_iff hplan, Work.mem_prerequisites] at hq
      obtain ⟨e, he, rfl, -⟩ := hq
      exact hin (h.valid.edges e he).1

theorem Work.Fitting.edged {w : Work} {plan : TaskPlan} (h : w.Fitting plan) :
    (w.install plan).Edged := by
  intro p hp e he
  have hplan : (w.install plan).plans.get? (w.install plan).planVersion = some plan :=
    Table.get?_put_self _ _
  cases hplan.symm.trans hp
  obtain ⟨t, ht, hid, hzero⟩ := h.free e he
  exact ⟨(h.valid.edges e he).2, t, hid ▸ h.get? ht, hzero⟩

/-- A fitting plan that is installed leaves the tasks in order. -/
theorem Installs.orderly {plan : TaskPlan} (h : Installs limit P plan r r')
    (ho : r.work.Orderly) (hfits : r.work.Fitting plan) : r'.work.Orderly := by
  obtain ⟨updated, key, now, s, t, u, x, -, hinstalled, hwork, hversion, hbefore, hready, hafter⟩ :=
    h
  have hsame : t.work = r.work.install plan :=
    (work_of_frame hbefore (hbefore.planVersion (by decide)) (by decide) (by decide)
      (by decide)).trans hwork
  have hrefreshed : u.work.Orderly := by
    refine refreshReady_orderly (Labor.of_frame hinstalled.inOrder hbefore (by decide)).inOrder
      ?_ ?_ (hversion.trans (hbefore.planVersion (by decide)).symm) hready
    · rw [hsame]
      exact ho.ordered.replaces hfits.replaces
    · rw [hsame]
      exact hfits.edged
  rw [work_of_frame hafter (hafter.planVersion (by decide)) (by decide) (by decide) (by decide)]
  exact hrefreshed

/-- What is on record of a plan's tasks where the plan is installed. -/
theorem Installs.recorded {plan : TaskPlan} (h : Installs limit P plan r r') :
    ∀ t ∈ plan.tasks, ∀ u, r.work.tasks.get? t.id = some u → u = t := by
  obtain ⟨-, -, -, -, -, -, -, hrecorded, -⟩ := h
  exact hrecorded

/-- The edges of a plan that is put after the preparation begin at the plan's own tasks. -/
theorem withPreparation_edge {prepared : List Task} {plan : TaskPlan} (hvalid : plan.Valid)
    {e : TaskDependency} (he : e ∈ (withPreparation prepared plan).dependencies) :
    ∃ t ∈ plan.tasks, t.id = e.taskId := by
  rcases List.mem_append.mp he with he | he
  · obtain ⟨t, ht, hid⟩ := List.mem_map.mp (hvalid.edges e he).1
    exact ⟨t, ht, hid⟩
  · obtain ⟨t, ht, he⟩ := List.mem_flatMap.mp he
    obtain ⟨q, -, rfl⟩ := List.mem_map.mp he
    exact ⟨t, (List.mem_filter.mp ht).1, rfl⟩

/-- Whether no edge of a plan begins at a preparatory task. -/
def TaskPlan.preparesFirst (p : TaskPlan) : Bool :=
  p.dependencies.all fun e => p.tasks.all fun t => t.id ≠ e.taskId ∨ t.planVersion ≠ 0

theorem TaskPlan.preparesFirst_edge {p : TaskPlan} (h : p.preparesFirst = true) (hvalid : p.Valid)
    {e : TaskDependency} (he : e ∈ p.dependencies) :
    ∃ t ∈ p.tasks, t.id = e.taskId ∧ t.planVersion ≠ 0 := by
  obtain ⟨t, ht, hid⟩ := List.mem_map.mp (hvalid.edges e he).1
  have hall := List.all_eq_true.mp (List.all_eq_true.mp h e he) t ht
  exact ⟨t, ht, hid, (of_decide_eq_true hall).resolve_left fun hne => hne hid⟩

/-- The first plan of a run. -/
theorem Orchestrator.installPlan_orderly {plan : ValidPlan} {key : String} (h : InOrder limit r)
    (ho : r.work.Orderly) (hfirst : plan.1.preparesFirst = true)
    (hr : stored (Orchestrator.installPlan P plan key now) r = some r') : r'.work.Orderly := by
  rcases Orchestrator.installPlan_stored hr with
    rfl | hframe | ⟨valid, contract, hprepend, hhistory, -, hcheck, hs⟩
  · exact ho
  · rw [work_of_frame hframe (hframe.planVersion (by decide)) (by decide) (by decide) (by decide)]
    exact ho
  · obtain ⟨-, hstart, -, hversion, hdone, -⟩ := Orchestrator.checkInitialPlan_ok hcheck
    have hedges : ∀ e ∈ valid.1.dependencies, ∃ t ∈ valid.1.tasks,
        t.id = e.taskId ∧ t.planVersion ≠ 0 := by
      unfold Orchestrator.prepend at hprepend
      intro e he
      split_ifs at hprepend with hprepared
      · obtain ⟨-, hprepend⟩ := failIf_bind_ok.mp hprepend
        rw [(pure_ok.mp hprepend).1] at he ⊢
        obtain ⟨t, ht, hid⟩ := withPreparation_edge plan.valid he
        refine ⟨t, List.mem_append_right _ ht, hid, fun hzero => hprepared.2 ?_⟩
        exact List.any_eq_true.mpr ⟨t, ht, decide_eq_true hzero⟩
      · rw [(pure_ok.mp hprepend).1] at he ⊢
        exact TaskPlan.preparesFirst_edge hfirst plan.valid he
    have hstored : ∀ u ∈ valid.1.tasks, u.planVersion = 0 → r.tasks.has u.id = true := by
      intro u hu hzero
      have hmem : u ∈ r.tasks := mem_sortEntities.mp (List.mem_filter.mp (hhistory u hu hzero)).1
      exact has_of_get?_tasks (Table.get?_of_mem hmem)
    have hnew : ∀ u ∈ valid.1.tasks, u.planVersion ≠ 0 →
        u.status = .pending ∧ u.attemptCount = 0 := by
      intro u hu hzero
      refine hdone u hu fun hmem => hzero ?_
      exact of_decide_eq_true (List.mem_filter.mp hmem).2
    have hinstalls : Installs limit P valid.1 r r' :=
      Orchestrator.storeInitialPlan_installs h valid.valid.nodup hstart hversion
        (fun u hu hfresh => by
          have hzero : u.planVersion ≠ 0 := by
            intro hzero
            rw [hstored u hu hzero] at hfresh
            cases hfresh
          exact ⟨(hnew u hu hzero).1, (hnew u hu hzero).2, hzero⟩) hs
    exact hinstalls.orderly ho (.of_prepared valid.valid hinstalls.recorded hstored hnew hedges)

/-- A plan that extends the current one. -/
theorem PlanRevision.install_orderly {plan : ValidPlan} {key : String} {repair : Bool}
    (h : InOrder limit r) (ho : r.work.Orderly)
    (hr : stored (PlanRevision.install P plan key repair now) r = some r') :
    r'.work.Orderly := by
  rcases PlanRevision.install_stored hr with
    rfl | hframe | ⟨current, goal, -, -, hnext, -, hcurrent, -, -, hcheck, hs⟩
  · exact ho
  · rw [work_of_frame hframe (hframe.planVersion (by decide)) (by decide) (by decide) (by decide)]
    exact ho
  · obtain ⟨-, -, hedges, hadded, hidle⟩ := PlanRevision.checkExtension_ok hcheck
    obtain ⟨p, hp, hsame, hids, hrecord⟩ := getPlan_ok hcurrent
    have hinstalls := PlanRevision.storeExtension_installs h plan.valid.nodup hcurrent hnext
      hadded hidle hs
    have hdependencies : current.dependencies = p.dependencies := by rw [hsame]
    -- An edge begins at a task of the current plan, and was one of it, or at an added task.
    have hbegins : ∀ t ∈ plan.1.tasks, t.id ∈ current.ids ∨
        t.status = .pending ∧ t.attemptCount = 0 ∧ t.planVersion ≠ 0 := by
      intro t ht
      by_cases hin : t.id ∈ current.ids
      · exact .inl hin
      · obtain ⟨hstatus, hcount, hplan⟩ := unexecuted_eq_true (hadded t ht hin)
        exact .inr ⟨hstatus, hcount, by omega⟩
    refine hinstalls.orderly ho
      { valid := plan.valid
        recorded := hinstalls.recorded
        new := fun t ht hhas => ?_
        free := fun e he => ?_
        live := fun t ht hlive e he hid => ?_ }
    · rcases hbegins t ht with hin | ⟨hstatus, hcount, -⟩
      · obtain ⟨u, hu, hid⟩ := List.mem_map.mp hin
        have hhas' : r.work.tasks.has u.id = true := has_of_get?_tasks (hrecord u hu)
        rw [hid, hhas] at hhas'
        cases hhas'
      · exact ⟨hstatus, hcount⟩
    · obtain ⟨t, ht, hid⟩ := List.mem_map.mp (plan.valid.edges e he).1
      refine ⟨t, ht, hid, ?_⟩
      rcases hbegins t ht with hin | ⟨-, -, hzero⟩
      · have hmem : e ∈ p.dependencies := hdependencies ▸ hedges e he (hid ▸ hin)
        obtain ⟨-, u, hu, hzero⟩ := ho.edged p hp e hmem
        rwa [← hinstalls.recorded t ht u (hid ▸ hu)]
      · exact hzero
    · rcases hbegins t ht with hin | ⟨hstatus, hcount, -⟩
      · exact ⟨p, hp, hdependencies ▸ hedges e he (hid ▸ hin)⟩
      · simp [hstatus, hcount] at hlive

/-- The plan of a revised goal. -/
theorem GoalReplanning.install_orderly {plan : ValidPlan} {key : String} (h : InOrder limit r)
    (ho : r.work.Orderly)
    (hr : stored (GoalReplanning.install P plan key now) r = some r') : r'.work.Orderly := by
  rcases GoalReplanning.install_stored hr with rfl | hframe | ⟨current, -, hcheck, hs⟩
  · exact ho
  · rw [work_of_frame hframe (hframe.planVersion (by decide)) (by decide) (by decide) (by decide)]
    exact ho
  · obtain ⟨-, hcurrent, -, hnext, -, -, -, hnew⟩ := GoalReplanning.checkReplacement_ok hcheck
    obtain ⟨-, -, -, -, hrecord⟩ := getPlan_ok hcurrent
    obtain ⟨s, t, y, z, hs, ht, hretired, -, hinstalls⟩ :=
      GoalReplanning.storeReplacement_installs h plan.valid.nodup hcurrent hnext
        (fun u hu => (hnew u hu).2) hs
    have hos : s.work.Orderly := (cancelled_orderly h ho (fun attempt _ u v _ _ hbody => by
      unfold GoalReplanning.retireAttempt at hbody
      split_ifs at hbody
      · exact absurd hbody (by simp)
      · obtain ⟨z, w, hw, hbody⟩ := bind_ok.mp hbody
        rw [(pure_ok.mp hbody).2]
        exact .inr ⟨_, z, hw⟩
      · exact .inl (pure_ok.mp hbody).2) rfl hs).2
    have hot : t.work.Orderly := cancelTasks_orderly hretired.labor.inOrder hos
      (getPlan_nodup h hcurrent)
      (fun task htask hopen => (hretired.idle task hopen).mpr (hrecord task htask)) ht
    have hfresh : ∀ u ∈ plan.1.tasks,
        u.status = .pending ∧ u.attemptCount = 0 ∧ u.planVersion ≠ 0 := by
      intro u hu
      obtain ⟨hstatus, hcount, hplan⟩ := unexecuted_eq_true (hnew u hu).2
      exact ⟨hstatus, hcount, by omega⟩
    refine hinstalls.orderly hot (.of_prepared plan.valid hinstalls.recorded
      (fun u hu hzero => absurd hzero (hfresh u hu).2.2)
      (fun u hu _ => ⟨(hfresh u hu).1, (hfresh u hu).2.1⟩) fun e he => ?_)
    obtain ⟨u, hu, hid⟩ := List.mem_map.mp (plan.valid.edges e he).1
    exact ⟨u, hu, hid, (hfresh u hu).2.2⟩

/-- An edited plan. -/
theorem PreviewRevision.replace_orderly {plan : ValidPlan} {expected : Nat} {key : String}
    (h : InOrder limit r) (ho : r.work.Orderly)
    (hr : stored (PreviewRevision.replace P plan expected key now) r = some r') :
    r'.work.Orderly := by
  rcases PreviewRevision.replace_installs h hr with
    rfl | ⟨current, revised, s, y, hcurrent, hrevised, hadded, hs, hsuperseded, hinstalls⟩
  · exact ho
  · obtain ⟨-, -, -, -, hrecord⟩ := getPlan_ok hcurrent
    have hos : s.work.Orderly := by
      refine (forM_tasks (I := fun s => InOrder limit s ∧ s.work.Orderly) ⟨h, ho⟩
        (fun task htask _ => hrecord task htask) (getPlan_nodup h hcurrent)
        (fun task _ u v z hu hrecord hbody => ?_) hs).2
      unfold PreviewRevision.supersede at hbody
      split_ifs at hbody
      · rw [(pure_ok.mp hbody).2]
        exact ⟨hu, fun _ _ => rfl⟩
      · obtain ⟨-, hbody⟩ := failIf_bind_ok.mp hbody
        obtain ⟨hlabor, hother⟩ := cancelTask_labor hu.1 hrecord hbody
        exact ⟨⟨hlabor.inOrder, cancelTask_orderly hu.1 hu.2 hrecord hbody⟩, hother⟩
    have htasks : ∀ t ∈ revised.1.tasks, t ∈ current.tasks ∧ t.planVersion = 0 ∨
        t ∈ plan.1.tasks := by
      intro t ht
      rw [hrevised] at ht
      dsimp only at ht
      split_ifs at ht
      · exact .inr ht
      · refine (withPreparation_mem ht).imp_left fun hin => ?_
        exact ⟨(List.mem_filter.mp hin).1, of_decide_eq_true (List.mem_filter.mp hin).2⟩
    have hedges : ∀ e ∈ revised.1.dependencies, ∃ t ∈ revised.1.tasks,
        t.id = e.taskId ∧ t.planVersion ≠ 0 := by
      intro e he
      rw [hrevised] at he ⊢
      dsimp only at he ⊢
      split_ifs at he ⊢
      · obtain ⟨t, ht, hid⟩ := List.mem_map.mp (plan.valid.edges e he).1
        exact ⟨t, ht, hid, (hadded t ht).2.2⟩
      · obtain ⟨t, ht, hid⟩ := withPreparation_edge plan.valid he
        exact ⟨t, List.mem_append_right _ ht, hid, (hadded t ht).2.2⟩
    refine hinstalls.orderly hos (.of_prepared revised.valid hinstalls.recorded
      (fun t ht hzero => ?_) (fun t ht hzero => ?_) hedges)
    · rcases htasks t ht with ⟨hin, -⟩ | hin
      · exact (hsuperseded.kept h).has (has_of_get?_tasks (hrecord t hin))
      · exact absurd hzero (hadded t hin).2.2
    · rcases htasks t ht with ⟨-, hzero'⟩ | hin
      · exact absurd hzero' hzero
      · exact ⟨(hadded t hin).1, (hadded t hin).2.1⟩

/-! ## Every run -/

section Runs

variable {project : Project}

/-- Whether a command puts nothing before the preparation of its run. -/
def Command.preparesFirst : Command → Bool
  | installPlan plan _ _ => plan.1.preparesFirst
  | _ => true

/-- A step that puts nothing before the preparation of its run. -/
def PreparedStep (P : Primitives) (project : Project) (r r' : Records) : Prop :=
  ∃ cmd : Command, cmd.preparesFirst = true ∧ cmd.Leads P project r r'

theorem PreparedStep.step (h : PreparedStep P project r r') : Step P project r r' := by
  obtain ⟨cmd, -, hleads⟩ := h
  exact ⟨cmd, hleads⟩

theorem PreparedStep.orderly (h : InOrder project.maxTaskAttempts r) (ho : r.work.Orderly)
    (hstep : PreparedStep P project r r') : r'.work.Orderly := by
  obtain ⟨cmd, hfirst, hpossible, hstored⟩ := hstep
  have hframe := Command.Leads.frame ⟨hpossible, hstored⟩
  cases cmd with
  | advance target key now phaseId =>
    exact Orchestrator.advance_orderly h ho (stored_quietly.mp hstored)
  | installPlan plan key now =>
    exact Orchestrator.installPlan_orderly h ho hfirst (stored_quietly.mp hstored)
  | installRepair plan key now =>
    exact PlanRevision.install_orderly h ho (stored_quietly.mp hstored)
  | installDelivery plan key now =>
    exact PlanRevision.install_orderly h ho (stored_quietly.mp hstored)
  | replan plan key now => exact GoalReplanning.install_orderly h ho (stored_quietly.mp hstored)
  | replacePreview plan expected key now =>
    exact PreviewRevision.replace_orderly h ho (stored_quietly.mp hstored)
  | startRequirements now =>
    exact Orchestrator.startRequirements_orderly h (stored_quietly.mp hstored)
  | startTask taskId key now =>
    exact TaskRuntime.start_orderly h ho (stored_quietly.mp hstored)
  | transitionTask executionId status key now =>
    obtain ⟨x, hr⟩ := Silent.transition.stored_ok (stored_quietly.mp hstored)
    exact TaskRuntime.transition_orderly h ho hr
  | retry executionId reason key acknowledged now =>
    exact RecoveryService.retry_orderly h ho (stored_quietly.mp hstored)
  | _ =>
    rw [work_of_frame hframe (hframe.planVersion (by simp [Command.parts]))
      (by simp [Command.parts]) (by simp [Command.parts]) (by simp [Command.parts])]
    exact ho

/-- A run that has just been made has nothing to put in order. -/
theorem Created.orderly (h : Created P project r) : r.work.Orderly := by
  obtain ⟨request, branch, base, n, now, hframe⟩ := h.frame
  have hwork : r.work = Work.empty :=
    work_of_frame hframe (hframe.planVersion (by decide)) (by decide) (by decide) (by decide)
  rw [hwork]
  refine ⟨?_, ?_, fun p hp => absurd hp (by simp [Work.empty])⟩
  · rintro a - q ⟨p, hp, -⟩
    simp [Work.empty] at hp
  · rintro a ⟨⟨p, hp, -⟩, -⟩
    simp [Work.empty] at hp

theorem orderly_of_prepared {r₀ : Records} (h₀ : Created P project r₀)
    (hrun : Relation.ReflTransGen (PreparedStep P project) r₀ r) :
    Reachable P project r ∧ r.work.Orderly := by
  induction hrun with
  | refl => exact ⟨⟨r₀, h₀, .refl⟩, h₀.orderly⟩
  | tail _ hlast ih =>
    obtain ⟨⟨r₁, h₁, hrun⟩, hordered⟩ := ih
    exact ⟨⟨r₁, h₁, hrun.tail hlast.step⟩,
      hlast.orderly (Reachable.inOrder ⟨r₁, h₁, hrun⟩) hordered⟩

/-- A task that has succeeded is never touched again. -/
theorem Work.Move.done {limit : Nat} {w w' : Work} (hsound : w.Sound limit)
    (h : Work.Move limit w w') {t : Task} (ht : w.tasks.get? t.id = some t)
    (hstatus : t.status = .succeeded) : w'.tasks.get? t.id = some t := by
  have hother : ∀ {u u' : Task}, w.tasks.get? u'.id = some u → u.status ≠ .succeeded →
      (w.putTask u').tasks.get? t.id = some t := by
    intro u u' hu hne
    rw [Work.get?_putTask, if_neg]
    · exact ht
    · intro hid
      rw [hid, ht] at hu
      cases hu
      exact hne hstatus
  cases h with
  | ready now hu hpending => exact hother hu (by simp [hpending])
  | @cancel u now hu hopen =>
    refine hother hu fun hdone => ?_
    simp [Task.open, hdone] at hopen
  | @start u e now hu hopen hfresh htask hattempt hrunning hwriter =>
    refine hother hu fun hdone => ?_
    simp [Task.open, hdone] at hopen
  | @settle u e e' completedAt he hu hmoves hid htask hattempt =>
    have hlive := (hsound.live e (Table.mem_of_get? he) (Work.active_of_transition hmoves) u hu).2
    have hkey : u.id = e.taskId := Table.key_of_get? hu
    rw [← hkey] at hu
    refine hother hu fun hdone => ?_
    have hactive := Work.active_of_transition hmoves
    rw [← hlive, hdone] at hactive
    cases hactive
  | reopen now hu hfailed hlimit => exact hother hu (by simp [hfailed])
  | @create u hfresh hopen hcount hrole =>
    rw [Work.get?_putTask, if_neg]
    · exact ht
    · intro hid
      rw [hid] at hfresh
      rw [Table.has, ht] at hfresh
      cases hfresh
  | @install plan hplan =>
    show (Records.introduce w.tasks plan.tasks).get? t.id = some t
    rw [Work.get?_introduce, ht]

theorem Labor.done {limit : Nat} (h : Labor limit r r') (hr : InOrder limit r) {t : Task}
    (ht : r.tasks.get? t.id = some t) (hstatus : t.status = .succeeded) :
    r'.tasks.get? t.id = some t := by
  have hmoves : ∀ w, Work.Moves limit r.work w → w.tasks.get? t.id = some t := by
    intro w hw
    induction hw with
    | refl => exact ht
    | tail hrest hlast ih => exact hlast.done (hr.sane.moves hrest).sound ih hstatus
  exact hmoves _ h.moves

/-- A task that has succeeded stays as it is for the rest of the run. -/
theorem Reachable.done (h : Reachable P project r)
    (hrun : Relation.ReflTransGen (Step P project) r r') {t : Task} (ht : t ∈ r.tasks)
    (hstatus : t.status = .succeeded) : r'.tasks.get? t.id = some t := by
  obtain ⟨r₀, h₀, hbefore⟩ := h
  induction hrun with
  | refl => exact Table.get?_of_mem ht
  | tail hrest hlast ih =>
    have horder := Reachable.inOrder ⟨r₀, h₀, hbefore.trans hrest⟩
    exact (hlast.labor horder).done horder ih hstatus

/-- Where no first plan puts anything before the preparation of its run: a task of the current
plan that has been attempted has all its prerequisites, one that has not begun is ready exactly
when it has them, and what has succeeded stays as it is. -/
theorem dependency_order {r₀ : Records} (h₀ : Created P project r₀)
    (hrun : Relation.ReflTransGen (PreparedStep P project) r₀ r) :
    (∀ plan, r.getPlan r.run.planVersion = .ok (some plan) → ∀ t ∈ plan.tasks,
      ((∃ e ∈ r.executions, e.taskId = t.id) → plan.satisfied t.id = true) ∧
        (t.status = .pending ∨ t.status = .ready →
          (t.status = .ready ↔ plan.satisfied t.id = true))) ∧
      ∀ r', Relation.ReflTransGen (Step P project) r r' → ∀ t ∈ r.tasks, t.status = .succeeded →
        r'.tasks.get? t.id = some t := by
  obtain ⟨hreached, hordered⟩ := orderly_of_prepared h₀ hrun
  refine ⟨fun plan hplan t ht => ?_, fun r' hlater t ht => hreached.done hlater ht⟩
  obtain ⟨p, hp, -, hids, hrecord⟩ := getPlan_ok hplan
  have hget : r.work.tasks.get? t.id = some t := hrecord t ht
  have hplanned : r.work.planned t.id := ⟨p, hp, hids ▸ List.mem_map_of_mem ht⟩
  rw [satisfied_iff hordered.edged hplan]
  refine ⟨fun hattempted => ?_, fun hopen => ⟨fun hready => ?_, fun hcleared => ?_⟩⟩
  · obtain ⟨e, he, hid⟩ := hattempted
    obtain ⟨u, hu, hfirst, hlast⟩ := hreached.inOrder.sane.sound.owned e he
    rw [hid] at hu
    exact hordered.ordered t.id ⟨u, hu, .inr (by omega)⟩
  · exact hordered.ordered t.id ⟨t, hget, .inl hready⟩
  · refine hopen.resolve_left fun hpending => ?_
    exact hordered.prompt t.id ⟨hplanned, t, hget, hpending⟩ hcleared

/-! ### Tasks in turn -/

namespace Sample

/-- A task that waits for the one of the plan. -/
def testing : Task :=
  { task with id := .uuid4 11, preferredRole := .tester, description := "Test the greeting" }

/-- A plan of both. -/
def pair : TaskPlan :=
  { runId := .uuid4 1
    goalVersionId := .uuid4 2
    version := 1
    tasks := [task, testing]
    dependencies := [{ taskId := .uuid4 11, dependsOnTaskId := .uuid4 10 }] }

theorem pair_valid : pair.validateDag = .ok () := by decide +kernel

/-- The commands that lead to work at the first of them. -/
def inTurn : List Command :=
  [.advance .contextSync "sync" 1 (.uuid4 20), .advance .analyzing "analyze" 2 (.uuid4 21),
    .advance .goalDefined "define" 3 (.uuid4 22), .installPlan ⟨pair, pair_valid⟩ "plan" 4,
    .advance .planned "planned" 5 (.uuid4 23), .advance .executing "execute" 6 (.uuid4 24),
    .startTask (.uuid4 10) "start" 7]

/-- The run in which the first is worked on and the second waits. -/
def paired : Records := (history primitives Sample.project inTurn made).get (by decide +kernel)

theorem paired_prepared :
    Relation.ReflTransGen (PreparedStep primitives Sample.project) made paired := by
  have hfirst : ∀ cmd ∈ inTurn, cmd.preparesFirst = true := by decide +kernel
  have hinTurn : history primitives Sample.project inTurn made = some paired :=
    (Option.some_get _).symm
  exact steps_of_history (fun cmd hcmd _ _ hleads => ⟨cmd, hfirst cmd hcmd, hleads⟩) hinTurn

end Sample

theorem sample_dependency_order :
    (∀ plan, Sample.paired.getPlan Sample.paired.run.planVersion = .ok (some plan) →
      ∀ t ∈ plan.tasks,
        ((∃ e ∈ Sample.paired.executions, e.taskId = t.id) → plan.satisfied t.id = true) ∧
          (t.status = .pending ∨ t.status = .ready →
            (t.status = .ready ↔ plan.satisfied t.id = true))) ∧
      ∀ r', Relation.ReflTransGen (Step Sample.primitives Sample.project) Sample.paired r' →
        ∀ t ∈ Sample.paired.tasks, t.status = .succeeded → r'.tasks.get? t.id = some t :=
  dependency_order Sample.made_created Sample.paired_prepared

/-! ### A preparation that waits -/

namespace Sample

/-- The preparatory task of the run. -/
def preparing : Task := Orchestrator.requirementsTask made.run 3

/-- A plan that puts its task before the preparation. -/
def reversed : TaskPlan :=
  { plan with
    tasks := [preparing, task]
    dependencies := [{ taskId := preparing.id, dependsOnTaskId := task.id }] }

theorem reversed_valid : reversed.validateDag = .ok () := by decide +kernel

/-- The run that installs it. -/
def outOfOrder : Records :=
  (history primitives Sample.project [.advance .contextSync "sync" 1 (.uuid4 20),
    .advance .analyzing "analyze" 2 (.uuid4 21), .startRequirements 3,
    .advance .goalDefined "define" 4 (.uuid4 22),
    .installPlan ⟨reversed, reversed_valid⟩ "plan" 5] made).get (by decide +kernel)

theorem outOfOrder_reachable : Reachable primitives Sample.project outOfOrder :=
  made_reachable.history (Option.some_get _).symm

theorem outOfOrder_ready : (outOfOrder.getPlan outOfOrder.run.planVersion).toOption.any
    (fun o => o.any fun p => p.tasks.any fun t =>
      t.status = .ready ∧ p.satisfied t.id = false) = true := by decide +kernel

end Sample

/-- A first plan that puts a task before the preparation leaves the preparatory task ready out of
order. -/
theorem preparation_out_of_order : ¬ ∀ r, Reachable Sample.primitives Sample.project r →
    ∀ plan, r.getPlan r.run.planVersion = .ok (some plan) → ∀ t ∈ plan.tasks,
      t.status = .ready → plan.satisfied t.id = true := by
  intro h
  have hready := Sample.outOfOrder_ready
  cases hplan : Sample.outOfOrder.getPlan Sample.outOfOrder.run.planVersion with
  | error e =>
    rw [hplan] at hready
    cases hready
  | ok o =>
    rw [hplan] at hready
    cases o with
    | none => cases hready
    | some plan =>
      obtain ⟨t, ht, hwrong⟩ := List.any_eq_true.mp hready
      obtain ⟨hstatus, hunsatisfied⟩ := of_decide_eq_true hwrong
      have hsatisfied := h _ Sample.outOfOrder_reachable plan hplan t ht hstatus
      rw [hunsatisfied] at hsatisfied
      cases hsatisfied

end Runs

end Orqalis
