import Orqalis.Core.Reach
import Orqalis.Core.Work

/-!
# The commands work by moves

Every command that works on tasks leads from the work of a run to its later work by moves.
With the moves two facts about the log are carried along: an attempt an event has settled is
over, and an attempt is named after the key of an event that is stored.
-/

namespace Orqalis

open Lib Lib.Transaction

/-! ## Records in order -/

/-- An event that settles an attempt. -/
def Event.settles (e : Event) (id : UUID) : Prop :=
  e.taskExecutionId = some id ∧ (∃ word ∈ settledWords, e.payload.status = some word) ∧
    isTaskKey e.idempotencyKey

/-- An attempt that is over. -/
def Work.ended (w : Work) (id : UUID) : Prop :=
  ∃ e, w.executions.get? id = some e ∧ e.status.active = false

/-- The records of a run whose work is sane and whose log agrees with it. -/
structure InOrder (limit : Nat) (r : Records) : Prop where
  sane : r.work.Sane limit
  settled : ∀ ev ∈ r.events, ∀ id, ev.settles id → r.work.ended id
  traced : ∀ e ∈ r.executions, ∃ key : String, e.id = .uuid5 r.run.id s!"{key}:attempt" ∧
    (r.byKey s!"{key}:task").isSome

/-- What work leads to. -/
structure Labor (limit : Nat) (r r' : Records) : Prop where
  moves : Work.Moves limit r.work r'.work
  inOrder : InOrder limit r'

variable {limit : Nat} {r r' s t : Records} {P : Primitives} {run : Run} {now : Time}

theorem not_settles_of_idle {e : Event} (h : e.Idle) (id : UUID) : ¬ e.settles id := by
  rintro ⟨hexec, ⟨word, hword, hstatus⟩, hkey⟩
  rcases h with h | h | h
  · rw [hexec] at h
    cases h
  · exact h word hword hstatus
  · exact h hkey

theorem Work.ended_kept {w w' : Work} {id : UUID} (h : w.ended id) (hkept : Work.Kept w w') :
    w'.ended id := by
  obtain ⟨e, he, hend⟩ := h
  exact ⟨e, hkept.ended id e he hend, hend⟩

/-- A key stays in a log that grows. -/
theorem byKey_isSome_of_grown {key : String} (h : r.events <+: r'.events)
    (hkey : (r.byKey key).isSome) : (r'.byKey key).isSome := by
  obtain ⟨l, hl⟩ := h
  unfold Records.byKey at *
  rw [← hl, List.find?_append]
  obtain ⟨e, he⟩ := Option.isSome_iff_exists.mp hkey
  simp [he]

theorem Labor.refl (h : InOrder limit r) : Labor limit r r := ⟨.refl, h⟩

theorem Labor.trans (h : Labor limit r s) (h' : Labor limit s t) : Labor limit r t :=
  ⟨h.moves.trans h'.moves, h'.inOrder⟩

theorem Labor.kept (h : Labor limit r r') (hr : InOrder limit r) :
    Work.Kept r.work r'.work :=
  Work.Moves.kept hr.sane h.moves

theorem work_of_frame {S : List Part} (h : Frame S r r')
    (hversion : r'.run.planVersion = r.run.planVersion) (hplans : Part.plans ∉ S)
    (htasks : Part.tasks ∉ S) (hexecutions : Part.executions ∉ S) : r'.work = r.work := by
  unfold Records.work
  rw [h.tasks htasks, h.executions hexecutions, h.plans hplans, hversion]

/-- Moves lead to records in order if what they add to the log settles only attempts that are
over, and the attempts they add are named after stored keys. -/
theorem Labor.intro (h : InOrder limit r) (hid : r'.run.id = r.run.id)
    (hgrown : r.events <+: r'.events) (hmoves : Work.Moves limit r.work r'.work)
    (hnew : ∀ ev ∈ r'.events, ev ∉ r.events → ∀ id, ev.settles id → r'.work.ended id)
    (hnames : ∀ e' ∈ r'.executions, (∃ e ∈ r.executions, e'.id = e.id) ∨
      ∃ key : String, e'.id = .uuid5 r.run.id s!"{key}:attempt" ∧
        (r'.byKey s!"{key}:task").isSome) : Labor limit r r' where
  moves := hmoves
  inOrder :=
    { sane := h.sane.moves hmoves
      settled := fun ev hev id hsettles => by
        by_cases hold : ev ∈ r.events
        · exact Work.ended_kept (h.settled ev hold id hsettles) (Work.Moves.kept h.sane hmoves)
        · exact hnew ev hev hold id hsettles
      traced := fun e' he' => by
        rw [hid]
        rcases hnames e' he' with ⟨e, he, hname⟩ | hname
        · obtain ⟨key, hkey, hstored⟩ := h.traced e he
          exact ⟨key, hname.trans hkey, byKey_isSome_of_grown hgrown hstored⟩
        · exact hname }

theorem GrownBy.grown {p : Event → Prop} (h : GrownBy p r r') : r.events <+: r'.events := by
  obtain ⟨l, hl, -⟩ := h
  exact ⟨l, hl.symm⟩

/-- Moves that make no attempt, beside a log that grows by no end of one. -/
theorem Labor.of_moves (h : InOrder limit r) (hid : r'.run.id = r.run.id)
    (hlog : GrownBy Event.Idle r r') (hmoves : Work.Moves limit r.work r'.work)
    (hexecutions : r'.executions = r.executions) : Labor limit r r' :=
  Labor.intro h hid hlog.grown hmoves
    (fun _ hev hnew id hsettles => absurd hsettles (not_settles_of_idle (hlog.new hev hnew) id))
    fun e he => .inl ⟨e, hexecutions ▸ he, rfl⟩

/-- What changes no work and settles no attempt keeps the records in order. -/
theorem Labor.of_quiet {S : List Part} (h : InOrder limit r) (hframe : Frame S r r')
    (hversion : r'.run.planVersion = r.run.planVersion)
    (hS : ∀ p ∈ [Part.plans, .tasks, .executions, .endings], p ∉ S) : Labor limit r r' := by
  refine Labor.of_moves h hframe.id (hframe.endings (hS _ (by simp))) ?_
    (hframe.executions (hS _ (by simp)))
  rw [work_of_frame hframe hversion (hS _ (by simp)) (hS _ (by simp)) (hS _ (by simp))]

theorem Labor.of_frame {S : List Part} (h : InOrder limit r) (hframe : Frame S r r')
    (hS : ∀ p ∈ [Part.lifecycle, .plans, .tasks, .executions, .endings], p ∉ S) :
    Labor limit r r' :=
  Labor.of_quiet h hframe (hframe.planVersion (hS _ (by simp)))
    fun p hp => hS p (List.mem_cons_of_mem _ hp)

/-! ## Records of tasks -/

theorem saveTask_work {task : Task} (h : r.tasks.has task.id = true) :
    (r.saveTask task).work = r.work.putTask task := by
  unfold Records.saveTask
  rw [if_pos h]
  rfl

/-- A stored record of a task is a move. -/
theorem Labor.saveTask {task : Task} (h : InOrder limit r)
    (hhas : r.tasks.has task.id = true)
    (hmove : Work.Move limit r.work (r.work.putTask task)) : Labor limit r (r.saveTask task) := by
  have hframe : Frame [.tasks] r (r.saveTask task) := frame_saveTask task
  refine Labor.of_moves h hframe.id (hframe.endings (by decide)) ?_
    (hframe.executions (by decide))
  rw [saveTask_work hhas]
  exact .single hmove

theorem get?_saveTask {task : Task} {id : UUID} (h : task.id ≠ id) :
    (r.saveTask task).tasks.get? id = r.tasks.get? id := by
  unfold Records.saveTask
  split
  · exact Table.get?_put_ne _ h
  · rfl

/-- A plan as the records hold it: every task as it is on record. -/
theorem getPlan_ok {version : Nat} {plan : TaskPlan} (h : r.getPlan version = .ok (some plan)) :
    ∃ p, r.plans.get? version = some p ∧ plan = { p with tasks := plan.tasks } ∧
      plan.ids = p.ids ∧ ∀ task ∈ plan.tasks, r.tasks.get? task.id = some task := by
  unfold Records.getPlan at h
  split at h
  · cases h
  · next p hp =>
    split at h
    · next tasks htasks =>
      cases h
      have hforall := Outcome.forall₂_of_mapM_eq_ok htasks
      have hrecord : ∀ a b, r.planTask a = .ok b → r.tasks.get? a.id = some b := by
        intro a b hab
        unfold Records.planTask at hab
        split at hab
        · next record hrecord =>
          cases hab
          exact hrecord
        · cases hab
      refine ⟨p, hp, rfl, ?_, fun task htask => ?_⟩
      · have hids : ∀ l l', List.Forall₂ (fun a b => r.planTask a = .ok b) l l' →
            l'.map Task.id = l.map Task.id := by
          intro l l' hall
          induction hall with
          | nil => rfl
          | cons hab _ ih =>
            have hkey := Table.key_of_get? (hrecord _ _ hab)
            simp only [List.map_cons, ih, hkey]
        exact hids _ _ hforall
      · obtain ⟨a, -, hab⟩ := Outcome.exists_of_mapM_eq_ok htasks htask
        have hget := hrecord a task hab
        rw [Table.key_of_get? hget]
        exact hget
    · cases h

theorem getPlan_none {version : Nat} (h : r.getPlan version = .ok none) :
    r.plans.get? version = none := by
  unfold Records.getPlan at h
  split at h
  · next hnone => exact hnone
  · split at h <;> cases h

/-! ## Loops over tasks -/

/-- A loop over tasks, each of whose rounds works on its own task alone, and on that one only
if it has not begun and is as the records have it, keeps what its rounds keep. -/
theorem forM_tasks {I : Records → Prop} {l : List Task} {f : Task → RunTx Unit} {x : Unit}
    (h : I r) (hrecord : ∀ task ∈ l, task.open = true → r.tasks.get? task.id = some task)
    (hnodup : (l.map Task.id).Nodup)
    (hbody : ∀ task ∈ l, ∀ s s' y, I s →
      (task.open = true → s.tasks.get? task.id = some task) → f task s = .ok (y, s') →
      I s' ∧ ∀ id, id ≠ task.id → s'.tasks.get? id = s.tasks.get? id)
    (hr : l.forM f r = .ok (x, r')) : I r' := by
  induction l generalizing r with
  | nil =>
    rw [(pure_ok.mp hr).2]
    exact h
  | cons task l ih =>
    rw [List.forM_eq_forM, List.forM_cons] at hr
    obtain ⟨y, s, hs, hr⟩ := bind_ok.mp hr
    rw [List.map_cons] at hnodup
    obtain ⟨hnot, hnodup⟩ := List.nodup_cons.mp hnodup
    obtain ⟨hkept, hother⟩ := hbody task List.mem_cons_self r s y h
      (hrecord task List.mem_cons_self) hs
    refine ih hkept (fun u hu => ?_) hnodup (fun u hu => hbody u (List.mem_cons_of_mem task hu)) hr
    intro hopen
    rw [hother u.id]
    · exact hrecord u (List.mem_cons_of_mem task hu) hopen
    · intro heq
      exact hnot (heq ▸ List.mem_map_of_mem hu)

/-- A loop whose rounds work leads to what it leads to by moves. -/
theorem forM_labor {l : List Task} {f : Task → RunTx Unit} {x : Unit} (h : InOrder limit r)
    (hrecord : ∀ task ∈ l, task.open = true → r.tasks.get? task.id = some task)
    (hnodup : (l.map Task.id).Nodup)
    (hbody : ∀ task ∈ l, ∀ s s' y, InOrder limit s →
      (task.open = true → s.tasks.get? task.id = some task) → f task s = .ok (y, s') →
      Labor limit s s' ∧ ∀ id, id ≠ task.id → s'.tasks.get? id = s.tasks.get? id)
    (hr : l.forM f r = .ok (x, r')) : Labor limit r r' := by
  refine forM_tasks (I := Labor limit r) (Labor.refl h) hrecord hnodup
    (fun task htask s s' y hs hrecord hr => ?_) hr
  obtain ⟨hlabor, hother⟩ := hbody task htask s s' y hs.inOrder hrecord hr
  exact ⟨hs.trans hlabor, hother⟩

theorem has_of_get?_tasks {id : UUID} {task : Task} (h : r.tasks.get? id = some task) :
    r.tasks.has id = true := by
  rw [Table.has, h]
  rfl

theorem markReady_labor {key : String} {task : Task} {x : Unit} (h : InOrder limit r)
    (hrecord : task.open = true → r.tasks.get? task.id = some task)
    (hr : markReady P run key now task r = .ok (x, r')) :
    Labor limit r r' ∧ ∀ id, id ≠ task.id → r'.tasks.get? id = r.tasks.get? id := by
  unfold markReady at hr
  split_ifs at hr with hstatus
  · rw [change_bind_ok] at hr
    have hrecord := hrecord (decide_eq_true (.inl hstatus))
    have hsaved : Labor limit r
        (r.saveTask { task with status := .ready, readyAt := some now }) :=
      Labor.saveTask h (has_of_get?_tasks hrecord) (.ready now hrecord hstatus)
    have hnoted : Frame [] _ r' := Within.frame (Within.note (quiet_of_apart (by rfl))) hr
    refine ⟨hsaved.trans (Labor.of_frame hsaved.inOrder hnoted (by decide)), fun id hid => ?_⟩
    rw [hnoted.tasks (by decide)]
    exact get?_saveTask fun heq => hid heq.symm
  · rw [(pure_ok.mp hr).2]
    exact ⟨Labor.refl h, fun _ _ => rfl⟩

theorem cancelTask_labor {label : String} {reason : Option String} {task : Task} {x : Unit}
    (h : InOrder limit r) (hrecord : task.open = true → r.tasks.get? task.id = some task)
    (hr : cancelTask P run label reason now task r = .ok (x, r')) :
    Labor limit r r' ∧ ∀ id, id ≠ task.id → r'.tasks.get? id = r.tasks.get? id := by
  unfold cancelTask at hr
  split_ifs at hr with hstatus
  · rw [change_bind_ok] at hr
    have hopen : task.open = true := decide_eq_true hstatus
    have hsaved : Labor limit r
        (r.saveTask { task with status := .cancelled, completedAt := some now }) :=
      Labor.saveTask h (has_of_get?_tasks (hrecord hopen)) (.cancel now (hrecord hopen) hopen)
    have hnoted : Frame [] _ r' := Within.frame (Within.note (quiet_of_apart (by rfl))) hr
    refine ⟨hsaved.trans (Labor.of_frame hsaved.inOrder hnoted (by decide)), fun id hid => ?_⟩
    rw [hnoted.tasks (by decide)]
    exact get?_saveTask fun heq => hid heq.symm
  · rw [(pure_ok.mp hr).2]
    exact ⟨Labor.refl h, fun _ _ => rfl⟩

/-- The tasks of a plan on record are distinct. -/
theorem getPlan_nodup (h : InOrder limit r) {version : Nat} {plan : TaskPlan}
    (hplan : r.getPlan version = .ok (some plan)) : plan.ids.Nodup := by
  obtain ⟨p, hp, -, hids, -⟩ := getPlan_ok hplan
  rw [hids]
  exact h.sane.numbered.nodup p (Table.mem_of_get? hp)

theorem refreshReady_labor {key : String} {x : Unit} (h : InOrder limit r)
    (hr : refreshReady P run key now r = .ok (x, r')) : Labor limit r r' := by
  unfold refreshReady at hr
  obtain ⟨plan, hplan, hr⟩ := ask_bind_ok.mp hr
  cases plan with
  | none =>
    rw [(pure_ok.mp hr).2]
    exact Labor.refl h
  | some plan =>
    obtain ⟨-, -, -, -, hrecord⟩ := getPlan_ok hplan
    have hsub : (readyTasks plan).Sublist plan.tasks := List.filter_sublist
    exact forM_labor h (fun task htask _ => hrecord task (hsub.subset htask))
      ((getPlan_nodup h hplan).sublist (hsub.map Task.id))
      (fun task _ s s' y hs hrecord hbody => markReady_labor hs hrecord hbody) hr

/-! ## Attempts -/

theorem value_settled {status : TaskStatus} (h : status.value ∈ settledWords) :
    status.active = false := by
  cases status <;> simp_all [settledWords, TaskStatus.value, TaskStatus.active]

/-- The record of an attempt and of its task after an event of it: the attempt moves on. -/
theorem Labor.settle {execution : TaskExecution} {task : Task} {d : EventDraft}
    {event : Event} (updated : TaskExecution) (completedAt : Option Time) (h : InOrder limit r)
    (he : r.executions.get? execution.id = some execution)
    (htask : r.tasks.get? execution.taskId = some task)
    (hstatus : updated.status ∈ attemptTransitions execution.status)
    (hid : updated.id = execution.id) (hsame : updated.taskId = execution.taskId)
    (hattempt : updated.attempt = execution.attempt)
    (hexec : d.taskExecutionId = some execution.id)
    (hword : d.payload.status = some updated.status.value)
    (hs : r.append P.safe d = .ok (event, s)) :
    Labor limit r ((s.saveExecution updated).saveTask
        { task with status := updated.status, completedAt }) ∧
      ((s.saveExecution updated).saveTask
        { task with status := updated.status, completedAt }).work =
          (r.work.putExecution updated).putTask
            { task with status := updated.status, completedAt } := by
  have hemitted : Frame [.endings, .repairs] r s :=
    frame_append hs (fun h => absurd (by decide) h) fun h => absurd (by decide) h
  have hkey : task.id = execution.taskId := Table.key_of_get? htask
  have hhas : (s.saveExecution updated).tasks.has task.id = true := by
    show s.tasks.has task.id = true
    rw [hemitted.tasks (by decide), hkey]
    exact has_of_get?_tasks htask
  set saved := (s.saveExecution updated).saveTask
    { task with status := updated.status, completedAt } with hsaved'
  have hwork : saved.work = (r.work.putExecution updated).putTask
      { task with status := updated.status, completedAt } := by
    have hput : saved.work = (s.saveExecution updated).work.putTask
      { task with status := updated.status, completedAt } := saveTask_work hhas
    rw [hput, ← work_of_frame hemitted (hemitted.planVersion (by decide)) (by decide)
      (by decide) (by decide)]
    rfl
  have hmove : Work.Moves limit r.work saved.work := by
    rw [hwork]
    exact .single (.settle completedAt he htask hstatus hid hsame hattempt)
  have hsaved : Frame [.endings, .repairs, .executions, .tasks] r saved :=
    hemitted.append ((frame_saveExecution updated).append (frame_saveTask _))
  have hevents : saved.events = s.events := by
    rw [hsaved']
    unfold Records.saveTask
    split <;> rfl
  refine ⟨Labor.intro h hsaved.id hsaved.grown hmove (fun ev hev hnew id hsettles => ?_)
    fun e he' => .inl ?_, hwork⟩
  · rw [hevents] at hev
    obtain ⟨-, hevent, hpayload, -, hcases⟩ := append_events hs
    have hsame : ev = event := by
      rcases hcases with ⟨rfl, -⟩ | hcases
      · exact absurd hev hnew
      · rw [hcases] at hev
        exact List.mem_singleton.mp ((List.mem_append.mp hev).resolve_left hnew)
    subst hsame
    obtain ⟨hexec', ⟨word, hword', hstatus'⟩, -⟩ := hsettles
    rw [hevent, hexec] at hexec'
    rw [hpayload, hword] at hstatus'
    cases hexec'
    cases hstatus'
    refine ⟨updated, ?_, value_settled hword'⟩
    rw [hwork, ← hid]
    exact Table.get?_put_self _ _
  · change e ∈ saved.work.executions at he'
    rw [hwork] at he'
    rcases Work.mem_putExecution.mp he' with rfl | ⟨he', -⟩
    · exact ⟨execution, Table.mem_of_get? he, hid⟩
    · exact ⟨e, he', rfl⟩

/-- An attempt that moves on: its record and that of its task are replaced, and then what waited
for the task is released. -/
theorem TaskRuntime.settle_released {execution : TaskExecution} {status : TaskStatus}
    {key : String} {x : TaskExecution} (h : InOrder limit r) (hrun : run.id = r.run.id)
    (he : r.executions.get? execution.id = some execution)
    (hstatus : status ∈ attemptTransitions execution.status)
    (hr : TaskRuntime.settle P run execution status key now r = .ok (x, r')) :
    ∃ (task : Task) (updated : TaskExecution) (completedAt : Option Time) (later : Time)
      (s : Records) (y : Unit),
      r.tasks.get? execution.taskId = some task ∧ updated.id = execution.id ∧
        updated.status = status ∧ Labor limit r s ∧
        s.work = (r.work.putExecution updated).putTask { task with status, completedAt } ∧
        TaskRuntime.release P run status key later s = .ok (y, r') := by
  unfold TaskRuntime.settle at hr
  rw [read_bind_ok] at hr
  obtain ⟨task, htask, hr⟩ := found_bind_ok.mp hr
  obtain ⟨actor, hactor, hr⟩ := found_bind_ok.mp hr
  obtain ⟨event, s, hs, hr⟩ := bind_ok.mp hr
  rw [read_bind_ok, change_bind_ok, change_bind_ok] at hr
  obtain ⟨actor', t, ht, hr⟩ := bind_ok.mp hr
  obtain ⟨y, u, hu, hr⟩ := bind_ok.mp hr
  obtain ⟨z, v, hv, hr⟩ := bind_ok.mp hr
  rw [(pure_ok.mp hr).2]
  set completedAt := if status.settled then some event.occurredAt else none
  set updated : TaskExecution := { execution with
    status
    completedAt
    activeMs := (taskTiming s.events execution.id event.occurredAt).activeMs
    waitingMs := (taskTiming s.events execution.id event.occurredAt).waitingMs
    blockedMs := (taskTiming s.events execution.id event.occurredAt).blockedMs }
  obtain ⟨hlabor, hwork⟩ := Labor.settle updated completedAt h he htask hstatus rfl rfl rfl rfl rfl
    (emit_ok.mp hs)
  have hsaved : Frame [.endings, .repairs, .executions, .tasks] r
      ((s.saveExecution updated).saveTask { task with status, completedAt }) :=
    (frame_append (emit_ok.mp hs) (fun h => absurd (by decide) h)
      fun h => absurd (by decide) h : Frame [.endings, .repairs] r s).append
      ((frame_saveExecution updated).append (frame_saveTask _))
  have hshown : Frame [.workers, .coordinator] _ t := Within.frame setActorStatus_within ht
  have hcoordinated : Frame [.coordinator] t u :=
    Within.frame (TaskRuntime.coordinate_within (hrun.trans (hsaved.append hshown).id.symm)) hu
  have hbeside := hshown.append hcoordinated
  refine ⟨task, updated, completedAt, event.occurredAt, u, z, htask, rfl, rfl,
    hlabor.trans (Labor.of_frame hlabor.inOrder hbeside (by decide)), ?_, hv⟩
  exact (work_of_frame hbeside (hbeside.planVersion (by decide)) (by decide) (by decide)
    (by decide)).trans hwork

/-- What an attempt that moves on leads to. -/
theorem TaskRuntime.settle_labor {execution : TaskExecution} {status : TaskStatus}
    {key : String} {x : TaskExecution} (h : InOrder limit r) (hrun : run.id = r.run.id)
    (he : r.executions.get? execution.id = some execution)
    (hstatus : status ∈ attemptTransitions execution.status)
    (hr : TaskRuntime.settle P run execution status key now r = .ok (x, r')) :
    Labor limit r r' ∧ (∀ id, r'.executions.has id = r.executions.has id) ∧
      (status.active = false → r'.work.ended execution.id) ∧
      (status ≠ .succeeded → ∀ task, r.tasks.get? execution.taskId = some task →
        ∃ completedAt, r'.tasks = r.tasks.put { task with status, completedAt }) := by
  obtain ⟨task, updated, completedAt, later, u, y, htask, hid, hsame, hlabor, hwork, hr⟩ :=
    TaskRuntime.settle_released h hrun he hstatus hr
  have hreleased : Labor limit u r' ∧ r'.executions = u.executions ∧
      (status ≠ .succeeded → r' = u) := by
    unfold TaskRuntime.release at hr
    split_ifs at hr with hsucceeded
    · exact ⟨refreshReady_labor hlabor.inOrder hr,
        (Within.frame refreshReady_within hr).executions (by decide),
        fun hne => absurd hsucceeded hne⟩
    · rw [(pure_ok.mp hr).2]
      exact ⟨Labor.refl hlabor.inOrder, rfl, fun _ => rfl⟩
  obtain ⟨hreleased, hexecutions, hrest⟩ := hreleased
  have hput : r'.executions = r.executions.put updated := by
    rw [hexecutions, show u.executions = u.work.executions from rfl, hwork]
    rfl
  refine ⟨hlabor.trans hreleased, fun id => ?_, fun hend => ?_, fun hne => ?_⟩
  · unfold Table.has
    rw [hput, Table.get?_put]
    split_ifs with hkey
    · have hold : r.executions.get? id = some execution := by
        rw [← hkey, hid]
        exact he
      rw [hold]
      rfl
    · rfl
  · refine ⟨updated, ?_, hsame ▸ hend⟩
    show r'.executions.get? execution.id = some updated
    rw [hput, ← hid]
    exact Table.get?_put_self _ _
  · intro other hother
    cases htask.symm.trans hother
    refine ⟨completedAt, ?_⟩
    rw [hrest hne, show u.tasks = u.work.tasks from rfl, hwork]
    rfl

theorem settled_word {status : TaskStatus} (h : status.settled = true) :
    status.value ∈ settledWords := by
  cases status <;> simp_all [settledWords, TaskStatus.settled]

theorem settled_active {status : TaskStatus} (h : status.settled = true) :
    status.active = false :=
  value_settled (settled_word h)

theorem key_of_byKey {key : String} {e : Event} (h : r.byKey key = some e) :
    e.idempotencyKey = key := by
  have hfound := List.find?_some h
  exact of_decide_eq_true hfound

/-- An event stored under the key of a task's command settles the attempt it names. -/
theorem settles_of_byKey {key : String} {e : Event} {id : UUID} {status : TaskStatus}
    (h : r.byKey s!"{key}:task" = some e) (hexec : e.taskExecutionId = some id)
    (hstatus : e.payload.status = some status.value) (hsettled : status.settled = true) :
    e.settles id :=
  ⟨hexec, ⟨_, settled_word hsettled, hstatus⟩, key, key_of_byKey h⟩

theorem TaskRuntime.transitionInTransaction_labor {execution : TaskExecution}
    {status : TaskStatus} {key : String} {x : TaskExecution} (h : InOrder limit r)
    (hrun : run.id = r.run.id) (he : r.executions.get? execution.id = some execution)
    (hr : TaskRuntime.transitionInTransaction P run execution.id status key now r = .ok (x, r')) :
    Labor limit r r' ∧ (∀ id, r'.executions.has id = r.executions.has id) ∧
      (status.settled = true → r'.work.ended execution.id) ∧
      (status ≠ .succeeded → execution.status.active = true → status.settled = true →
        ∀ task, r.tasks.get? execution.taskId = some task →
          ∃ completedAt, r'.tasks = r.tasks.put { task with status, completedAt }) := by
  unfold TaskRuntime.transitionInTransaction at hr
  rw [read_bind_ok] at hr
  obtain ⟨found, hfound, hr⟩ := found_bind_ok.mp hr
  cases he.symm.trans hfound
  cases hexisting : r.byKey s!"{key}:task" with
  | some existing =>
    simp only [id_eq, hexisting] at hr
    obtain ⟨hsame, hr⟩ := failIf_bind_ok.mp hr
    obtain ⟨hexec, hstatus⟩ := not_or.mp hsame
    rw [(pure_ok.mp hr).2]
    have hended : status.settled = true → r.work.ended execution.id := fun hsettled =>
      h.settled existing (List.mem_of_find?_eq_some hexisting) _
        (settles_of_byKey hexisting (not_not.mp hexec) (not_not.mp hstatus) hsettled)
    refine ⟨Labor.refl h, fun _ => rfl, hended, fun _ hactive hsettled => ?_⟩
    obtain ⟨e, hget, hend⟩ := hended hsettled
    cases he.symm.trans hget
    rw [hactive] at hend
    cases hend
  | none =>
    simp only [id_eq, hexisting] at hr
    obtain ⟨hstatus, hr⟩ := failIf_bind_ok.mp hr
    obtain ⟨hlabor, hhas, hended, htask⟩ :=
      TaskRuntime.settle_labor h hrun he (not_not.mp hstatus) hr
    exact ⟨hlabor, hhas, fun hsettled => hended (settled_active hsettled),
      fun hne _ _ => htask hne⟩

theorem Silent.transition {executionId : UUID} {status : TaskStatus} {key : String} :
    Silent (TaskRuntime.transition P executionId status key now) :=
  Silent.bind (Silent.requireKey _) fun _ => Silent.bind (Silent.read _) fun _ =>
    Silent.bind (Silent.failIf _ _) fun _ => Silent.transitionInTransaction

theorem TaskRuntime.transition_labor {executionId : UUID} {status : TaskStatus} {key : String}
    {x : TaskExecution} (h : InOrder limit r)
    (hr : TaskRuntime.transition P executionId status key now r = .ok (x, r')) :
    Labor limit r r' := by
  obtain ⟨-, -, hr⟩ := (Reads.requireKey key).bind_ok hr
  rw [locked_bind_ok] at hr
  obtain ⟨-, hr⟩ := failIf_bind_ok.mp hr
  have hfound : ∃ execution, r.executions.get? executionId = some execution := by
    unfold TaskRuntime.transitionInTransaction at hr
    rw [read_bind_ok] at hr
    obtain ⟨execution, hexecution, -⟩ := found_bind_ok.mp hr
    exact ⟨execution, hexecution⟩
  obtain ⟨execution, he⟩ := hfound
  obtain rfl := Table.key_of_get? he
  exact (TaskRuntime.transitionInTransaction_labor h rfl he hr).1

/-! ## New attempts -/

/-- The name of an attempt no event has taken is free. -/
theorem InOrder.fresh {key : String} (h : InOrder limit r)
    (hkey : r.byKey s!"{key}:task" = none) :
    r.executions.has (.uuid5 r.run.id s!"{key}:attempt") = false := by
  by_contra hhas
  obtain ⟨e, he⟩ := Option.isSome_iff_exists.mp (Bool.of_not_eq_false hhas)
  obtain ⟨k, hname, hstored⟩ := h.traced e (Table.mem_of_get? he)
  rw [Table.key_of_get? he] at hname
  have hk : key = k := by
    injection hname with hrun htext
    simpa [toString] using htext
  rw [← hk, hkey] at hstored
  cases hstored

theorem byKey_of_append {d : EventDraft} {e : Event} (h : r.append P.safe d = .ok (e, r')) :
    (r'.byKey d.idempotencyKey).isSome := by
  obtain ⟨hkey, -, -, -, hcases⟩ := append_events h
  have hmem : e ∈ r'.events := by
    rcases hcases with ⟨rfl, he⟩ | hevents
    · exact he
    · rw [hevents]
      exact List.mem_append_right _ List.mem_cons_self
  exact List.find?_isSome.mpr ⟨e, hmem, decide_eq_true hkey⟩

/-- The records of an attempt that begins. -/
theorem TaskRuntime.launch_labor {task : Task} {key : String} {x : TaskExecution}
    (h : InOrder limit r) (hrun : run.id = r.run.id)
    (hkey : r.byKey s!"{key}:task" = none) (htask : r.tasks.get? task.id = some task)
    (hopen : task.open = true)
    (hwriter : task.writes = true → r.work.planned task.id ∧
      ∀ u ∈ r.tasks, r.work.planned u.id → u.writes = true → u.status.active = false)
    (hr : TaskRuntime.launch P run task key now r = .ok (x, r')) : Labor limit r r' := by
  unfold TaskRuntime.launch at hr
  rw [change_bind_ok, change_bind_ok, change_bind_ok] at hr
  obtain ⟨y, s, hs, hnoted⟩ := bind_ok.mp hr
  obtain ⟨z, t, ht, hlast⟩ := bind_ok.mp hnoted
  have hstored := byKey_of_append (note_ok.mp ht).choose_spec
  set execution := newExecution run task key now with hexecution
  set saved := ((r.saveActor (newActor run task key now)).saveExecution execution).saveTask
    { task with status := .running, startedAt := some now, attemptCount := execution.attempt }
    with hsaved
  have hbefore : Frame [.workers, .coordinator, .executions, .tasks] r saved :=
    ((frame_saveActor _).append (frame_saveExecution _)).append (frame_saveTask _)
  have hwork : saved.work = (r.work.putExecution execution).putTask
      { task with status := .running, startedAt := some now, attemptCount := execution.attempt } :=
    saveTask_work (has_of_get?_tasks htask)
  have hactor : Frame [] saved s := by
    refine Within.frame (Within.note (quiet_of_status ?_ (by simp))) hs
    simp [settledWords, TaskStatus.value, ActorStatus.value]
  have htaken : Frame [] s t := Within.frame (Within.note (quiet_of_status
    (by simp [settledWords, TaskStatus.value]) (by simp))) ht
  have hid : run.id = t.run.id := by
    rw [htaken.id, hactor.id, hbefore.id]
    exact hrun
  have hafter : Frame [.coordinator] t r' := Within.frame (Within.coordinated hid (by decide)
    fun a ha => Within.bind (Within.setCoordinator ha (by decide)) fun _ => Within.pure _) hlast
  have hquiet := (hactor.append htaken).append hafter
  have hwork' : r'.work = saved.work :=
    work_of_frame hquiet (hquiet.planVersion (by decide)) (by decide) (by decide) (by decide)
  have hevents : saved.events = r.events := by
    rw [hsaved]
    unfold Records.saveTask
    split <;> rfl
  have hgrown : GrownBy Event.Idle r r' :=
    (GrownBy.of_eq hevents).trans (hquiet.endings (by decide))
  have hmoves : Work.Moves limit r.work r'.work := by
    rw [hwork', hwork]
    refine .single (.start now htask hopen ?_ rfl rfl rfl hwriter)
    have hfresh := h.fresh hkey
    rwa [← hrun] at hfresh
  refine Labor.intro h (hquiet.id.trans hbefore.id) hgrown.grown hmoves
    (fun ev hev hnew id hsettles =>
        absurd hsettles (not_settles_of_idle (hgrown.new hev hnew) id)) fun e he => ?_
  change e ∈ r'.work.executions at he
  rw [hwork', hwork] at he
  rcases Work.mem_putExecution.mp he with rfl | ⟨he, -⟩
  · refine .inr ⟨key, ?_, byKey_isSome_of_grown hafter.grown hstored⟩
    rw [← hrun]
    rfl
  · exact .inl ⟨e, he, rfl⟩

/-- A task that can be started has not begun, and is for no writer or planned. -/
theorem TaskRuntime.startable_ok {plan : Option TaskPlan} {taskId : UUID} {task : Task}
    (hplan : r.getPlan run.planVersion = .ok plan)
    (hr : TaskRuntime.startable run plan taskId r = .ok (task, r')) :
    r.tasks.get? task.id = some task ∧ task.open = true ∧
      (task.writes = true → ∃ p, plan = some p ∧ task.id ∈ p.ids) := by
  unfold TaskRuntime.startable at hr
  rw [read_bind_ok] at hr
  split_ifs at hr
  · obtain ⟨-, hr⟩ := failIf_bind_ok.mp hr
    obtain ⟨hfound, -⟩ := found_ok.mp hr
    obtain ⟨hget, hfilter⟩ := Option.filter_eq_some_iff.mp hfound
    have hid : r.tasks.get? taskId = some task := hget
    rw [Table.key_of_get? hid]
    simp only [Bool.decide_and, Bool.and_eq_true, decide_eq_true_eq] at hfilter
    refine ⟨hid, decide_eq_true hfilter.2.2.symm, fun hwrites => ?_⟩
    simp [Task.writes, hfilter.1, writeRoles] at hwrites
  · obtain ⟨-, hr⟩ := failIf_bind_ok.mp hr
    obtain ⟨hfound, -⟩ := found_ok.mp hr
    obtain ⟨p, rfl, hfind⟩ := Option.bind_eq_some_iff.mp hfound
    have hready : task ∈ readyTasks p := List.mem_of_find?_eq_some hfind
    obtain ⟨hmem, hstatus⟩ := List.mem_filter.mp hready
    simp only [Bool.decide_and, Bool.and_eq_true, decide_eq_true_eq] at hstatus
    obtain ⟨-, -, -, -, hrecord⟩ := getPlan_ok hplan
    exact ⟨hrecord task hmem, decide_eq_true hstatus.1, fun _ =>
      ⟨p, rfl, List.mem_map_of_mem hmem⟩⟩

theorem TaskRuntime.requireTaskApproval_ok {task : Task} {x : Unit}
    (hr : TaskRuntime.requireTaskApproval P run task now r = .ok (x, r')) : r' = r := by
  unfold TaskRuntime.requireTaskApproval at hr
  rw [read_bind_ok] at hr
  split_ifs at hr
  · exact (requireApproval_ok hr).1
  · obtain ⟨workspace, -, hr⟩ := ask_bind_ok.mp hr
    cases workspace with
    | none => exact absurd hr (by simp)
    | some workspace => exact (requireApproval_ok hr).1
  · exact (pure_ok.mp hr).2

/-- What the start of a task passes through: nothing is stored but by a gate, or the task is
launched. -/
theorem TaskRuntime.start_stored {taskId : UUID} {key : String}
    (hr : stored (TaskRuntime.start P taskId key now) r = some r') :
    r' = r ∨ r.run.state ∈ executionStates ∧ (Frame [.requests, .coordinator] r r' ∨
      ∃ (plan : Option TaskPlan) (task : Task) (x : TaskExecution),
        r.byKey s!"{key}:task" = none ∧ r.getPlan r.run.planVersion = .ok plan ∧
        TaskRuntime.startable r.run plan taskId r = .ok (task, r) ∧
        TaskRuntime.requireTaskApproval P r.run task now r = .ok ((), r) ∧
        (¬ (task.preferredRole ∈ writeRoles ∧ plan.any fun p => p.tasks.any fun t =>
          t.preferredRole ∈ writeRoles ∧ t.status.active)) ∧
        TaskRuntime.launch P r.run task key now r = .ok (x, r')) := by
  obtain ⟨x, -, hr⟩ := (Reads.requireKey key).stored_bind hr
  obtain ⟨run, hrun, hr⟩ := Reads.locked.stored_bind hr
  obtain ⟨rfl, -⟩ := read_ok.mp hrun
  rw [stored_read_bind] at hr
  cases hkey : r.byKey s!"{key}:task" with
  | some existing =>
    simp only [id_eq, hkey] at hr
    exact .inl ((Reads.bind (Reads.failIf _ _) fun _ => Reads.found _ _).stored_eq hr)
  | none =>
    simp only [id_eq, hkey] at hr
    obtain ⟨x, hstate, hr⟩ := (Reads.failIf _ _).stored_bind hr
    obtain ⟨plan, hplan, hr⟩ := (Reads.ask _).stored_bind hr
    obtain ⟨task, htask, hr⟩ := Reads.startable.stored_bind hr
    refine .inr ⟨not_not.mp (failIf_ok.mp hstate).1, ?_⟩
    rcases stored_bind.mp hr with ⟨x, s, hs, hr⟩ | ⟨e, he, hcommitted⟩
    · obtain rfl := TaskRuntime.requireTaskApproval_ok hs
      obtain ⟨y, hwriter, hr⟩ := (Reads.failIf _ _).stored_bind hr
      obtain ⟨execution, hr⟩ := Silent.launch.stored_ok hr
      exact .inr ⟨plan, task, execution, rfl, (ask_ok.mp hplan).1, htask, hs,
        (failIf_ok.mp hwriter).1, hr⟩
    · exact .inl (Within.stored (TaskRuntime.requireTaskApproval_within rfl)
        (stored_of_error he hcommitted))

theorem TaskRuntime.start_labor {taskId : UUID} {key : String} (h : InOrder limit r)
    (hr : stored (TaskRuntime.start P taskId key now) r = some r') : Labor limit r r' := by
  rcases TaskRuntime.start_stored hr with
    rfl | ⟨-, hframe | ⟨plan, task, x, hkey, hplan, htask, -, hwriter, hr⟩⟩
  · exact Labor.refl h
  · exact Labor.of_frame h hframe (by decide)
  · obtain ⟨hget, hopen, hplanned⟩ := TaskRuntime.startable_ok hplan htask
    refine TaskRuntime.launch_labor h rfl hkey hget hopen (fun hwrites => ?_) hr
    obtain ⟨p, rfl, hin⟩ := hplanned hwrites
    obtain ⟨stored, hstored, -, hids, hrecord⟩ := getPlan_ok hplan
    refine ⟨⟨stored, hstored, hids ▸ hin⟩, fun u hu hplannedu hwritesu => ?_⟩
    obtain ⟨stored', hstored', hinu⟩ := hplannedu
    cases hstored.symm.trans hstored'
    rw [← hids] at hinu
    obtain ⟨v, hv, hvid⟩ := List.mem_map.mp hinu
    have huv : u = v := by
      have hget := hrecord v hv
      rw [hvid] at hget
      exact Option.some.inj ((Table.get?_of_mem hu).symm.trans hget)
    subst huv
    by_contra hactive
    refine hwriter ⟨of_decide_eq_true hwrites, ?_⟩
    simp only [Option.any_some, List.any_eq_true, Bool.decide_and, Bool.and_eq_true,
      decide_eq_true_eq, Bool.decide_eq_true]
    exact ⟨u, hv, of_decide_eq_true hwritesu, Bool.of_not_eq_false hactive⟩

/-! ## The preparatory task -/

theorem Orchestrator.ensureRequirements_labor {task : Task} (h : InOrder limit r)
    (hr : Orchestrator.ensureRequirements P run now r = .ok (task, r')) : Labor limit r r' := by
  unfold Orchestrator.ensureRequirements at hr
  rw [read_bind_ok] at hr
  cases hget : r.tasks.get? (Orchestrator.requirementsId run.id) with
  | some task =>
    simp only [hget] at hr
    rw [(pure_ok.mp hr).2]
    exact Labor.refl h
  | none =>
    simp only [hget] at hr
    obtain ⟨s, hs, hr⟩ := stage_bind_ok.mp hr
    have hframe := frame_addTask hs
    have hfresh : r.tasks.has (Orchestrator.requirementsTask run now).id = false := by
      unfold Table.has
      exact congrArg Option.isSome hget
    have hwork : s.work = r.work.putTask (Orchestrator.requirementsTask run now) := by
      unfold Records.addTask at hs
      rw [if_neg (by simp [hfresh])] at hs
      cases hs
      rfl
    have hadded : Labor limit r s := by
      refine Labor.of_moves h hframe.id (hframe.endings (by decide)) ?_
        (hframe.executions (by decide))
      rw [hwork]
      exact .single (.create hfresh rfl rfl rfl)
    refine hadded.trans (Labor.of_frame hadded.inOrder (Within.frame (S := []) ?_ hr)
      (by decide))
    exact Within.bind (Within.bind (Within.note (quiet_of_apart (by rfl))) fun _ =>
      Within.note (quiet_of_apart (by rfl))) fun _ => Within.pure _

theorem Silent.ensureRequirements : Silent (Orchestrator.ensureRequirements P run now) := by
  refine Silent.bind (Silent.read _) fun o => ?_
  split
  · exact Silent.pure _
  · exact Silent.bind (Silent.stage _) fun _ => Silent.bind (Silent.bind (Silent.note _ _ _)
      fun _ => Silent.note _ _ _) fun _ => Silent.pure _

theorem Orchestrator.startRequirements_labor (h : InOrder limit r)
    (hr : stored (Orchestrator.startRequirements P now) r = some r') : Labor limit r r' := by
  obtain ⟨run, -, hr⟩ := Reads.locked.stored_bind hr
  obtain ⟨x, -, hr⟩ := (Reads.failIf _ _).stored_bind hr
  obtain ⟨task, s, hs, hr⟩ := Silent.ensureRequirements.stored_bind hr
  rw [stored_read_bind] at hr
  rw [(Reads.pure _).stored_eq hr]
  exact Orchestrator.ensureRequirements_labor h hs

/-! ## Replaced attempts -/

theorem Silent.interruptProvider {task : Task} {attempt : TaskExecution}
    {provider : ProviderExecution} :
    Silent (RecoveryService.interruptProvider P run task attempt now provider) :=
  Silent.ite (Silent.bind (Silent.stage _) fun _ => Silent.note _ _ _) (Silent.pure ())

theorem Silent.interruptTool {task : Task} {attempt : TaskExecution} {tool : ToolInvocation} :
    Silent (RecoveryService.interruptTool P run task attempt now tool) :=
  Silent.ite (Silent.bind (Silent.stage _) fun _ => Silent.note _ _ _) (Silent.pure ())

theorem Silent.authorize {attempt : TaskExecution} {task : Task}
    {fingerprint reason key : String} :
    Silent (RecoveryService.authorize P run attempt task fingerprint reason key now) :=
  Silent.bind (Silent.change _) fun _ => Silent.bind (Silent.note _ _ _) fun _ =>
    Silent.bind (Silent.note _ _ _) fun _ => Silent.pure _

theorem RecoveryService.recoverable_ok {executionId : UUID} {attempt : TaskExecution}
    {task : Task}
    (hr : RecoveryService.recoverable run executionId r = .ok ((attempt, task), r')) :
    r.executions.get? executionId = some attempt ∧
      r.tasks.get? attempt.taskId = some task := by
  unfold RecoveryService.recoverable at hr
  obtain ⟨plan, -, hr⟩ := ask_bind_ok.mp hr
  obtain ⟨-, hr⟩ := failIf_bind_ok.mp hr
  rw [read_bind_ok] at hr
  obtain ⟨e, he, hr⟩ := found_bind_ok.mp hr
  obtain ⟨t, ht, hr⟩ := found_bind_ok.mp hr
  obtain ⟨-, hr⟩ := failIf_bind_ok.mp hr
  cases (pure_ok.mp hr).1
  exact ⟨he, ht⟩

theorem RecoveryService.checkRetry_ok {project : Option Project} {attempt : TaskExecution}
    {task : Task} {x : Unit}
    (hr : RecoveryService.checkRetry project run attempt task r = .ok (x, r')) :
    attempt.status.active = true ∧
      ∃ p, project = some p ∧ task.attemptCount < p.maxTaskAttempts := by
  unfold RecoveryService.checkRetry at hr
  obtain ⟨-, hr⟩ := failIf_bind_ok.mp hr
  obtain ⟨hactive, hr⟩ := failIf_bind_ok.mp hr
  obtain ⟨hlimit, -⟩ := failIf_bind_ok.mp hr
  refine ⟨Bool.of_not_eq_false hactive, ?_⟩
  cases project with
  | none => exact absurd rfl hlimit
  | some p => exact ⟨p, rfl, by simpa using hlimit⟩

/-- What a replacement of an attempt passes through: nothing is stored, or the attempt fails
after its invocations are interrupted, and its task is authorized to begin again. -/
theorem RecoveryService.retry_stored {project : Project} {executionId : UUID}
    {reason key : String} {acknowledged : Bool}
    (hr : stored (RecoveryService.retry P (some project) executionId reason key acknowledged now)
      r = some r') :
    r' = r ∨ ∃ (attempt : TaskExecution) (task : Task) (x : TaskExecution) (y : Task)
      (s t : Records), r.executions.get? attempt.id = some attempt ∧
        r.tasks.get? attempt.taskId = some task ∧ attempt.status.active = true ∧
        task.attemptCount < project.maxTaskAttempts ∧ Frame [.providers, .tools] r s ∧
        TaskRuntime.transitionInTransaction P r.run attempt.id .failed s!"recovery:{key}:retire"
          now s = .ok (x, t) ∧
        RecoveryService.authorize P r.run attempt task (RecoveryService.retryFingerprint P
          executionId reason) reason key now t = .ok (y, r') := by
  obtain ⟨x, -, hr⟩ := (Reads.requireKey key).stored_bind hr
  obtain ⟨x, -, hr⟩ := (Reads.failIf _ _).stored_bind hr
  obtain ⟨x, -, hr⟩ := (Reads.failIf _ _).stored_bind hr
  obtain ⟨run, hrun, hr⟩ := Reads.locked.stored_bind hr
  obtain ⟨rfl, -⟩ := read_ok.mp hrun
  rw [stored_read_bind] at hr
  obtain ⟨x, -, hr⟩ := (Reads.failIf _ _).stored_bind hr
  obtain ⟨⟨attempt, task⟩, hfound, hr⟩ := Reads.recoverable.stored_bind hr
  obtain ⟨hget, htask⟩ := RecoveryService.recoverable_ok hfound
  obtain rfl := Table.key_of_get? hget
  simp only at hr
  split_ifs at hr
  · exact .inl ((Reads.pure _).stored_eq hr)
  · obtain ⟨x, hcheck, hr⟩ := Reads.checkRetry.stored_bind hr
    obtain ⟨hactive, p, hp, hlimit⟩ := RecoveryService.checkRetry_ok hcheck
    cases hp
    obtain ⟨providers, -, hr⟩ := (Reads.ask _).stored_bind hr
    obtain ⟨x, s, hs, hr⟩ := (Silent.forM fun _ _ => Silent.interruptProvider).stored_bind hr
    have hproviders : Frame [.providers] r s :=
      Within.frame (Within.forM fun _ _ => RecoveryService.interruptProvider_within) hs
    obtain ⟨tools, -, hr⟩ := (Reads.ask _).stored_bind hr
    obtain ⟨x, t, ht, hr⟩ := (Silent.forM fun _ _ => Silent.interruptTool).stored_bind hr
    have htools : Frame [.tools] s t :=
      Within.frame (Within.forM fun _ _ => RecoveryService.interruptTool_within) ht
    obtain ⟨failed, u, hu, hr⟩ := Silent.transitionInTransaction.stored_bind hr
    obtain ⟨ready, hr⟩ := Silent.authorize.stored_ok hr
    exact .inr ⟨attempt, task, failed, ready, t, u, hget, htask, hactive, hlimit,
      hproviders.append htools, hu, hr⟩

/-- A task that is authorized to begin again is ready, and nothing else changes but the log. -/
theorem RecoveryService.authorize_ok {attempt : TaskExecution} {task x : Task}
    {fingerprint reason key : String}
    (hr : RecoveryService.authorize P run attempt task fingerprint reason key now r =
      .ok (x, r')) :
    Frame [] (r.saveTask { task with
      status := .ready, readyAt := some now, startedAt := none, completedAt := none }) r' := by
  unfold RecoveryService.authorize at hr
  rw [change_bind_ok] at hr
  exact Within.frame (Within.bind (Within.note (quiet_of_status
    (by simp [settledWords, TaskStatus.value]) (by simp))) fun _ =>
    Within.bind (Within.note (quiet_of_apart (by rfl))) fun _ => Within.pure _) hr

/-- An attempt that is replaced fails, and its task is ready again. -/
theorem RecoveryService.retry_labor {project : Project} {executionId : UUID}
    {reason key : String} {acknowledged : Bool} (h : InOrder project.maxTaskAttempts r)
    (hr : stored (RecoveryService.retry P (some project) executionId reason key acknowledged now)
      r = some r') : Labor project.maxTaskAttempts r r' := by
  rcases RecoveryService.retry_stored hr with
    rfl | ⟨attempt, task, x, y, s, t, hget, htask, hactive, hlimit, hbefore, ht, hr⟩
  · exact Labor.refl h
  · have hinterrupted := Labor.of_frame h hbefore (by decide)
    rw [← hbefore.executions (by decide)] at hget
    rw [← hbefore.tasks (by decide)] at htask
    obtain ⟨hretired, -, -, hput⟩ := TaskRuntime.transitionInTransaction_labor
      hinterrupted.inOrder hbefore.id.symm hget ht
    obtain ⟨completedAt, hput⟩ := hput (by decide) hactive rfl task htask
    have hrecord : t.tasks.get? task.id = some { task with status := .failed, completedAt } := by
      rw [hput]
      exact Table.get?_put_self _ _
    have hreopened : Labor project.maxTaskAttempts t (t.saveTask
        { task with
          status := .ready, readyAt := some now, startedAt := none, completedAt := none }) :=
      Labor.saveTask hretired.inOrder (has_of_get?_tasks hrecord)
        (.reopen (t := { task with status := .failed, completedAt }) now hrecord rfl hlimit)
    exact ((hinterrupted.trans hretired).trans hreopened).trans
      (Labor.of_frame hreopened.inOrder (RecoveryService.authorize_ok hr) (by decide))

end Orqalis
