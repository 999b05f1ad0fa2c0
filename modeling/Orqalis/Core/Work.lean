import Orqalis.Core.TaskRuntime
import Mathlib.Logic.Relation

/-!
# The work of a run

The tasks of a run, the attempts at them and its plans, apart from the rest of the records,
and the moves by which they change: seven, each with what the code checks before it makes it.
Every command that works on tasks is shown to be a sequence of moves; what the moves keep,
every run keeps.
-/

namespace Orqalis

open Lib

/-- The tasks, the attempts and the plans of a run. -/
structure Work where
  tasks : Table Task.id
  executions : Table TaskExecution.id
  plans : Table TaskPlan.version
  planVersion : Nat

/-- The work of a run's records. -/
def Records.work (r : Records) : Work where
  tasks := r.tasks
  executions := r.executions
  plans := r.plans
  planVersion := r.run.planVersion

/-- Whether a task is one of a writer. -/
def Task.writes (t : Task) : Bool := t.preferredRole ∈ writeRoles

/-- Whether a task has not begun. -/
def Task.open (t : Task) : Bool := t.status = .pending ∨ t.status = .ready

namespace Work

/-- Whether a task belongs to the current plan. -/
def planned (w : Work) (id : UUID) : Prop :=
  ∃ p, w.plans.get? w.planVersion = some p ∧ id ∈ p.ids

/-- No task of a writer is under way. -/
def unwritten (w : Work) : Prop := ∀ t ∈ w.tasks, t.writes = true → t.status.active = false

/-- The work with another record of a task. -/
def putTask (w : Work) (t : Task) : Work := { w with tasks := w.tasks.put t }

/-- The work with another record of an attempt. -/
def putExecution (w : Work) (e : TaskExecution) : Work :=
  { w with executions := w.executions.put e }

/-- The work with the tasks a plan introduces. -/
def introduce (w : Work) (l : List Task) : Work :=
  { w with tasks := Records.introduce w.tasks l }

/-- The work with a new plan. -/
def install (w : Work) (plan : TaskPlan) : Work :=
  { w.introduce plan.tasks with plans := w.plans.put plan, planVersion := plan.version }

/-- What a plan must be to be installed: the next one, its tasks either those on record or
new ones with nothing done yet. -/
structure Installable (w : Work) (plan : TaskPlan) : Prop where
  next : plan.version = w.planVersion + 1
  nodup : plan.ids.Nodup
  recorded : ∀ t ∈ plan.tasks, ∀ u, w.tasks.get? t.id = some u → u = t
  new : ∀ t ∈ plan.tasks, w.tasks.has t.id = false →
    t.status = .pending ∧ t.attemptCount = 0 ∧ t.planVersion ≠ 0
  unwritten : w.unwritten

/-- A move of the work of a run, whose tasks get `limit` attempts. -/
inductive Move (limit : Nat) : Work → Work → Prop
  /-- A task becomes ready. -/
  | ready {w : Work} {t : Task} (now : Time) (ht : w.tasks.get? t.id = some t)
      (hstatus : t.status = .pending) :
      Move limit w (w.putTask { t with status := .ready, readyAt := some now })
  /-- A task that has not begun is cancelled. -/
  | cancel {w : Work} {t : Task} (now : Time) (ht : w.tasks.get? t.id = some t)
      (hstatus : t.open = true) :
      Move limit w (w.putTask { t with status := .cancelled, completedAt := some now })
  /-- An attempt at a task begins. -/
  | start {w : Work} {t : Task} {e : TaskExecution} (now : Time)
      (ht : w.tasks.get? t.id = some t) (hstatus : t.open = true)
      (hfresh : w.executions.has e.id = false) (htask : e.taskId = t.id)
      (hattempt : e.attempt = t.attemptCount + 1) (hrunning : e.status = .running)
      (hwriter : t.writes = true → w.planned t.id ∧
        ∀ u ∈ w.tasks, w.planned u.id → u.writes = true → u.status.active = false) :
      Move limit w ((w.putExecution e).putTask
        { t with status := .running, startedAt := some now, attemptCount := e.attempt })
  /-- An attempt moves on, with its task. -/
  | settle {w : Work} {t : Task} {e e' : TaskExecution} (completedAt : Option Time)
      (he : w.executions.get? e.id = some e) (ht : w.tasks.get? e.taskId = some t)
      (hstatus : e'.status ∈ attemptTransitions e.status) (hid : e'.id = e.id)
      (htask : e'.taskId = e.taskId) (hattempt : e'.attempt = e.attempt) :
      Move limit w ((w.putExecution e').putTask { t with status := e'.status, completedAt })
  /-- A task that has failed gets another attempt. -/
  | reopen {w : Work} {t : Task} (now : Time) (ht : w.tasks.get? t.id = some t)
      (hstatus : t.status = .failed) (hlimit : t.attemptCount < limit) :
      Move limit w (w.putTask
        { t with
          status := .ready
          readyAt := some now
          startedAt := none
          completedAt := none })
  /-- The preparatory task is made. -/
  | create {w : Work} {t : Task} (hfresh : w.tasks.has t.id = false) (hstatus : t.open = true)
      (hcount : t.attemptCount = 0) (hrole : t.preferredRole = .requirements) :
      Move limit w (w.putTask t)
  /-- A plan is installed. -/
  | install {w : Work} {plan : TaskPlan} (h : w.Installable plan) :
      Move limit w (w.install plan)

/-- Several moves. -/
abbrev Moves (limit : Nat) : Work → Work → Prop := Relation.ReflTransGen (Move limit)

/-! ## What is sound -/

/-- The attempts of a run are those its tasks count: numbered from one on, at most the last of
them under way, and that one with the status of its task. -/
structure Sound (limit : Nat) (w : Work) : Prop where
  owned : ∀ e ∈ w.executions, ∃ t, w.tasks.get? e.taskId = some t ∧ 1 ≤ e.attempt ∧
    e.attempt ≤ t.attemptCount
  complete : ∀ t ∈ w.tasks, ∀ n, 1 ≤ n → n ≤ t.attemptCount →
    ∃ e ∈ w.executions, e.taskId = t.id ∧ e.attempt = n
  unique : ∀ e ∈ w.executions, ∀ e' ∈ w.executions, e.taskId = e'.taskId →
    e.attempt = e'.attempt → e = e'
  live : ∀ e ∈ w.executions, e.status.active = true → ∀ t, w.tasks.get? e.taskId = some t →
    e.attempt = t.attemptCount ∧ t.status = e.status
  active : ∀ t ∈ w.tasks, t.status.active = true →
    ∃ e ∈ w.executions, e.taskId = t.id ∧ e.attempt = t.attemptCount ∧ e.status = t.status
  bounded : ∀ t ∈ w.tasks, t.attemptCount ≤ max 1 limit
  spare : ∀ t ∈ w.tasks, t.open = true → t.attemptCount = 0 ∨ t.attemptCount < limit

/-- At most one writer is at work, on a task of the current plan; the preparatory tasks are
for no writer. -/
structure Exclusive (w : Work) : Prop where
  planned : ∀ t ∈ w.tasks, t.writes = true → t.status.active = true → w.planned t.id
  single : ∀ t ∈ w.tasks, ∀ u ∈ w.tasks, t.writes = true → u.writes = true →
    t.status.active = true → u.status.active = true → t = u
  preparatory : ∀ t ∈ w.tasks, t.planVersion = 0 → t.preferredRole = .requirements

/-- The plans of a run are numbered from one on, and their tasks are on record. -/
structure Numbered (w : Work) : Prop where
  versions : ∀ v, w.plans.has v = true ↔ 1 ≤ v ∧ v ≤ w.planVersion
  known : ∀ p ∈ w.plans, ∀ t ∈ p.tasks, w.tasks.has t.id = true
  nodup : ∀ p ∈ w.plans, p.ids.Nodup

/-- All of it. -/
structure Sane (limit : Nat) (w : Work) : Prop where
  sound : w.Sound limit
  exclusive : w.Exclusive
  numbered : w.Numbered

/-- What later work keeps: the plans, the tasks up to their progress, and that an attempt has
ended. -/
structure Kept (w w' : Work) : Prop where
  plans : ∀ v p, w.plans.get? v = some p → w'.plans.get? v = some p
  tasks : ∀ id t, w.tasks.get? id = some t →
    ∃ t', w'.tasks.get? id = some t' ∧ t'.identity = t.identity
  ended : ∀ id e, w.executions.get? id = some e → e.status.active = false →
    w'.executions.get? id = some e

variable {limit : Nat} {w w' w'' : Work}

/-! ## Records of tasks and attempts -/

theorem has_of_get? {id : UUID} {t : Task} (h : w.tasks.get? id = some t) :
    w.tasks.has id = true := by
  rw [Table.has, h]
  rfl

theorem get?_of_has {id : UUID} (h : w.tasks.has id = true) : ∃ t, w.tasks.get? id = some t :=
  Option.isSome_iff_exists.mp h

/-- The records of tasks after one of them is replaced. -/
theorem mem_putTask {t u : Task} : u ∈ (w.putTask t).tasks ↔ u = t ∨ u ∈ w.tasks ∧ u.id ≠ t.id :=
  Table.mem_put

theorem get?_putTask {t : Task} (id : UUID) :
    (w.putTask t).tasks.get? id = if t.id = id then some t else w.tasks.get? id :=
  Table.get?_put _ _ _

theorem mem_putExecution {e f : TaskExecution} :
    f ∈ (w.putExecution e).executions ↔ f = e ∨ f ∈ w.executions ∧ f.id ≠ e.id :=
  Table.mem_put

theorem introduce_cons (t : Task) (l : List Task) :
    w.introduce (t :: l) = (if w.tasks.has t.id then w else w.putTask t).introduce l := by
  show ({ w with tasks := Records.introduce (if _ then _ else _) l } : Work) = _
  split_ifs <;> rfl

/-- A task that is replaced by one with the same place in the work. -/
structure Recast (t t' : Task) : Prop where
  id : t'.id = t.id
  role : t'.preferredRole = t.preferredRole
  version : t'.planVersion = t.planVersion
  identity : t'.identity = t.identity

theorem planned_putTask {t : Task} {id : UUID} : (w.putTask t).planned id ↔ w.planned id := Iff.rfl

/-! ## Kept -/

theorem Kept.refl (w : Work) : Kept w w :=
  ⟨fun _ _ h => h, fun _ t h => ⟨t, h, rfl⟩, fun _ _ h _ => h⟩

theorem Kept.trans (h : Kept w w') (h' : Kept w' w'') : Kept w w'' where
  plans v p hp := h'.plans v p (h.plans v p hp)
  tasks id t ht := by
    obtain ⟨t', ht', hidentity⟩ := h.tasks id t ht
    obtain ⟨t'', ht'', hidentity'⟩ := h'.tasks id t' ht'
    exact ⟨t'', ht'', hidentity'.trans hidentity⟩
  ended id e he hend := h'.ended id e (h.ended id e he hend) hend

theorem Kept.putTask {t t' : Task} (ht : w.tasks.get? t.id = some t) (h : Recast t t') :
    Kept w (w.putTask t') where
  plans _ _ hp := hp
  tasks id u hu := by
    rw [get?_putTask]
    split_ifs with hid
    · rw [h.id] at hid
      rw [← hid, ht] at hu
      cases hu
      exact ⟨t', rfl, h.identity⟩
    · exact ⟨u, hu, rfl⟩
  ended _ _ he _ := he

theorem Kept.putExecution {e : TaskExecution}
    (h : ∀ old, w.executions.get? e.id = some old → old.status.active = true) :
    Kept w (w.putExecution e) where
  plans _ _ hp := hp
  tasks _ t ht := ⟨t, ht, rfl⟩
  ended id old hold hend := by
    show (w.executions.put e).get? id = some old
    rw [Table.get?_put]
    split_ifs with hid
    · rw [← hid] at hold
      rw [h old hold] at hend
      cases hend
    · exact hold

/-- The tasks a plan introduces are stored; those on record stay as they are. -/
theorem get?_introduce (tasks : Table Task.id) (l : List Task) (id : UUID) :
    (Records.introduce tasks l).get? id =
      match tasks.get? id with
      | some t => some t
      | none => l.find? fun t => t.id = id := by
  induction l generalizing tasks with
  | nil =>
    show tasks.get? id = _
    cases tasks.get? id <;> rfl
  | cons t l ih =>
    show (Records.introduce (if tasks.has t.id then tasks else tasks.put t) l).get? id = _
    rw [ih]
    split_ifs with hhas
    · cases hget : tasks.get? id with
      | some u => rfl
      | none =>
        have hne : t.id ≠ id := by
          rintro rfl
          rw [Table.has, hget] at hhas
          cases hhas
        simp [hne]
    · have hnone : tasks.get? t.id = none := by
        simpa [Table.has] using hhas
      rw [Table.get?_put]
      split_ifs with hid
      · rw [← hid, hnone]
        simp
      · cases tasks.get? id with
        | some u => rfl
        | none => simp [hid]

theorem Kept.install {plan : TaskPlan} (hnew : w.plans.has plan.version = false) :
    Kept w (w.install plan) where
  plans v p hp := by
    show (w.plans.put plan).get? v = some p
    rw [Table.get?_put, if_neg]
    · exact hp
    · rintro rfl
      rw [Table.has, hp] at hnew
      cases hnew
  tasks id t ht := by
    refine ⟨t, ?_, rfl⟩
    show (Records.introduce w.tasks plan.tasks).get? id = some t
    rw [get?_introduce, ht]
  ended _ _ he _ := he

/-- A status an attempt moves on from is one of an attempt under way. -/
theorem active_of_transition {s s' : TaskStatus} (h : s' ∈ attemptTransitions s) :
    s.active = true := by
  cases s <;> simp_all [attemptTransitions, TaskStatus.active]

/-- Every move keeps what is kept. -/
theorem Move.kept (hnumbered : w.Numbered) (h : Move limit w w') : Kept w w' := by
  cases h with
  | ready now ht hstatus => exact Kept.putTask ht ⟨rfl, rfl, rfl, rfl⟩
  | cancel now ht hstatus => exact Kept.putTask ht ⟨rfl, rfl, rfl, rfl⟩
  | @start t e now ht hstatus hfresh htask hattempt hrunning hwriter =>
    refine (Kept.putExecution fun old hold => ?_).trans (Kept.putTask ht ⟨rfl, rfl, rfl, rfl⟩)
    rw [Table.has, hold] at hfresh
    cases hfresh
  | @settle t e e' completedAt he ht hstatus hid htask hattempt =>
    have hkey : t.id = e.taskId := Table.key_of_get? ht
    rw [← hkey] at ht
    refine (Kept.putExecution fun old hold => ?_).trans (Kept.putTask ht ⟨rfl, rfl, rfl, rfl⟩)
    rw [hid, he] at hold
    cases hold
    exact active_of_transition hstatus
  | reopen now ht hstatus hlimit => exact Kept.putTask ht ⟨rfl, rfl, rfl, rfl⟩
  | @create t hfresh hstatus hcount hrole =>
    refine ⟨fun _ _ hp => hp, fun id u hu => ⟨u, ?_, rfl⟩, fun _ _ he _ => he⟩
    rw [get?_putTask, if_neg]
    · exact hu
    · rintro rfl
      rw [Table.has, hu] at hfresh
      cases hfresh
  | install hplan =>
    refine Kept.install ?_
    by_contra hhas
    have hle := (hnumbered.versions _).mp (Bool.of_not_eq_false hhas)
    rw [hplan.next] at hle
    omega

/-! ## Numbered -/

/-- The tasks of a run stay on record. -/
theorem Kept.has {id : UUID} (h : Kept w w') (hhas : w.tasks.has id = true) :
    w'.tasks.has id = true := by
  obtain ⟨t, ht⟩ := get?_of_has hhas
  obtain ⟨t', ht', -⟩ := h.tasks id t ht
  exact has_of_get? ht'

theorem Numbered.of_plans (h : w.Numbered) (hkept : Kept w w') (hplans : w'.plans = w.plans)
    (hversion : w'.planVersion = w.planVersion) : w'.Numbered where
  versions v := by
    rw [hplans, hversion]
    exact h.versions v
  known p hp t ht := by
    rw [hplans] at hp
    exact hkept.has (h.known p hp t ht)
  nodup p hp := by
    rw [hplans] at hp
    exact h.nodup p hp

theorem Numbered.install {plan : TaskPlan} (h : w.Numbered) (hplan : w.Installable plan)
    (hkept : Kept w (w.install plan)) : (w.install plan).Numbered where
  versions v := by
    show (w.plans.put plan).has v = true ↔ 1 ≤ v ∧ v ≤ plan.version
    have hold := h.versions v
    rw [hplan.next]
    unfold Table.has at hold ⊢
    rw [Table.get?_put, hplan.next]
    split_ifs with hv
    · simp only [Option.isSome_some, true_iff]
      omega
    · rw [hold]
      omega
  known p hp t ht := by
    rcases Table.mem_put.mp hp with rfl | ⟨hp, -⟩
    · show (Records.introduce w.tasks p.tasks).has t.id = true
      unfold Table.has
      rw [get?_introduce]
      cases w.tasks.get? t.id with
      | some u => rfl
      | none => simpa using ⟨t, ht, rfl⟩
    · exact hkept.has (h.known p hp t ht)
  nodup p hp := by
    rcases Table.mem_put.mp hp with rfl | ⟨hp, -⟩
    · exact hplan.nodup
    · exact h.nodup p hp

theorem Numbered.move (h : w.Numbered) (hmove : Move limit w w') : w'.Numbered := by
  have hkept := hmove.kept h
  cases hmove with
  | install hplan => exact h.install hplan hkept
  | _ => exact h.of_plans hkept rfl rfl

/-! ## Sound -/

/-- A task that is replaced by one that counts the same attempts and is under way only as
before. -/
theorem Sound.recast {t t' : Task} (h : w.Sound limit) (ht : w.tasks.get? t.id = some t)
    (hid : t'.id = t.id) (hcount : t'.attemptCount = t.attemptCount)
    (hidle : t.status.active = false) (hidle' : t'.status.active = false)
    (hspare : t'.open = true → t'.attemptCount = 0 ∨ t'.attemptCount < limit) :
    (w.putTask t').Sound limit where
  owned e he := by
    obtain ⟨u, hu, hrange⟩ := h.owned e he
    rw [get?_putTask]
    split_ifs with hkey
    · refine ⟨t', rfl, ?_⟩
      rw [hid] at hkey
      rw [← hkey, ht] at hu
      cases hu
      rwa [hcount]
    · exact ⟨u, hu, hrange⟩
  complete u hu n hn hle := by
    rcases mem_putTask.mp hu with rfl | ⟨hu, -⟩
    · rw [hcount] at hle
      rw [hid]
      exact h.complete t (Table.mem_of_get? ht) n hn hle
    · exact h.complete u hu n hn hle
  unique := h.unique
  live e he hactive u hu := by
    rw [get?_putTask] at hu
    split_ifs at hu with hkey
    · rw [hid] at hkey
      have hlive := h.live e he hactive t (by rw [← hkey]; exact ht)
      rw [← hlive.2, hidle] at hactive
      cases hactive
    · exact h.live e he hactive u hu
  active u hu hactive := by
    rcases mem_putTask.mp hu with rfl | ⟨hu, -⟩
    · rw [hidle'] at hactive
      cases hactive
    · exact h.active u hu hactive
  bounded u hu := by
    rcases mem_putTask.mp hu with rfl | ⟨hu, -⟩
    · rw [hcount]
      exact h.bounded t (Table.mem_of_get? ht)
    · exact h.bounded u hu
  spare u hu hopen := by
    rcases mem_putTask.mp hu with rfl | ⟨hu, -⟩
    · exact hspare hopen
    · exact h.spare u hu hopen

theorem idle_of_open {t : Task} (h : t.open = true) : t.status.active = false := by
  unfold Task.open at h
  rcases of_decide_eq_true h with h | h <;> rw [h] <;> rfl

/-- An attempt at a task that has not begun is over. -/
theorem Sound.idle (h : w.Sound limit) {t : Task} (ht : w.tasks.get? t.id = some t)
    (hidle : t.status.active = false) {e : TaskExecution} (he : e ∈ w.executions)
    (htask : e.taskId = t.id) : e.status.active = false := by
  by_contra hactive
  have hlive := h.live e he (Bool.of_not_eq_false hactive) t (by rw [htask]; exact ht)
  rw [← hlive.2] at hactive
  exact hactive hidle

/-- An attempt begins. -/
theorem Sound.start {t : Task} {e : TaskExecution} (h : w.Sound limit) (now : Time)
    (ht : w.tasks.get? t.id = some t) (hopen : t.open = true)
    (hfresh : w.executions.has e.id = false) (htask : e.taskId = t.id)
    (hattempt : e.attempt = t.attemptCount + 1) (hrunning : e.status = .running) :
    ((w.putExecution e).putTask
      { t with status := .running, startedAt := some now, attemptCount := e.attempt }).Sound
      limit := by
  have hidle := idle_of_open hopen
  have hold : ∀ f ∈ w.executions, f.taskId = t.id → f.attempt ≤ t.attemptCount := by
    intro f hf hkey
    obtain ⟨u, hu, -, hle⟩ := h.owned f hf
    rw [hkey, ht] at hu
    cases hu
    exact hle
  have hmem : ∀ f ∈ (w.putExecution e).executions, f = e ∨ f ∈ w.executions := by
    intro f hf
    exact (mem_putExecution.mp hf).imp_right And.left
  have hput : ∀ f ∈ w.executions, f ∈ (w.putExecution e).executions := by
    intro f hf
    refine mem_putExecution.mpr (.inr ⟨hf, ?_⟩)
    intro hkey
    rw [← hkey, Table.has, Table.get?_of_mem hf] at hfresh
    cases hfresh
  refine
    { owned := fun f hf => ?_
      complete := fun u hu n hn hle => ?_
      unique := fun f hf g hg hkey hnumber => ?_
      live := fun f hf hactive u hu => ?_
      active := fun u hu hactive => ?_
      bounded := fun u hu => ?_
      spare := fun u hu hspare => ?_ }
  · rw [get?_putTask]
    rcases hmem f hf with rfl | hf
    · rw [if_pos htask.symm]
      exact ⟨_, rfl, by omega, le_refl _⟩
    · obtain ⟨u, hu, hpos, hle⟩ := h.owned f hf
      split_ifs with hkey
      · refine ⟨_, rfl, hpos, ?_⟩
        have := hold f hf hkey.symm
        show f.attempt ≤ e.attempt
        omega
      · exact ⟨u, hu, hpos, hle⟩
  · rcases mem_putTask.mp hu with rfl | ⟨hu, -⟩
    · by_cases hlast : n = e.attempt
      · exact ⟨e, mem_putExecution.mpr (.inl rfl), htask, hlast.symm⟩
      · change n ≤ e.attempt at hle
        obtain ⟨f, hf, hkey, hnumber⟩ :=
          h.complete t (Table.mem_of_get? ht) n hn (by omega)
        exact ⟨f, hput f hf, hkey, hnumber⟩
    · obtain ⟨f, hf, hkey, hnumber⟩ := h.complete u hu n hn hle
      exact ⟨f, hput f hf, hkey, hnumber⟩
  · rcases hmem f hf with hf' | hf' <;> rcases hmem g hg with hg' | hg'
    · rw [hf', hg']
    · rw [hf'] at hkey hnumber
      have := hold g hg' (by rw [← hkey, htask])
      omega
    · rw [hg'] at hkey hnumber
      have := hold f hf' (by rw [hkey, htask])
      omega
    · exact h.unique f hf' g hg' hkey hnumber
  · rw [get?_putTask] at hu
    rcases hmem f hf with rfl | hf
    · rw [if_pos htask.symm] at hu
      cases hu
      exact ⟨rfl, hrunning.symm⟩
    · split_ifs at hu with hkey
      · rw [h.idle ht hidle hf hkey.symm] at hactive
        cases hactive
      · exact h.live f hf hactive u hu
  · rcases mem_putTask.mp hu with rfl | ⟨hu, -⟩
    · exact ⟨e, mem_putExecution.mpr (.inl rfl), htask, rfl, hrunning⟩
    · obtain ⟨f, hf, hrest⟩ := h.active u hu hactive
      exact ⟨f, hput f hf, hrest⟩
  · rcases mem_putTask.mp hu with rfl | ⟨hu, -⟩
    · have hspare := h.spare t (Table.mem_of_get? ht) hopen
      show e.attempt ≤ max 1 limit
      omega
    · exact h.bounded u hu
  · rcases mem_putTask.mp hu with rfl | ⟨hu, -⟩
    · exact absurd hspare (by simp [Task.open])
    · exact h.spare u hu hspare

/-- An attempt moves on, with its task. -/
theorem Sound.settle {t : Task} {e e' : TaskExecution} (h : w.Sound limit)
    (completedAt : Option Time) (he : w.executions.get? e.id = some e)
    (ht : w.tasks.get? e.taskId = some t) (hstatus : e'.status ∈ attemptTransitions e.status)
    (hid : e'.id = e.id) (htask : e'.taskId = e.taskId) (hattempt : e'.attempt = e.attempt) :
    ((w.putExecution e').putTask { t with status := e'.status, completedAt }).Sound limit := by
  have hkey : t.id = e.taskId := Table.key_of_get? ht
  have hmem := Table.mem_of_get? he
  have htmem := Table.mem_of_get? ht
  have hlive := h.live e hmem (active_of_transition hstatus) t ht
  have hother : ∀ f ∈ (w.putExecution e').executions,
      f = e' ∨ f ∈ w.executions ∧ f.id ≠ e.id := by
    intro f hf
    rw [← hid]
    exact mem_putExecution.mp hf
  have hput : ∀ f ∈ w.executions, ∃ f' ∈ (w.putExecution e').executions,
      f'.taskId = f.taskId ∧ f'.attempt = f.attempt ∧ (f' = f ∨ f = e) := by
    intro f hf
    by_cases hf' : f.id = e.id
    · have heq : f = e := Table.eq_of_mem_key hf hmem hf'
      rw [heq]
      exact ⟨e', mem_putExecution.mpr (.inl rfl), htask, hattempt, .inr rfl⟩
    · exact ⟨f, mem_putExecution.mpr (.inr ⟨hf, by rwa [hid]⟩), rfl, rfl, .inl rfl⟩
  refine
    { owned := fun f hf => ?_
      complete := fun u hu n hn hle => ?_
      unique := fun f hf g hg hkey hnumber => ?_
      live := fun f hf hactive u hu => ?_
      active := fun u hu hactive => ?_
      bounded := fun u hu => ?_
      spare := fun u hu hspare => ?_ }
  · rw [get?_putTask]
    obtain ⟨f₀, hf₀, hsame, hnumber⟩ : ∃ f₀ ∈ w.executions, f.taskId = f₀.taskId ∧
        f.attempt = f₀.attempt := by
      rcases hother f hf with rfl | ⟨hf, -⟩
      · exact ⟨e, hmem, htask, hattempt⟩
      · exact ⟨f, hf, rfl, rfl⟩
    obtain ⟨u, hu, hpos, hle⟩ := h.owned f₀ hf₀
    rw [hsame, hnumber]
    split_ifs with hkey'
    · refine ⟨_, rfl, hpos, ?_⟩
      have hkey'' : t.id = f₀.taskId := hkey'
      rw [← hkey'', hkey, ht] at hu
      cases hu
      exact hle
    · exact ⟨u, hu, hpos, hle⟩
  · have hfrom : ∃ f ∈ w.executions, f.taskId = u.id ∧ f.attempt = n := by
      rcases mem_putTask.mp hu with rfl | ⟨hu, -⟩
      · exact h.complete t htmem n hn hle
      · exact h.complete u hu n hn hle
    obtain ⟨f, hf, hsame, hnumber⟩ := hfrom
    obtain ⟨f', hf', hsame', hnumber', -⟩ := hput f hf
    exact ⟨f', hf', hsame'.trans hsame, hnumber'.trans hnumber⟩
  · rcases hother f hf with hf' | ⟨hf', hfid⟩ <;> rcases hother g hg with hg' | ⟨hg', hgid⟩
    · rw [hf', hg']
    · rw [hf'] at hkey hnumber
      have heq := h.unique e hmem g hg' (htask.symm.trans hkey) (hattempt.symm.trans hnumber)
      exact absurd (by rw [heq]) hgid
    · rw [hg'] at hkey hnumber
      have heq := h.unique f hf' e hmem (hkey.trans htask) (hnumber.trans hattempt)
      exact absurd (by rw [heq]) hfid
    · exact h.unique f hf' g hg' hkey hnumber
  · rw [get?_putTask] at hu
    rcases hother f hf with rfl | ⟨hf, hfid⟩
    · rw [if_pos (by rw [htask]; exact hkey)] at hu
      cases hu
      exact ⟨hattempt.trans hlive.1, rfl⟩
    · split_ifs at hu with hkey'
      · have hkey'' : t.id = f.taskId := hkey'
        have hlive' := h.live f hf hactive t (by rw [← hkey'', hkey]; exact ht)
        have heq := h.unique f hf e hmem (hkey''.symm.trans hkey) (hlive'.1.trans hlive.1.symm)
        exact absurd (by rw [heq]) hfid
      · exact h.live f hf hactive u hu
  · rcases mem_putTask.mp hu with rfl | ⟨hu, hne⟩
    · exact ⟨e', mem_putExecution.mpr (.inl rfl), htask.trans hkey.symm,
        hattempt.trans hlive.1, rfl⟩
    · obtain ⟨f, hf, hsame, hrest⟩ := h.active u hu hactive
      refine ⟨f, mem_putExecution.mpr (.inr ⟨hf, ?_⟩), hsame, hrest⟩
      rw [hid]
      intro hfid
      have heq : f = e := Table.eq_of_mem_key hf hmem hfid
      rw [heq] at hsame
      exact hne (hsame.symm.trans hkey.symm)
  · rcases mem_putTask.mp hu with rfl | ⟨hu, -⟩
    · exact h.bounded t htmem
    · exact h.bounded u hu
  · rcases mem_putTask.mp hu with rfl | ⟨hu, -⟩
    · refine absurd hspare ?_
      have hstatus' := hstatus
      unfold Task.open
      cases hs : e.status <;> rw [hs] at hstatus' <;>
        simp [attemptTransitions] at hstatus' <;> grind
    · exact h.spare u hu hspare

/-- A new task has no attempts yet. -/
theorem Sound.putNew {t : Task} (h : w.Sound limit) (hfresh : w.tasks.has t.id = false)
    (hopen : t.open = true) (hcount : t.attemptCount = 0) : (w.putTask t).Sound limit := by
  have hnone : w.tasks.get? t.id = none := by simpa [Table.has] using hfresh
  have hother : ∀ e ∈ w.executions, e.taskId ≠ t.id := by
    intro e he hkey
    obtain ⟨u, hu, -⟩ := h.owned e he
    rw [hkey, hnone] at hu
    cases hu
  refine
    { owned := fun e he => ?_
      complete := fun u hu n hn hle => ?_
      unique := h.unique
      live := fun e he hactive u hu => ?_
      active := fun u hu hactive => ?_
      bounded := fun u hu => ?_
      spare := fun u hu hspare => ?_ }
  · rw [get?_putTask, if_neg fun hkey => hother e he hkey.symm]
    exact h.owned e he
  · rcases mem_putTask.mp hu with rfl | ⟨hu, -⟩
    · omega
    · exact h.complete u hu n hn hle
  · rw [get?_putTask, if_neg fun hkey => hother e he hkey.symm] at hu
    exact h.live e he hactive u hu
  · rcases mem_putTask.mp hu with rfl | ⟨hu, -⟩
    · rw [idle_of_open hopen] at hactive
      cases hactive
    · exact h.active u hu hactive
  · rcases mem_putTask.mp hu with rfl | ⟨hu, -⟩
    · omega
    · exact h.bounded u hu
  · rcases mem_putTask.mp hu with rfl | ⟨hu, -⟩
    · exact .inl hcount
    · exact h.spare u hu hspare

/-- The tasks a plan introduces have no attempts yet. -/
theorem Sound.introduce {l : List Task} (h : w.Sound limit)
    (hnew : ∀ t ∈ l, w.tasks.has t.id = false → t.open = true ∧ t.attemptCount = 0) :
    (w.introduce l).Sound limit := by
  induction l generalizing w with
  | nil => exact h
  | cons t l ih =>
    rw [introduce_cons]
    split_ifs with hhas
    · exact ih h fun u hu => hnew u (List.mem_cons_of_mem t hu)
    · have hfresh : w.tasks.has t.id = false := by simpa using hhas
      obtain ⟨hopen, hcount⟩ := hnew t List.mem_cons_self hfresh
      refine ih (h.putNew hfresh hopen hcount) fun u hu hu' => ?_
      refine hnew u (List.mem_cons_of_mem t hu) ?_
      unfold Table.has at hu' ⊢
      rw [get?_putTask] at hu'
      split_ifs at hu' with hkey
      · cases hu'
      · exact hu'

theorem Sound.move (h : w.Sound limit) (hmove : Move limit w w') : w'.Sound limit := by
  cases hmove with
  | @ready t now ht hstatus =>
    have hopen : t.open = true := by simp [Task.open, hstatus]
    exact h.recast ht rfl rfl (idle_of_open hopen) rfl fun _ =>
      h.spare t (Table.mem_of_get? ht) hopen
  | cancel now ht hopen => exact h.recast ht rfl rfl (idle_of_open hopen) rfl (by simp [Task.open])
  | start now ht hopen hfresh htask hattempt hrunning hwriter =>
    exact h.start now ht hopen hfresh htask hattempt hrunning
  | settle completedAt he ht hstatus hid htask hattempt =>
    exact h.settle completedAt he ht hstatus hid htask hattempt
  | reopen now ht hstatus hlimit =>
    exact h.recast ht rfl rfl (by rw [hstatus]; rfl) rfl fun _ => .inr hlimit
  | create hfresh hopen hcount hrole => exact h.putNew hfresh hopen hcount
  | @install plan hplan =>
    have hsound : (w.introduce plan.tasks).Sound limit := h.introduce fun t ht hfresh => by
      obtain ⟨hstatus, hcount, -⟩ := hplan.new t ht hfresh
      exact ⟨by simp [Task.open, hstatus], hcount⟩
    exact ⟨hsound.owned, hsound.complete, hsound.unique, hsound.live, hsound.active,
      hsound.bounded, hsound.spare⟩

/-! ## Exclusive -/

theorem writes_recast {t t' : Task} (h : Recast t t') : t'.writes = t.writes := by
  rw [Task.writes, Task.writes, h.role]

/-- A task that is replaced by one that is under way only where it was. -/
theorem Exclusive.recast {t t' : Task} (h : w.Exclusive) (ht : w.tasks.get? t.id = some t)
    (hrecast : Recast t t') (hactive : t'.status.active = true → t.status.active = true) :
    (w.putTask t').Exclusive where
  planned u hu hwrites hunder := by
    rw [planned_putTask]
    rcases mem_putTask.mp hu with rfl | ⟨hu, -⟩
    · rw [hrecast.id]
      rw [writes_recast hrecast] at hwrites
      exact h.planned t (Table.mem_of_get? ht) hwrites (hactive hunder)
    · exact h.planned u hu hwrites hunder
  single u hu v hv hwrites hwrites' hunder hunder' := by
    have htmem := Table.mem_of_get? ht
    rcases mem_putTask.mp hu with hu' | ⟨hu', hune⟩ <;>
      rcases mem_putTask.mp hv with hv' | ⟨hv', hvne⟩
    · rw [hu', hv']
    · rw [hu', writes_recast hrecast] at hwrites
      rw [hu'] at hunder
      have heq := h.single t htmem v hv' hwrites hwrites' (hactive hunder) hunder'
      rw [hrecast.id, heq] at hvne
      exact absurd rfl hvne
    · rw [hv', writes_recast hrecast] at hwrites'
      rw [hv'] at hunder'
      have heq := h.single u hu' t htmem hwrites hwrites' hunder (hactive hunder')
      rw [hrecast.id, heq] at hune
      exact absurd rfl hune
    · exact h.single u hu' v hv' hwrites hwrites' hunder hunder'
  preparatory u hu hversion := by
    rcases mem_putTask.mp hu with rfl | ⟨hu, -⟩
    · rw [hrecast.role]
      exact h.preparatory t (Table.mem_of_get? ht) (hrecast.version.symm.trans hversion)
    · exact h.preparatory u hu hversion

/-- Work whose executions are other ones. -/
theorem Exclusive.putExecution {e : TaskExecution} (h : w.Exclusive) :
    (w.putExecution e).Exclusive :=
  ⟨h.planned, h.single, h.preparatory⟩

/-- A writer begins where no other one is at work. -/
theorem Exclusive.start {t t' : Task} (h : w.Exclusive) (ht : w.tasks.get? t.id = some t)
    (hrecast : Recast t t')
    (hwriter : t.writes = true → w.planned t.id ∧
      ∀ u ∈ w.tasks, w.planned u.id → u.writes = true → u.status.active = false) :
    (w.putTask t').Exclusive := by
  have hnone : t'.writes = true → ∀ u ∈ w.tasks, u.writes = true → u.status.active = false := by
    intro hwrites u hu hwrites'
    rw [writes_recast hrecast] at hwrites
    by_contra hactive
    have hactive := Bool.of_not_eq_false hactive
    have hidle := (hwriter hwrites).2 u hu (h.planned u hu hwrites' hactive) hwrites'
    rw [hactive] at hidle
    cases hidle
  refine ⟨fun u hu hwrites hunder => ?_, fun u hu v hv hwrites hwrites' hunder hunder' => ?_,
    fun u hu hversion => ?_⟩
  · rw [planned_putTask]
    rcases mem_putTask.mp hu with rfl | ⟨hu, -⟩
    · rw [writes_recast hrecast] at hwrites
      rw [hrecast.id]
      exact (hwriter hwrites).1
    · exact h.planned u hu hwrites hunder
  · rcases mem_putTask.mp hu with hu' | ⟨hu', -⟩ <;>
      rcases mem_putTask.mp hv with hv' | ⟨hv', -⟩
    · rw [hu', hv']
    · rw [hu'] at hwrites
      rw [hnone hwrites v hv' hwrites'] at hunder'
      cases hunder'
    · rw [hv'] at hwrites'
      rw [hnone hwrites' u hu' hwrites] at hunder
      cases hunder
    · exact h.single u hu' v hv' hwrites hwrites' hunder hunder'
  · rcases mem_putTask.mp hu with rfl | ⟨hu, -⟩
    · rw [hrecast.role]
      exact h.preparatory t (Table.mem_of_get? ht) (hrecast.version.symm.trans hversion)
    · exact h.preparatory u hu hversion

/-- A new task is at work for nobody. -/
theorem Exclusive.putNew {t : Task} (h : w.Exclusive) (hidle : t.status.active = false)
    (hversion : t.planVersion = 0 → t.preferredRole = .requirements) :
    (w.putTask t).Exclusive where
  planned u hu hwrites hunder := by
    rcases mem_putTask.mp hu with rfl | ⟨hu, -⟩
    · rw [hidle] at hunder
      cases hunder
    · exact h.planned u hu hwrites hunder
  single u hu v hv hwrites hwrites' hunder hunder' := by
    rcases mem_putTask.mp hu with rfl | ⟨hu, -⟩
    · rw [hidle] at hunder
      cases hunder
    · rcases mem_putTask.mp hv with rfl | ⟨hv, -⟩
      · rw [hidle] at hunder'
        cases hunder'
      · exact h.single u hu v hv hwrites hwrites' hunder hunder'
  preparatory u hu hzero := by
    rcases mem_putTask.mp hu with rfl | ⟨hu, -⟩
    · exact hversion hzero
    · exact h.preparatory u hu hzero

/-- What a plan adds to the tasks of a run. -/
theorem mem_introduce {l : List Task} {u : Task} (h : u ∈ (w.introduce l).tasks) :
    u ∈ w.tasks ∨ u ∈ l ∧ w.tasks.has u.id = false := by
  have hget : (Records.introduce w.tasks l).get? u.id = some u := Table.get?_of_mem h
  rw [get?_introduce] at hget
  cases hold : w.tasks.get? u.id with
  | some v =>
    rw [hold] at hget
    cases hget
    exact .inl (Table.mem_of_get? hold)
  | none =>
    rw [hold] at hget
    refine .inr ⟨List.mem_of_find?_eq_some hget, ?_⟩
    rw [Table.has, hold]
    rfl

theorem Exclusive.install {plan : TaskPlan} (h : w.Exclusive) (hplan : w.Installable plan) :
    (w.install plan).Exclusive := by
  have hidle : ∀ u ∈ (w.install plan).tasks, u.writes = true → u.status.active = false := by
    intro u hu hwrites
    rcases mem_introduce hu with hu | ⟨hu, hfresh⟩
    · exact hplan.unwritten u hu hwrites
    · rw [(hplan.new u hu hfresh).1]
      rfl
  refine ⟨fun u hu hwrites hunder => ?_, fun u hu v hv hwrites hwrites' hunder _ => ?_,
    fun u hu hversion => ?_⟩
  · rw [hidle u hu hwrites] at hunder
    cases hunder
  · rw [hidle u hu hwrites] at hunder
    cases hunder
  · rcases mem_introduce hu with hu | ⟨hu, hfresh⟩
    · exact h.preparatory u hu hversion
    · exact absurd hversion (hplan.new u hu hfresh).2.2

theorem Exclusive.move (h : w.Exclusive) (hsound : w.Sound limit) (hmove : Move limit w w') :
    w'.Exclusive := by
  cases hmove with
  | ready now ht hstatus => exact h.recast ht ⟨rfl, rfl, rfl, rfl⟩ (by simp [TaskStatus.active])
  | cancel now ht hopen => exact h.recast ht ⟨rfl, rfl, rfl, rfl⟩ (by simp [TaskStatus.active])
  | start now ht hopen hfresh htask hattempt hrunning hwriter =>
    exact Exclusive.start (w := w.putExecution _) h.putExecution ht ⟨rfl, rfl, rfl, rfl⟩ hwriter
  | @settle t e e' completedAt he ht hstatus hid htask hattempt =>
    have hlive := hsound.live e (Table.mem_of_get? he) (active_of_transition hstatus) t ht
    have hkey : t.id = e.taskId := Table.key_of_get? ht
    rw [← hkey] at ht
    have hactive : t.status.active = true := by
      rw [hlive.2]
      exact active_of_transition hstatus
    exact Exclusive.recast (w := w.putExecution e') h.putExecution ht ⟨rfl, rfl, rfl, rfl⟩
      fun _ => hactive
  | reopen now ht hstatus hlimit =>
    exact h.recast ht ⟨rfl, rfl, rfl, rfl⟩ (by simp [TaskStatus.active])
  | create hfresh hopen hcount hrole => exact h.putNew (idle_of_open hopen) fun _ => hrole
  | install hplan => exact h.install hplan

/-! ## All of it -/

theorem Sane.move (h : w.Sane limit) (hmove : Move limit w w') : w'.Sane limit :=
  ⟨h.sound.move hmove, h.exclusive.move h.sound hmove, h.numbered.move hmove⟩

theorem Sane.moves (h : w.Sane limit) (hmoves : Moves limit w w') : w'.Sane limit := by
  induction hmoves with
  | refl => exact h
  | tail _ hlast ih => exact ih.move hlast

/-- What one move keeps, several keep. -/
theorem Moves.kept (h : w.Sane limit) (hmoves : Moves limit w w') : Kept w w' := by
  induction hmoves with
  | refl => exact Kept.refl w
  | tail hrest hlast ih => exact ih.trans (hlast.kept (h.moves hrest).numbered)

/-- Work without tasks, attempts and plans. -/
def empty : Work := ⟨.empty, .empty, .empty, 0⟩

/-- A run that has done nothing. -/
theorem Sane.empty (limit : Nat) : Work.empty.Sane limit where
  sound :=
    { owned := fun _ h => absurd h List.not_mem_nil
      complete := fun _ h => absurd h List.not_mem_nil
      unique := fun _ h => absurd h List.not_mem_nil
      live := fun _ h => absurd h List.not_mem_nil
      active := fun _ h => absurd h List.not_mem_nil
      bounded := fun _ h => absurd h List.not_mem_nil
      spare := fun _ h => absurd h List.not_mem_nil }
  exclusive :=
    { planned := fun _ h => absurd h List.not_mem_nil
      single := fun _ h => absurd h List.not_mem_nil
      preparatory := fun _ h => absurd h List.not_mem_nil }
  numbered :=
    { versions := fun v => ⟨nofun, fun h => absurd h.2 (by simp only [Work.empty]; omega)⟩
      known := fun _ h => absurd h List.not_mem_nil
      nodup := fun _ h => absurd h List.not_mem_nil }

end Work

end Orqalis
