import Orqalis.Core.Progress

/-!
# The history of plans

A plan is read with the records its tasks have now, so what is read of an old version changes
while its tasks are worked on. Its identity does not: the plans stay as they are stored, the
tasks stay on record, and what makes a task the task it is stays with it.
-/

namespace Orqalis

open Lib Lib.Transaction

variable {limit : Nat} {r r' s t : Records} {P : Primitives} {project : Project} {now : Time}

/-! ## Plans as they are read -/

/-- A plan with the records its tasks have. -/
def Records.refreshed (r : Records) (p : TaskPlan) : TaskPlan :=
  { p with tasks := p.tasks.map fun t => (r.tasks.get? t.id).getD t }

/-- The tasks of stored plans are on record, so every stored plan can be read. -/
theorem getPlan_eq_refreshed (h : r.work.Numbered) {v : Nat} {p : TaskPlan}
    (hp : r.plans.get? v = some p) : r.getPlan v = .ok (some (r.refreshed p)) := by
  have hmap : p.tasks.mapM r.planTask = .ok (p.tasks.map fun t => (r.tasks.get? t.id).getD t) := by
    refine Outcome.mapM_eq_ok_of_forall fun t ht => ?_
    obtain ⟨u, hu⟩ := Work.get?_of_has (h.known p (Table.mem_of_get? hp) t ht)
    have hu : r.tasks.get? t.id = some u := hu
    unfold Records.planTask
    rw [hu]
    rfl
  unfold Records.getPlan
  simp only [hp, hmap]
  rfl

/-- What makes a plan the plan it is stays while its tasks are worked on. -/
theorem planIdentity_refreshed (h : r.work.Numbered) (hkept : Work.Kept r.work r'.work)
    {p : TaskPlan} (hp : p ∈ r.plans) :
    planIdentity (r'.refreshed p) = planIdentity (r.refreshed p) := by
  have htasks : (r'.refreshed p).tasks.map Task.identity =
      (r.refreshed p).tasks.map Task.identity := by
    simp only [Records.refreshed, List.map_map]
    refine List.map_congr_left fun t ht => ?_
    obtain ⟨u, hu⟩ := Work.get?_of_has (h.known p hp t ht)
    obtain ⟨u', hu', hidentity⟩ := hkept.tasks t.id u hu
    have hu : r.tasks.get? t.id = some u := hu
    have hu' : r'.tasks.get? t.id = some u' := hu'
    simp only [Function.comp_apply, hu, hu', Option.getD_some, hidentity]
  unfold planIdentity
  rw [htasks]
  rfl

/-! ## Extensions -/

/-- A plan that continues another: it keeps its tasks and its edges, and none of its tasks
waits for more. -/
structure TaskPlan.Continues (p q : TaskPlan) : Prop where
  tasks : ∀ t ∈ p.tasks, t ∈ q.tasks
  edges : ∀ e ∈ p.dependencies, e ∈ q.dependencies
  prerequisites : ∀ e ∈ q.dependencies, e.taskId ∈ p.ids → e ∈ p.dependencies

/-- Plans read later continue each other as those stored do. -/
theorem refreshed_continues (h : r.work.Numbered) {p q : TaskPlan} (hp : p ∈ r.plans)
    (htasks : ∀ id ∈ p.ids, id ∈ q.ids) (hedges : ∀ e ∈ p.dependencies, e ∈ q.dependencies)
    (hprerequisites : ∀ e ∈ q.dependencies, e.taskId ∈ p.ids → e ∈ p.dependencies) :
    (r.refreshed p).Continues (r.refreshed q) := by
  have hids : (r.refreshed p).ids = p.ids := by
    simp only [TaskPlan.ids, Records.refreshed, List.map_map]
    refine List.map_congr_left fun t ht => ?_
    obtain ⟨u, hu⟩ := Work.get?_of_has (h.known p hp t ht)
    have hu : r.tasks.get? t.id = some u := hu
    simp only [Function.comp_apply, hu, Option.getD_some]
    exact Table.key_of_get? hu
  refine ⟨fun t ht => ?_, hedges, fun e he hin => hprerequisites e he (hids ▸ hin)⟩
  obtain ⟨u, hu, rfl⟩ := List.mem_map.mp ht
  obtain ⟨v, hv, hid⟩ := List.mem_map.mp (htasks u.id (List.mem_map_of_mem hu))
  obtain ⟨record, hrecord⟩ := Work.get?_of_has (h.known p hp u hu)
  have hrecord : r.tasks.get? u.id = some record := hrecord
  refine List.mem_map.mpr ⟨v, hv, ?_⟩
  rw [hid, hrecord]
  rfl

/-- A repair or a delivery that makes a new version stores a plan that continues the current
one. -/
theorem PlanRevision.install_continues {plan : ValidPlan} {key : String} {repair : Bool}
    (hr : stored (PlanRevision.install P plan key repair now) r = some r')
    (hmoved : r'.run.planVersion ≠ r.run.planVersion) :
    ∃ p, r.plans.get? r.run.planVersion = some p ∧
      r'.plans.get? (r.run.planVersion + 1) = some plan.1 ∧ (∀ id ∈ p.ids, id ∈ plan.1.ids) ∧
      (∀ e ∈ p.dependencies, e ∈ plan.1.dependencies) ∧
      ∀ e ∈ plan.1.dependencies, e.taskId ∈ p.ids → e ∈ p.dependencies := by
  rcases PlanRevision.install_stored hr with
    rfl | hframe | ⟨current, goal, -, -, hnext, -, hcurrent, -, -, hcheck, hs⟩
  · exact absurd rfl hmoved
  · exact absurd (hframe.planVersion (by decide)) hmoved
  · obtain ⟨p, hp, hplan, hids, -⟩ := getPlan_ok hcurrent
    obtain ⟨htasks, hedges, hprerequisites, -, -⟩ := PlanRevision.checkExtension_ok hcheck
    have hdependencies : current.dependencies = p.dependencies := by rw [hplan]
    rw [hdependencies] at hedges hprerequisites
    rw [hids] at hprerequisites
    refine ⟨p, hp, ?_, fun id hid => ?_, hedges, hprerequisites⟩
    · rw [(PlanRevision.storeExtension_run hs).1, ← hnext]
      exact Table.get?_put_self _ _
    · rw [← hids] at hid
      obtain ⟨u, hu, rfl⟩ := List.mem_map.mp hid
      exact List.mem_map_of_mem (List.mem_of_find?_eq_some (htasks u hu))

/-! ## Every run -/

/-- The commands that install a plan which extends the current one. -/
def Command.continuing : Command → Bool
  | installRepair .. | installDelivery .. => true
  | _ => false

theorem Command.Leads.continues {cmd : Command} (h : cmd.Leads P project r r')
    (hcontinuing : cmd.continuing = true) (hmoved : r'.run.planVersion ≠ r.run.planVersion) :
    ∃ p q, r.plans.get? r.run.planVersion = some p ∧
      r'.plans.get? (r.run.planVersion + 1) = some q ∧ (∀ id ∈ p.ids, id ∈ q.ids) ∧
      (∀ e ∈ p.dependencies, e ∈ q.dependencies) ∧
      ∀ e ∈ q.dependencies, e.taskId ∈ p.ids → e ∈ p.dependencies := by
  cases cmd with
  | installRepair plan key now =>
    obtain ⟨p, hp⟩ := PlanRevision.install_continues (stored_quietly.mp h.2) hmoved
    exact ⟨p, plan.1, hp⟩
  | installDelivery plan key now =>
    obtain ⟨p, hp⟩ := PlanRevision.install_continues (stored_quietly.mp h.2) hmoved
    exact ⟨p, plan.1, hp⟩
  | _ => cases hcontinuing

/-- What a run keeps of its plans from one state to a later one. -/
structure PlansKept (P : Primitives) (project : Project) (r r' : Records) : Prop where
  /-- The versions stored are those from one to the current one. -/
  versions : ∀ v, r.plans.has v = true ↔ 1 ≤ v ∧ v ≤ r.run.planVersion
  /-- The identity of each, as it is read, stays. -/
  identity : ∀ v, r.plans.has v = true → ∃ p p', r.getPlan v = .ok (some p) ∧
    r'.getPlan v = .ok (some p') ∧ planIdentity p' = planIdentity p
  /-- No record of a task is removed. -/
  tasks : ∀ id, r.tasks.has id = true → r'.tasks.has id = true
  /-- The plan a repair or a delivery makes continues the one before it, whenever the two are
  read. -/
  continued : ∀ (cmd : Command) (s : Records), cmd.continuing = true →
    cmd.Leads P project r s → s.run.planVersion ≠ r.run.planVersion →
    Relation.ReflTransGen (Step P project) s r' →
    ∃ p q, r'.getPlan r.run.planVersion = .ok (some p) ∧
      r'.getPlan (r.run.planVersion + 1) = .ok (some q) ∧ p.Continues q

/-- The plans of a run are never rewritten. -/
theorem plan_history (h : Reachable P project r)
    (hrun : Relation.ReflTransGen (Step P project) r r') : PlansKept P project r r' := by
  have hnumbered := h.inOrder.sane.numbered
  have hkept := h.kept hrun
  obtain ⟨r₀, hcreated, hbefore⟩ := h
  have hafter : Reachable P project r' := ⟨r₀, hcreated, hbefore.trans hrun⟩
  have hnumbered' := hafter.inOrder.sane.numbered
  refine
    { versions := hnumbered.versions
      identity := fun v hv => ?_
      tasks := fun id hid => hkept.has hid
      continued := fun cmd s hcontinuing hleads hmoved hrun' => ?_ }
  · obtain ⟨p, hp⟩ := Option.isSome_iff_exists.mp hv
    exact ⟨r.refreshed p, r'.refreshed p, getPlan_eq_refreshed hnumbered hp,
      getPlan_eq_refreshed hnumbered' (hkept.plans v p hp),
      planIdentity_refreshed hnumbered hkept (Table.mem_of_get? hp)⟩
  · obtain ⟨p, q, hp, hq, htasks, hedges, hprerequisites⟩ := hleads.continues hcontinuing hmoved
    have hs : Reachable P project s := ⟨r₀, hcreated, hbefore.tail ⟨cmd, hleads⟩⟩
    have hp' := hkept.plans _ p hp
    exact ⟨r'.refreshed p, r'.refreshed q, getPlan_eq_refreshed hnumbered' hp',
      getPlan_eq_refreshed hnumbered' ((hs.kept hrun').plans _ q hq),
      refreshed_continues hnumbered' (Table.mem_of_get? hp') htasks hedges hprerequisites⟩

theorem sample_plan_history :
    PlansKept Sample.primitives Sample.project Sample.working Sample.working :=
  plan_history Sample.working_reachable .refl

end Orqalis
