import Orqalis.Core.PlanHistory

/-!
# The budget of repairs

A repair counts once: its plan, its count and its event are stored together, under keys one of
which tells a repeated command from a new one.
-/

namespace Orqalis

open Lib Lib.Transaction

variable {r r' s t : Records} {P : Primitives} {project : Project} {now : Time}

/-- The repairs a log tells of. -/
def Records.repairs (r : Records) : Nat :=
  r.events.countP fun e => e.eventType = .repairStarted

/-- The count of a run's repairs is that of its log and within its limit; the event of a repair
stands beside the event of its plan. -/
structure Budget (r : Records) : Prop where
  counted : r.run.repairIteration = r.repairs
  bounded : r.run.repairIteration ≤ r.run.maxRepairIterations
  keyed : ∀ e ∈ r.events, e.eventType = .repairStarted →
    ∃ key : String, e.idempotencyKey = s!"{key}:started" ∧ (r.byKey s!"{key}:revised").isSome

theorem repairs_of_grown (h : GrownBy Event.Unrepairing r r') : r'.repairs = r.repairs := by
  obtain ⟨l, hl, hnone⟩ := h
  unfold Records.repairs
  rw [hl, List.countP_append, Nat.add_eq_left, List.countP_eq_zero]
  exact fun e he => by simpa [Event.Unrepairing] using hnone e he

/-- What neither counts nor tells of a repair keeps the budget. -/
theorem Budget.of_grown (h : Budget r) (hgrown : GrownBy Event.Unrepairing r r')
    (hcount : r'.run.repairIteration = r.run.repairIteration)
    (hlimit : r'.run.maxRepairIterations = r.run.maxRepairIterations) : Budget r' where
  counted := by rw [hcount, h.counted, repairs_of_grown hgrown]
  bounded := by rw [hcount, hlimit]; exact h.bounded
  keyed e he htype := by
    have hold : e ∈ r.events := by
      by_contra hnew
      exact hgrown.new he hnew htype
    obtain ⟨key, hkey, hstored⟩ := h.keyed e hold htype
    exact ⟨key, hkey, byKey_isSome_of_grown hgrown.grown hstored⟩

theorem Budget.of_frame {S : List Part} (h : Budget r) (hframe : Frame S r r')
    (hlifecycle : Part.lifecycle ∉ S) (hrepairs : Part.repairs ∉ S) :
    Budget r' :=
  h.of_grown (hframe.repairs hrepairs) (hframe.repairIteration hlifecycle)
    (hframe.maxRepairIterations hlifecycle)

/-- The event of a repair under a key that is new. -/
theorem Budget.start {d : EventDraft} {e : Event} {key : String}
    (hkeyed : ∀ e ∈ r.events, e.eventType = .repairStarted →
      ∃ key : String, e.idempotencyKey = s!"{key}:started" ∧ (s.byKey s!"{key}:revised").isSome)
    (hfresh : (s.byKey s!"{key}:revised").isSome = false) (htype : d.eventType = .repairStarted)
    (hkey : d.idempotencyKey = s!"{key}:started") (hs : r.append P.safe d = .ok (e, r')) :
    r'.repairs = r.repairs + 1 ∧ r'.events = r.events ++ [e] := by
  obtain ⟨hname, -, -, hrepair, hcases⟩ := append_events hs
  have hevents : r'.events = r.events ++ [e] := by
    refine hcases.resolve_left ?_
    rintro ⟨-, hold⟩
    obtain ⟨k, hk, hstored⟩ := hkeyed e hold (hrepair.trans htype)
    have heq : key = k := by
      rw [hname, hkey] at hk
      simpa [toString] using hk
    rw [← heq, hfresh] at hstored
    cases hstored
  refine ⟨?_, hevents⟩
  unfold Records.repairs
  rw [hevents, List.countP_append]
  simp [hrepair.trans htype]

/-- The plan of a repair or a delivery keeps the budget. -/
theorem PlanRevision.storeExtension_budget {current plan : TaskPlan} {key : String}
    {repair : Bool} {x : Unit} (h : Budget r)
    (hfresh : (r.byKey s!"{key}:revised").isSome = false)
    (hextensible : extensible r.run repair = true)
    (hr : PlanRevision.storeExtension P r.run current plan key repair now r = .ok (x, r')) :
    Budget r' := by
  obtain ⟨-, hrun⟩ := PlanRevision.storeExtension_run hr
  have hcount : r'.run.repairIteration = r.run.repairIteration + if repair then 1 else 0 :=
    (congrArg Run.repairIteration hrun :)
  have hlimit : r'.run.maxRepairIterations = r.run.maxRepairIterations :=
    (congrArg Run.maxRepairIterations hrun :)
  obtain ⟨s, hs, hr⟩ := stage_bind_ok.mp hr
  obtain ⟨t, ht, hr⟩ := stage_bind_ok.mp hr
  obtain ⟨y, u, hu, hr⟩ := bind_ok.mp hr
  obtain ⟨y, v, hv, hr⟩ := bind_ok.mp hr
  have hevents : t.events = r.events := by rw [saveRun_ok ht, (savePlan_ok hs).1]
  have hrevised : Frame [] t u := Within.frame (Within.note (quiet_of_apart (by rfl))) hu
  have hafter : Frame [.tasks] v r' := Within.frame (Within.bind
    (announce_within.mono (by simp)) fun _ => refreshReady_within) hr
  have hbefore : GrownBy Event.Unrepairing r u :=
    (GrownBy.of_eq hevents).trans (hrevised.repairs (by decide))
  unfold PlanRevision.storeExtension.announceRepair at hv
  split_ifs at hv hcount with hrepair
  · obtain ⟨e, he⟩ := note_ok.mp hv
    have hstored : (u.byKey s!"{key}:revised").isSome :=
      byKey_of_append (note_ok.mp hu).choose_spec
    have hkeyed : ∀ e ∈ u.events, e.eventType = .repairStarted → ∃ k : String,
        e.idempotencyKey = s!"{k}:started" ∧ (r.byKey s!"{k}:revised").isSome := by
      intro e he htype
      have hold : e ∈ r.events := by
        by_contra hnew
        exact hbefore.new he hnew htype
      exact h.keyed e hold htype
    obtain ⟨hone, hadded⟩ := Budget.start hkeyed hfresh rfl rfl he
    have hgrow : u.events <+: v.events := hadded ▸ List.prefix_append _ _
    rw [hrepair] at hextensible
    have hroom : r.run.repairIteration < r.run.maxRepairIterations :=
      (of_decide_eq_true hextensible).2
    refine
      { counted := ?_
        bounded := by omega
        keyed := fun ev hev htype => ?_ }
    · rw [hcount, h.counted, repairs_of_grown (hafter.repairs (by decide)), hone,
        repairs_of_grown hbefore]
    · have hv' : ev ∈ v.events := by
        by_contra hnew
        exact (hafter.repairs (by decide)).new hev hnew htype
      rw [hadded] at hv'
      rcases List.mem_append.mp hv' with hu' | hlast
      · obtain ⟨k, hk, hold⟩ := hkeyed ev hu' htype
        refine ⟨k, hk, byKey_isSome_of_grown hafter.grown (byKey_isSome_of_grown hgrow
          (byKey_isSome_of_grown hbefore.grown hold))⟩
      · obtain rfl := List.mem_singleton.mp hlast
        exact ⟨key, (append_events he).1, byKey_isSome_of_grown hafter.grown
          (byKey_isSome_of_grown hgrow hstored)⟩
  · rw [(pure_ok.mp hv).2] at hafter
    exact h.of_grown (hbefore.trans (hafter.repairs (by decide))) hcount hlimit

/-! ## Every run -/

/-- The count and the limit of a run's repairs are as they were. -/
structure SameCount (run run' : Run) : Prop where
  count : run'.repairIteration = run.repairIteration
  limit : run'.maxRepairIterations = run.maxRepairIterations

theorem SameCount.of_lifecycle {run run' : Run} (h : run'.lifecycle = run.lifecycle) :
    SameCount run run' :=
  ⟨(congrArg Run.repairIteration h :), (congrArg Run.maxRepairIterations h :)⟩

/-- A step that stores the plan of a repair or a delivery. -/
def Extending (P : Primitives) (r r' : Records) : Prop :=
  ∃ (plan current : TaskPlan) (key : String) (repair : Bool) (now : Time),
    (r.byKey s!"{key}:revised").isSome = false ∧
    PlanRevision.extensible r.run repair = true ∧ plan.version = r.run.planVersion + 1 ∧
    PlanRevision.storeExtension P r.run current plan key repair now r = .ok ((), r')

theorem PlanRevision.install_repairs {plan : ValidPlan} {key : String} {repair : Bool}
    (hr : stored (PlanRevision.install P plan key repair now) r = some r') :
    SameCount r.run r'.run ∧ GrownBy Event.Unrepairing r r' ∨ Extending P r r' := by
  rcases PlanRevision.install_stored hr with
    rfl | hrequest | ⟨current, goal, hfresh, hextensible, hnext, -, -, -, -, -, hs⟩
  · exact .inl ⟨⟨rfl, rfl⟩, GrownBy.of_eq rfl⟩
  · exact .inl ⟨.of_lifecycle (hrequest.lifecycle (by decide)), (hrequest.repairs (by decide))⟩
  · exact .inr ⟨plan.1, current, key, repair, now, hfresh, hextensible, hnext, hs⟩

/-- What a step does to the count of repairs: nothing, or it stores a plan. -/
theorem Step.repairs (hstep : Step P project r r') :
    SameCount r.run r'.run ∧ GrownBy Event.Unrepairing r r' ∨ Extending P r r' := by
  obtain ⟨cmd, hpossible, hstored⟩ := hstep
  have hframe := Command.Leads.frame ⟨hpossible, hstored⟩
  cases cmd with
  | advance target key now phaseId =>
    refine .inl ⟨?_, hframe.repairs (by simp [Command.parts])⟩
    rcases Orchestrator.advance_stored (stored_quietly.mp hstored) with
      rfl | hrequest | ⟨s, t, -, -, -, -, hs, ht, hu⟩
    · exact ⟨rfl, rfl⟩
    · exact .of_lifecycle (hrequest.lifecycle (by decide))
    · have hclosed := Within.frame (Orchestrator.close_within hs.id.symm) ht
      have hrun := Orchestrator.enter_lifecycle (hclosed.id.trans hs.id).symm hu
      exact ⟨(congrArg Run.repairIteration hrun :), (congrArg Run.maxRepairIterations hrun :)⟩
  | installPlan plan key now =>
    refine .inl ⟨?_, hframe.repairs (by simp [Command.parts])⟩
    rcases Orchestrator.installPlan_stored (stored_quietly.mp hstored) with
      rfl | hrequest | ⟨valid, contract, -, -, -, -, hs⟩
    · exact ⟨rfl, rfl⟩
    · exact .of_lifecycle (hrequest.lifecycle (by decide))
    · have hrun := (Orchestrator.storeInitialPlan_run hs).2
      exact ⟨(congrArg Run.repairIteration hrun :), (congrArg Run.maxRepairIterations hrun :)⟩
  | replan plan key now =>
    refine .inl ⟨?_, hframe.repairs (by simp [Command.parts])⟩
    rcases GoalReplanning.install_stored (stored_quietly.mp hstored) with
      rfl | hrequest | ⟨current, -, -, hs⟩
    · exact ⟨rfl, rfl⟩
    · exact .of_lifecycle (hrequest.lifecycle (by decide))
    · have hrun := (GoalReplanning.storeReplacement_run hs).2
      exact ⟨(congrArg Run.repairIteration hrun :), (congrArg Run.maxRepairIterations hrun :)⟩
  | replacePreview plan expected key now =>
    refine .inl ⟨?_, hframe.repairs (by simp [Command.parts])⟩
    rcases PreviewRevision.replace_stored (stored_quietly.mp hstored) with
      rfl | ⟨current, goal, revised, -, -, -, hs⟩
    · exact ⟨rfl, rfl⟩
    · have hrun := (PreviewRevision.storeEdit_run hs).2
      exact ⟨(congrArg Run.repairIteration hrun :), (congrArg Run.maxRepairIterations hrun :)⟩
  | installRepair plan key now => exact PlanRevision.install_repairs (stored_quietly.mp hstored)
  | installDelivery plan key now => exact PlanRevision.install_repairs (stored_quietly.mp hstored)
  | _ =>
    exact .inl ⟨.of_lifecycle (hframe.lifecycle (by simp [Command.parts])),
      hframe.repairs (by simp [Command.parts])⟩

theorem Step.budget (h : Budget r) (hstep : Step P project r r') : Budget r' := by
  rcases hstep.repairs with
    ⟨hsame, hgrown⟩ | ⟨plan, current, key, repair, now, hfresh, hextensible, -, hs⟩
  · exact h.of_grown hgrown hsame.count hsame.limit
  · exact PlanRevision.storeExtension_budget h hfresh hextensible hs

theorem Created.budget (h : Created P project r) : Budget r := by
  obtain ⟨request, branch, base, n, now, hframe⟩ := h.frame
  have hempty : Budget { run := GoalService.newRun project request branch base (.uuid4 n) now } :=
    ⟨rfl, Nat.zero_le _, fun e he => absurd he List.not_mem_nil⟩
  exact hempty.of_frame hframe (by decide) (by decide)

theorem Reachable.budget (h : Reachable P project r) : Budget r :=
  h.induction (fun _ => Created.budget) fun _ _ hbudget hstep => Step.budget hbudget hstep

/-- In every state of a run the count of its repairs is the number of repairs its log tells of
and within its limit, and a step that raises it raises it by one and makes one version of the
plan. -/
theorem repair_budget (h : Reachable P project r) :
    r.run.repairIteration = r.repairs ∧ r.run.repairIteration ≤ r.run.maxRepairIterations ∧
      ∀ r', Step P project r r' → r'.run.repairIteration ≠ r.run.repairIteration →
        r'.run.repairIteration = r.run.repairIteration + 1 ∧
          r'.run.planVersion = r.run.planVersion + 1 ∧
          ∀ v, r'.plans.has v = true ↔ r.plans.has v = true ∨ v = r.run.planVersion + 1 := by
  refine ⟨h.budget.counted, h.budget.bounded, fun r' hstep hraised => ?_⟩
  rcases hstep.repairs with
    ⟨hsame, -⟩ | ⟨plan, current, key, repair, now, -, -, hnext, hs⟩
  · exact absurd hsame.count hraised
  · obtain ⟨hplans, hrun⟩ := PlanRevision.storeExtension_run hs
    have hcount : r'.run.repairIteration = r.run.repairIteration + if repair then 1 else 0 :=
      (congrArg Run.repairIteration hrun :)
    have hversion : r'.run.planVersion = plan.version := (congrArg Run.planVersion hrun :)
    refine ⟨?_, hversion.trans hnext, fun v => ?_⟩
    · split_ifs at hcount
      · exact hcount
      · exact absurd hcount hraised
    · rw [hplans, Table.has, Table.get?_put, hnext]
      split_ifs with hv
      · simp [hv]
      · simp [Table.has, Ne.symm hv]

theorem sample_repair_budget :
    Sample.working.run.repairIteration = Sample.working.repairs ∧
      Sample.working.run.repairIteration ≤ Sample.working.run.maxRepairIterations ∧
      ∀ r', Step Sample.primitives Sample.project Sample.working r' →
        r'.run.repairIteration ≠ Sample.working.run.repairIteration →
        r'.run.repairIteration = Sample.working.run.repairIteration + 1 ∧
          r'.run.planVersion = Sample.working.run.planVersion + 1 ∧
          ∀ v, r'.plans.has v = true ↔
            Sample.working.plans.has v = true ∨ v = Sample.working.run.planVersion + 1 :=
  repair_budget Sample.working_reachable

end Orqalis
