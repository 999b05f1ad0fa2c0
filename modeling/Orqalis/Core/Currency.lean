import Orqalis.Core.Ledger
import Orqalis.Core.Movement

/-!
# Plans and goals

Work on a plan is work for the current goal. A run that enters its execution is asked for such
a plan; one that comes back from a suspension to its integration, its tests or its review is
not, and the goal may have been revised meanwhile.
-/

namespace Orqalis

open Lib Lib.Transaction

namespace RunState

/-- The states in which a run works on its plan. -/
def planBound : RunState → Bool
  | planned | executing | integrating | testing | reviewing | repairPlanning => true
  | _ => false

/-- The states a suspended run comes back to without a look at its plan. -/
def unguarded : RunState → Bool
  | integrating | testing | reviewing => true
  | _ => false

/-- No goal is defined or revised in a state in which a run works on its plan. -/
theorem planBound_of_revisable {s : RunState} (h : s ∈ GoalService.revisable) :
    s.planBound = false := by
  cases s <;> first | rfl | exact absurd h (by decide)

/-- The states from which an unguarded one is entered by a working run. -/
theorem planBound_of_transition {s t : RunState} (ht : t.unguarded = true)
    (h : t ∈ s.transitions) : s.planBound = true := by
  cases s <;> first | rfl | (revert ht h; cases t <;> decide)

end RunState

section Runs

variable {r r' : Records} {P : Primitives} {project : Project} {cmd : Command}

/-- Whether the current plan is a plan for the current goal. -/
def Records.planCurrent (r : Records) : Bool :=
  (r.plans.get? r.run.planVersion).any fun p => some p.goalVersionId = r.run.currentGoalVersionId

theorem planCurrent_iff : r.planCurrent = true ↔
    ∃ p, r.plans.get? r.run.planVersion = some p ∧
      some p.goalVersionId = r.run.currentGoalVersionId := by
  unfold Records.planCurrent
  rw [Option.any_eq_true]
  simp only [decide_eq_true_eq]

/-- Whether a command that takes a suspended run back to its integration, its tests or its review
finds a plan for the current goal. -/
def Command.returnsToPlan (r : Records) : Command → Bool
  | .advance target _ _ _ => !(r.run.state.suspended && target.unguarded) || r.planCurrent
  | _ => true

/-- A step that takes no run back to work on a plan for another goal. -/
def MindfulStep (P : Primitives) (project : Project) (r r' : Records) : Prop :=
  ∃ cmd : Command, cmd.Leads P project r r' ∧ cmd.returnsToPlan r = true

/-! ## Reviews -/

/-- Every review is about the goal of the plan it reviews. -/
def ReviewsBound (r : Records) : Prop :=
  ∀ reviews, r.storedReviews = .ok reviews → ∀ review ∈ reviews,
    ∃ p, r.plans.get? review.planVersion = some p ∧ p.goalVersionId = review.goalVersionId

theorem ReviewService.requireReviewer_state {run : Run} {actorId : UUID} {result : ReviewResult}
    {x : Unit} (h : ReviewService.requireReviewer run actorId result r = .ok (x, r')) :
    run.state = .reviewing := by
  unfold ReviewService.requireReviewer at h
  rw [read_bind_ok] at h
  obtain ⟨actor, hactor, h⟩ := found_bind_ok.mp h
  have hmatch := (Option.filter_eq_some_iff.mp hactor).2
  exact (of_decide_eq_true hmatch).1

theorem ReviewService.reviewedGoal_current {run : Run} {result : ReviewResult}
    {goal : GoalContract}
    (h : ReviewService.reviewedGoal run result r = .ok (goal, r')) :
    some goal.goal.id = run.currentGoalVersionId := by
  unfold ReviewService.reviewedGoal at h
  rw [read_bind_ok] at h
  obtain ⟨workspace, -, h⟩ := ask_bind_ok.mp h
  obtain ⟨found, hfound, h⟩ := found_bind_ok.mp h
  obtain ⟨-, h⟩ := failIf_bind_ok.mp h
  obtain ⟨-, h⟩ := failIf_bind_ok.mp h
  obtain ⟨rfl, -⟩ := pure_ok.mp h
  obtain ⟨id, hid, hgoal⟩ := Option.bind_eq_some_iff.mp hfound
  rw [hid]
  exact congrArg some (Table.key_of_get? (t := r.goals) hgoal)

/-- A review is recorded in the review of a run, about its current plan and its current goal. -/
theorem ReviewService.record_reviews {actorId : UUID} {result : ReviewResult} {key : String}
    {view : SourceView} {now : Time}
    (hr : stored (ReviewService.record P actorId result key view now) r = some r') :
    r' = r ∨ r.run.state = .reviewing ∧ ∃ values review, r.storedReviews = .ok values ∧
      r'.storedReviews = .ok (values ++ [review]) ∧ review.planVersion = r.run.planVersion ∧
      some review.goalVersionId = r.run.currentGoalVersionId := by
  unfold ReviewService.record at hr
  obtain ⟨-, -, hr⟩ := (Reads.failIf _ _).stored_bind hr
  rw [show lockedRun = Transaction.read Records.run from rfl, stored_read_bind] at hr
  obtain ⟨reviews, -, hr⟩ := (Reads.ask _).stored_bind hr
  split at hr
  · exact .inl ((Reads.bind (Reads.failIf _ _) fun _ => Reads.pure _).stored_eq hr)
  · obtain ⟨x, hreviewer, hr⟩ := Reads.requireReviewer.stored_bind hr
    obtain ⟨goal, hgoal, hr⟩ := Reads.reviewedGoal.stored_bind hr
    obtain ⟨unresolved, s, hs, hr⟩ := Silent.reviewExternalFindings.stored_bind hr
    obtain ⟨-, -, hr⟩ := (Reads.failIf _ _).stored_bind hr
    obtain ⟨x, t, ht, hr⟩ := (Silent.forM fun _ _ => Silent.judge).stored_bind hr
    obtain ⟨hash, -, hr⟩ := (Reads.ask _).stored_bind hr
    obtain ⟨y, u, hu, hr⟩ := (Silent.stage _).stored_bind hr
    have hfindings : Frame [.reports] r s :=
      Within.frame ReviewService.reviewExternalFindings_within hs
    have hjudged : Frame [.goals, .evidence] s t :=
      Within.frame (Within.forM fun _ _ => ReviewService.judge_within) ht
    have hlast : Frame [] u r' := Within.stored (Within.bind (Within.note (quiet_of_apart (by rfl)))
      fun _ => Within.pure _) hr
    obtain ⟨values, hvalues, hadded⟩ :=
      saveReview_stored (hjudged.id.trans hfindings.id).symm (stage_ok.mp hu)
    rw [hjudged.reviews (by decide), hfindings.reviews (by decide)] at hvalues
    refine .inr ⟨ReviewService.requireReviewer_state hreviewer, values, _, hvalues,
      (hlast.reviews (by decide)).trans hadded, rfl, ReviewService.reviewedGoal_current hgoal⟩

/-! ## Every run -/

/-- What holds of the plans and the goals of a run that is only taken back to work on a plan for
its current goal. -/
structure Currency (r : Records) : Prop where
  current : r.run.state.planBound = true → r.planCurrent = true
  reviewed : ReviewsBound r

theorem Unmoved.planCurrent (h : Unmoved r r') : r'.planCurrent = r.planCurrent := by
  unfold Records.planCurrent
  rw [h.plans, h.goal, Run.planVersion_of_lifecycle h.run]

theorem Moved.planCurrent {target : RunState} {now : Time} (h : Moved P target now r r') :
    r'.planCurrent = r.planCurrent := by
  unfold Records.planCurrent
  rw [h.plans, h.goal, Run.planVersion_of_lifecycle h.run]
  rfl

/-- The plan that becomes the current one is for the current goal. -/
theorem Planned.planCurrent {plan : TaskPlan} {resumeState : Option RunState}
    (h : Planned plan resumeState r r') : r'.planCurrent = true := by
  obtain ⟨repairs, hrun⟩ := h.run
  have hversion : r'.run.planVersion = plan.version := Run.planVersion_of_lifecycle hrun
  refine planCurrent_iff.mpr ⟨plan, ?_, h.bound.trans h.goal.symm⟩
  rw [h.plans, hversion]
  exact Table.get?_put_self _ _

/-- The guard of a plan that is to be executed finds a plan for the current goal. -/
theorem Orchestrator.guardPlan_current {target : RunState} {now : Time} {x : Unit}
    (h : Orchestrator.guardPlan P r.run target now r = .ok (x, r')) : r.planCurrent = true := by
  obtain ⟨plan, hplan, h⟩ := ask_bind_ok.mp h
  obtain ⟨current, hcurrent, -⟩ := found_bind_ok.mp h
  obtain ⟨rfl, hgoal⟩ := Option.filter_eq_some_iff.mp hcurrent
  obtain ⟨p, hp, hread, -, -⟩ := getPlan_ok hplan
  refine planCurrent_iff.mpr ⟨p, hp, ?_⟩
  rw [← of_decide_eq_true hgoal, hread]

/-- The guard of a repair finds a review of the current plan for the current goal. -/
theorem Orchestrator.guardRepair_current {now : Time} {x : Unit} (hreviews : ReviewsBound r)
    (h : Orchestrator.guardRepair P r.run now r = .ok (x, r')) : r.planCurrent = true := by
  obtain ⟨reviews, hlisted, h⟩ := ask_bind_ok.mp h
  obtain ⟨failed, hfailed, h⟩ := found_bind_ok.mp h
  obtain ⟨hbinding, -⟩ := failIf_bind_ok.mp h
  unfold Records.reviews at hlisted
  obtain ⟨stored, hstored, hlisted⟩ := Outcome.bind_eq_ok.mp hlisted
  cases hlisted
  obtain ⟨p, hp, hgoal⟩ := hreviews stored hstored failed
    (mem_sortEntities.mp (List.mem_of_getLast? hfailed))
  simp only [not_or, not_not] at hbinding
  refine planCurrent_iff.mpr ⟨p, hbinding.2.1 ▸ hp, ?_⟩
  rw [hgoal]
  exact hbinding.2.2

/-- The guards of a state in which a run works on its plan find a plan for the current goal, those
of its integration, its tests and its review apart. -/
theorem Moved.current {target : RunState} {now : Time} (h : Currency r)
    (hmoved : Moved P target now r r') (htarget : target.planBound = true)
    (hmindful : r.run.state.suspended = true → target.unguarded = true → r.planCurrent = true) :
    r.planCurrent = true := by
  by_cases hunguarded : target.unguarded = true
  · have hplain : target.interrupting = false := by
      cases target <;> first | rfl | exact absurd hunguarded (by decide)
    obtain ⟨-, hvalid⟩ := validateTransition_eq_ok.mp hmoved.valid
    rw [hplain] at hvalid
    rcases hvalid with ⟨hnot, -⟩ | ⟨-, ⟨hsuspended, -⟩ | ⟨-, hnext⟩⟩
    · cases hnot
    · exact hmindful hsuspended hunguarded
    · exact h.current (RunState.planBound_of_transition hunguarded hnext)
  · have hguard := (Orchestrator.guard_ok hmoved.guarded).2.2
    cases target with
    | planned => exact Orchestrator.guardPlan_current hguard
    | executing =>
      unfold Orchestrator.guardState at hguard
      dsimp only at hguard
      split_ifs at hguard
      · obtain ⟨x, -, hguard⟩ := Reads.guardRepaired.bind_ok hguard
        exact Orchestrator.guardPlan_current hguard
      · exact Orchestrator.guardPlan_current hguard
    | repairPlanning => exact Orchestrator.guardRepair_current h.reviewed hguard
    | integrating | testing | reviewing => exact absurd rfl hunguarded
    | _ => cases htarget

/-- A step keeps the reviews about the goals of their plans. -/
theorem Command.Leads.reviewsBound (hr : Reachable P project r) (h : Currency r)
    (hleads : cmd.Leads P project r r') : ReviewsBound r' := by
  have hkept := hr.kept (.single ⟨cmd, hleads⟩)
  have hold : ∀ values, r.storedReviews = .ok values → ∀ review ∈ values,
      ∃ p, r'.plans.get? review.planVersion = some p ∧
        p.goalVersionId = review.goalVersionId := by
    intro values hvalues review hreview
    obtain ⟨p, hp, hgoal⟩ := h.reviewed values hvalues review hreview
    exact ⟨p, hkept.plans _ p hp, hgoal⟩
  have hsame : r'.storedReviews = r.storedReviews → ReviewsBound r' :=
    fun heq values hvalues => hold values (heq ▸ hvalues)
  have hframe := hleads.frame
  obtain ⟨-, hstored⟩ := hleads
  cases cmd with
  | recordReview actorId result key view now =>
    rcases ReviewService.record_reviews (stored_quietly.mp hstored) with
      rfl | ⟨hstate, values, review, hvalues, hadded, hversion, hgoal⟩
    · exact h.reviewed
    · intro values' hvalues' v hv
      rw [hadded] at hvalues'
      cases hvalues'
      rcases List.mem_append.mp hv with hv | hv
      · exact hold values hvalues v hv
      · obtain rfl := List.mem_singleton.mp hv
        obtain ⟨p, hp, hbound⟩ := planCurrent_iff.mp (h.current (by rw [hstate]; rfl))
        rw [← hversion] at hp
        exact ⟨p, hkept.plans _ p hp, Option.some.inj (hbound.trans hgoal.symm)⟩
  | _ => exact hsame (hframe.reviews (by simp [Command.parts]))

/-- A step that takes no run back to work on a plan for another goal keeps the currency. -/
theorem Currency.step (hr : Reachable P project r) (h : Currency r)
    (hstep : MindfulStep P project r r') : Currency r' := by
  obtain ⟨cmd, hleads, hmindful⟩ := hstep
  refine ⟨fun hbound => ?_, hleads.reviewsBound hr h⟩
  cases hleads.movement with
  | stays hsame =>
    rw [Run.state_of_lifecycle hsame.run] at hbound
    rw [hsame.planCurrent]
    exact h.current hbound
  | defines hstate hrun hplans =>
    rw [Run.state_of_lifecycle hrun,
      RunState.planBound_of_revisable hstate] at hbound
    cases hbound
  | moves target key now phaseId hcmd hmoved =>
    rw [Run.state_of_lifecycle hmoved.run] at hbound
    rw [hmoved.planCurrent]
    refine hmoved.current h hbound fun hsuspended hunguarded => ?_
    subst hcmd
    simpa [Command.returnsToPlan, hsuspended, hunguarded] using hmindful
  | plans plan hstate hplanned => exact hplanned.planCurrent
  | replans plan hstate hplanned => exact hplanned.planCurrent

/-- A run that has just been made works on no plan. -/
theorem Created.currency (h : Created P project r) : Currency r := by
  obtain ⟨request, branch, base, n, now, hframe⟩ := h.frame
  refine ⟨fun hbound => ?_, fun values hvalues review hreview => ?_⟩
  · rw [hframe.state (by decide)] at hbound
    cases hbound
  · rw [hframe.reviews (by decide)] at hvalues
    cases hvalues
    cases hreview

/-- In every state of a run that is only taken back to its integration, its tests or its review
where its plan is for its current goal, a plan it works on is a plan for its current goal. -/
theorem plan_current {r₀ : Records} (hcreated : Created P project r₀)
    (hrun : Relation.ReflTransGen (MindfulStep P project) r₀ r)
    (hstate : r.run.state.planBound = true) :
    ∃ p, r.getPlan r.run.planVersion = .ok (some p) ∧
      some p.goalVersionId = r.run.currentGoalVersionId := by
  have hboth : Reachable P project r ∧ Currency r := by
    clear hstate
    induction hrun with
    | refl => exact ⟨⟨r₀, hcreated, .refl⟩, hcreated.currency⟩
    | tail hbefore hstep ih =>
      obtain ⟨⟨r₁, hmade, hreached⟩, hcurrency⟩ := ih
      obtain ⟨cmd, hleads, hmindful⟩ := hstep
      exact ⟨⟨r₁, hmade, hreached.tail ⟨cmd, hleads⟩⟩,
        hcurrency.step ⟨r₁, hmade, hreached⟩ ⟨cmd, hleads, hmindful⟩⟩
  obtain ⟨p, hp, hgoal⟩ := planCurrent_iff.mp (hboth.2.current hstate)
  exact ⟨r.refreshed p, getPlan_eq_refreshed hboth.1.inOrder.sane.numbered hp, hgoal⟩

/-- Commands that take no run back to its integration, its tests or its review are a mindful
run. -/
theorem mindful_of_history {cmds : List Command}
    (hcmds : ∀ cmd ∈ cmds, ∀ s : Records, cmd.returnsToPlan s = true)
    (h : history P project cmds r = some r') :
    Relation.ReflTransGen (MindfulStep P project) r r' := by
  induction cmds generalizing r with
  | nil =>
    cases h
    exact .refl
  | cons cmd rest ih =>
    unfold history at h
    split_ifs at h with hpossible
    obtain ⟨s, hs, h⟩ := Option.bind_eq_some_iff.mp h
    obtain ⟨hfirst, hrest⟩ := List.forall_mem_cons.mp hcmds
    exact .head ⟨cmd, ⟨hpossible, hs⟩, hfirst r⟩ (ih hrest h)

theorem sample_plan_current : ∃ p,
    Sample.working.getPlan Sample.working.run.planVersion = .ok (some p) ∧
      some p.goalVersionId = Sample.working.run.currentGoalVersionId :=
  plan_current Sample.made_created
    (mindful_of_history (by simp [Sample.beginning, Command.returnsToPlan, RunState.unguarded])
      (Option.some_get _).symm)
    (by decide +kernel)

end Runs

namespace Sample

/-- The commands that lead to the integration, suspend it, revise the goal and resume. -/
def straying : List Command :=
  beginning.take 6 ++
    [.advance .integrating "integrate" 7 (.uuid4 25), .advance .paused "pause" 8 (.uuid4 26),
      .revise draft "Clarified" 1 30 9, .advance .integrating "resume" 10 (.uuid4 27)]

/-- The run that is integrated again. -/
def strayed : Records := (history primitives project straying made).get (by decide +kernel)

theorem strayed_reachable : Reachable primitives project strayed :=
  made_reachable.history (Option.some_get _).symm

theorem strayed_state : strayed.run.state = .integrating ∧ strayed.planCurrent = false := by
  decide +kernel

end Sample

/-- A run whose goal is revised while its integration is suspended integrates a plan for its
former goal. -/
theorem strayed_not_current : ∃ r, Reachable Sample.primitives Sample.project r ∧
    r.run.state = .integrating ∧
    ¬ ∃ p, r.getPlan r.run.planVersion = .ok (some p) ∧
      some p.goalVersionId = r.run.currentGoalVersionId := by
  refine ⟨Sample.strayed, Sample.strayed_reachable, Sample.strayed_state.1, ?_⟩
  rintro ⟨p, hp, hgoal⟩
  obtain ⟨stored, hstored, hread, -, -⟩ := getPlan_ok hp
  have hcurrent : Sample.strayed.planCurrent = true :=
    planCurrent_iff.mpr ⟨stored, hstored, by rw [← hgoal, hread]⟩
  rw [Sample.strayed_state.2] at hcurrent
  cases hcurrent

end Orqalis
