import Orqalis.Core.Movement

/-!
# Suspensions

A suspended run keeps the state it goes back to, and only a suspended run does. Through any
chain of suspensions that state is the one the run worked in when the first of them began, or
the planned one where its plan has been replaced meanwhile.
-/

namespace Orqalis

open Lib Lib.Transaction

variable {r r' : Records} {P : Primitives} {project : Project} {run : Run}

namespace RunState

theorem active_iff {s : RunState} : s.active = true ↔ s.suspended = false ∧ s.terminal = false := by
  unfold active
  rw [Bool.and_eq_true, Bool.not_eq_true', Bool.not_eq_true']

end RunState

/-- The state a run works in, or goes back to. -/
def Run.stage (run : Run) : RunState := run.resumeState.getD run.state

/-- A run of the same lifecycle is at the same stage. -/
theorem Run.stage_of_lifecycle {run' : Run} (h : run'.lifecycle = run.lifecycle) :
    run'.stage = run.stage := by
  have hresume : run'.resumeState = run.resumeState := (congrArg Run.resumeState h :)
  unfold Run.stage
  rw [Run.state_of_lifecycle h, hresume]

/-- A run keeps a state to go back to exactly while it is suspended, and one it can work in; while
it works it shows the phase of its state. -/
structure Suspendable (run : Run) : Prop where
  waiting : run.resumeState.isSome = run.state.suspended
  active : ∀ s, run.resumeState = some s → s.active = true
  shown : run.state.active = true → run.state.phase = some run.uiPhase

theorem Suspendable.resumeState_eq_none (h : Suspendable run)
    (hstate : run.state.suspended = false) : run.resumeState = none :=
  Option.isSome_eq_false_iff.mp (h.waiting.trans hstate) |> Option.isNone_iff_eq_none.mp

theorem Suspendable.stage_of_working (h : Suspendable run) (hstate : run.state.suspended = false) :
    run.stage = run.state := by
  rw [Run.stage, h.resumeState_eq_none hstate, Option.getD_none]

/-- The state a suspended run goes back to is the one it works in otherwise. -/
theorem Suspendable.resumeState_eq_stage (h : Suspendable run)
    (hstate : run.state.suspended = true) : run.resumeState = some run.stage := by
  obtain ⟨s, hs⟩ := Option.isSome_iff_exists.mp (h.waiting.trans hstate)
  rw [Run.stage, hs, Option.getD_some]

/-- A run that is not at its end works in an active state, or goes back to one. -/
theorem Suspendable.stage_active (h : Suspendable run) (hstate : run.state.terminal = false) :
    run.stage.active = true := by
  by_cases hsuspended : run.state.suspended = true
  · exact h.active _ (h.resumeState_eq_stage hsuspended)
  · rw [h.stage_of_working (Bool.eq_false_iff.mpr hsuspended)]
    exact RunState.active_iff.mpr ⟨Bool.eq_false_iff.mpr hsuspended, hstate⟩

/-- What a transition makes of the state to go back to. -/
theorem nextResumeState_cases (h : Suspendable run) {target : RunState}
    (hvalid : validateTransition run.state target run.resumeState = .ok ()) :
    Orchestrator.nextResumeState run target =
      if target.suspended = true then some run.stage else none := by
  have hvalid := validateTransition_eq_ok.mp hvalid
  unfold Orchestrator.nextResumeState
  by_cases htarget : target.suspended = true
  · by_cases hstate : run.state.suspended = true
    · simp [htarget, hstate, h.resumeState_eq_stage hstate]
    · simp [htarget, hstate, h.stage_of_working (Bool.eq_false_iff.mpr hstate)]
  · by_cases hstate : run.state.suspended = true
    · simp [htarget, hstate]
    · simp [htarget, hstate, h.resumeState_eq_none (Bool.eq_false_iff.mpr hstate)]

/-- A transition takes a run from one of its stages to the next, and a suspension to none. -/
theorem Suspendable.moved (h : Suspendable run) {target : RunState} (now : Time)
    (hvalid : validateTransition run.state target run.resumeState = .ok ()) :
    Suspendable (Orchestrator.moved run target now) := by
  have hnext : (Orchestrator.moved run target now).resumeState = _ := nextResumeState_cases h hvalid
  have hterminal := (validateTransition_eq_ok.mp hvalid).1
  refine ⟨?_, fun s hs => ?_, fun hactive => ?_⟩
  · rw [hnext]
    by_cases htarget : target.suspended = true
    · rw [if_pos htarget]
      exact htarget.symm
    · rw [if_neg htarget]
      exact (Bool.eq_false_iff.mpr htarget).symm
  · rw [hnext] at hs
    split_ifs at hs
    rw [← Option.some.inj hs]
    exact h.stage_active hterminal
  · obtain ⟨phase, hphase⟩ := Option.isSome_iff_exists.mp (RunState.phase_of_active hactive)
    have hphase : target.phase = some phase := hphase
    show target.phase = some (target.phase.getD run.uiPhase)
    rw [hphase, Option.getD_some]

/-- A suspension keeps the stage of a run; any other transition leads to the stage it names. -/
theorem Suspendable.stage_moved (h : Suspendable run) {target : RunState} (now : Time)
    (hvalid : validateTransition run.state target run.resumeState = .ok ()) :
    (Orchestrator.moved run target now).stage =
      if target.suspended = true then run.stage else target := by
  have hnext : (Orchestrator.moved run target now).resumeState = _ := nextResumeState_cases h hvalid
  unfold Run.stage
  rw [hnext]
  split_ifs <;> rfl

theorem Suspendable.of_lifecycle {run' : Run} (h : Suspendable run)
    (heq : run'.lifecycle = run.lifecycle) : Suspendable run' := by
  have hstate := Run.state_of_lifecycle heq
  have hresume : run'.resumeState = run.resumeState := (congrArg Run.resumeState heq :)
  have hphase : run'.uiPhase = run.uiPhase := (congrArg Run.uiPhase heq :)
  refine ⟨?_, ?_, ?_⟩
  · rw [hresume, hstate]
    exact h.waiting
  · rw [hresume]
    exact h.active
  · rw [hstate, hphase]
    exact h.shown

/-- A suspended run may be sent back to another state it can work in. -/
theorem suspendable_redirected {s : RunState} (hs : s.active = true)
    (hstate : run.state.suspended = true) :
    Suspendable { run with resumeState := some s } := by
  refine ⟨hstate.symm, fun t ht => Option.some.inj ht ▸ hs, fun hactive => ?_⟩
  rw [show run.state.suspended = false from (RunState.active_iff.mp hactive).1] at hstate
  cases hstate

/-! ## Every run -/

theorem Step.suspendable (h : Suspendable r.run) (hstep : Step P project r r') :
    Suspendable r'.run := by
  obtain ⟨cmd, hleads⟩ := hstep
  cases hleads.movement with
  | stays hsame => exact h.of_lifecycle hsame.run
  | defines hstate hrun hplans => exact h.of_lifecycle hrun
  | moves target key now phaseId hcmd hmoved =>
    exact (h.moved now hmoved.valid).of_lifecycle hmoved.run
  | plans plan hstate hplanned =>
    obtain ⟨repairs, hrun⟩ := hplanned.run
    have hsame : Suspendable
        { r.run with planVersion := plan.version, repairIteration := repairs } :=
      ⟨h.waiting, h.active, h.shown⟩
    exact hsame.of_lifecycle hrun
  | replans plan hstate hplanned =>
    obtain ⟨repairs, hrun⟩ := hplanned.run
    have hsuspended : r.run.state.suspended = true := by
      rcases hstate with hstate | hstate <;> rw [hstate] <;> rfl
    have hsame := suspendable_redirected (s := .planned) rfl hsuspended
    have hplan : Suspendable { r.run with
        planVersion := plan.version
        repairIteration := repairs
        resumeState := some .planned } :=
      ⟨hsame.waiting, hsame.active, hsame.shown⟩
    exact hplan.of_lifecycle hrun

theorem Created.suspendable (h : Created P project r) : Suspendable r.run := by
  obtain ⟨request, branch, base, n, now, hframe⟩ := h.frame
  have hnew : Suspendable (GoalService.newRun project request branch base (.uuid4 n) now) :=
    ⟨rfl, fun s hs => (by cases hs), fun _ => rfl⟩
  exact hnew.of_lifecycle (hframe.lifecycle (by decide))

/-- Every run can be suspended and knows where to go back to. -/
theorem Reachable.suspendable (h : Reachable P project r) : Suspendable r.run :=
  h.induction (fun _ => Created.suspendable) fun _ _ hrun hstep => Step.suspendable hrun hstep

end Orqalis
