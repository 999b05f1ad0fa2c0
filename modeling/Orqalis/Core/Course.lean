import Orqalis.Core.Fulfilment

/-!
# The course of a run

The stages of a run from its beginning to its completion stand in an order, and a run climbs them
one at a time: a repair and a new plan take it back, a suspension keeps it where it is. So no
stage from the execution on is ever passed over, whatever a run is interrupted by, and each is
entered through its guard again after every return.
-/

namespace Orqalis

open Lib Lib.System

namespace RunState

/-- How far along its course a run is in a state. The planning of a repair counts as a plan. -/
def rank : RunState → Nat
  | contextSync => 1
  | analyzing => 2
  | goalDefined => 3
  | planned | repairPlanning => 4
  | executing => 5
  | integrating => 6
  | testing => 7
  | reviewing => 8
  | changeGuard => 9
  | documenting => 10
  | deliveryValidation => 11
  | committing => 12
  | pushing => 13
  | memoryFinalization => 14
  | completed => 15
  | _ => 0

/-- The stages from the execution on, but for the push, which a run may do without. -/
def gate (s : RunState) : Bool := 5 ≤ s.rank ∧ s ≠ pushing

variable {s : RunState}

/-- What follows a stage is at most one stage further on, but for the push. -/
theorem eq_of_transition {t g : RunState} (ht : t ∈ s.transitions) (hg : g.gate = true)
    (hs : s.rank < g.rank) (hle : g.rank ≤ t.rank) : t = g := by
  cases s <;> simp only [transitions, List.mem_cons, List.not_mem_nil, or_false] at ht
  all_goals first
    | exact ht.elim
    | subst ht
      cases g <;> first | rfl | (revert hg hs hle; decide)
    | rcases ht with rfl | rfl <;> cases g <;> first | rfl | (revert hg hs hle; decide)

theorem rank_of_gate (h : s.gate = true) : 5 ≤ s.rank := (of_decide_eq_true h).1

theorem suspended_of_gate (h : s.gate = true) : s.suspended = false := by
  cases s <;> first | rfl | cases h

theorem rank_interrupting (h : s.interrupting = true) : s.rank = 0 := by
  cases s <;> first | rfl | cases h

end RunState

variable {r r' s : Records} {P : Primitives} {project : Project} {g : RunState}

/-- A step that takes a run to a stage it was before enters that stage. -/
theorem Step.enters (h : Suspendable r.run) (hstep : Step P project r r') (hg : g.gate = true)
    (hbefore : r.run.stage.rank < g.rank) (hafter : g.rank ≤ r'.run.stage.rank) :
    ∃ now, Moved P g now r r' := by
  have hrank : 5 ≤ g.rank := RunState.rank_of_gate hg
  have hstays : r'.run.stage = r.run.stage → False := fun heq => by
    rw [heq] at hafter
    omega
  obtain ⟨cmd, hleads⟩ := hstep
  cases hleads.movement with
  | stays hsame => exact (hstays (Run.stage_of_lifecycle hsame.run)).elim
  | defines hstate hrun hplans => exact (hstays (Run.stage_of_lifecycle hrun)).elim
  | plans plan hstate hplanned =>
    obtain ⟨repairs, hrun⟩ := hplanned.run
    rw [Run.stage_of_lifecycle hrun] at hafter
    exact absurd hafter (Nat.not_le.mpr hbefore)
  | replans plan hstate hplanned =>
    obtain ⟨repairs, hrun⟩ := hplanned.run
    have hplan : r'.run.stage = .planned := Run.stage_of_lifecycle hrun
    rw [hplan] at hafter
    exact absurd hafter (Nat.not_le.mpr hrank)
  | moves target key now phaseId hcmd hmoved =>
    have hstage := (Run.stage_of_lifecycle hmoved.run).trans (h.stage_moved now hmoved.valid)
    split_ifs at hstage with hsuspends
    · exact (hstays hstage).elim
    · rw [hstage] at hafter
      obtain ⟨-, hinterrupts | ⟨-, hresumes | hfollows⟩⟩ := validateTransition_eq_ok.mp hmoved.valid
      · rw [RunState.rank_interrupting hinterrupts.1] at hafter
        omega
      · have hback : r.run.stage = target := by
          rw [Run.stage, hresumes.2, Option.getD_some]
        exact (hstays (hstage.trans hback.symm)).elim
      · obtain ⟨hworking, hnext⟩ := hfollows
        rw [h.stage_of_working hworking] at hbefore
        obtain rfl := RunState.eq_of_transition hnext hg hbefore hafter
        exact ⟨now, hmoved⟩

/-- The runs that enter some stages one after another, each past its guard. -/
def Passes (P : Primitives) (project : Project) : List RunState → Records → Records → Prop
  | [], s, r => Relation.ReflTransGen (Step P project) s r
  | g :: gates, s, r => ∃ u u' now, Relation.ReflTransGen (Step P project) s u ∧
      Moved P g now u u' ∧ Passes P project gates u' r

/-- A run comes to a stage that it was before by entering it, and is there then. -/
theorem Reachable.enters (h : Reachable P project s)
    (hrun : Relation.ReflTransGen (Step P project) s r) (hg : g.gate = true)
    (hbefore : s.run.stage.rank < g.rank) (hafter : g.rank ≤ r.run.stage.rank) :
    ∃ u u' now, Relation.ReflTransGen (Step P project) s u ∧ Moved P g now u u' ∧
      u'.run.stage = g ∧ Reachable P project u' ∧ Relation.ReflTransGen (Step P project) u' r := by
  obtain ⟨u, u', hto, hstep, hu, hu', hfrom⟩ :=
    crossing (fun r : Records => r.run.stage.rank) hrun hbefore hafter
  obtain ⟨r₀, h₀, hs⟩ := h
  have hreached : Reachable P project u := ⟨r₀, h₀, hs.trans hto⟩
  obtain ⟨now, hmoved⟩ := hstep.enters hreached.suspendable hg hu hu'
  refine ⟨u, u', now, hto, hmoved, ?_, ⟨r₀, h₀, (hs.trans hto).tail hstep⟩, hfrom⟩
  rw [Run.stage_of_lifecycle hmoved.run, hreached.suspendable.stage_moved now hmoved.valid,
    if_neg (Bool.eq_false_iff.mp (RunState.suspended_of_gate hg))]

/-- No stage is passed over. A run that is at a stage or past it, and was before it at some point,
has entered it since that point, and so each of the stages in between in their order, every one
past its guard: whatever suspensions, repairs, new plans, retries and revisions of the goal came
in between. -/
theorem gates_in_order {gates : List RunState} (h : Reachable P project s)
    (hrun : Relation.ReflTransGen (Step P project) s r) (hgates : ∀ g ∈ gates, g.gate = true)
    (horder : gates.Pairwise fun g g' => g.rank < g'.rank)
    (hbefore : ∀ g ∈ gates, s.run.stage.rank < g.rank)
    (hafter : ∀ g ∈ gates, g.rank ≤ r.run.stage.rank) : Passes P project gates s r := by
  induction gates generalizing s with
  | nil => exact hrun
  | cons g gates ih =>
    obtain ⟨hnext, horder⟩ := List.pairwise_cons.mp horder
    obtain ⟨u, u', now, hto, hmoved, hstage, hreached, hfrom⟩ :=
      h.enters hrun (hgates g (List.mem_cons_self ..)) (hbefore g (List.mem_cons_self ..))
        (hafter g (List.mem_cons_self ..))
    refine ⟨u, u', now, hto, hmoved, ih hreached hfrom ?_ horder ?_ ?_⟩
    · intro g' hg'
      exact hgates g' (List.mem_cons_of_mem _ hg')
    · intro g' hg'
      rw [hstage]
      exact hnext g' hg'
    · intro g' hg'
      exact hafter g' (List.mem_cons_of_mem _ hg')

/-- The run of the example has entered every stage of its course when it is completed. -/
theorem sample_gates_in_order : ∃ r,
    history Sample.primitives Sample.project Sample.finishing Sample.made = some r ∧
    Passes Sample.primitives Sample.project
      [.executing, .integrating, .testing, .reviewing, .changeGuard, .documenting,
        .deliveryValidation, .committing, .memoryFinalization, .completed] Sample.made r := by
  obtain ⟨r, -, hr, hstate, -⟩ := Sample.finishing_completes
  have hreached := Sample.made_reachable.history hr
  have hstage : r.run.stage = .completed := by
    rw [hreached.suspendable.stage_of_working (by rw [hstate]; rfl), hstate]
  refine ⟨r, hr, gates_in_order Sample.made_reachable (run_of_history hr) (by decide) (by decide)
    ?_ ?_⟩
  · intro g hg
    rw [show Sample.made.run.stage.rank = 0 by decide +kernel]
    have hgate : g.gate = true := by
      revert g
      decide
    exact Nat.lt_of_lt_of_le (by decide : 0 < 5) (RunState.rank_of_gate hgate)
  · rw [hstage]
    decide

end Orqalis
