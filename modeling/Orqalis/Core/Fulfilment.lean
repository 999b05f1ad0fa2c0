import Orqalis.Core.Currency
import Orqalis.Core.Effects
import Orqalis.Core.Suspension

/-!
# Completed runs and their goals

A run enters its delivery where its required criteria have passed, and its commit where a final
validation has found so once more. No gate after that looks at the criteria, and a validation
asks for no state of its run: it can take a criterion back that the delivery rests on.
-/

namespace Orqalis

open Lib Lib.Transaction

variable {r r' : Records} {P : Primitives} {project : Project} {cmd : Command}

namespace RunState

/-- A delivery goes one way, and begins with the inspection of the implementation. -/
theorem delivering_of_transition {s t : RunState} (h : t ∈ s.transitions)
    (ht : t.delivering = true) : s.delivering = true ∨ t = .changeGuard := by
  cases s <;> simp only [transitions, List.mem_cons, List.not_mem_nil, or_false] at h
  all_goals first
    | exact .inl rfl
    | exact h.elim
    | (subst h; exact absurd ht (by decide))
    | (rcases h with rfl | rfl <;> first | exact .inr rfl | exact absurd ht (by decide))

/-- What a run enters from everywhere is no state of a delivery. -/
theorem delivering_of_interrupting {s : RunState} (h : s.interrupting = true) :
    s.delivering = false := by
  cases s <;> first | rfl | exact absurd h (by decide)

end RunState

/-! ## The goal and its validations -/

/-- Whether every required criterion of the current goal has passed. -/
def Records.acceptedGoal (r : Records) : Bool :=
  (r.currentGoal r.run).any fun contract =>
    contract.required.all fun item => item.status = .pass

/-- Whether a final validation of the current goal has passed. -/
def Records.certifiedGoal (r : Records) : Bool :=
  match r.storedValidations with
  | .ok values => values.any fun validation =>
      validation.passed ∧ some validation.goalVersionId = r.run.currentGoalVersionId
  | .error _ => false

/-- Whether a delivery rests on a final validation. -/
def Records.settled (r : Records) : Bool := r.run.stage.delivering && r.certifiedGoal

/-- Whether the first criterion of the current goal that satisfies a condition is required. -/
def Records.requires (r : Records) (p : AcceptanceCriterion → Bool) : Bool :=
  (r.currentGoal r.run).any fun contract =>
    (contract.criteria.find? p).any fun item => item.priority = .required

theorem acceptedGoal_iff : r.acceptedGoal = true ↔ ∃ contract,
    r.currentGoal r.run = some contract ∧ ∀ item ∈ contract.required, item.status = .pass := by
  simp only [Records.acceptedGoal, Option.any_eq_true, List.all_eq_true, decide_eq_true_eq]

theorem certifiedGoal_iff : r.certifiedGoal = true ↔ ∃ values, r.storedValidations = .ok values ∧
    ∃ validation ∈ values, validation.passed = true ∧
      some validation.goalVersionId = r.run.currentGoalVersionId := by
  unfold Records.certifiedGoal
  cases hvalues : r.storedValidations with
  | error e => simp
  | ok values => simp

/-- Records with the same goals have the same current goal. -/
theorem currentGoal_of_same (hgoals : r'.goals = r.goals)
    (hid : r'.run.currentGoalVersionId = r.run.currentGoalVersionId) :
    r'.currentGoal r'.run = r.currentGoal r.run := by
  unfold Records.currentGoal Records.getGoal
  rw [hid, hgoals]

theorem acceptedGoal_of_same (hgoals : r'.goals = r.goals)
    (hid : r'.run.currentGoalVersionId = r.run.currentGoalVersionId) :
    r'.acceptedGoal = r.acceptedGoal := by
  unfold Records.acceptedGoal
  rw [currentGoal_of_same hgoals hid]

theorem certifiedGoal_of_same (hvalidations : r'.storedValidations = r.storedValidations)
    (hid : r'.run.currentGoalVersionId = r.run.currentGoalVersionId) :
    r'.certifiedGoal = r.certifiedGoal := by
  unfold Records.certifiedGoal
  rw [hvalidations, hid]

/-! ## Validations of the delivery -/

/-- Records with the same final validations. -/
def SameValidations (r r' : Records) : Prop := r'.storedValidations = r.storedValidations

instance isPreorder_sameValidations : IsPreorder Records SameValidations where
  refl _ := rfl
  trans _ _ _ h h' := Eq.trans h' h

theorem saveGuardian_validations {report : ChangeReport} (h : r.saveGuardian report = .ok r') :
    SameValidations r r' := by
  unfold Records.saveGuardian at h
  obtain ⟨values, -, h⟩ := Outcome.bind_eq_ok.mp h
  split_ifs at h
  obtain ⟨findings, -, h⟩ := Outcome.bind_eq_ok.mp h
  obtain ⟨d, hd, h⟩ := Outcome.bind_eq_ok.mp h
  cases h
  unfold SameValidations Records.storedValidations
  rw [hd, Outcome.ok_bind]
  rfl

theorem saveDelivery_validations {delivery : GitDelivery} (h : r.saveDelivery delivery = .ok r') :
    SameValidations r r' := by
  unfold Records.saveDelivery at h
  obtain ⟨d, hd, h⟩ := Outcome.bind_eq_ok.mp h
  obtain ⟨existing, -, h⟩ := Outcome.bind_eq_ok.mp h
  split_ifs at h
  cases h
  unfold SameValidations Records.storedValidations
  rw [hd, Outcome.ok_bind]
  rfl

/-- A stored final validation is one more final validation. -/
theorem saveValidation_stored {validation : FinalValidation} (hrun : validation.runId = r.run.id)
    (h : r.saveValidation validation = .ok r') : ∃ values, r.storedValidations = .ok values ∧
      r'.storedValidations = .ok (values ++ [validation]) := by
  unfold Records.saveValidation at h
  obtain ⟨values, hvalues, h⟩ := Outcome.bind_eq_ok.mp h
  split_ifs at h with hnew
  obtain ⟨d, hd, h⟩ := Outcome.bind_eq_ok.mp h
  cases h
  refine ⟨values, hvalues, ?_⟩
  unfold Records.storedValidations at hvalues
  rw [hd, Outcome.ok_bind] at hvalues
  exact models_append hvalues hnew hrun

section Certificates

variable {id : UUID} {now : Time}

theorem Sealed.of_within {α : Type} {S : List Part} {m : RunTx α} (h : Within id S m)
    (hS : Part.certificates ∉ S) : Effects SameValidations id m :=
  .of_within h fun _ _ hframe => hframe.validations hS

theorem Sealed.saveDelivery {delivery : GitDelivery} :
    Effects SameValidations id (stage fun r => r.saveDelivery delivery) :=
  .staged fun _ _ h => ⟨(frame_saveDelivery h).id, saveDelivery_validations h⟩

theorem GuardianService.inspect_validations {actorId : UUID} {policy : DeliveryPolicy}
    {fingerprint : String} {checkpoint : Checkpoint} {inspection : GuardianService.Inspection}
    {n : Nat} : Effects SameValidations id
      (GuardianService.inspect P actorId policy fingerprint checkpoint inspection n now) := by
  refine Effects.locked fun run _ => Effects.bind (.of_reads Reads.workingActor) fun _ =>
    Effects.bind (.of_reads (Reads.ask _)) fun _ => Effects.bind (.of_reads (Reads.failIf _ _))
    fun _ => Effects.bind (.of_reads (Reads.read _)) fun _ =>
    Effects.bind (.of_reads (Reads.failIf _ _)) fun _ => Effects.bind (.of_reads (Reads.ask _))
    fun reports => Effects.bind (.of_reads Reads.objections) fun flags => ?_
  dsimp only
  split
  · exact .of_reads (Reads.pure _)
  · exact Effects.bind
      (.staged fun _ _ h => ⟨(frame_saveGuardian h).id, saveGuardian_validations h⟩) fun _ =>
      Effects.bind (Sealed.of_within (S := []) (Within.note (quiet_of_apart (by rfl)))
        List.not_mem_nil) fun _ => .of_reads (Reads.pure _)

theorem CommitService.begin_validations {project : Option Project} {policy : DeliveryPolicy}
    {actorId : UUID} {name email : String} {tree : Except Error String} :
    Effects SameValidations id
      (CommitService.begin' P project policy actorId name email tree now) := by
  refine Effects.locked fun run _ => Effects.bind (.of_reads (Reads.failIf _ _)) fun _ =>
    Effects.bind (.of_reads Reads.workingActor) fun _ =>
    Effects.bind (.of_reads Reads.guardDelivery) fun _ =>
    Effects.bind (.of_reads (Reads.ask _)) fun _ => Effects.bind (.of_reads (Reads.found _ _))
    fun _ => Effects.bind (.of_reads (Reads.found _ _)) fun _ =>
    Effects.bind (.of_reads (Reads.failIf _ _)) fun _ => Effects.bind (.of_reads (Reads.ask _))
    fun delivery => Effects.bind (.of_reads (Reads.failIf _ _)) fun _ =>
    Effects.bind (Effects.bind (.of_reads (Reads.read _)) fun _ => Effects.ite
      (Sealed.of_within (S := []) (Within.note (quiet_of_apart (by rfl))) List.not_mem_nil)
      (.of_reads (Reads.pure ()))) fun _ => ?_
  unfold CommitService.storeIntent
  split
  · exact .of_reads (Reads.pure _)
  · exact Effects.bind (.of_reads (Reads.ask _)) fun _ =>
      Effects.bind (.of_reads (Reads.found _ _)) fun _ =>
      Effects.bind (.of_reads (Reads.ask _)) fun _ => Effects.bind (.of_reads (Reads.read _))
      fun _ => Effects.bind (.of_reads (Reads.found _ _)) fun _ =>
      Effects.bind Sealed.saveDelivery fun _ => .of_reads (Reads.pure _)

theorem CommitService.created_validations {delivery : GitDelivery} {sha : String} :
    Effects SameValidations id (CommitService.created delivery sha) :=
  Effects.locked fun _ _ => Sealed.saveDelivery

theorem CommitService.attach_validations {delivery : GitDelivery} {actorId : UUID} :
    Effects SameValidations id (CommitService.attach P delivery actorId now) :=
  Effects.locked fun _ _ => Effects.bind Sealed.saveDelivery fun _ =>
    Sealed.of_within (S := []) (Within.note (quiet_of_apart (by rfl))) List.not_mem_nil

theorem CommitService.pushed_validations {delivery : GitDelivery} {actorId : UUID} :
    Effects SameValidations id (CommitService.pushed P delivery actorId now) :=
  Effects.locked fun _ _ => Effects.bind Sealed.saveDelivery fun _ =>
    Sealed.of_within (S := []) (Within.note (quiet_of_apart (by rfl))) List.not_mem_nil

/-- A passed final validation has found every required criterion of its goal passed. -/
theorem FinalValidationService.record_validation {attempt : TaskExecution} {goalId : UUID}
    {evidenceIds : List UUID} {outcome : FinalValidationService.Outcome}
    (hr : stored (FinalValidationService.record P attempt goalId evidenceIds outcome now) r =
      some r') : ∃ values validation, r.storedValidations = .ok values ∧
      r'.storedValidations = .ok (values ++ [validation]) ∧
      (validation.passed = true → r.acceptedGoal = true) := by
  unfold FinalValidationService.record at hr
  rw [show lockedRun = Transaction.read Records.run from rfl, stored_read_bind,
    stored_read_bind] at hr
  obtain ⟨goal, hgoal, hr⟩ := (Reads.found _ _).stored_bind hr
  obtain ⟨reviews, -, hr⟩ := (Reads.ask _).stored_bind hr
  obtain ⟨x, s, hs, hr⟩ := (Silent.stage _).stored_bind hr
  obtain ⟨values, hvalues, hadded⟩ := saveValidation_stored (by rfl) (stage_ok.mp hs)
  have hlast : Frame [] s r' := by
    refine Within.stored (Within.bind (Within.note (quiet_of_status ?_ (by simp))) fun _ =>
      Within.pure _) hr
    dsimp only
    split_ifs <;> simp [settledWords, TaskStatus.value, Verdict.value]
  refine ⟨values, _, hvalues, (hlast.validations (by decide)).trans hadded, fun hpassed => ?_⟩
  obtain ⟨hcurrent, -⟩ := Option.filter_eq_some_iff.mp (found_ok.mp hgoal).1
  simp only [Bool.and_eq_true] at hpassed
  refine acceptedGoal_iff.mpr ⟨goal, hcurrent, fun item hitem => ?_⟩
  obtain ⟨hitem, hrequired⟩ := List.mem_filter.mp hitem
  have hpass := List.all_eq_true.mp hpassed.1.1.1.2 item hitem
  simp only [decide_eq_true_eq] at hpass hrequired
  exact hpass.resolve_right fun hnot => hnot (.inl hrequired)

end Certificates

/-! ## Gates -/

/-- The gate of the completion finds a final validation of the current goal that passed. -/
theorem guardCommit_certified {target : RunState} {reports : List ChangeReport} {x : Unit}
    (h : guardCommit r.run target reports r = .ok (x, r')) : r.certifiedGoal = true := by
  obtain ⟨validations, hvalidations, h⟩ := ask_bind_ok.mp h
  obtain ⟨hcertified, -⟩ := failIf_bind_ok.mp h
  obtain ⟨values, hvalues, hsorted⟩ := Outcome.bind_eq_ok.mp hvalidations
  cases hsorted
  obtain ⟨validation, hlast, hpassed⟩ :=
    Option.any_eq_true _ _ |>.mp (Bool.of_not_eq_false hcertified)
  simp only [Bool.decide_and, Bool.and_eq_true, decide_eq_true_eq, Bool.decide_eq_true] at hpassed
  exact certifiedGoal_iff.mpr ⟨values, hvalues, validation,
    mem_sortEntities.mp (List.mem_of_getLast? hlast), hpassed.1⟩

theorem Reads.guardCompletion {run : Run} : Reads (guardCompletion run) :=
  Reads.bind (Reads.read _) fun _ => Reads.bind (Reads.failIf _ _) fun _ =>
    Reads.bind (Reads.ask _) fun _ => Reads.failIf _ _

theorem guardDelivery_certified {x : Unit}
    (h : guardDelivery r.run .completed r = .ok (x, r')) : r.certifiedGoal = true := by
  unfold guardDelivery at h
  rw [if_pos rfl] at h
  obtain ⟨y, -, h⟩ := Reads.guardCompletion.bind_ok h
  obtain ⟨findings, -, h⟩ := ask_bind_ok.mp h
  obtain ⟨-, h⟩ := failIf_bind_ok.mp h
  obtain ⟨reviews, -, h⟩ := ask_bind_ok.mp h
  cases hlast : reviews.getLast? with
  | none =>
    rw [hlast] at h
    cases h
  | some review =>
    rw [hlast] at h
    obtain ⟨-, h⟩ := failIf_bind_ok.mp h
    obtain ⟨reports, -, h⟩ := ask_bind_ok.mp h
    obtain ⟨-, h⟩ := failIf_bind_ok.mp h
    obtain ⟨artifacts, -, h⟩ := ask_bind_ok.mp h
    obtain ⟨-, h⟩ := failIf_bind_ok.mp h
    exact guardCommit_certified h

/-- A run enters its delivery bound to a policy, where its required criteria have passed. -/
theorem Orchestrator.guard_changeGuard {now : Time} {x : Unit}
    (h : Orchestrator.guard P r.run .changeGuard now r = .ok (x, r')) :
    (r.byKey "delivery:policy").isSome ∧ r.acceptedGoal = true := by
  obtain ⟨y, -, h⟩ := Reads.guardDelivery.bind_ok h
  obtain ⟨y, hbinding, h⟩ := Reads.requireDeliveryBinding.bind_ok h
  unfold requireDeliveryBinding at hbinding
  rw [read_bind_ok] at hbinding
  obtain ⟨binding, hkey, -⟩ := found_bind_ok.mp hbinding
  have haccepted : ¬ (r.currentGoal r.run).all (fun contract =>
      contract.required.any fun item => item.status ≠ .pass) = true := (failIf_ok.mp h).1
  refine ⟨Option.isSome_iff_exists.mpr ⟨binding, hkey⟩, ?_⟩
  cases hgoal : r.currentGoal r.run with
  | none => exact absurd (by rw [hgoal]; rfl) haccepted
  | some contract =>
    refine acceptedGoal_iff.mpr ⟨contract, hgoal, fun item hitem => ?_⟩
    by_contra hstatus
    refine haccepted ?_
    rw [hgoal, Option.all_some, List.any_eq_true]
    exact ⟨item, hitem, decide_eq_true hstatus⟩

/-- No goal is revised once its delivery is bound to a policy. -/
theorem GoalService.revise_unbound {draft : GoalDraft} {reason : String}
    {expectedVersion n : Nat} {now : Time}
    (hr : stored (GoalService.revise P draft reason expectedVersion n now) r = some r') :
    (r.byKey "delivery:policy").isSome = false := by
  unfold GoalService.revise at hr
  obtain ⟨-, -, hr⟩ := (Reads.failIf _ _).stored_bind hr
  rw [show lockedRun = Transaction.read Records.run from rfl, stored_read_bind] at hr
  obtain ⟨-, -, hr⟩ := (Reads.failIf _ _).stored_bind hr
  obtain ⟨-, -, hr⟩ := (Reads.failIf _ _).stored_bind hr
  rw [stored_read_bind] at hr
  obtain ⟨x, hbound, -⟩ := (Reads.failIf _ _).stored_bind hr
  exact Bool.eq_false_iff.mpr (failIf_ok.mp hbound).1

/-! ## Validations of a criterion -/

section Validations

variable {N : UUID → Prop} {now : Time}

/-- An outcome that takes no required criterion back leaves a goal accepted. -/
theorem acceptedGoal_saveCriterion {contract : GoalContract} {c : AcceptanceCriterion}
    (hcontract : r.currentGoal r.run = some contract) (hown : c.goalVersionId = contract.goal.id)
    (hc : ∃ item ∈ contract.criteria, item.id = c.id) (h : r.acceptedGoal = true)
    (hpass : c.priority = .required → c.status = .pass) :
    (r.saveCriterion c).acceptedGoal = true := by
  obtain ⟨goalId, hgoalId, hget⟩ := Option.bind_eq_some_iff.mp hcontract
  obtain rfl : contract.goal.id = goalId := Table.key_of_get? (t := r.goals) hget
  obtain ⟨same, hsame, haccepted⟩ := acceptedGoal_iff.mp h
  obtain rfl : contract = same := Option.some.inj (hcontract.symm.trans hsame)
  rw [saveCriterion_eq (hown ▸ hget) hc]
  refine acceptedGoal_iff.mpr ⟨Records.replaceCriterion contract c, ?_, fun item hitem => ?_⟩
  · unfold Records.currentGoal Records.getGoal
    rw [hgoalId, Option.bind_some]
    exact Table.get?_put_self _ _
  · obtain ⟨hitem, hrequired⟩ := List.mem_filter.mp hitem
    rcases mem_replaceCriterion hitem with ⟨hitem, -⟩ | ⟨rfl, -⟩
    · exact haccepted item (List.mem_filter.mpr ⟨hitem, hrequired⟩)
    · exact hpass (of_decide_eq_true hrequired)

/-- The criterion a condition finds first is not required where none is. -/
theorem priority_of_requires {contract : GoalContract} {c : AcceptanceCriterion}
    {p : AcceptanceCriterion → Bool} (hcontract : r.currentGoal r.run = some contract)
    (hfind : contract.criteria.find? p = some c) (h : r.requires p = false) :
    c.priority ≠ .required := by
  intro hrequired
  unfold Records.requires at h
  rw [hcontract, Option.any_some, hfind, Option.any_some, hrequired] at h
  cases h

theorem GoalService.startValidation_accepted {criterionKey key : String}
    {executionId : Option UUID} (hledger : Ledger N r) (h : r.acceptedGoal = true)
    (hnot : (r.requires fun item => item.key = criterionKey) = false)
    (hr : stored (GoalService.startValidation P criterionKey key executionId now) r = some r') :
    r'.acceptedGoal = true := by
  unfold GoalService.startValidation at hr
  obtain ⟨-, -, hr⟩ := (Reads.failIf _ _).stored_bind hr
  rw [show lockedRun = Transaction.read Records.run from rfl, stored_read_bind] at hr
  obtain ⟨contract, hcontract, hr⟩ := Reads.validatedGoal.stored_bind hr
  obtain ⟨criterion, hcriterion, hr⟩ := (Reads.found _ _).stored_bind hr
  rw [stored_read_bind] at hr
  split at hr
  · cases hr
    exact h
  · obtain ⟨-, -, hr⟩ := (Reads.failIf _ _).stored_bind hr
    obtain ⟨attempt, -, hr⟩ := Reads.validatingAttempt.stored_bind hr
    obtain ⟨x, s, hs, hr⟩ := (Silent.change _).stored_bind hr
    unfold GoalService.validatedGoal at hcontract
    rw [read_bind_ok] at hcontract
    obtain ⟨-, hcontract⟩ := failIf_bind_ok.mp hcontract
    have hgoal : r.currentGoal r.run = some contract := (found_ok.mp hcontract).1
    have hfind := (found_ok.mp hcriterion).1
    have hc : criterion ∈ contract.criteria := List.mem_of_find?_eq_some hfind
    have hown := (hledger.contracts contract (mem_of_currentGoal hgoal)).own criterion hc
    have hlast : Frame [] s r' := by
      refine Within.stored (Within.bind (Within.note (quiet_of_status ?_ (by simp)))
        fun _ => Within.pure _) hr
      simp [settledWords, TaskStatus.value, AcceptanceStatus.value]
    have hoptional := priority_of_requires hgoal hfind hnot
    rw [acceptedGoal_of_same (hlast.goals (by decide)) (hlast.currentGoal (by decide)),
      change_ok.mp hs]
    exact acceptedGoal_saveCriterion hgoal hown ⟨criterion, hc, rfl⟩ h fun hrequired =>
      absurd hrequired hoptional

theorem GoalService.finishValidation_accepted {criterion : AcceptanceCriterion} {key : String}
    {actorId taskId executionId : Option UUID}
    {observation : Except String ValidationObservation} (hledger : Ledger N r)
    (h : r.acceptedGoal = true)
    (hcalm : (r.requires fun item => item.id = criterion.id) = false ∨
      GoalService.validatedStatus r.run criterion.validationSpec
        (GoalService.observed P criterion.validationSpec observation) = .pass)
    (hr : stored (GoalService.finishValidation P criterion key actorId taskId executionId
      observation now) r = some r') : r'.acceptedGoal = true := by
  unfold GoalService.finishValidation at hr
  rw [show lockedRun = Transaction.read Records.run from rfl, stored_read_bind] at hr
  obtain ⟨-, -, hr⟩ := (Reads.failIf _ _).stored_bind hr
  rw [stored_read_bind] at hr
  obtain ⟨latest, hlatest, hr⟩ := (Reads.found _ _).stored_bind hr
  obtain ⟨current, hcurrent, hr⟩ := (Reads.found _ _).stored_bind hr
  obtain ⟨x, s, hs, hr⟩ := (Silent.stage _).stored_bind hr
  have hgoal : r.currentGoal r.run = some latest := (found_ok.mp hlatest).1
  have hfind := (found_ok.mp hcurrent).1
  have hc : current ∈ latest.criteria := List.mem_of_find?_eq_some hfind
  have hown := (hledger.contracts latest (mem_of_currentGoal hgoal)).own current hc
  have hlast : Frame [] s r' :=
    Within.stored (Within.bind GoalService.announceOutcome_within fun _ => Within.pure _) hr
  have hsave := stage_ok.mp hs
  unfold Records.saveEvaluation at hsave
  split_ifs at hsave
  cases hsave
  rw [acceptedGoal_of_same (hlast.goals (by decide)) (hlast.currentGoal (by decide))]
  refine acceptedGoal_saveCriterion hgoal hown ⟨current, hc, rfl⟩ h fun hrequired => ?_
  rcases hcalm with hnot | hpass
  · have hoptional := priority_of_requires hgoal hfind hnot
    exact absurd hrequired hoptional
  · exact hpass

end Validations

/-! ## Every run -/

/-- Whether a command takes no required criterion back that a settled delivery rests on. -/
def Command.calm (P : Primitives) (r : Records) : Command → Bool
  | .startValidation criterionKey _ _ _ =>
    !(r.settled && r.requires fun item => item.key = criterionKey)
  | .finishValidation criterion _ _ _ _ observation _ =>
    !(r.settled && r.requires fun item => item.id = criterion.id) ||
      GoalService.validatedStatus r.run criterion.validationSpec
        (GoalService.observed P criterion.validationSpec observation) = .pass
  | _ => true

/-- A step that takes no required criterion back once a final validation of its goal passed. -/
def CalmStep (P : Primitives) (project : Project) (r r' : Records) : Prop :=
  ∃ cmd : Command, cmd.Leads P project r r' ∧ cmd.calm P r = true

/-- What holds of the delivery of a run whose criteria are left alone once it is settled. -/
structure Fulfilled (r : Records) : Prop where
  bound : r.run.stage.delivering = true → (r.byKey "delivery:policy").isSome
  accepted : r.settled = true → r.acceptedGoal = true
  certified : r.run.state = .completed → r.certifiedGoal = true

/-- What a step leaves of the delivery a run is in: it goes on, or begins where its required
criteria have passed. -/
theorem Command.Leads.delivering (hsuspendable : Suspendable r.run)
    (hleads : cmd.Leads P project r r') (h : r'.run.stage.delivering = true) :
    r.run.stage.delivering = true ∨
      (r.byKey "delivery:policy").isSome ∧ r.acceptedGoal = true ∧
        ∃ target key now phaseId, cmd = .advance target key now phaseId := by
  cases hleads.movement with
  | stays hsame =>
    rw [Run.stage_of_lifecycle hsame.run] at h
    exact .inl h
  | defines hstate hrun hplans =>
    rw [Run.stage_of_lifecycle hrun] at h
    exact .inl h
  | plans plan hstate hplanned =>
    obtain ⟨repairs, hrun⟩ := hplanned.run
    rw [Run.stage_of_lifecycle hrun] at h
    exact .inl h
  | replans plan hstate hplanned =>
    obtain ⟨repairs, hrun⟩ := hplanned.run
    rw [Run.stage_of_lifecycle hrun] at h
    cases h
  | moves target key now phaseId hcmd hmoved =>
    rw [Run.stage_of_lifecycle hmoved.run, hsuspendable.stage_moved now hmoved.valid] at h
    split_ifs at h with htarget
    · exact .inl h
    · obtain ⟨-, hvalid⟩ := validateTransition_eq_ok.mp hmoved.valid
      rcases hvalid with ⟨hinterrupting, -⟩ | ⟨-, ⟨hsuspended, hresume⟩ | ⟨hworking, hnext⟩⟩
      · rw [RunState.delivering_of_interrupting hinterrupting] at h
        cases h
      · rw [Run.stage, hresume, Option.getD_some]
        exact .inl h
      · rcases RunState.delivering_of_transition hnext h with hbefore | rfl
        · rw [hsuspendable.stage_of_working hworking]
          exact .inl hbefore
        · obtain ⟨hkey, haccepted⟩ := Orchestrator.guard_changeGuard hmoved.guarded
          exact .inr ⟨hkey, haccepted, _, key, now, phaseId, hcmd⟩

/-- The final validations a run has stored stay, and a new one that passed has found the required
criteria passed. -/
theorem Command.Leads.validations (hleads : cmd.Leads P project r r') :
    SameValidations r r' ∨ Frame [.certificates] r r' ∧ ∃ values validation,
      r.storedValidations = .ok values ∧ r'.storedValidations = .ok (values ++ [validation]) ∧
      (validation.passed = true → r.acceptedGoal = true) := by
  have hframe := hleads.frame
  obtain ⟨-, hstored⟩ := hleads
  cases cmd with
  | recordValidation attempt goalId evidenceIds outcome now =>
    exact .inr ⟨hframe,
      FinalValidationService.record_validation (stored_quietly.mp hstored)⟩
  | inspect =>
    exact .inl (GuardianService.inspect_validations.quietly r r' rfl hstored).2
  | beginCommit =>
    exact .inl (CommitService.begin_validations.quietly r r' rfl hstored).2
  | commitCreated => exact .inl (CommitService.created_validations r r' rfl hstored).2
  | commitAttached => exact .inl (CommitService.attach_validations r r' rfl hstored).2
  | pushed => exact .inl (CommitService.pushed_validations r r' rfl hstored).2
  | _ => exact .inl (hframe.validations (by simp [Command.parts]))

/-- No step of a delivery defines or revises the goal of its run. -/
theorem Command.Leads.goal_kept (hsuspendable : Suspendable r.run) (h : Fulfilled r)
    (hdelivering : r.run.stage.delivering = true) (hleads : cmd.Leads P project r r') :
    Part.currentGoal ∉ cmd.parts := by
  obtain ⟨-, hstored⟩ := hleads
  cases cmd with
  | defineInitial executionId draft n now =>
    have hstate := GoalService.defineInitial_state (stored_quietly.mp hstored)
    rw [hsuspendable.stage_of_working (by rw [hstate]; rfl), hstate] at hdelivering
    cases hdelivering
  | revise draft reason expected n now =>
    have hunbound := GoalService.revise_unbound (stored_quietly.mp hstored)
    rw [h.bound hdelivering] at hunbound
    cases hunbound
  | _ => simp [Command.parts]

/-- A calm step of a settled delivery leaves its goal accepted. -/
theorem Command.Leads.acceptedGoal (hr : Reachable P project r) (h : Fulfilled r)
    (hsettled : r.settled = true) (hcalm : cmd.calm P r = true)
    (hleads : cmd.Leads P project r r') : r'.acceptedGoal = true := by
  have haccepted := h.accepted hsettled
  have hdelivering := (Bool.and_eq_true_iff.mp hsettled).1
  have hkept := hleads.goal_kept hr.suspendable h hdelivering
  have hframe := hleads.frame
  obtain ⟨-, hstored⟩ := hleads
  have hsame : Part.goals ∉ cmd.parts → r'.acceptedGoal = true := by
    intro hgoals
    rw [acceptedGoal_of_same (hframe.goals hgoals) (hframe.currentGoal hkept)]
    exact haccepted
  cases cmd with
  | startValidation criterionKey key executionId now =>
    simp only [Command.calm, hsettled, Bool.true_and, Bool.not_eq_true'] at hcalm
    exact GoalService.startValidation_accepted hr.ledger haccepted hcalm
      (stored_quietly.mp hstored)
  | finishValidation criterion key actorId taskId executionId observation now =>
    simp only [Command.calm, hsettled, Bool.true_and, Bool.or_eq_true, Bool.not_eq_true',
      decide_eq_true_eq] at hcalm
    exact GoalService.finishValidation_accepted hr.ledger haccepted hcalm
      (stored_quietly.mp hstored)
  | recordReview actorId result key view now =>
    rcases ReviewService.record_reviews (stored_quietly.mp hstored) with
      rfl | ⟨hstate, -⟩
    · exact haccepted
    · rw [hr.suspendable.stage_of_working (by rw [hstate]; rfl), hstate] at hdelivering
      cases hdelivering
  | defineInitial | revise => exact absurd (by simp [Command.parts]) hkept
  | _ => exact hsame (by simp [Command.parts])

/-- Final validations that are kept still certify the goal they certified. -/
theorem Command.Leads.certifiedGoal (hleads : cmd.Leads P project r r')
    (hid : r'.run.currentGoalVersionId = r.run.currentGoalVersionId)
    (h : r.certifiedGoal = true) : r'.certifiedGoal = true := by
  rcases hleads.validations with hsame | ⟨-, values, validation, hvalues, hadded, -⟩
  · rw [certifiedGoal_of_same hsame hid]
    exact h
  · obtain ⟨stored, hstored, old, hold, hpassed, hgoal⟩ := certifiedGoal_iff.mp h
    rw [hvalues] at hstored
    cases hstored
    exact certifiedGoal_iff.mpr
      ⟨_, hadded, old, List.mem_append_left _ hold, hpassed, hgoal.trans hid.symm⟩

/-- A run is completed where a final validation of its goal has passed. -/
theorem Command.Leads.completed (hleads : cmd.Leads P project r r')
    (hbefore : r.run.state ≠ .completed) (h : r'.run.state = .completed) :
    r'.certifiedGoal = true := by
  have hframe := hleads.frame
  cases hleads.movement with
  | stays hsame => exact absurd ((Run.state_of_lifecycle hsame.run).symm.trans h) hbefore
  | defines hstate hrun hplans =>
    exact absurd ((Run.state_of_lifecycle hrun).symm.trans h) hbefore
  | plans plan hstate hplanned | replans plan hstate hplanned =>
    obtain ⟨repairs, hrun⟩ := hplanned.run
    exact absurd ((Run.state_of_lifecycle hrun).symm.trans h) hbefore
  | moves target key now phaseId hcmd hmoved =>
    obtain rfl : target = .completed := (Run.state_of_lifecycle hmoved.run).symm.trans h
    subst hcmd
    refine hleads.certifiedGoal (hframe.currentGoal (by simp [Command.parts])) ?_
    obtain ⟨y, s, hguard, -⟩ := bind_ok.mp hmoved.guarded
    exact guardDelivery_certified hguard

/-- A calm step keeps what holds of a delivery. -/
theorem Fulfilled.step (hr : Reachable P project r) (h : Fulfilled r)
    (hstep : CalmStep P project r r') : Fulfilled r' := by
  obtain ⟨cmd, hleads, hcalm⟩ := hstep
  have hframe := hleads.frame
  refine ⟨fun hdelivering => ?_, fun hsettled => ?_, fun hstate => ?_⟩
  · have hgrown := hframe.grown
    rcases hleads.delivering hr.suspendable hdelivering with hbefore | ⟨hkey, -⟩
    · exact byKey_isSome_of_grown hgrown (h.bound hbefore)
    · exact byKey_isSome_of_grown hgrown hkey
  · obtain ⟨hdelivering, hcertified⟩ := Bool.and_eq_true_iff.mp hsettled
    rcases hleads.delivering hr.suspendable hdelivering with
      hbefore | ⟨-, haccepted, target, key, now, phaseId, rfl⟩
    · have hid := hframe.currentGoal (hleads.goal_kept hr.suspendable h hbefore)
      rcases hleads.validations with hsame | ⟨hown, values, validation, hvalues, hadded, hpassed⟩
      · rw [certifiedGoal_of_same hsame hid] at hcertified
        exact hleads.acceptedGoal hr h (Bool.and_eq_true_iff.mpr ⟨hbefore, hcertified⟩) hcalm
      · rw [acceptedGoal_of_same (hown.goals (by decide)) hid]
        obtain ⟨stored, hstored, last, hlast, hpass, hgoal⟩ := certifiedGoal_iff.mp hcertified
        rw [hadded] at hstored
        cases hstored
        rcases List.mem_append.mp hlast with hlast | hlast
        · exact h.accepted (Bool.and_eq_true_iff.mpr ⟨hbefore, certifiedGoal_iff.mpr
            ⟨values, hvalues, last, hlast, hpass, hgoal.trans hid⟩⟩)
        · rw [List.mem_singleton.mp hlast] at hpass
          exact hpassed hpass
    · rw [acceptedGoal_of_same (hframe.goals (by simp [Command.parts]))
        (hframe.currentGoal (by simp [Command.parts]))]
      exact haccepted
  · by_cases hbefore : r.run.state = .completed
    · have hdelivering : r.run.stage.delivering = true := by
        rw [hr.suspendable.stage_of_working (by rw [hbefore]; rfl), hbefore]
        rfl
      exact hleads.certifiedGoal
        (hframe.currentGoal (hleads.goal_kept hr.suspendable h hdelivering)) (h.certified hbefore)
    · exact hleads.completed hbefore hstate

/-- A run that has just been made is in no delivery. -/
theorem Created.fulfilled (h : Created P project r) : Fulfilled r := by
  obtain ⟨request, branch, base, n, now, hframe⟩ := h.frame
  have hstate : r.run.state = .received := hframe.state (by decide)
  have hstage : r.run.stage.delivering = false := by
    rw [h.suspendable.stage_of_working (by rw [hstate]; rfl), hstate]
    rfl
  refine ⟨fun hdelivering => ?_, fun hsettled => ?_, fun hcompleted => ?_⟩
  · rw [hstage] at hdelivering
    cases hdelivering
  · rw [Records.settled, hstage] at hsettled
    cases hsettled
  · rw [hstate] at hcompleted
    cases hcompleted

/-- Calm steps are a run whose delivery rests on its goal. -/
theorem fulfilled_of_calm (hrun : Relation.ReflTransGen (CalmStep P project) r r')
    (h : Reachable P project r ∧ Fulfilled r) : Reachable P project r' ∧ Fulfilled r' := by
  induction hrun with
  | refl => exact h
  | tail hbefore hstep ih =>
    obtain ⟨⟨r₁, hmade, hreached⟩, hfulfilled⟩ := ih
    obtain ⟨cmd, hleads, hcalm⟩ := hstep
    exact ⟨⟨r₁, hmade, hreached.tail ⟨cmd, hleads⟩⟩,
      hfulfilled.step ⟨r₁, hmade, hreached⟩ ⟨cmd, hleads, hcalm⟩⟩

/-- A run never leaves its completion. -/
theorem Command.Leads.stays_completed (hleads : cmd.Leads P project r r')
    (h : r.run.state = .completed) : r'.run.state = .completed := by
  cases hleads.movement with
  | stays hsame => exact (Run.state_of_lifecycle hsame.run).trans h
  | defines hstate hrun hplans => exact (Run.state_of_lifecycle hrun).trans h
  | plans plan hstate hplanned | replans plan hstate hplanned =>
    obtain ⟨repairs, hrun⟩ := hplanned.run
    exact (Run.state_of_lifecycle hrun).trans h
  | moves target key now phaseId hcmd hmoved =>
    obtain ⟨hterminal, -⟩ := validateTransition_eq_ok.mp hmoved.valid
    rw [h] at hterminal
    cases hterminal

theorem completed_of_calm (hrun : Relation.ReflTransGen (CalmStep P project) r r')
    (h : r.run.state = .completed) : r'.run.state = .completed := by
  induction hrun with
  | refl => exact h
  | tail hbefore hstep ih =>
    obtain ⟨cmd, hleads, -⟩ := hstep
    exact hleads.stays_completed ih

/-- Where no validation takes back a required criterion that a settled delivery rests on, every
required criterion of the goal of a completed run has passed, with stored evidence that it did;
and so it stays. -/
theorem goal_fulfilled {r₀ : Records} (hcreated : Created P project r₀)
    (hrun : Relation.ReflTransGen (CalmStep P project) r₀ r) (hstate : r.run.state = .completed)
    (hlater : Relation.ReflTransGen (CalmStep P project) r r') :
    r'.run.state = .completed ∧ ∃ contract, r'.currentGoal r'.run = some contract ∧
      ∀ c ∈ contract.required, c.status = .pass ∧ r'.attests c true := by
  obtain ⟨hreached, hfulfilled⟩ := fulfilled_of_calm (hrun.trans hlater)
    ⟨⟨r₀, hcreated, .refl⟩, hcreated.fulfilled⟩
  have hcompleted := completed_of_calm hlater hstate
  have hsettled : r'.settled = true := by
    rw [Records.settled, hreached.suspendable.stage_of_working (by rw [hcompleted]; rfl),
      hcompleted]
    exact hfulfilled.certified hcompleted
  obtain ⟨contract, hcontract, haccepted⟩ := acceptedGoal_iff.mp (hfulfilled.accepted hsettled)
  refine ⟨hcompleted, contract, hcontract, fun c hc => ⟨haccepted c hc, ?_⟩⟩
  have hcriterion := (List.mem_filter.mp hc).1
  exact (hreached.ledger.balanced contract (mem_of_currentGoal hcontract) c hcriterion).pass
    (haccepted c hc)

/-- Commands that validate no criterion are a calm run. -/
theorem calm_of_history {cmds : List Command}
    (hcmds : ∀ cmd ∈ cmds, ∀ s : Records, cmd.calm P s = true)
    (h : history P project cmds r = some r') :
    Relation.ReflTransGen (CalmStep P project) r r' :=
  steps_of_history (fun cmd hcmd s _ hleads => ⟨cmd, hleads, hcmds cmd hcmd s⟩) h

/-! ### A run to its end -/

namespace Sample

/-- A task of the delivery. -/
def taskOf (n : Nat) (role : AgentRole) : Task :=
  { task with id := .uuid4 n, preferredRole := role }

/-- The plan with the tasks of its delivery. -/
def wholePlan : TaskPlan :=
  { plan with
    tasks := [task, taskOf 11 .reviewer, taskOf 12 .changeGuardian, taskOf 13 .documentation,
      taskOf 14 .tester, taskOf 15 .gitops] }

theorem wholePlan_valid : wholePlan.validateDag = .ok () := by decide +kernel

/-- The actor and the attempt of a start. -/
def startedActor (key : String) : UUID := .uuid5 (.uuid4 1) s!"{key}:actor"

def startedAttempt (key : String) : UUID := .uuid5 (.uuid4 1) s!"{key}:attempt"

/-- The attempt of the final validation. -/
def finalAttempt : TaskExecution :=
  { id := startedAttempt "final"
    createdAt := 26
    runId := .uuid4 1
    taskId := .uuid4 14
    attempt := 1
    assignedActorSessionId := startedActor "final"
    status := .running }

/-- A review that accepts the goal. -/
def verdict : ReviewResult :=
  { overall := .pass
    criteria :=
      [{ criterionId := .uuid4 3
         status := .pass
         reason := "It greets"
         sourceChecks := [⟨"greet.txt", "Hello"⟩] }]
    blockingFindings := []
    nonBlockingFindings := [] }

def view : SourceView :=
  { contains := fun _ => .ok true
    passes := fun _ => true
    contentHash := fun _ => digest
    treeHash := .ok "tree" }

/-- The policy of the delivery. -/
def delivery : DeliveryPolicy := { documentationPath := some "docs.md" }

/-- An inspection that objects to nothing. -/
def inspection (tree : String) : GuardianService.Inspection :=
  { flags := [], changes := [], treeHash := some tree, baseCommit := "base" }

def reportOn (checkpoint : Checkpoint) (tree : String) : ChangeReport :=
  GuardianService.reportOf made.run (startedActor "guard") checkpoint (.uuid4 0)
    (inspection tree) [] 0

/-- The delivery as its commit begins. -/
def intended : GitDelivery :=
  CommitService.intent made.run
    { runId := .uuid4 1
      path := "/w"
      baseCommit := "base"
      branch := made.run.targetBranch
      policy := { writePaths := [] } }
    contract (reportOn .final "final") delivery "gittree" 0

/-- The commands that lead to the completion. -/
def finishing : List Command :=
  [.advance .contextSync "sync" 1 (.uuid4 20), .advance .analyzing "analyze" 2 (.uuid4 21),
    .advance .goalDefined "define" 3 (.uuid4 22),
    .installPlan ⟨wholePlan, wholePlan_valid⟩ "plan" 4,
    .advance .planned "planned" 5 (.uuid4 23), .advance .executing "execute" 6 (.uuid4 24),
    .ensureWorkspace { writePaths := [] } "/w" made.run.targetBranch "base",
    .startTask (.uuid4 10) "dev" 7, .transitionTask (startedAttempt "dev") .succeeded "dev-done" 8,
    .advance .integrating "integrate" 9 (.uuid4 25), .advance .testing "test" 10 (.uuid4 26),
    .advance .reviewing "review" 11 (.uuid4 27), .startTask (.uuid4 11) "rev" 12,
    .startInvocation (startedAttempt "rev") "auto"
      (.ok { provider := "p", model := "m", requestHash := digest, timeout := 100 }) false
      "call" 13,
    .completeInvocation (AgentExecution.invocationId (.uuid4 1) "call") (startedAttempt "rev")
      (.ok { output := some (.review verdict) }) 14,
    .recordReview (startedActor "rev") verdict "first" view 15,
    .transitionTask (startedAttempt "rev") .succeeded "rev-done" 16, .bindDelivery digest none 17,
    .advance .changeGuard "guard" 18 (.uuid4 28), .startTask (.uuid4 12) "guard" 19,
    .inspect (startedActor "guard") delivery digest .implementation (inspection "tree") 100 20,
    .advance .documenting "document" 21 (.uuid4 29), .startTask (.uuid4 13) "doc" 22,
    .writeDocumentation (startedActor "doc") (reportOn .implementation "tree")
      (.ok ("docs.md", digest)) true 23,
    .transitionTask (startedAttempt "doc") .succeeded "doc-done" 24,
    .advance .deliveryValidation "deliver" 25 (.uuid4 30), .startTask (.uuid4 14) "final" 26,
    .recordValidation finalAttempt (.uuid4 2) [] ⟨"final", "final", true, true⟩ 27,
    .transitionTask (startedAttempt "final") .succeeded "final-done" 28,
    .inspect (startedActor "guard") delivery digest .final (inspection "final") 100 29,
    .transitionTask (startedAttempt "guard") .succeeded "guard-done" 30,
    .advance .committing "commit" 31 (.uuid4 31), .startTask (.uuid4 15) "git" 32,
    .beginCommit delivery (startedActor "git") "n" "e" (.ok "gittree") 33,
    .commitCreated intended "c0ffee",
    .commitAttached { intended with commitSha := some "c0ffee" } (startedActor "git") 34,
    .transitionTask (startedAttempt "git") .succeeded "git-done" 35,
    .advance .memoryFinalization "memory" 36 (.uuid4 32),
    .promoteMemory (startedActor "git") "proposal" true 37,
    .advance .completed "complete" 38 (.uuid4 33)]

/-- The run comes to its end, and a validation of its criterion begins there all the same. -/
theorem finishing_ends : ((history primitives Sample.project finishing made).any fun r =>
    r.run.state = .completed ∧
      (history primitives Sample.project [.startValidation "AC-1" "again" none 39] r).any fun r' =>
        r'.run.state = .completed ∧ r'.acceptedGoal = false) = true := by
  decide +kernel

theorem finishing_completes : ∃ r r', history primitives Sample.project finishing made = some r ∧
    r.run.state = .completed ∧
    history primitives Sample.project [.startValidation "AC-1" "again" none 39] r = some r' ∧
    r'.run.state = .completed ∧ r'.acceptedGoal = false := by
  obtain ⟨r, hr, hends⟩ := Option.any_eq_true _ _ |>.mp finishing_ends
  simp only [decide_eq_true_eq] at hends
  obtain ⟨hcompleted, hagain⟩ := hends
  obtain ⟨r', hr', hends⟩ := Option.any_eq_true _ _ |>.mp hagain
  simp only [decide_eq_true_eq] at hends
  exact ⟨r, r', hr, hcompleted, hr', hends⟩

end Sample

theorem sample_goal_fulfilled : ∃ r, history Sample.primitives Sample.project Sample.finishing
      Sample.made = some r ∧ r.run.state = .completed ∧ ∃ contract,
    r.currentGoal r.run = some contract ∧
      ∀ c ∈ contract.required, c.status = .pass ∧ r.attests c true := by
  obtain ⟨r, r', hr, hstate, -⟩ := Sample.finishing_completes
  exact ⟨r, hr, goal_fulfilled Sample.made_created
    (calm_of_history (by simp [Sample.finishing, Command.calm]) hr) hstate .refl⟩

/-- A completed run need not satisfy its goal: a validation that begins after the completion
takes its criterion back. -/
theorem completed_unfulfilled : ¬ ∀ r, Reachable Sample.primitives Sample.project r →
    r.run.state = .completed → ∃ contract, r.currentGoal r.run = some contract ∧
      ∀ c ∈ contract.required, c.status = .pass ∧ r.attests c true := by
  intro h
  obtain ⟨r, r', hr, -, hr', hstate, hnot⟩ := Sample.finishing_completes
  have hreached := (Sample.made_reachable.history hr).history hr'
  obtain ⟨contract, hcontract, hall⟩ := h r' hreached hstate
  have haccepted : r'.acceptedGoal = true :=
    acceptedGoal_iff.mpr ⟨contract, hcontract, fun c hc => (hall c hc).1⟩
  rw [haccepted] at hnot
  cases hnot

end Orqalis
