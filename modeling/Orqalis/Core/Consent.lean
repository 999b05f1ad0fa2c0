import Orqalis.Core.Denial
import Orqalis.Core.Effects
import Orqalis.Core.Suspension

/-!
# Operators' consent

A request is stored under an identifier made of its subject, and stays; so does the decision on
it. What a gate has let pass is therefore approved from then on, and a run whose policy asks for
the approval of plans executes approved plans only.
-/

namespace Orqalis

open Lib Lib.Transaction

/-! ## Requests and their identifiers -/

/-- A list up to the first occurrence of an element is determined. -/
theorem append_cons_inj {α : Type} {c : α} {l l' m m' : List α} (hl : c ∉ l) (hl' : c ∉ l')
    (h : l ++ c :: m = l' ++ c :: m') : l = l' ∧ m = m' := by
  induction l generalizing l' with
  | nil =>
    cases l' with
    | nil => exact ⟨rfl, (List.cons.inj h).2⟩
    | cons b l' => exact absurd List.mem_cons_self ((List.cons.inj h).1 ▸ hl')
  | cons a l ih =>
    cases l' with
    | nil => exact absurd List.mem_cons_self ((List.cons.inj h).1.symm ▸ hl)
    | cons b l' =>
      obtain ⟨rfl, htail⟩ := List.cons.inj h
      obtain ⟨rfl, rfl⟩ := ih (fun hin => hl (List.mem_cons_of_mem _ hin))
        (fun hin => hl' (List.mem_cons_of_mem _ hin)) htail
      exact ⟨rfl, rfl⟩

theorem colon_not_mem_stage (stage : ApprovalStage) : ':' ∉ stage.value.toList := by
  cases stage <;> decide

theorem colon_not_mem_digits (n : Nat) : ':' ∉ (toString n).toList := by
  intro h
  have hdigit := Nat.isDigit_of_mem_toDigits (by decide) (by decide)
    (show ':' ∈ Nat.toDigits 10 n by simpa [toString, Nat.repr] using h)
  exact absurd hdigit (by decide)

theorem stage_value_inj {s t : ApprovalStage} (h : s.value.toList = t.value.toList) : s = t := by
  cases s <;> cases t <;> first | rfl | exact absurd h (by decide)

/-- Two requests of one identifier have one subject. -/
theorem approvalRequestId_inj {runId : UUID} {s t : ApprovalStage} {m n : Nat} {d e : String}
    (h : approvalRequestId runId s m d = approvalRequestId runId t n e) : s = t ∧ d = e := by
  have htext := congrArg String.toList (UUID.uuid5.inj h).2
  simp only [toString, String.toList_append, List.append_assoc] at htext
  have hrest := List.append_cancel_left htext
  obtain ⟨hstage, hrest⟩ := append_cons_inj (colon_not_mem_stage s) (colon_not_mem_stage t) hrest
  obtain ⟨-, hdigest⟩ := append_cons_inj (colon_not_mem_digits m) (colon_not_mem_digits n) hrest
  exact ⟨stage_value_inj hstage, String.toList_inj.mp hdigest⟩

/-! ## How requests are made -/

/-- The requests there are stay, and those that are made are named after their subjects. -/
structure Asked (id : UUID) (r r' : Records) : Prop where
  kept : ∀ k q, r.approvalRequests.get? k = some q → r'.approvalRequests.get? k = some q
  named : ∀ q ∈ r'.approvalRequests, q ∈ r.approvalRequests ∨
    q.id = approvalRequestId id q.stage q.subjectVersion q.subjectDigest

theorem Asked.of_eq {id : UUID} {r r' : Records}
    (h : r'.approvalRequests = r.approvalRequests) : Asked id r r' where
  kept _ _ hq := h ▸ hq
  named _ hq := .inl (h ▸ hq)

instance (id : UUID) : IsPreorder Records (Asked id) where
  refl _ := .of_eq rfl
  trans _ _ _ h h' :=
    { kept := fun k q hq => h'.kept k q (h.kept k q hq)
      named := fun q hq => (h'.named q hq).elim (h.named q) .inr }

/-- A transaction that makes requests as gates do. -/
abbrev Asks {α : Type} (id : UUID) (m : RunTx α) : Prop := Effects (Asked id) id m

theorem Asks.of_within {α : Type} {id : UUID} {m : RunTx α} {S : List Part} (h : Within id S m)
    (hS : Part.requests ∉ S) : Asks id m :=
  Effects.of_within h fun _ _ hframe => .of_eq (hframe.requests hS)

section Gates

variable {id : UUID} {P : Primitives} {run : Run} {now : Time} {stage : ApprovalStage}
  {version : Nat} {digest reason : String}

/-- A request that is stored is a new one. -/
theorem asked_addRequest {r r' : Records} {q : ApprovalRequest} (h : r.addRequest q = .ok r')
    (hname : q.id = approvalRequestId id q.stage q.subjectVersion q.subjectDigest) :
    Asked id r r' := by
  unfold Records.addRequest at h
  split_ifs at h with hnew
  cases h
  obtain ⟨hfresh, -⟩ := not_or.mp hnew
  refine ⟨fun k p hp => ?_, fun p hp => ?_⟩
  · have hne : ({ q with status := .pending, decision := none } : ApprovalRequest).id ≠ k := by
      rintro rfl
      exact hfresh (Option.isSome_of_eq_some hp)
    exact (Table.get?_put_ne r.approvalRequests hne).trans hp
  · rcases Table.mem_put.mp hp with rfl | ⟨hp, -⟩
    · exact .inr hname
    · exact .inl hp

/-- The request of a gate is named after its subject. -/
theorem Asks.addApprovalRequest (hrun : run.id = id) :
    Asks id (addApprovalRequest P run stage version digest reason now) := by
  refine Effects.bind (fun r r' hid hr => ?_) fun _ => Asks.of_within (S := [.coordinator])
    (Within.bind (Within.note (quiet_of_apart (by rfl))) fun _ =>
      Within.bind (Within.setApprovalActorStatus hrun (by decide)) fun _ => Within.pure _)
    (by decide)
  obtain ⟨x, hr⟩ := (Silent.stage _).stored_ok hr
  have hadded := stage_ok.mp hr
  exact ⟨(frame_addRequest hadded).id.trans hid, asked_addRequest hadded (by rw [← hrun])⟩

theorem Asks.prepareApprovalRequest (hrun : run.id = id) :
    Asks id (prepareApprovalRequest P run stage version digest reason now) := by
  refine Effects.bind (.of_reads Reads.safeFields) fun _ => Effects.bind (.of_reads (Reads.read _))
    fun r => Effects.ite (Effects.bind (.of_reads Reads.validateSubject) fun _ => ?_)
      (.of_reads (Reads.pure _))
  split
  · exact .of_reads (Reads.pure _)
  · exact Effects.bind (Asks.addApprovalRequest hrun) fun _ => .of_reads (Reads.pure _)

theorem Asks.requireApproval (hrun : run.id = id) :
    Asks id (requireApproval P run stage version digest reason now) := by
  refine Effects.bind (.of_reads (Reads.read _)) fun r => Effects.ite
    (Effects.bind (.of_reads Reads.safeFields) fun _ =>
      Effects.bind (.of_reads Reads.validateSubject) fun _ => ?_) (.of_reads (Reads.pure _))
  split
  · exact .of_reads (Reads.failIf _ _)
  · exact Effects.bind (Asks.addApprovalRequest hrun) fun _ =>
      Asks.of_within (S := []) (Within.commitAndFail _) List.not_mem_nil

end Gates

section Commands

variable {id : UUID} {P : Primitives} {run : Run} {now : Time}

theorem Asks.saveRun {updated : Run} (hid : updated.id = id) :
    Asks id (stage fun r => r.saveRun updated) := by
  intro r r' _ hr
  obtain ⟨x, hr⟩ := (Silent.stage _).stored_ok hr
  rw [saveRun_ok (stage_ok.mp hr)]
  exact ⟨hid, .of_eq rfl⟩

theorem Asks.savePlan {plan : TaskPlan} : Asks id (stage fun r => r.savePlan plan) := by
  intro r r' hid hr
  obtain ⟨x, hr⟩ := (Silent.stage _).stored_ok hr
  rw [(savePlan_ok (stage_ok.mp hr)).1]
  exact ⟨hid, .of_eq rfl⟩

theorem Asks.orchestratorActor (hrun : run.id = id) : Asks id (orchestratorActor P run now) := by
  intro r r' hid hr
  obtain ⟨a, hr⟩ := (Silent.orchestratorActor _ _ _).stored_ok hr
  obtain ⟨-, hframe, -⟩ := orchestratorActor_ok (hrun.trans hid.symm) hr
  exact ⟨hframe.id.trans hid, .of_eq (hframe.requests (by decide))⟩

/-- What follows the storing of a plan makes no request. -/
theorem Asks.announce {label key : String} {tasks : List Task} {d : EventDraft} (h : d.Quiet) :
    Asks id (do
      note P run d
      announce P run label now tasks
      refreshReady P run key now) :=
  Asks.of_within (S := [.tasks]) (Within.bind (Within.note h) fun _ =>
    Within.bind (announce_within.mono (by simp)) fun _ => refreshReady_within) (by decide)

theorem Orchestrator.guardPlan_asks {target : RunState} (hrun : run.id = id) :
    Asks id (Orchestrator.guardPlan P run target now) :=
  Effects.bind (.of_reads (Reads.ask _)) fun _ =>
    Effects.bind (.of_reads (Reads.found _ _)) fun _ =>
    Effects.ite (Asks.requireApproval hrun) (.of_reads (Reads.pure _))

theorem Orchestrator.guard_asks {target : RunState} (hrun : run.id = id) :
    Asks id (Orchestrator.guard P run target now) := by
  refine Effects.bind (.of_reads Reads.guardDelivery) fun _ => ?_
  unfold Orchestrator.guardState
  split
  · exact .of_reads (Reads.bind Reads.requireDeliveryBinding fun _ => Reads.guardAcceptance)
  · exact Effects.bind (.of_reads (Reads.ask _)) fun _ => Effects.bind (.of_reads (Reads.found _ _))
      fun _ => Effects.bind (.of_reads (Reads.failIf _ _)) fun _ => Asks.requireApproval hrun
  · exact .of_reads (Reads.failIf _ _)
  · exact Orchestrator.guardPlan_asks hrun
  · exact Effects.ite (Effects.bind (.of_reads Reads.guardRepaired) fun _ =>
      Orchestrator.guardPlan_asks hrun) (Orchestrator.guardPlan_asks hrun)
  · exact .of_reads Reads.guardSuspension
  · exact .of_reads Reads.guardSuspension
  · exact .of_reads Reads.guardSuspension
  · exact .of_reads (Reads.pure _)

theorem Orchestrator.enter_asks {target : RunState} {key : String} {phaseId : UUID}
    (hrun : run.id = id) : Asks id (Orchestrator.enter P run target key now phaseId) :=
  Effects.bind (Asks.orchestratorActor hrun) fun _ => Effects.bind (Asks.saveRun hrun) fun _ =>
    Effects.bind (Asks.of_within (Within.emit (quiet_transition rfl rfl)) List.not_mem_nil) fun _ =>
    Effects.bind (Asks.of_within setActorStatus_within (by decide)) fun _ =>
    Effects.bind (Asks.of_within updatePhase_within (by decide)) fun _ => Effects.ite
      (Effects.bind (.of_reads (Reads.ask _)) fun _ => Effects.bind (.of_reads (Reads.found _ _))
        fun _ => Effects.bind (Asks.prepareApprovalRequest hrun) fun _ => .of_reads (Reads.pure _))
      (.of_reads (Reads.pure _))

theorem Orchestrator.advance_asks {target : RunState} {key : String} {phaseId : UUID} :
    Asks id (Orchestrator.advance P target key now phaseId) := by
  refine Effects.bind (.of_reads (Reads.requireKey key)) fun _ => Effects.locked fun run hrun =>
    Effects.bind (.of_reads (Reads.read _)) fun r => ?_
  split
  · exact .of_reads (Reads.bind (Reads.failIf _ _) fun _ => Reads.pure _)
  · exact Effects.bind (.of_reads (Reads.ask _)) fun _ =>
      Effects.bind (Orchestrator.guard_asks hrun) fun _ =>
      Effects.bind (Asks.orchestratorActor hrun) fun _ =>
      Effects.bind (Asks.of_within (Orchestrator.close_within hrun) (by decide)) fun _ =>
      Effects.bind (Orchestrator.enter_asks hrun) fun _ => .of_reads Reads.locked

theorem Orchestrator.installPlan_asks {plan : ValidPlan} {key : String} :
    Asks id (Orchestrator.installPlan P plan key now) := by
  refine Effects.bind (.of_reads (Reads.requireKey key)) fun _ => Effects.lockedOf fun run hrun =>
    Effects.bind (.of_reads (Reads.read _)) fun _ => Effects.bind (.of_reads Reads.prepend) fun _ =>
    Effects.bind (.of_reads (Reads.failIf _ _)) fun _ => Effects.bind (.of_reads (Reads.ask _))
    fun _ => Effects.bind (.of_reads (Reads.read _)) fun _ => Effects.ite
      (.of_reads (Reads.bind (Reads.requireSamePlan _ _) fun _ => Reads.pure _)) ?_
  exact Effects.bind (.of_reads Reads.checkInitialPlan) fun _ =>
    Effects.bind (Asks.requireApproval hrun) fun _ =>
    Effects.bind (Effects.bind Asks.savePlan fun _ => Effects.bind (Asks.saveRun hrun) fun _ =>
      Asks.announce (quiet_of_apart (by rfl))) fun _ => .of_reads Reads.locked

theorem PlanRevision.requireBasis_asks {repair : Bool} (hrun : run.id = id) :
    Asks id (PlanRevision.requireBasis P run repair now) :=
  Effects.ite (Effects.bind (.of_reads (Reads.ask _)) fun _ =>
    Effects.bind (.of_reads (Reads.found _ _)) fun _ =>
    Effects.bind (.of_reads (Reads.failIf _ _)) fun _ => Asks.requireApproval hrun)
    (.of_reads (Reads.bind Reads.guardDelivery fun _ => Reads.requireDeliveryBinding))

theorem PlanRevision.storeExtension_asks {current plan : TaskPlan} {key : String}
    {repair : Bool} (hrun : run.id = id) :
    Asks id (PlanRevision.storeExtension P run current plan key repair now) :=
  Effects.bind Asks.savePlan fun _ => Effects.bind (Asks.saveRun hrun) fun _ =>
    Asks.of_within (S := [.tasks, .repairs]) (Within.bind (Within.note (quiet_of_apart (by rfl)))
      fun _ => Within.bind (Within.ite (Within.noted (fun _ => .inl rfl)
        fun h => absurd (by decide) h) (Within.pure ())) fun _ =>
      Within.bind (announce_within.mono (by simp)) fun _ => refreshReady_within.mono (by decide))
      (by decide)

theorem PlanRevision.install_asks {plan : ValidPlan} {key : String} {repair : Bool} :
    Asks id (PlanRevision.install P plan key repair now) :=
  Effects.bind (.of_reads (Reads.requireKey key)) fun _ => Effects.lockedOf fun _ hrun =>
    Effects.bind (.of_reads (Reads.read _)) fun _ => Effects.ite
      (.of_reads (Reads.bind (Reads.requireSamePlan _ _) fun _ => Reads.pure _))
      (Effects.bind (.of_reads (Reads.failIf _ _)) fun _ =>
        Effects.bind (.of_reads (Reads.failIf _ _)) fun _ =>
        Effects.bind (.of_reads (Reads.ask _)) fun _ =>
        Effects.bind (.of_reads (Reads.found _ _)) fun _ =>
        Effects.bind (.of_reads (Reads.found _ _)) fun _ =>
        Effects.bind (PlanRevision.requireBasis_asks hrun) fun _ =>
        Effects.bind (.of_reads Reads.checkExtension) fun _ =>
        Effects.bind (PlanRevision.storeExtension_asks hrun) fun _ => .of_reads Reads.locked)

theorem GoalReplanning.checkReplacement_asks {plan : TaskPlan} (hrun : run.id = id) :
    Asks id (GoalReplanning.checkReplacement P run plan now) :=
  Effects.bind (.of_reads (Reads.ask _)) fun _ =>
    Effects.bind (.of_reads (Reads.failIf _ _)) fun _ =>
    Effects.bind (.of_reads (Reads.found _ _)) fun _ => Effects.bind (.of_reads (Reads.failIf _ _))
    fun _ => Effects.bind (.of_reads (Reads.read _)) fun _ =>
    Effects.bind (.of_reads (Reads.failIf _ _)) fun _ => Effects.bind (.of_reads (Reads.failIf _ _))
    fun _ => Effects.bind (.of_reads (Reads.failIf _ _)) fun _ =>
    Effects.bind (.of_reads (Reads.found _ _)) fun _ => Effects.bind (Asks.requireApproval hrun)
    fun _ => .of_reads (Reads.bind (Reads.failIf _ _) fun _ => Reads.bind (Reads.failIf _ _)
      fun _ => Reads.pure _)

theorem GoalReplanning.install_asks {plan : ValidPlan} {key : String} :
    Asks id (GoalReplanning.install P plan key now) := by
  refine Effects.bind (.of_reads (Reads.requireKey key)) fun _ => Effects.lockedOf fun run hrun =>
    Effects.bind (.of_reads (Reads.read _)) fun _ => Effects.ite
      (.of_reads (Reads.bind (Reads.requireSamePlan _ _) fun _ => Reads.pure _))
      (Effects.bind (GoalReplanning.checkReplacement_asks hrun) fun _ => Effects.bind ?_
        fun _ => .of_reads Reads.locked)
  exact Effects.bind (.of_reads (Reads.read _)) fun _ =>
    Effects.bind (Asks.of_within (Within.forM fun _ _ => GoalReplanning.retireAttempt_within hrun)
      (by decide)) fun _ =>
    Effects.bind (Asks.of_within (Within.forM fun _ _ => cancelTask_within) (by decide)) fun _ =>
    Effects.bind Asks.savePlan fun _ => Effects.bind (Asks.saveRun hrun) fun _ =>
      Asks.announce (quiet_of_apart (by rfl))

theorem PreviewRevision.replace_asks {plan : ValidPlan} {expectedVersion : Nat} {key : String} :
    Asks id (PreviewRevision.replace P plan expectedVersion key now) := by
  refine Effects.bind (.of_reads (Reads.requireKey key)) fun _ => Effects.lockedOf fun run hrun =>
    Effects.bind (.of_reads (Reads.read _)) fun _ => Effects.ite
      (.of_reads (Reads.bind Reads.requireSameEdit fun _ => Reads.pure _))
      (Effects.bind (.of_reads Reads.checkUnexecuted) fun _ =>
        Effects.bind (.of_reads Reads.checkEdit) fun _ => Effects.bind ?_
        fun _ => .of_reads Reads.locked)
  exact Effects.bind (Asks.of_within (Within.forM fun _ _ => PreviewRevision.supersede_within)
      (by decide)) fun _ => Effects.bind Asks.savePlan fun _ => Effects.bind (Asks.saveRun hrun)
    fun _ => Effects.bind (Asks.of_within (Within.note (quiet_of_apart (by rfl))) List.not_mem_nil)
    fun _ => Effects.bind (Asks.of_within announce_within List.not_mem_nil) fun _ =>
    Effects.bind (Asks.of_within refreshReady_within (by decide)) fun _ =>
    Effects.bind (Asks.prepareApprovalRequest hrun) fun _ => .of_reads (Reads.pure _)

theorem TaskRuntime.start_asks {taskId : UUID} {key : String} :
    Asks id (TaskRuntime.start P taskId key now) := by
  refine Effects.bind (.of_reads (Reads.requireKey key)) fun _ => Effects.locked fun run hrun =>
    Effects.bind (.of_reads (Reads.read _)) fun r => ?_
  split
  · exact .of_reads (Reads.bind (Reads.failIf _ _) fun _ => Reads.found _ _)
  · refine Effects.bind (.of_reads (Reads.failIf _ _)) fun _ =>
      Effects.bind (.of_reads (Reads.ask _)) fun _ =>
      Effects.bind (.of_reads Reads.startable) fun task =>
      Effects.bind (Effects.bind (.of_reads (Reads.read _)) fun _ =>
        Effects.ite (Effects.ite (Asks.requireApproval hrun)
          (Effects.bind (.of_reads (Reads.ask _)) fun workspace => ?_)) (.of_reads (Reads.pure _)))
      fun _ => Effects.bind (.of_reads (Reads.failIf _ _)) fun _ =>
        Asks.of_within (TaskRuntime.launch_within hrun) (by decide)
    split
    · exact .of_reads (Reads.fail _)
    · exact Asks.requireApproval hrun

/-- Every command makes its requests as gates do. -/
theorem Command.asks {project : Project} (cmd : Command) : Asks id (cmd.perform P project) := by
  cases cmd with
  | advance => exact Effects.quietly Orchestrator.advance_asks
  | installPlan => exact Effects.quietly Orchestrator.installPlan_asks
  | installRepair => exact Effects.quietly PlanRevision.install_asks
  | installDelivery => exact Effects.quietly PlanRevision.install_asks
  | replan => exact Effects.quietly GoalReplanning.install_asks
  | replacePreview => exact Effects.quietly PreviewRevision.replace_asks
  | startTask => exact Effects.quietly TaskRuntime.start_asks
  | ensure =>
    exact Effects.quietly (Effects.bind (.of_reads Reads.safeFields) fun _ => Effects.locked
      fun _ hrun => Effects.bind (Asks.prepareApprovalRequest hrun) fun _ =>
        .of_reads (Reads.pure _))
  | _ => exact Asks.of_within (Command.within _) (by simp [Command.parts])

end Commands

/-! ## What stays -/

section Runs

variable {r r' s : Records} {P : Primitives} {project : Project} {cmd : Command}

/-- A stored decision is none that differs. -/
theorem addDecision_kept {d d' : ApprovalDecision} {k : UUID} (h : r.addDecision d = .ok r')
    (hd : r.approvalDecisions.get? k = some d') : r'.approvalDecisions.get? k = some d' := by
  unfold Records.addDecision at h
  split_ifs at h with hhas hother
  cases h
  by_cases hk : d.requestId = k
  · have hsame : d' = d := by
      by_contra hne
      refine hother ?_
      rw [hk, hd]
      exact decide_eq_true hne
    rw [hsame, ← hk]
    exact Table.get?_put_self r.approvalDecisions d
  · exact (Table.get?_put_ne r.approvalDecisions hk).trans hd

/-- A decision stays as it is recorded. -/
theorem Command.Leads.decided (h : cmd.Leads P project r r') {k : UUID} {d : ApprovalDecision}
    (hd : r.approvalDecisions.get? k = some d) : r'.approvalDecisions.get? k = some d := by
  have hframe := h.frame
  obtain ⟨-, hr⟩ := h
  cases cmd with
  | decide requestId decision actor digest reason decisionId now =>
    obtain ⟨x, -, hr⟩ := Reads.safeFields.stored_bind hr
    obtain ⟨x, -, hr⟩ := (Reads.failIf _ _).stored_bind hr
    obtain ⟨x, -, hr⟩ := (Reads.failIf _ _).stored_bind hr
    obtain ⟨run, hrun, hr⟩ := Reads.locked.stored_bind hr
    obtain ⟨rfl, -⟩ := read_ok.mp hrun
    rw [stored_read_bind] at hr
    obtain ⟨request, -, hr⟩ := (Reads.found _ _).stored_bind hr
    obtain ⟨x, -, hr⟩ := (Reads.failIf _ _).stored_bind hr
    obtain ⟨x, -, hr⟩ := (Reads.failIf _ _).stored_bind hr
    obtain ⟨x, -, hr⟩ := Reads.validateSubject.stored_bind hr
    split at hr
    · rw [(Reads.failIf _ _).stored_eq hr]
      exact hd
    · obtain ⟨x, s, hs, hr⟩ := (Silent.stage _).stored_bind hr
      have hadded := stage_ok.mp hs
      have hrest := Within.stored (S := [.coordinator]) (Within.bind
        (Within.note (quiet_of_apart (by rfl))) fun _ =>
          Within.setApprovalActorStatus (frame_addDecision hadded).id.symm (by decide)) hr
      rw [hrest.decisions (by decide)]
      exact addDecision_kept hadded hd
  | _ =>
    rw [hframe.decisions (by simp [Command.parts])]
    exact hd

/-- The states in which the control policy of a run can be set. -/
def configurable : List RunState := [.received, .contextSync, .analyzing, .goalDefined]

/-- The control policy of a run is set once, before its first plan. -/
theorem Command.Leads.policy (h : cmd.Leads P project r r') :
    r'.policy = r.policy ∨ r'.run.lifecycle = r.run.lifecycle ∧ r.run.state ∈ configurable := by
  have hframe := h.frame
  have hsame : r'.controlPolicy = r.controlPolicy → r'.policy = r.policy := by
    intro heq
    unfold Records.policy
    rw [heq, hframe.id]
  obtain ⟨-, hr⟩ := h
  cases cmd with
  | configure mode gates now =>
    have hlifecycle := hframe.lifecycle (by simp [Command.parts])
    obtain ⟨run, hrun, hr⟩ := Reads.locked.stored_bind hr
    obtain ⟨rfl, -⟩ := read_ok.mp hrun
    unfold saveInitialControlPolicy at hr
    obtain ⟨-, -, hr⟩ := (Reads.failIf _ _).stored_bind hr
    rw [stored_read_bind] at hr
    split at hr
    · exact .inl (hsame (by rw [(Reads.failIf _ _).stored_eq hr]))
    · obtain ⟨x, hstate, hr⟩ := (Reads.failIf _ _).stored_bind hr
      exact .inr ⟨hlifecycle, not_not.mp (not_or.mp (failIf_ok.mp hstate).1).2⟩
  | _ => exact .inl (hsame (hframe.policy (by simp [Command.parts])))

/-- Every request is named after its subject. -/
def Named (r : Records) : Prop :=
  ∀ q ∈ r.approvalRequests, q.id = approvalRequestId r.run.id q.stage q.subjectVersion
    q.subjectDigest

theorem Reachable.named (h : Reachable P project r) : Named r := by
  refine h.induction (fun r hcreated => ?_) fun r s hnamed hstep => ?_
  · obtain ⟨request, branch, base, n, now, hframe⟩ := hcreated.frame
    intro q hq
    rw [hframe.requests (by decide)] at hq
    cases hq
  · obtain ⟨cmd, -, hstored⟩ := hstep
    obtain ⟨hid, hasked⟩ := Command.asks cmd r s rfl hstored
    intro q hq
    rw [hid]
    exact (hasked.named q hq).elim (hnamed q) id

/-! ## Approvals -/

/-- A gate finds the operator's approval of its subject. -/
def Records.granted (r : Records) (stage : ApprovalStage) (version : Nat) (digest : String) :
    Prop :=
  ∃ q, r.getRequest (approvalRequestId r.run.id stage version digest) = some q ∧
    q.status = .approved

/-- There is an approved request of a stage for a subject. -/
def Records.approved (r : Records) (stage : ApprovalStage) (digest : String) : Prop :=
  ∃ q ∈ r.requestList, q.stage = stage ∧ q.status = .approved ∧ q.subjectDigest = digest

/-- A request a gate finds is one for its subject. -/
theorem Named.approved {stage : ApprovalStage} {version : Nat} {digest : String} (h : Named r)
    (hgranted : r.granted stage version digest) : r.approved stage digest := by
  obtain ⟨q, hq, hstatus⟩ := hgranted
  obtain ⟨request, hrequest, rfl⟩ := Option.map_eq_some_iff.mp hq
  have hmem := Table.mem_of_get? hrequest
  have hname := h request hmem
  rw [Table.key_of_get? hrequest] at hname
  obtain ⟨hstage, hdigest⟩ := approvalRequestId_inj hname
  refine ⟨_, List.mem_map_of_mem (mem_sortEntities.mpr hmem), ?_, hstatus, ?_⟩
  · rw [hstage]
    unfold Records.approvalView
    split <;> rfl
  · rw [hdigest]
    unfold Records.approvalView
    split <;> rfl

/-- What is approved stays approved. -/
theorem Command.Leads.granted (h : cmd.Leads P project r r') {stage : ApprovalStage}
    {version : Nat} {digest : String} (hgranted : r.granted stage version digest) :
    r'.granted stage version digest := by
  obtain ⟨q, hq, hstatus⟩ := hgranted
  obtain ⟨hid, hasked⟩ := Command.asks cmd r r' rfl h.2
  obtain ⟨request, hrequest, rfl⟩ := Option.map_eq_some_iff.mp hq
  have hstays := hasked.kept _ _ hrequest
  cases hdecision : r.approvalDecisions.get? request.id with
  | none =>
    rw [hdecision] at hstatus
    cases hstatus
  | some d =>
    refine ⟨Records.approvalView request (some d), ?_, by rwa [hdecision] at hstatus⟩
    unfold Records.getRequest
    rw [hid, hstays, Option.map_some, h.decided hdecision]

end Runs

end Orqalis
