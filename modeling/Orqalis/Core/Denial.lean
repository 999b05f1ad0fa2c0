import Orqalis.Core.Reach

/-!
# What a refused command leaves

The guard of an operator's approval stores its request on its own, in the middle of a command.
`Denies` says of a command that whatever a refusal of it has stored is the request of a gate
and nothing else. A gate leaves the records alone where it lets a command pass, so it may stand
before anything whose refusals store nothing. Along these two rules the texts of the commands
with a gate are taken apart.
-/

namespace Orqalis

open Lib Lib.Transaction

/-! ## Requests of gates -/

/-- An event is in the log afterwards, at its end if it was not there before. -/
def Event.Logged (e : Event) (r r' : Records) : Prop :=
  r'.events = r.events ∧ e ∈ r.events ∨ r'.events = r.events ++ [e]

/-- A pending request is stored and announced, and nothing else has changed. -/
structure Posted (request : ApprovalRequest) (r r' : Records) : Prop where
  fresh : r.approvalRequests.has request.id = false
  undecided : r.approvalDecisions.has request.id = false
  pending : request.status = .pending ∧ request.decision = none
  announced : ∃ e : Event, e.eventType = .approvalRequested ∧
    e.payload.approvalRequestId = some request.id ∧ e.Logged r r'
  same : r' = { r with
    run := { r.run with lastEventSequence := r'.run.lastEventSequence }
    approvalRequests := r.approvalRequests.put request
    events := r'.events }

/-- An actor that waits for a dependency, with the times of another. -/
def ActorSession.waiting (a b : ActorSession) : ActorSession :=
  { a with
    status := .waitingForDependency
    completedAt := none
    workingMs := b.workingMs
    waitingMs := b.waitingMs
    blockedMs := b.blockedMs }

/-- The orchestrator's actor is shown as waiting, and nothing else has changed. -/
structure Waiting (r r' : Records) : Prop where
  shown : ∃ a b : ActorSession, r.actors.get? (orchestratorId r.run.id) = some a ∧
    r'.actors = r.actors.put (a.waiting b)
  announced : ∃ e : Event, e.eventType = .actorStatusChanged ∧
    e.actorSessionId = some (orchestratorId r.run.id) ∧ e.Logged r r'
  same : r' = { r with
    run := { r.run with lastEventSequence := r'.run.lastEventSequence }
    actors := r'.actors
    events := r'.events }

/-- A gate has asked for its approval. -/
def Requested (r r' : Records) : Prop :=
  ∃ request s, Posted request r s ∧ (r' = s ∨ Waiting s r')

/-- What a refused command leaves: what there was, or that and the request of a gate. -/
def Denied (r r' : Records) : Prop := r' = r ∨ Requested r r'

/-- The work of a run, its goal and its state are what they were. -/
structure Untouched (r r' : Records) : Prop where
  run : r'.run = { r.run with lastEventSequence := r'.run.lastEventSequence }
  goals : r'.goals = r.goals
  plans : r'.plans = r.plans
  tasks : r'.tasks = r.tasks
  executions : r'.executions = r.executions
  phases : r'.phases = r.phases

theorem Untouched.trans {r s t : Records} (h : Untouched r s) (h' : Untouched s t) :
    Untouched r t where
  run := h'.run.trans (by rw [h.run])
  goals := h'.goals.trans h.goals
  plans := h'.plans.trans h.plans
  tasks := h'.tasks.trans h.tasks
  executions := h'.executions.trans h.executions
  phases := h'.phases.trans h.phases

theorem Posted.untouched {request : ApprovalRequest} {r r' : Records} (h : Posted request r r') :
    Untouched r r' := by
  rw [h.same]
  exact ⟨rfl, rfl, rfl, rfl, rfl, rfl⟩

theorem Waiting.untouched {r r' : Records} (h : Waiting r r') : Untouched r r' := by
  rw [h.same]
  exact ⟨rfl, rfl, rfl, rfl, rfl, rfl⟩

theorem Denied.untouched {r r' : Records} (h : Denied r r') : Untouched r r' := by
  rcases h with rfl | ⟨request, s, hposted, rfl | hwaiting⟩
  · exact ⟨rfl, rfl, rfl, rfl, rfl, rfl⟩
  · exact hposted.untouched
  · exact hposted.untouched.trans hwaiting.untouched

/-! ## Runs with their orchestrator -/

/-- The orchestrator's actor is there, and what is decided was asked for. -/
structure Attended (r : Records) : Prop where
  staffed : r.actors.has (orchestratorId r.run.id) = true
  asked : ∀ id, r.approvalDecisions.has id = true → r.approvalRequests.has id = true

theorem Attended.of_frame {S : List Part} {r r' : Records} (h : Attended r) (hframe : Frame S r r')
    (hS : Part.decisions ∉ S) : Attended r' where
  staffed := by
    rw [hframe.id]
    exact hframe.retained.actors _ h.staffed
  asked id hid := by
    rw [hframe.decisions hS] at hid
    exact hframe.retained.requests id (h.asked id hid)

section Runs

variable {P : Primitives} {project : Project} {r r' : Records}

/-- Whoever asks for the orchestrator's actor finds it there afterwards. -/
theorem orchestratorActor_staffed {run : Run} {a : ActorSession} {now : Time}
    (h : orchestratorActor P run now r = .ok (a, r')) :
    r'.actors.has (orchestratorId run.id) = true := by
  unfold orchestratorActor at h
  rw [read_bind_ok] at h
  cases hget : r.actors.get? (orchestratorId run.id) with
  | some b =>
    rw [hget] at h
    obtain ⟨-, rfl⟩ := pure_ok.mp h
    exact Option.isSome_of_eq_some hget
  | none =>
    rw [hget] at h
    obtain ⟨x, s, hs, h⟩ := bind_ok.mp h
    obtain ⟨y, t, ht, h⟩ := bind_ok.mp h
    obtain ⟨-, rfl⟩ := pure_ok.mp h
    have hnoted : Frame [] s r' := Within.frame (Within.note (quiet_of_apart (by rfl))) ht
    refine hnoted.retained.actors _ ?_
    rw [change_ok.mp hs]
    exact Option.isSome_of_eq_some (Table.get?_put_self _ _)

theorem GoalService.open_staffed {run : Run} {mode : ControlMode}
    {gates : Option (List ApprovalStage)}
    (h : stored (GoalService.open' P run mode gates) r = some r') :
    r'.actors.has (orchestratorId run.id) = true := by
  obtain ⟨x, s, -, h⟩ := (Silent.note P run _).stored_bind h
  obtain ⟨a, t, ht, h⟩ := (Silent.orchestratorActor P run _).stored_bind h
  have hpolicy : Frame [.policy] t r' := Within.stored Within.saveInitialControlPolicy h
  exact hpolicy.retained.actors _ (orchestratorActor_staffed ht)

theorem GoalService.create_staffed {draft : GoalDraft} {mode : ControlMode}
    {gates : Option (List ApprovalStage)} {n : Nat}
    (h : stored (GoalService.create P draft mode gates n) r = some r') :
    r'.actors.has (orchestratorId r.run.id) = true := by
  obtain ⟨run, hrun, h⟩ := Reads.locked.stored_bind h
  obtain ⟨rfl, -⟩ := read_ok.mp hrun
  obtain ⟨x, -, h⟩ := (Reads.failIf _ _).stored_bind h
  obtain ⟨c, hc, h⟩ := Reads.contract.stored_bind h
  obtain rfl := contract_ok hc
  obtain ⟨y, s, hs, h⟩ := (Silent.stage _).stored_bind h
  obtain ⟨z, t, ht, h⟩ := (Silent.stage _).stored_bind h
  rcases stored_bind.mp h with ⟨w, u, hu, h⟩ | ⟨e, he, hcommitted⟩
  · have hannounced := Within.stored
      (GoalService.announceGoal_within GoalService.contractOf_pending) h
    exact hannounced.retained.actors _ (GoalService.open_staffed (stored_of_ok hu))
  · exact GoalService.open_staffed (stored_of_error he hcommitted)

/-- The orchestrator's actor is there as soon as a run is. -/
theorem Created.staffed (h : Created P project r) :
    r.actors.has (orchestratorId r.run.id) = true := by
  obtain ⟨request, branch, base, n, now, mode, gates, h | ⟨draft, m, h⟩⟩ := h
  · rw [(Within.stored GoalService.createPending_within h).id]
    obtain ⟨run, hrun, h⟩ := Reads.locked.stored_bind h
    obtain ⟨rfl, -⟩ := read_ok.mp hrun
    obtain ⟨x, -, h⟩ := (Reads.failIf _ _).stored_bind h
    exact GoalService.open_staffed h
  · rw [(Within.stored GoalService.create_within h).id]
    exact GoalService.create_staffed h

theorem Created.attended (h : Created P project r) : Attended r := by
  refine ⟨h.staffed, fun id hid => ?_⟩
  obtain ⟨request, branch, base, n, now, hframe⟩ := h.frame
  rw [hframe.decisions (by decide)] at hid
  cases hid

theorem Reads.safeFields {digest reason : String} : Reads (safeFields P digest reason) :=
  Reads.bind (Reads.failIf _ _) fun _ => Reads.failIf _ _

theorem Reads.validateSubject {run : Run} {stage : ApprovalStage} {version : Nat} :
    Reads (validateSubject run stage version) :=
  Reads.bind (Reads.read _) fun _ =>
    Reads.ite (Reads.failIf _ _) (Reads.ite (Reads.pure ()) (Reads.failIf _ _))

/-- A decision is stored on a request that is there. -/
theorem Attended.addDecision {d : ApprovalDecision} (h : Attended r)
    (hr : r.addDecision d = .ok r') : Attended r' := by
  unfold Records.addDecision at hr
  split_ifs at hr with hhas
  cases hr
  refine ⟨h.staffed, fun id hid => ?_⟩
  by_cases hd : d.requestId = id
  · exact hd ▸ hhas
  · refine h.asked id ?_
    unfold Table.has at hid ⊢
    rwa [Table.get?_put_ne _ hd] at hid

theorem ApprovalService.decide_attended {requestId decisionId : UUID}
    {decision : ApprovalDecisionKind} {actor digest reason : String} {now : Time}
    (h : Attended r)
    (hr : stored (ApprovalService.decide P requestId decision actor digest reason decisionId now)
      r = some r') : Attended r' := by
  obtain ⟨x, -, hr⟩ := Reads.safeFields.stored_bind hr
  obtain ⟨x, -, hr⟩ := (Reads.failIf _ _).stored_bind hr
  obtain ⟨x, -, hr⟩ := (Reads.failIf _ _).stored_bind hr
  obtain ⟨run, hrun, hr⟩ := Reads.locked.stored_bind hr
  obtain ⟨rfl, -⟩ := read_ok.mp hrun
  rw [stored_read_bind] at hr
  obtain ⟨request, -, hr⟩ := (Reads.found _ _).stored_bind hr
  obtain ⟨x, -, hr⟩ := (Reads.failIf _ _).stored_bind hr
  obtain ⟨x, -, hr⟩ := (Reads.failIf _ _).stored_bind hr
  obtain ⟨x, -, hr⟩ := Reads.validateSubject.stored_bind hr
  split at hr
  · rw [(Reads.failIf _ _).stored_eq hr]
    exact h
  · obtain ⟨x, s, hs, hr⟩ := (Silent.stage _).stored_bind hr
    have hadded := stage_ok.mp hs
    refine (h.addDecision hadded).of_frame (Within.stored (S := [.coordinator]) (Within.bind
      (Within.note (quiet_of_apart (by rfl))) fun _ =>
        Within.setApprovalActorStatus (frame_addDecision hadded).id.symm (by decide)) hr)
      (by decide)

theorem Step.attended (h : Attended r) (hstep : Step P project r r') : Attended r' := by
  obtain ⟨cmd, hcmd⟩ := hstep
  cases cmd with
  | decide => exact ApprovalService.decide_attended h hcmd.2
  | _ => exact h.of_frame hcmd.frame (by simp [Command.parts])

theorem Reachable.attended (h : Reachable P project r) : Attended r :=
  h.induction (fun _ => Created.attended) fun _ _ hattended hstep => Step.attended hattended hstep

end Runs

/-! ## Gates -/

section Gates

variable {α β : Type} {P : Primitives} {id : UUID} {run : Run} {now : Time} {r r' : Records}

/-- An appended event is logged, and nothing else but the cursor changes. -/
theorem append_logged {safe : String → Bool} {d : EventDraft} {e : Event}
    (h : r.append safe d = .ok (e, r')) :
    e.eventType = d.eventType ∧ e.payload = d.payload ∧ e.actorSessionId = d.actorSessionId ∧
      e.Logged r r' ∧ r' = { r with
        run := { r.run with lastEventSequence := r'.run.lastEventSequence }
        events := r'.events } := by
  unfold Records.append at h
  split at h
  · next existing hexisting =>
    split_ifs at h with hmatches
    cases h
    unfold Event.matches at hmatches
    simp only [Bool.decide_and, Bool.and_eq_true, decide_eq_true_eq] at hmatches
    exact ⟨hmatches.1, hmatches.2.1, hmatches.2.2.2.1,
      .inl ⟨rfl, List.mem_of_find?_eq_some hexisting⟩, rfl⟩
  · split_ifs at h
    cases h
    exact ⟨rfl, rfl, rfl, .inr rfl, rfl⟩

/-- The orchestrator's actor of a run that has one is shown as waiting, or it is left alone. -/
theorem setApprovalActorStatus_pending {requestId : UUID} {x : Unit} (hid : run.id = r.run.id)
    (hstaffed : r.actors.has (orchestratorId r.run.id) = true)
    (h : setApprovalActorStatus P run requestId .pending now r = .ok (x, r')) :
    r' = r ∨ Waiting r r' := by
  obtain ⟨b, hb⟩ := Option.isSome_iff_exists.mp hstaffed
  obtain ⟨a, s, hs, hset⟩ := bind_ok.mp h
  obtain ⟨hactor, -, hthere⟩ := orchestratorActor_ok hid hs
  obtain ⟨rfl, rfl⟩ := hthere b hb
  by_cases hterminal : a.status.terminal = true
  · rw [if_pos hterminal] at hset
    exact .inl (pure_ok.mp hset).2
  rw [if_neg hterminal, if_neg (by decide : ¬ ApprovalStatus.pending = .rejected)] at hset
  split_ifs at hset with hstatus
  · obtain ⟨updated, t, ht, hset⟩ := bind_ok.mp hset
    obtain ⟨-, rfl⟩ := pure_ok.mp hset
    obtain ⟨e, u, hu, ht⟩ := bind_ok.mp ht
    obtain ⟨htype, -, hsession, hlogged, hsame⟩ := append_logged (emit_ok.mp hu)
    rw [read_bind_ok] at ht
    obtain ⟨y, v, hv, ht⟩ := bind_ok.mp ht
    obtain ⟨hupdated, rfl⟩ := pure_ok.mp ht
    have hput := change_ok.mp hv
    have hactors : u.actors = s.actors := by rw [hsame]
    refine .inr ⟨⟨a, updated, hb, ?_⟩, ⟨e, htype, hsession.trans (congrArg some hactor), ?_⟩, ?_⟩
    · rw [hput, Records.saveActor, hactors, hupdated]
      rfl
    · rw [hput]
      exact hlogged
    · rw [hput, hsame]
      rfl
  · exact .inl (pure_ok.mp hset).2

/-- What a gate that makes its request leaves behind. -/
theorem addApprovalRequest_requested {stage : ApprovalStage} {version : Nat}
    {digest reason : String} {request : ApprovalRequest} (h : Attended r)
    (hid : run.id = r.run.id)
    (hr : addApprovalRequest P run stage version digest reason now r = .ok (request, r')) :
    Requested r r' := by
  obtain ⟨x, s, hs, hr⟩ := bind_ok.mp hr
  obtain ⟨y, t, ht, hr⟩ := bind_ok.mp hr
  obtain ⟨z, u, hu, hr⟩ := bind_ok.mp hr
  obtain ⟨-, rfl⟩ := pure_ok.mp hr
  have hadded := stage_ok.mp hs
  unfold Records.addRequest at hadded
  split_ifs at hadded with hhas
  obtain ⟨q, hq, hpending, rfl⟩ : ∃ q : ApprovalRequest,
      q.id = approvalRequestId run.id stage version digest ∧
        (q.status = .pending ∧ q.decision = none) ∧
        s = { r with approvalRequests := r.approvalRequests.put q } :=
    ⟨_, rfl, ⟨rfl, rfl⟩, (Except.ok.inj hadded).symm⟩
  obtain ⟨e, he⟩ := note_ok.mp ht
  obtain ⟨htype, hpayload, -, hlogged, hsame⟩ := append_logged he
  have hfresh : r.approvalRequests.has q.id = false :=
    Bool.of_not_eq_true fun hthere => hhas (.inl (hq ▸ hthere))
  refine ⟨q, t, ⟨hfresh, ?_, hpending, ⟨e, htype, ?_, hlogged⟩, hsame⟩, ?_⟩
  · exact Bool.of_not_eq_true fun hthere => by simpa [hfresh] using h.asked _ hthere
  · rw [hpayload, hq]
  · have hactors : t.actors = r.actors := by rw [hsame]
    have hidt : t.run.id = r.run.id := by rw [hsame]
    exact setApprovalActorStatus_pending (hid.trans hidt.symm)
      (by rw [hactors, hidt]; exact h.staffed) hu

/-- Whatever a refusal of the transaction has stored is the request of a gate. -/
def Denies (id : UUID) (m : RunTx α) : Prop :=
  ∀ r e s, r.run.id = id → Attended r → m r = .error e → e.committed = some s → Requested r s

/-- A transaction that leaves the records alone where it passes, and else denies. -/
structure Gate (id : UUID) (m : RunTx α) : Prop where
  passes : ∀ r a r', m r = .ok (a, r') → r' = r
  denies : Denies id m

theorem Silent.denies {m : RunTx α} (h : Silent m) : Denies id m := by
  intro r e s _ _ he hcommitted
  rw [h r e he] at hcommitted
  cases hcommitted

theorem Reads.gate {m : RunTx α} (h : Reads m) : Gate id m := ⟨h.same, h.silent.denies⟩

/-- A gate may stand before whatever denies. -/
theorem Gate.guards {m : RunTx α} {f : α → RunTx β} (hm : Gate id m)
    (hf : ∀ a, Denies id (f a)) : Denies id (m >>= f) := by
  intro r e s hid hr he hcommitted
  rcases bind_error he with he | ⟨a, t, ht, he⟩
  · exact hm.denies r e s hid hr he hcommitted
  · have hsame := hm.passes r a t ht
    rw [hsame] at he
    exact hf a r e s hid hr he hcommitted

theorem Gate.bind {m : RunTx α} {f : α → RunTx β} (hm : Gate id m) (hf : ∀ a, Gate id (f a)) :
    Gate id (m >>= f) where
  passes := by
    intro r b r' h
    obtain ⟨a, s, hs, h⟩ := bind_ok.mp h
    have hsame := hm.passes r a s hs
    rw [hsame] at h
    exact (hf a).passes r b r' h
  denies := hm.guards fun a => (hf a).denies

theorem Gate.ite {c : Prop} [Decidable c] {m m' : RunTx α} (h : Gate id m) (h' : Gate id m') :
    Gate id (if c then m else m') := by
  split
  · exact h
  · exact h'

/-- What follows the reading of the run is about that run. -/
theorem Denies.locked {f : Run → RunTx α} (h : ∀ run, run.id = id → Denies id (f run)) :
    Denies id (lockedRun >>= f) := by
  intro r e s hid hr he hcommitted
  exact h r.run hid r e s hid hr he hcommitted

theorem Denies.lockedOf {runId : UUID} {f : Run → RunTx α}
    (h : ∀ run, run.id = id → Denies id (f run)) : Denies id (lockedRunOf runId >>= f) := by
  intro r e s hid hr he hcommitted
  rcases bind_error he with he | ⟨run, t, ht, he⟩
  · exact (Reads.lockedRunOf runId).silent.denies r e s hid hr he hcommitted
  · obtain ⟨rfl, rfl, -⟩ := lockedRunOf_ok.mp ht
    exact h _ hid t e s hid hr he hcommitted

theorem Denies.ite {c : Prop} [Decidable c] {m m' : RunTx α} (h : Denies id m)
    (h' : Denies id m') : Denies id (if c then m else m') := by
  split
  · exact h
  · exact h'

/-- A gate without its request stores it before it refuses. -/
theorem Denies.addApprovalRequest {stage : ApprovalStage} {version : Nat}
    {digest reason : String} {error : ApprovalRequest → Error} (hrun : run.id = id) :
    Denies id (addApprovalRequest P run stage version digest reason now >>= fun request =>
      (commitAndFail (error request) : RunTx α)) := by
  intro r e s hid hr he hcommitted
  rcases bind_error he with he | ⟨request, t, ht, he⟩
  · exact Silent.addApprovalRequest.denies r e s hid hr he hcommitted
  · cases he
    cases hcommitted
    exact addApprovalRequest_requested hr (hrun.trans hid.symm) ht

/-- The check of an approval is a gate. -/
theorem Gate.requireApproval {stage : ApprovalStage} {version : Nat} {digest reason : String}
    (hrun : run.id = id) : Gate id (requireApproval P run stage version digest reason now) where
  passes _ _ _ h := (requireApproval_ok h).1
  denies := by
    refine (Reads.read _).gate.guards fun r => Denies.ite (Reads.safeFields.gate.guards fun _ =>
      Reads.validateSubject.gate.guards fun _ => ?_) (Silent.pure ()).denies
    split
    · exact (Silent.failIf _ _).denies
    · exact Denies.addApprovalRequest hrun

/-! ## Commands with a gate -/

theorem Orchestrator.installPlan_denies {plan : ValidPlan} {key : String} :
    Denies id (Orchestrator.installPlan P plan key now) := by
  refine (Reads.requireKey key).gate.guards fun _ => Denies.lockedOf fun run hrun =>
    (Reads.read _).gate.guards fun preparation => Reads.prepend.gate.guards fun _ =>
    (Reads.failIf _ _).gate.guards fun _ => (Reads.ask _).gate.guards fun _ =>
    (Reads.read _).gate.guards fun r => Denies.ite ?_ ?_
  · exact (Reads.bind (Reads.requireSamePlan _ _) fun _ => Reads.pure _).gate.denies
  · exact Reads.checkInitialPlan.gate.guards fun _ => (Gate.requireApproval hrun).guards fun _ =>
      (Silent.bind Silent.storeInitialPlan fun _ => Reads.locked.silent).denies

theorem TaskRuntime.requireTaskApproval_gate {task : Task} (hrun : run.id = id) :
    Gate id (TaskRuntime.requireTaskApproval P run task now) := by
  refine (Reads.read _).gate.bind fun r => Gate.ite (Gate.ite (Gate.requireApproval hrun)
    ((Reads.ask _).gate.bind fun workspace => ?_)) (Reads.pure ()).gate
  split
  · exact (Reads.fail _).gate
  · exact Gate.requireApproval hrun

theorem TaskRuntime.start_denies {taskId : UUID} {key : String} :
    Denies id (TaskRuntime.start P taskId key now) := by
  refine (Reads.requireKey key).gate.guards fun _ => Denies.locked fun run hrun =>
    (Reads.read _).gate.guards fun r => ?_
  split
  · exact (Reads.bind (Reads.failIf _ _) fun _ => Reads.found _ _).gate.denies
  · exact (Reads.failIf _ _).gate.guards fun _ => (Reads.ask _).gate.guards fun _ =>
      Reads.startable.gate.guards fun _ =>
      (TaskRuntime.requireTaskApproval_gate hrun).guards fun _ =>
      (Silent.bind (Silent.failIf _ _) fun _ => Silent.launch).denies

theorem Orchestrator.guardPlan_gate {target : RunState} (hrun : run.id = id) :
    Gate id (Orchestrator.guardPlan P run target now) :=
  (Reads.ask _).gate.bind fun _ => (Reads.found _ _).gate.bind fun _ =>
    Gate.ite (Gate.requireApproval hrun) (Reads.pure ()).gate

theorem Orchestrator.guard_gate {target : RunState} (hrun : run.id = id) :
    Gate id (Orchestrator.guard P run target now) := by
  refine Reads.guardDelivery.gate.bind fun _ => ?_
  unfold Orchestrator.guardState
  split
  · exact (Reads.bind Reads.requireDeliveryBinding fun _ => Reads.guardAcceptance).gate
  · exact (Reads.ask _).gate.bind fun _ => (Reads.found _ _).gate.bind fun _ =>
      (Reads.failIf _ _).gate.bind fun _ => Gate.requireApproval hrun
  · exact (Reads.failIf _ _).gate
  · exact Orchestrator.guardPlan_gate hrun
  · exact Gate.ite (Reads.guardRepaired.gate.bind fun _ => Orchestrator.guardPlan_gate hrun)
      (Orchestrator.guardPlan_gate hrun)
  · exact Reads.guardSuspension.gate
  · exact Reads.guardSuspension.gate
  · exact Reads.guardSuspension.gate
  · exact (Reads.pure ()).gate

theorem Orchestrator.advance_denies {target : RunState} {key : String} {phaseId : UUID} :
    Denies id (Orchestrator.advance P target key now phaseId) := by
  refine (Reads.requireKey key).gate.guards fun _ => Denies.locked fun run hrun =>
    (Reads.read _).gate.guards fun r => ?_
  split
  · exact (Reads.bind (Reads.failIf _ _) fun _ => Reads.pure _).gate.denies
  · exact (Reads.ask _).gate.guards fun _ => (Orchestrator.guard_gate hrun).guards fun _ =>
      (Silent.bind (Silent.orchestratorActor _ _ _) fun _ => Silent.bind Silent.close fun _ =>
        Silent.bind Silent.enter fun _ => Reads.locked.silent).denies

theorem PlanRevision.requireBasis_gate {repair : Bool} (hrun : run.id = id) :
    Gate id (PlanRevision.requireBasis P run repair now) := by
  refine Gate.ite ?_ (Reads.bind Reads.guardDelivery fun _ => Reads.requireDeliveryBinding).gate
  exact (Reads.ask _).gate.bind fun _ => (Reads.found _ _).gate.bind fun _ =>
    (Reads.failIf _ _).gate.bind fun _ => Gate.requireApproval hrun

theorem PlanRevision.install_denies {plan : ValidPlan} {key : String} {repair : Bool} :
    Denies id (PlanRevision.install P plan key repair now) := by
  refine (Reads.requireKey key).gate.guards fun _ => Denies.lockedOf fun run hrun =>
    (Reads.read _).gate.guards fun r => Denies.ite ?_ ?_
  · exact (Reads.bind (Reads.requireSamePlan _ _) fun _ => Reads.pure _).gate.denies
  · exact (Reads.failIf _ _).gate.guards fun _ => (Reads.failIf _ _).gate.guards fun _ =>
      (Reads.ask _).gate.guards fun _ => (Reads.found _ _).gate.guards fun _ =>
      (Reads.found _ _).gate.guards fun _ => (PlanRevision.requireBasis_gate hrun).guards fun _ =>
      (Silent.bind Reads.checkExtension.silent fun _ => Silent.bind Silent.storeExtension
        fun _ => Reads.locked.silent).denies

theorem GoalReplanning.checkReplacement_gate {plan : TaskPlan} (hrun : run.id = id) :
    Gate id (GoalReplanning.checkReplacement P run plan now) :=
  (Reads.ask _).gate.bind fun _ => (Reads.failIf _ _).gate.bind fun _ =>
    (Reads.found _ _).gate.bind fun _ => (Reads.failIf _ _).gate.bind fun _ =>
    (Reads.read _).gate.bind fun _ => (Reads.failIf _ _).gate.bind fun _ =>
    (Reads.failIf _ _).gate.bind fun _ => (Reads.failIf _ _).gate.bind fun _ =>
    (Reads.found _ _).gate.bind fun _ => (Gate.requireApproval hrun).bind fun _ =>
    (Reads.failIf _ _).gate.bind fun _ => (Reads.failIf _ _).gate.bind fun _ =>
    (Reads.pure _).gate

theorem GoalReplanning.install_denies {plan : ValidPlan} {key : String} :
    Denies id (GoalReplanning.install P plan key now) := by
  refine (Reads.requireKey key).gate.guards fun _ => Denies.lockedOf fun run hrun =>
    (Reads.read _).gate.guards fun r => Denies.ite ?_ ?_
  · exact (Reads.bind (Reads.requireSamePlan _ _) fun _ => Reads.pure _).gate.denies
  · exact (GoalReplanning.checkReplacement_gate hrun).guards fun _ =>
      (Silent.bind Silent.storeReplacement fun _ => Reads.locked.silent).denies

/-- The commands that ask an operator. -/
def Command.gated : Command → Bool
  | installPlan .. | startTask .. | advance .. | installRepair .. | replan .. => true
  | _ => false

theorem Denies.quietly {m : RunTx α} (h : Denies id m) : Denies id (quietly m) := by
  intro r e s hid hr he hcommitted
  rcases bind_error he with he | ⟨a, t, -, he⟩
  · exact h r e s hid hr he hcommitted
  · cases he

theorem Command.denies {project : Project} {cmd : Command} (h : cmd.gated = true) :
    Denies id (cmd.perform P project) := by
  cases cmd with
  | installPlan => exact Orchestrator.installPlan_denies.quietly
  | startTask => exact TaskRuntime.start_denies.quietly
  | advance => exact Orchestrator.advance_denies.quietly
  | installRepair => exact PlanRevision.install_denies.quietly
  | replan => exact GoalReplanning.install_denies.quietly
  | _ => cases h

end Gates

/-- A command with a gate that is refused leaves the persisted run as it was, but for one
pending request, its announcement and the orchestrator's actor that waits for it. -/
theorem denial_frame {P : Primitives} {project : Project} {r : Records} {cmd : Command}
    {e : Refusal} (hr : Reachable P project r) (hcmd : cmd.gated = true)
    (he : cmd.perform P project r = .error e) :
    Denied r (e.committed.getD r) ∧ Untouched r (e.committed.getD r) := by
  have hdenied : Denied r (e.committed.getD r) := by
    cases hcommitted : e.committed with
    | none => exact .inl rfl
    | some s => exact .inr (Command.denies hcmd r e s rfl hr.attended he hcommitted)
  exact ⟨hdenied, hdenied.untouched⟩

namespace Sample

/-- A run whose goal an operator approves, when its goal is defined. -/
def supervising : Option Records :=
  (stored (GoalService.create primitives draft .supervised (some [.goal]) 2)
    { run := GoalService.newRun project "Greet" "main" "base" (.uuid4 1) 0 }).bind
  (history primitives project (beginning.take 3))

/-- The run. -/
def supervised : Records := supervising.get (by decide +kernel)

theorem supervised_reachable : Reachable primitives project supervised := by
  obtain ⟨r₀, h₀, hr⟩ := Option.bind_eq_some_iff.mp (Option.some_get _).symm
  have hcreated : Created primitives project r₀ :=
    ⟨"Greet", "main", "base", 1, 0, .supervised, some [.goal], .inr ⟨draft, 2, h₀⟩⟩
  exact Reachable.history ⟨r₀, hcreated, .refl⟩ hr

/-- The installation of its plan. -/
def installation : RunTx Unit :=
  (Command.installPlan ⟨plan, plan_valid⟩ "plan" 4).perform primitives project

theorem installation_refused : (installation supervised).isOk = false := by decide +kernel

theorem installation_asks : (stored installation supervised).isSome = true := by decide +kernel

end Sample

theorem sample_denial : ∃ e, Sample.installation Sample.supervised = .error e ∧
    e.committed.isSome = true ∧ Denied Sample.supervised (e.committed.getD Sample.supervised) := by
  cases he : Sample.installation Sample.supervised with
  | error e =>
    refine ⟨e, rfl, ?_, (denial_frame Sample.supervised_reachable rfl he).1⟩
    have hasks := Sample.installation_asks
    unfold stored at hasks
    rwa [he] at hasks
  | ok p =>
    have hrefused := Sample.installation_refused
    rw [he] at hrefused
    cases hrefused

end Orqalis
