import Orqalis.Core.Labor

/-!
# Replays

A command that takes a key leaves an event under it, and a command that finds an event under its
key changes nothing. The log only grows, so what has been answered under a key is never carried
out again: not by the same call, nor by another command whose events go by the same name.
-/

namespace Orqalis

open Lib Lib.Transaction

section Keyed

variable {α β : Type} {own : UUID} {S : List Part} {key : String} {P : Primitives} {run : Run}
  {now : Time}

/-- Transactions that leave an event under a key when they answer. -/
def Leaves (own : UUID) (key : String) (m : RunTx α) : Prop :=
  ∀ r x r', r.run.id = own → m r = .ok (x, r') → (r'.byKey key).isSome

/-- Transactions that only add to the log when they answer. -/
def Grows (own : UUID) (m : RunTx α) : Prop :=
  ∀ r x r', r.run.id = own → m r = .ok (x, r') → r.events <+: r'.events ∧ r'.run.id = own

/-- Transactions that change nothing where there is an event under a key, and leave one when they
answer. -/
structure Keyed (own : UUID) (key : String) (m : RunTx α) : Prop where
  replays : ∀ r r', r.run.id = own → (r.byKey key).isSome → stored m r = some r' → r' = r
  leaves : Leaves own key m

/-! ## What adds to the log -/

theorem Within.grows {m : RunTx α} (h : Within own S m) : Grows own m := by
  intro r x r' hid hr
  have hframe := h r r' hid (stored_of_ok hr)
  exact ⟨hframe.grown, hframe.id.trans hid⟩

theorem Reads.grows {m : RunTx α} (h : Reads m) : Grows own m := by
  intro r x r' hid hr
  rw [h.same r x r' hr]
  exact ⟨List.prefix_refl _, hid⟩

theorem Grows.bind {m : RunTx α} {f : α → RunTx β} (hm : Grows own m)
    (hf : ∀ a, Grows own (f a)) : Grows own (m >>= f) := by
  intro r x r' hid h
  obtain ⟨a, s, hs, h⟩ := bind_ok.mp h
  obtain ⟨hgrown, hids⟩ := hm r a s hid hs
  obtain ⟨hrest, hid'⟩ := hf a s x r' hids h
  exact ⟨hgrown.trans hrest, hid'⟩

theorem Grows.ite {c : Prop} [Decidable c] {m m' : RunTx α} (h : Grows own m)
    (h' : Grows own m') : Grows own (if c then m else m') := by
  split
  · exact h
  · exact h'

/-! ## What leaves an event -/

theorem Leaves.emit (d : EventDraft) : Leaves own d.idempotencyKey (emit P run d) := by
  intro r x r' _ h
  exact byKey_of_append (d := { d with phase := some run.uiPhase }) (emit_ok.mp h)

theorem Leaves.note (d : EventDraft) : Leaves own d.idempotencyKey (note P run d) := by
  intro r x r' _ h
  obtain ⟨e, h⟩ := note_ok.mp h
  exact byKey_of_append (d := { d with phase := some run.uiPhase }) h

/-- The event is left by the first part. -/
theorem Leaves.first {m : RunTx α} {f : α → RunTx β} (hm : Leaves own key m) (hid : Grows own m)
    (hf : ∀ a, Grows own (f a)) : Leaves own key (m >>= f) := by
  intro r x r' hr h
  obtain ⟨a, s, hs, h⟩ := bind_ok.mp h
  exact byKey_isSome_of_grown (hf a s x r' (hid r a s hr hs).2 h).1 (hm r a s hr hs)

/-- The event is left by the first part, and the rest only reads. -/
theorem Leaves.read {m : RunTx α} {f : α → RunTx β} (hm : Leaves own key m)
    (hf : ∀ a, Reads (f a)) : Leaves own key (m >>= f) := by
  intro r x r' hr h
  obtain ⟨a, s, hs, h⟩ := bind_ok.mp h
  rw [(hf a).same s x r' h]
  exact hm r a s hr hs

/-- The event is left by what follows. -/
theorem Leaves.later {m : RunTx α} {f : α → RunTx β} (hm : Grows own m)
    (hf : ∀ a, Leaves own key (f a)) : Leaves own key (m >>= f) := by
  intro r x r' hr h
  obtain ⟨a, s, hs, h⟩ := bind_ok.mp h
  exact hf a s x r' (hm r a s hr hs).2 h

/-- The event is left by what follows the storing of a record. -/
theorem Leaves.staged {f : Records → Except Error Records} {g : PUnit → RunTx β}
    (hid : ∀ r r', r.run.id = own → f r = .ok r' → r'.run.id = own)
    (hg : ∀ x, Leaves own key (g x)) : Leaves own key (stage f >>= g) := by
  intro r x r' hr h
  obtain ⟨s, hs, h⟩ := stage_bind_ok.mp h
  exact hg ⟨⟩ s x r' (hid r s hr hs) h

/-- The event is left by what follows the reading of the coordinator. -/
theorem Leaves.coordinated {f : ActorSession → RunTx α} (hrun : run.id = own)
    (hf : ∀ a, Leaves own key (f a)) : Leaves own key (orchestratorActor P run now >>= f) := by
  intro r x r' hid h
  obtain ⟨a, s, hs, h⟩ := bind_ok.mp h
  obtain ⟨-, hframe, -⟩ := orchestratorActor_ok (hrun.trans hid.symm) hs
  exact hf a s x r' (hframe.id.trans hid) h

/-! ## What looks for one first -/

/-- A part that only reads comes first. -/
theorem Keyed.bind {m : RunTx α} {f : α → RunTx β} (hm : Reads m) (hf : ∀ a, Keyed own key (f a)) :
    Keyed own key (m >>= f) where
  replays r r' hid hkey h := by
    obtain ⟨a, -, h⟩ := hm.stored_bind h
    exact (hf a).replays r r' hid hkey h
  leaves r x r' hr h := by
    obtain ⟨a, -, h⟩ := hm.bind_ok h
    exact (hf a).leaves r x r' hr h

/-- What follows the reading of the run is about that run. -/
theorem Keyed.locked {f : Run → RunTx α} (h : ∀ run, run.id = own → Keyed own key (f run)) :
    Keyed own key (lockedRun >>= f) where
  replays r r' hid hkey hr := (h r.run hid).replays r r' hid hkey hr
  leaves r x r' hid hr := (h r.run hid).leaves r x r' hid (locked_bind_ok.mp hr)

theorem Keyed.lockedOf {runId : UUID} {f : Run → RunTx α}
    (h : ∀ run, run.id = own → Keyed own key (f run)) :
    Keyed own key (lockedRunOf runId >>= f) where
  replays r r' hid hkey hr := by
    obtain ⟨run, hrun, hr⟩ := (Reads.lockedRunOf runId).stored_bind hr
    obtain ⟨rfl, -, -⟩ := lockedRunOf_ok.mp hrun
    exact (h r.run hid).replays r r' hid hkey hr
  leaves r x r' hid hr := by
    obtain ⟨run, hrun, hr⟩ := (Reads.lockedRunOf runId).bind_ok hr
    obtain ⟨rfl, -, -⟩ := lockedRunOf_ok.mp hrun
    exact (h r.run hid).leaves r x r' hid hr

/-- A look for the event decides. -/
theorem Keyed.split {m : Records → RunTx α}
    (hfound : ∀ r e, r.byKey key = some e → Reads (m r))
    (hfresh : ∀ r, r.byKey key = none → Leaves own key (m r)) :
    Keyed own key (Transaction.read id >>= m) where
  replays r r' _ hkey h := by
    obtain ⟨e, he⟩ := Option.isSome_iff_exists.mp hkey
    exact (hfound r e he).stored_eq h
  leaves r x r' hid h := by
    have h : m r r = .ok (x, r') := read_bind_ok.mp h
    cases he : r.byKey key with
    | some e =>
      rw [(hfound r e he).same r x r' h, he]
      rfl
    | none => exact hfresh r he r x r' hid h

/-- The answer of a command is forgotten. -/
theorem Keyed.quietly {m : RunTx α} (h : Keyed own key m) : Keyed own key (quietly m) where
  replays r r' hid hkey hr := h.replays r r' hid hkey (stored_quietly.mp hr)
  leaves r x r' hid hr := by
    obtain ⟨a, s, hs, hr⟩ := bind_ok.mp hr
    rw [(pure_ok.mp hr).2]
    exact h.leaves r a s hid hs

end Keyed

/-! ## Commands -/

section Commands

variable {own : UUID} {key : String} {P : Primitives} {now : Time}

theorem saveRun_id {updated : Run} (hid : updated.id = own) {r r' : Records}
    (h : r.saveRun updated = .ok r') : r'.run.id = own := by
  rw [saveRun_ok h]
  exact hid

theorem savePlan_id {plan : TaskPlan} {r r' : Records} (hid : r.run.id = own)
    (h : r.savePlan plan = .ok r') : r'.run.id = own :=
  (frame_savePlan h).id.trans hid

theorem Orchestrator.enter_leaves {run : Run} {target : RunState} {phaseId : UUID}
    (hrun : run.id = own) :
    Leaves own s!"{key}:run" (Orchestrator.enter P run target key now phaseId) := by
  have hmoved : (Orchestrator.moved run target now).id = own := hrun
  refine Leaves.coordinated hrun fun actor => Leaves.staged (fun r r' _ h => saveRun_id hmoved h)
    fun _ => Leaves.first (Leaves.emit _)
    (Within.emit (S := []) (quiet_transition rfl rfl)).grows fun event => ?_
  exact Grows.bind setActorStatus_within.grows fun _ => Grows.bind updatePhase_within.grows
    fun _ => Grows.ite (Orchestrator.requestPlanApproval_within hmoved).grows
      (Reads.pure ()).grows

theorem Orchestrator.advance_keyed {target : RunState} {phaseId : UUID} :
    Keyed own s!"{key}:run" (Orchestrator.advance P target key now phaseId) := by
  refine Keyed.bind (Reads.requireKey key) fun _ => Keyed.locked fun run hrun =>
    Keyed.split (fun r e he => ?_) fun r he => ?_
  · rw [he]
    exact Reads.bind (Reads.failIf _ _) fun _ => Reads.pure _
  · rw [he]
    exact Leaves.later (Reads.ask _).grows fun _ =>
      Leaves.later (Orchestrator.guard_within hrun).grows fun _ => Leaves.coordinated hrun
      fun _ => Leaves.later (Orchestrator.close_within hrun).grows fun _ =>
      Leaves.read (Orchestrator.enter_leaves hrun) fun _ => Reads.locked

theorem Orchestrator.installPlan_keyed {plan : ValidPlan} :
    Keyed own s!"{key}:plan" (Orchestrator.installPlan P plan key now) := by
  refine Keyed.bind (Reads.requireKey key) fun _ => Keyed.lockedOf fun run hrun =>
    Keyed.bind (Reads.read _) fun _ => Keyed.bind Reads.prepend fun plan =>
    Keyed.bind (Reads.failIf _ _) fun _ => Keyed.bind (Reads.ask _) fun plan =>
    Keyed.split (fun r e he => ?_) fun r he => ?_
  · rw [he]
    exact Reads.bind (Reads.requireSamePlan _ _) fun _ => Reads.pure _
  · rw [he]
    refine Leaves.later Reads.checkInitialPlan.grows fun _ =>
      Leaves.later (Within.requireApproval hrun).grows fun _ => Leaves.read ?_ fun _ => Reads.locked
    have hupdated : ({ run with planVersion := plan.1.version } : Run).id = own := hrun
    exact Leaves.staged (fun r r' hid h => savePlan_id hid h) fun _ =>
      Leaves.staged (fun r r' _ h => saveRun_id hupdated h)
      fun _ => Leaves.first (Leaves.note _) (Within.note (S := []) (quiet_of_apart (by rfl))).grows
      fun _ => Grows.bind announce_within.grows fun _ => refreshReady_within.grows

theorem PlanRevision.install_keyed {plan : ValidPlan} {repair : Bool} :
    Keyed own s!"{key}:revised" (PlanRevision.install P plan key repair now) := by
  refine Keyed.bind (Reads.requireKey key) fun _ => Keyed.lockedOf fun run hrun =>
    Keyed.split (fun r e he => ?_) fun r he => ?_
  · rw [he]
    exact Reads.bind (Reads.requireSamePlan _ _) fun _ => Reads.pure _
  · rw [he]
    refine Leaves.later (Reads.failIf _ _).grows fun _ => Leaves.later (Reads.failIf _ _).grows
      fun _ => Leaves.later (Reads.ask _).grows fun _ => Leaves.later (Reads.found _ _).grows
      fun current => Leaves.later (Reads.found _ _).grows fun _ =>
      Leaves.later (PlanRevision.requireBasis_within hrun).grows fun _ =>
      Leaves.later Reads.checkExtension.grows fun _ => Leaves.read ?_ fun _ => Reads.locked
    have hupdated : ({ run with
        planVersion := plan.1.version
        repairIteration := run.repairIteration + if repair then 1 else 0 } : Run).id = own := hrun
    exact Leaves.staged (fun r r' hid h => savePlan_id hid h) fun _ =>
      Leaves.staged (fun r r' _ h => saveRun_id hupdated h) fun _ =>
      Leaves.first (Leaves.note _) (Within.note (S := []) (quiet_of_apart (by rfl))).grows
      fun _ => Grows.bind (Grows.ite
        (Within.noted (S := [.repairs]) (fun _ => .inl rfl) fun h => absurd (by decide) h).grows
        (Reads.pure ()).grows) fun _ =>
      Grows.bind announce_within.grows fun _ => refreshReady_within.grows

theorem GoalReplanning.install_keyed {plan : ValidPlan} :
    Keyed own s!"replan:{key}" (GoalReplanning.install P plan key now) := by
  refine Keyed.bind (Reads.requireKey key) fun _ => Keyed.lockedOf fun run hrun =>
    Keyed.split (fun r e he => ?_) fun r he => ?_
  · rw [he]
    exact Reads.bind (Reads.requireSamePlan _ _) fun _ => Reads.pure _
  · rw [he]
    refine Leaves.later (GoalReplanning.checkReplacement_within hrun).grows fun current =>
      Leaves.read ?_ fun _ => Reads.locked
    have hupdated : ({ run with
        planVersion := plan.1.version, resumeState := some .planned } : Run).id = own := hrun
    exact Leaves.later (Reads.read _).grows fun _ =>
      Leaves.later (Within.forM fun _ _ => GoalReplanning.retireAttempt_within hrun).grows fun _ =>
      Leaves.later (Within.forM fun _ _ => cancelTask_within).grows fun _ =>
      Leaves.staged (fun r r' hid h => savePlan_id hid h) fun _ =>
      Leaves.staged (fun r r' _ h => saveRun_id hupdated h) fun _ =>
      Leaves.first (Leaves.note _) (Within.note (S := []) (quiet_of_apart (by rfl))).grows
      fun _ => Grows.bind announce_within.grows fun _ => refreshReady_within.grows

theorem PreviewRevision.replace_keyed {plan : ValidPlan} {expectedVersion : Nat} :
    Keyed own s!"preview-edit:{key}"
      (PreviewRevision.replace P plan expectedVersion key now) := by
  refine Keyed.bind (Reads.requireKey key) fun _ => Keyed.lockedOf fun run hrun =>
    Keyed.split (fun r e he => ?_) fun r he => ?_
  · rw [he]
    exact Reads.bind Reads.requireSameEdit fun _ => Reads.pure _
  · rw [he]
    refine Leaves.later Reads.checkUnexecuted.grows fun found =>
      Leaves.later Reads.checkEdit.grows fun revised => Leaves.read ?_ fun _ => Reads.locked
    have hupdated : ({ run with planVersion := revised.1.version } : Run).id = own := hrun
    exact Leaves.later (Within.forM fun _ _ => PreviewRevision.supersede_within).grows fun _ =>
      Leaves.staged (fun r r' hid h => savePlan_id hid h) fun _ =>
      Leaves.staged (fun r r' _ h => saveRun_id hupdated h) fun _ =>
      Leaves.first (Leaves.note _) (Within.note (S := []) (quiet_of_apart (by rfl))).grows
      fun _ => Grows.bind announce_within.grows fun _ => Grows.bind refreshReady_within.grows
      fun _ => Grows.bind (Within.prepareApprovalRequest hupdated).grows fun _ =>
      (Reads.pure ()).grows

theorem TaskRuntime.launch_leaves {run : Run} {task : Task} (hrun : run.id = own) :
    Leaves own s!"{key}:task" (TaskRuntime.launch P run task key now) := by
  refine Leaves.later (Within.change fun _ _ => frame_saveActor _).grows fun _ =>
    Leaves.later (Within.change fun _ _ => frame_saveExecution _).grows fun _ =>
    Leaves.later (Within.change fun _ _ => frame_saveTask _).grows fun _ =>
    Leaves.later (Within.note (S := []) (quiet_of_status ?_ (by simp))).grows fun _ =>
    Leaves.first (Leaves.note _) (Within.note (S := []) (quiet_of_status ?_ (by simp))).grows
    fun _ => ?_
  · simp [settledWords, TaskStatus.value, ActorStatus.value]
  · simp [settledWords, TaskStatus.value]
  · exact (Within.coordinated (S := [.coordinator]) hrun (by decide) fun a ha =>
      Within.bind (Within.setCoordinator ha (by decide)) fun _ => Within.pure _).grows

theorem TaskRuntime.start_keyed {taskId : UUID} :
    Keyed own s!"{key}:task" (TaskRuntime.start P taskId key now) := by
  refine Keyed.bind (Reads.requireKey key) fun _ => Keyed.locked fun run hrun =>
    Keyed.split (fun r e he => ?_) fun r he => ?_
  · rw [he]
    exact Reads.bind (Reads.failIf _ _) fun _ => Reads.found _ _
  · rw [he]
    exact Leaves.later (Reads.failIf _ _).grows fun _ => Leaves.later (Reads.ask _).grows
      fun plan => Leaves.later Reads.startable.grows fun task =>
      Leaves.later (TaskRuntime.requireTaskApproval_within hrun).grows fun _ =>
      Leaves.later (Reads.failIf _ _).grows fun _ => TaskRuntime.launch_leaves hrun

theorem TaskRuntime.settle_leaves {run : Run} {execution : TaskExecution} {status : TaskStatus}
    (hrun : run.id = own) :
    Leaves own s!"{key}:task" (TaskRuntime.settle P run execution status key now) :=
  Leaves.later (Reads.read _).grows fun _ => Leaves.later (Reads.found _ _).grows fun _ =>
    Leaves.later (Reads.found _ _).grows fun _ => Leaves.first (Leaves.emit _)
    (Within.emitted (S := [.endings]) (fun h => absurd (by decide) h) fun _ =>
      attemptEvent_ne).grows fun _ =>
    Grows.bind (Reads.read _).grows fun _ =>
    Grows.bind (Within.change fun _ _ => frame_saveExecution _).grows fun _ =>
    Grows.bind (Within.change fun _ _ => frame_saveTask _).grows fun _ =>
    Grows.bind setActorStatus_within.grows fun _ =>
    Grows.bind (TaskRuntime.coordinate_within hrun).grows fun _ =>
    Grows.bind (Grows.ite refreshReady_within.grows (Reads.pure ()).grows) fun _ =>
    (Reads.pure _).grows

theorem TaskRuntime.transitionInTransaction_keyed {run : Run} {executionId : UUID}
    {status : TaskStatus} (hrun : run.id = own) :
    Keyed own s!"{key}:task"
      (TaskRuntime.transitionInTransaction P run executionId status key now) := by
  refine Keyed.split (fun r e he => Reads.bind (Reads.found _ _) fun execution => ?_)
    fun r he => Leaves.later (Reads.found _ _).grows fun execution => ?_
  · rw [he]
    exact Reads.bind (Reads.failIf _ _) fun _ => Reads.pure _
  · rw [he]
    exact Leaves.later (Reads.failIf _ _).grows fun _ => TaskRuntime.settle_leaves hrun

theorem RecoveryService.retry_keyed {project : Option Project} {executionId : UUID}
    {reason : String} {acknowledged : Bool} :
    Keyed own s!"recovery:{key}"
      (RecoveryService.retry P project executionId reason key acknowledged now) := by
  refine Keyed.bind (Reads.requireKey key) fun _ => Keyed.bind (Reads.failIf _ _) fun _ =>
    Keyed.bind (Reads.failIf _ _) fun _ => Keyed.locked fun run hrun =>
    Keyed.split (fun r e he => ?_) fun r he => ?_
  · refine Reads.bind (Reads.failIf _ _) fun _ => Reads.bind Reads.recoverable fun found => ?_
    rw [he]
    exact Reads.pure _
  · refine Leaves.later (Reads.failIf _ _).grows fun _ => Leaves.later Reads.recoverable.grows
      fun found => ?_
    rw [he]
    refine Leaves.later Reads.checkRetry.grows fun _ => Leaves.later (Reads.ask _).grows fun _ =>
      Leaves.later (Within.forM fun _ _ => RecoveryService.interruptProvider_within).grows
      fun _ => Leaves.later (Reads.ask _).grows fun _ =>
      Leaves.later (Within.forM fun _ _ => RecoveryService.interruptTool_within).grows fun _ =>
      Leaves.later (TaskRuntime.transitionInTransaction_within hrun).grows fun _ =>
      Leaves.later (Within.change fun _ _ => frame_saveTask _).grows fun _ =>
      Leaves.first (Leaves.note _) (Within.note (S := []) (quiet_of_status ?_ (by simp))).grows
      fun _ => Grows.bind (Within.note (S := []) (quiet_of_apart (by rfl))).grows fun _ =>
      (Reads.pure _).grows
    simp [settledWords, TaskStatus.value]

end Commands

/-! ## Runs -/

/-- The key of the event that a command leaves which takes a key. -/
def Command.receipt : Command → Option String
  | advance _ key _ _ => some s!"{key}:run"
  | installPlan _ key _ => some s!"{key}:plan"
  | installRepair _ key _ | installDelivery _ key _ => some s!"{key}:revised"
  | replan _ key _ => some s!"replan:{key}"
  | replacePreview _ _ key _ => some s!"preview-edit:{key}"
  | startTask _ key _ | transitionTask _ _ key _ => some s!"{key}:task"
  | retry _ _ key _ _ => some s!"recovery:{key}"
  | _ => none

/-- The records a transaction leaves when it answers. -/
def answered {α : Type} (m : RunTx α) (r : Records) : Option Records :=
  (m r).toOption.map Prod.snd

/-- A command answers and leaves records. -/
def Command.Answers (P : Primitives) (project : Project) (cmd : Command) (r r' : Records) : Prop :=
  cmd.possible r = true ∧ answered (cmd.perform P project) r = some r'

variable {P : Primitives} {project : Project} {r r' s s' : Records} {cmd cmd' : Command}

theorem Command.keyed {own : UUID} {receipt : String} (h : cmd.receipt = some receipt) :
    Keyed own receipt (cmd.perform P project) := by
  cases cmd <;> cases h
  case advance => exact Orchestrator.advance_keyed.quietly
  case installPlan => exact Orchestrator.installPlan_keyed.quietly
  case installRepair => exact PlanRevision.install_keyed.quietly
  case installDelivery => exact PlanRevision.install_keyed.quietly
  case replan => exact GoalReplanning.install_keyed.quietly
  case replacePreview => exact PreviewRevision.replace_keyed.quietly
  case startTask => exact TaskRuntime.start_keyed.quietly
  case transitionTask =>
    exact (Keyed.bind (Reads.requireKey _) fun _ => Keyed.locked fun run hrun =>
      Keyed.bind (Reads.failIf _ _) fun _ =>
      TaskRuntime.transitionInTransaction_keyed hrun).quietly
  case retry => exact RecoveryService.retry_keyed.quietly

theorem answered_eq_some {α : Type} {m : RunTx α} (h : answered m r = some r') :
    ∃ x, m r = .ok (x, r') := by
  obtain ⟨⟨x, t⟩, hx, rfl⟩ := Option.map_eq_some_iff.mp h
  refine ⟨x, ?_⟩
  cases hm : m r with
  | error e =>
    rw [hm] at hx
    cases hx
  | ok y =>
    rw [hm] at hx
    cases hx
    rfl

/-- An event stays in the log. -/
theorem byKey_of_steps {key : String} (hkey : (r.byKey key).isSome)
    (hrun : Relation.ReflTransGen (Step P project) r s) : (s.byKey key).isSome := by
  induction hrun with
  | refl => exact hkey
  | tail _ hstep ih =>
    obtain ⟨cmd, hleads⟩ := hstep
    exact byKey_isSome_of_grown hleads.frame.grown ih

/-- What has been answered under a key is never carried out again. Once a command that takes a key
has answered, every command whose event goes by the same name leaves the records as they are, in
every later state of the run and whatever its other arguments are. -/
theorem answered_once {receipt : String} (hkey : cmd.receipt = some receipt)
    (h : cmd.Answers P project r r') (hrun : Relation.ReflTransGen (Step P project) r' s)
    (hkey' : cmd'.receipt = some receipt) (h' : cmd'.Leads P project s s') : s' = s := by
  obtain ⟨-, hanswer⟩ := h
  obtain ⟨x, hanswer⟩ := answered_eq_some hanswer
  have hleft := (Command.keyed hkey).leaves r x r' rfl hanswer
  obtain ⟨-, hstored⟩ := h'
  exact (Command.keyed hkey').replays s s' rfl (byKey_of_steps hleft hrun) hstored

namespace Sample

/-- The first transition of the run. -/
def syncing : Command := .advance .contextSync "sync" 1 (.uuid4 20)

/-- The run after its first transition. -/
def synced : Records :=
  (answered (syncing.perform primitives Sample.project) made).get (by decide +kernel)

theorem synced_answers : syncing.Answers primitives Sample.project made synced :=
  ⟨by decide +kernel, (Option.some_get _).symm⟩

/-- The run after the commands that lead to work at its task. -/
def busy : Records :=
  (history primitives Sample.project beginning.tail synced).get (by decide +kernel)

/-- The first transition again, much later. -/
def resyncing : Command := .advance .contextSync "sync" 50 (.uuid4 99)

/-- What it leaves. -/
def resynced : Records :=
  (history primitives Sample.project [resyncing] busy).get (by decide +kernel)

end Sample

theorem sample_answered_once : Sample.resynced = Sample.busy :=
  have hkey : Sample.resyncing.receipt = Sample.syncing.receipt := rfl
  answered_once rfl Sample.synced_answers (run_of_history (Option.some_get _).symm) hkey
    (leads_of_history (Option.some_get _).symm)

end Orqalis
