import Orqalis.Core.Commands
import Orqalis.Persistence.Log

/-!
# What a transaction leaves alone

The records in parts, and the relation of two records that differ in some of the parts only.
The log grows by every transaction; as a part it stays the same when it grows by quiet events.
A quiet event neither starts a repair nor ends an attempt.

`Within id S m` says that whatever the transaction `m` stores of the run `id` differs in the
parts `S` only, whether it succeeds or is refused.
-/

namespace Orqalis

open Lib Lib.Transaction

/-! ## Quiet events -/

/-- The words of the statuses an attempt ends in. -/
def settledWords : List String :=
  [TaskStatus.succeeded.value, TaskStatus.failed.value, TaskStatus.cancelled.value]

/-- Whether the key of an event is the key of a task's event. -/
def isTaskKey (key : String) : Prop := ∃ k : String, key = s!"{k}:task"

/-- An event that ends no attempt. -/
def EventDraft.Idle (d : EventDraft) : Prop :=
  d.taskExecutionId = none ∨ (∀ word ∈ settledWords, d.payload.status ≠ some word) ∨
    ¬ isTaskKey d.idempotencyKey

/-- An event that neither starts a repair nor ends an attempt. -/
def EventDraft.Quiet (d : EventDraft) : Prop := d.eventType ≠ .repairStarted ∧ d.Idle

/-- A draft of no attempt that starts no repair. -/
def EventDraft.apart (d : EventDraft) : Bool :=
  d.taskExecutionId.isNone && d.eventType != .repairStarted

/-- A stored event that ends no attempt. -/
def Event.Idle (e : Event) : Prop :=
  e.taskExecutionId = none ∨ (∀ word ∈ settledWords, e.payload.status ≠ some word) ∨
    ¬ isTaskKey e.idempotencyKey

theorem idle_eventOf {r : Records} {d : EventDraft} (h : d.Idle) : (r.eventOf d).Idle := h

theorem task_key_last {key : String} (h : isTaskKey key) : key.toList.getLast? = some 'k' := by
  obtain ⟨k, rfl⟩ := h
  simp [toString, String.toList_append]

/-- A key that does not end in the last letter of a task's key is none. -/
theorem not_task_key {key : String} (h : key.toList.getLast? ≠ some 'k') : ¬ isTaskKey key :=
  fun hkey => h (task_key_last hkey)

/-! ## Parts -/

/-- The parts of the records. -/
inductive Part
  | lifecycle
  | currentGoal
  | goals
  | evidence
  | plans
  | tasks
  | workers
  | coordinator
  | executions
  | phases
  | policy
  | requests
  | decisions
  | reviews
  | tools
  | workspace
  | providers
  | certificates
  | reports
  | endings
  | repairs
deriving DecidableEq

/-- A run without the cursor of its log and its current goal. -/
def Run.lifecycle (run : Run) : Run :=
  { run with lastEventSequence := 0, currentGoalVersionId := none }

/-- An actor without what it is equipped with. -/
def ActorSession.bare (a : ActorSession) : ActorSession :=
  { a with provider := none, model := none, loadedSkills := [], allowedTools := [] }

/-- What an actor is, its equipment apart. -/
def Records.actor (r : Records) (id : UUID) : Option ActorSession :=
  (r.actors.get? id).map ActorSession.bare

/-- A log that has grown by events of a kind. -/
def GrownBy (p : Event → Prop) (r r' : Records) : Prop :=
  ∃ l, r'.events = r.events ++ l ∧ ∀ e ∈ l, p e

/-- An event that starts no repair. -/
def Event.Unrepairing (e : Event) : Prop := e.eventType ≠ .repairStarted

/-- Two records with one and the same part. -/
def Part.same (r r' : Records) : Part → Prop
  | lifecycle => r'.run.lifecycle = r.run.lifecycle
  | currentGoal => r'.run.currentGoalVersionId = r.run.currentGoalVersionId
  | goals => r'.goals = r.goals
  | evidence => r'.evidence = r.evidence
  | plans => r'.plans = r.plans
  | tasks => r'.tasks = r.tasks
  | workers => ∀ id, id ≠ orchestratorId r.run.id → r'.actor id = r.actor id
  | coordinator => r'.actor (orchestratorId r.run.id) = r.actor (orchestratorId r.run.id)
  | executions => r'.executions = r.executions
  | phases => r'.phases = r.phases
  | policy => r'.controlPolicy = r.controlPolicy
  | requests => r'.approvalRequests = r.approvalRequests
  | decisions => r'.approvalDecisions = r.approvalDecisions
  | reviews => r'.storedReviews = r.storedReviews
  | tools => r'.storedTools = r.storedTools
  | workspace => r'.workspace = r.workspace
  | providers => r'.storedProviders = r.storedProviders
  | certificates => r'.storedGuardians = r.storedGuardians ∧
      r'.storedValidations = r.storedValidations ∧ r'.delivery = r.delivery
  | reports => r'.storedArtifacts = r.storedArtifacts ∧ r'.storedFindings = r.storedFindings
  | endings => GrownBy Event.Idle r r'
  | repairs => GrownBy Event.Unrepairing r r'

/-- What every transaction leaves of a run's identity. -/
structure Identical (r r' : Records) : Prop where
  id : r'.run.id = r.run.id
  projectId : r'.run.projectId = r.run.projectId
  createdAt : r'.run.createdAt = r.run.createdAt

/-- What every transaction keeps: the actors and the requests there are. -/
structure Retained (r r' : Records) : Prop where
  actors : ∀ id, r.actors.has id = true → r'.actors.has id = true
  requests : ∀ id, r.approvalRequests.has id = true → r'.approvalRequests.has id = true

/-- Records that differ in some parts only. -/
structure Frame (S : List Part) (r r' : Records) : Prop where
  identical : Identical r r'
  retained : Retained r r'
  grown : r.events <+: r'.events
  timed : r.Chronological → r'.Chronological
  same : ∀ p, p ∉ S → p.same r r'

theorem Identical.refl (r : Records) : Identical r r := ⟨rfl, rfl, rfl⟩

theorem Identical.trans {r s t : Records} (h : Identical r s) (h' : Identical s t) :
    Identical r t :=
  ⟨h'.id.trans h.id, h'.projectId.trans h.projectId, h'.createdAt.trans h.createdAt⟩

theorem Retained.of_eq {r r' : Records} (hactors : r'.actors = r.actors)
    (hrequests : r'.approvalRequests = r.approvalRequests) : Retained r r' :=
  ⟨fun _ h => by rwa [hactors], fun _ h => by rwa [hrequests]⟩

theorem Retained.trans {r s t : Records} (h : Retained r s) (h' : Retained s t) : Retained r t :=
  ⟨fun id hid => h'.actors id (h.actors id hid), fun id hid => h'.requests id (h.requests id hid)⟩

theorem GrownBy.of_eq {p : Event → Prop} {r r' : Records} (h : r'.events = r.events) :
    GrownBy p r r' :=
  ⟨[], by simp [h], by simp⟩

theorem GrownBy.trans {p : Event → Prop} {r s t : Records} (h : GrownBy p r s)
    (h' : GrownBy p s t) : GrownBy p r t := by
  obtain ⟨l, hl, hp⟩ := h
  obtain ⟨l', hl', hp'⟩ := h'
  refine ⟨l ++ l', by rw [hl', hl, List.append_assoc], fun e he => ?_⟩
  rcases List.mem_append.mp he with he | he
  · exact hp e he
  · exact hp' e he

/-- A new event is of the kind the log has grown by. -/
theorem GrownBy.new {p : Event → Prop} {r r' : Records} (h : GrownBy p r r') {e : Event}
    (he : e ∈ r'.events) (hnew : e ∉ r.events) : p e := by
  obtain ⟨l, hl, hp⟩ := h
  rw [hl] at he
  exact hp e ((List.mem_append.mp he).resolve_left hnew)

theorem Part.same_refl (r : Records) (p : Part) : p.same r r := by
  cases p
  case endings => exact GrownBy.of_eq rfl
  case repairs => exact GrownBy.of_eq rfl
  all_goals simp [Part.same]

theorem Part.same_trans {r s t : Records} {p : Part} (hid : s.run.id = r.run.id)
    (h : p.same r s) (h' : p.same s t) : p.same r t := by
  cases p
  case workers =>
    intro id hne
    exact (h' id (by rwa [hid])).trans (h id hne)
  case coordinator =>
    rw [Part.same, hid] at h'
    exact h'.trans h
  case certificates =>
    obtain ⟨hguardians, hvalidations, hdelivery⟩ := h
    obtain ⟨hguardians', hvalidations', hdelivery'⟩ := h'
    exact ⟨hguardians'.trans hguardians, hvalidations'.trans hvalidations,
      hdelivery'.trans hdelivery⟩
  case reports => exact ⟨h'.1.trans h.1, h'.2.trans h.2⟩
  case endings => exact GrownBy.trans h h'
  case repairs => exact GrownBy.trans h h'
  all_goals exact h'.trans h

namespace Frame

variable {S T : List Part} {r s t : Records}

theorem refl (S : List Part) (r : Records) : Frame S r r :=
  ⟨Identical.refl r, Retained.of_eq rfl rfl, List.prefix_refl _, fun h => h,
    fun p _ => Part.same_refl r p⟩

theorem trans (h : Frame S r s) (h' : Frame S s t) : Frame S r t :=
  ⟨h.identical.trans h'.identical, h.retained.trans h'.retained, h.grown.trans h'.grown,
    fun ht => h'.timed (h.timed ht),
    fun p hp => Part.same_trans h.identical.id (h.same p hp) (h'.same p hp)⟩

theorem mono (h : Frame S r s) (hST : ∀ p ∈ S, p ∈ T) : Frame T r s :=
  ⟨h.identical, h.retained, h.grown, h.timed, fun p hp => h.same p fun hS => hp (hST p hS)⟩

/-- The parts of one frame and another are left alone by both. -/
theorem append (h : Frame S r s) (h' : Frame T s t) : Frame (S ++ T) r t :=
  (h.mono fun _ hp => List.mem_append_left T hp).trans
    (h'.mono fun _ hp => List.mem_append_right S hp)

section Parts

variable (h : Frame S r s)
include h

theorem id : s.run.id = r.run.id := h.identical.id

theorem lifecycle (hp : Part.lifecycle ∉ S) : s.run.lifecycle = r.run.lifecycle :=
  h.same .lifecycle hp

theorem state (hp : Part.lifecycle ∉ S) : s.run.state = r.run.state :=
  (congrArg Run.state (h.lifecycle hp) :)

theorem uiPhase (hp : Part.lifecycle ∉ S) : s.run.uiPhase = r.run.uiPhase :=
  (congrArg Run.uiPhase (h.lifecycle hp) :)

theorem planVersion (hp : Part.lifecycle ∉ S) :
    s.run.planVersion = r.run.planVersion :=
  (congrArg Run.planVersion (h.lifecycle hp) :)

theorem resumeState (hp : Part.lifecycle ∉ S) :
    s.run.resumeState = r.run.resumeState :=
  (congrArg Run.resumeState (h.lifecycle hp) :)

theorem repairIteration (hp : Part.lifecycle ∉ S) :
    s.run.repairIteration = r.run.repairIteration :=
  (congrArg Run.repairIteration (h.lifecycle hp) :)

theorem maxRepairIterations (hp : Part.lifecycle ∉ S) :
    s.run.maxRepairIterations = r.run.maxRepairIterations :=
  (congrArg Run.maxRepairIterations (h.lifecycle hp) :)

theorem currentGoal (hp : Part.currentGoal ∉ S) :
    s.run.currentGoalVersionId = r.run.currentGoalVersionId :=
  h.same .currentGoal hp

theorem goals (hp : Part.goals ∉ S) : s.goals = r.goals := h.same .goals hp

theorem evidence (hp : Part.evidence ∉ S) : s.evidence = r.evidence :=
  h.same .evidence hp

theorem plans (hp : Part.plans ∉ S) : s.plans = r.plans := h.same .plans hp

theorem tasks (hp : Part.tasks ∉ S) : s.tasks = r.tasks := h.same .tasks hp

theorem workers (hp : Part.workers ∉ S) {id : UUID}
    (hid : id ≠ orchestratorId r.run.id) : s.actor id = r.actor id :=
  h.same .workers hp id hid

theorem coordinator (hp : Part.coordinator ∉ S) :
    s.actor (orchestratorId r.run.id) = r.actor (orchestratorId r.run.id) :=
  h.same .coordinator hp

theorem executions (hp : Part.executions ∉ S) : s.executions = r.executions :=
  h.same .executions hp

theorem phases (hp : Part.phases ∉ S) : s.phases = r.phases := h.same .phases hp

theorem policy (hp : Part.policy ∉ S) : s.controlPolicy = r.controlPolicy :=
  h.same .policy hp

theorem requests (hp : Part.requests ∉ S) :
    s.approvalRequests = r.approvalRequests :=
  h.same .requests hp

theorem decisions (hp : Part.decisions ∉ S) :
    s.approvalDecisions = r.approvalDecisions :=
  h.same .decisions hp

theorem reviews (hp : Part.reviews ∉ S) : s.storedReviews = r.storedReviews :=
  h.same .reviews hp

theorem tools (hp : Part.tools ∉ S) : s.storedTools = r.storedTools :=
  h.same .tools hp

theorem workspace (hp : Part.workspace ∉ S) : s.workspace = r.workspace :=
  h.same .workspace hp

theorem providers (hp : Part.providers ∉ S) :
    s.storedProviders = r.storedProviders :=
  h.same .providers hp

theorem guardians (hp : Part.certificates ∉ S) :
    s.storedGuardians = r.storedGuardians :=
  (h.same .certificates hp).1

theorem validations (hp : Part.certificates ∉ S) :
    s.storedValidations = r.storedValidations :=
  (h.same .certificates hp).2.1

theorem delivery (hp : Part.certificates ∉ S) : s.delivery = r.delivery :=
  (h.same .certificates hp).2.2

theorem endings (hp : Part.endings ∉ S) : GrownBy Event.Idle r s :=
  h.same .endings hp

theorem repairs (hp : Part.repairs ∉ S) : GrownBy Event.Unrepairing r s :=
  h.same .repairs hp

end Parts

end Frame

/-! ## Inversion of sequences -/

section Sequences

variable {α β : Type} {r r' : Records} {b : β}

theorem read_bind_ok {f : Records → α} {g : α → RunTx β} :
    (Transaction.read f >>= g) r = .ok (b, r') ↔ g (f r) r = .ok (b, r') := by
  simp [bind_ok, read_ok]

theorem locked_bind_ok {g : Run → RunTx β} :
    (lockedRun >>= g) r = .ok (b, r') ↔ g r.run r = .ok (b, r') :=
  read_bind_ok

theorem failIf_bind_ok {c : Prop} [Decidable c] {e : Error} {g : Unit → RunTx β} :
    (failIf c e >>= g) r = .ok (b, r') ↔ ¬ c ∧ g () r = .ok (b, r') := by
  simp only [bind_ok, failIf_ok, and_assoc, Unique.exists_iff, exists_and_left, exists_eq_left]

theorem found_bind_ok {o : Option α} {e : Error} {g : α → RunTx β} :
    (found o e >>= g) r = .ok (b, r') ↔ ∃ a, o = some a ∧ g a r = .ok (b, r') := by
  simp [bind_ok, found_ok, and_assoc]

theorem ask_bind_ok {f : Records → Except Error α} {g : α → RunTx β} :
    (ask f >>= g) r = .ok (b, r') ↔ ∃ a, f r = .ok a ∧ g a r = .ok (b, r') := by
  simp [bind_ok, ask_ok, and_assoc]

theorem change_bind_ok {f : Records → Records} {g : Unit → RunTx β} :
    (Transaction.change f >>= g) r = .ok (b, r') ↔ g () (f r) = .ok (b, r') := by
  simp only [bind_ok, change_ok, Unique.exists_iff, exists_eq_left]

theorem stage_bind_ok {f : Records → Except Error Records} {g : Unit → RunTx β} :
    (stage f >>= g) r = .ok (b, r') ↔ ∃ s, f r = .ok s ∧ g () s = .ok (b, r') := by
  simp only [bind_ok, stage_ok, Unique.exists_iff]

end Sequences

/-! ## What transactions store -/

section Stored

variable {α β : Type} {m : RunTx α} {f : α → RunTx β} {r r' : Records}

theorem stored_of_ok {a : α} (h : m r = .ok (a, r')) : stored m r = some r' := by
  unfold stored
  rw [h]

theorem stored_of_error {e : Refusal} (h : m r = .error e) (hcommitted : e.committed = some r') :
    stored m r = some r' := by
  unfold stored
  rw [h]
  exact hcommitted

/-- What a sequence stores is stored by its second part, or by a refusal of the first. -/
theorem stored_bind : stored (m >>= f) r = some r' ↔
    (∃ a s, m r = .ok (a, s) ∧ stored (f a) s = some r') ∨
      ∃ e, m r = .error e ∧ e.committed = some r' := by
  unfold stored
  simp only [bind, StateT.bind]
  cases h : m r with
  | error e => simp [Except.bind]
  | ok p =>
    obtain ⟨a, s⟩ := p
    simp only [Except.bind, reduceCtorEq, false_and, exists_false, or_false,
      Except.ok.injEq, Prod.mk.injEq]
    constructor
    · exact fun h => ⟨a, s, ⟨rfl, rfl⟩, h⟩
    · rintro ⟨a, s, ⟨rfl, rfl⟩, h⟩
      exact h

/-- Forgetting the answer changes nothing that is stored. -/
theorem stored_quietly : stored (quietly m) r = some r' ↔ stored m r = some r' := by
  unfold quietly
  rw [stored_bind]
  unfold stored
  cases m r with
  | error e => simp
  | ok p =>
    obtain ⟨a, s⟩ := p
    constructor
    · rintro (⟨a', s', hs, h⟩ | ⟨e, he, -⟩)
      · cases hs
        exact h
      · cases he
    · exact fun h => .inl ⟨a, s, rfl, h⟩

theorem stored_read_bind {g : Records → α} {f : α → RunTx β} :
    stored (Transaction.read g >>= f) r = stored (f (g r)) r := rfl

/-- A transaction whose refusals store nothing. -/
def Silent (m : RunTx α) : Prop := ∀ r e, m r = .error e → e.committed = none

theorem Silent.stored_ok (hm : Silent m) (h : stored m r = some r') : ∃ a, m r = .ok (a, r') := by
  unfold stored at h
  split at h
  · next a s hs =>
    cases h
    exact ⟨a, hs⟩
  · next e he =>
    rw [hm r e he] at h
    cases h

/-- A sequence that begins silently. -/
theorem Silent.stored_bind (hm : Silent m) (h : stored (m >>= f) r = some r') :
    ∃ a s, m r = .ok (a, s) ∧ stored (f a) s = some r' := by
  rcases Orqalis.stored_bind.mp h with h | ⟨e, he, hcommitted⟩
  · exact h
  · rw [hm r e he] at hcommitted
    cases hcommitted

theorem Silent.bind (hm : Silent m) (hf : ∀ a, Silent (f a)) : Silent (m >>= f) := by
  intro r e h
  change StateT.bind m f r = _ at h
  unfold StateT.bind at h
  cases hr : m r with
  | error e' =>
    rw [hr] at h
    cases h
    exact hm r e hr
  | ok p =>
    rw [hr] at h
    exact hf p.1 p.2 e h

theorem Silent.pure (a : α) : Silent (Pure.pure a : RunTx α) := by
  intro r e h
  cases h

theorem Silent.forM {l : List α} {f : α → RunTx Unit} (hf : ∀ a ∈ l, Silent (f a)) :
    Silent (l.forM f) := by
  induction l with
  | nil => exact Silent.pure ()
  | cons a l ih =>
    rw [List.forM_eq_forM, List.forM_cons]
    exact Silent.bind (hf a List.mem_cons_self) fun _ =>
      ih fun b hb => hf b (List.mem_cons_of_mem a hb)

theorem Silent.mapM {l : List α} (hf : ∀ a ∈ l, Silent (f a)) : Silent (l.mapM f) := by
  induction l with
  | nil => exact Silent.pure []
  | cons a l ih =>
    rw [List.mapM_cons]
    exact Silent.bind (hf a List.mem_cons_self) fun b =>
      Silent.bind (ih fun c hc => hf c (List.mem_cons_of_mem a hc)) fun bs => Silent.pure _

theorem Silent.ite {c : Prop} [Decidable c] {m m' : RunTx α} (h : Silent m) (h' : Silent m') :
    Silent (if c then m else m') := by
  split
  · exact h
  · exact h'

theorem Silent.read (f : Records → α) : Silent (Transaction.read f : RunTx α) := by
  intro r e h
  cases h

theorem Silent.change (f : Records → Records) : Silent (Transaction.change f : RunTx Unit) := by
  intro r e h
  cases h

theorem Silent.fail (e : Error) : Silent (fail e : RunTx α) := by
  intro r e' h
  cases h
  rfl

theorem Silent.failIf (c : Prop) [Decidable c] (e : Error) : Silent (failIf c e) := by
  unfold Orqalis.failIf refuseIf
  exact Silent.ite (Silent.fail e) (Silent.pure ())

theorem Silent.found (o : Option α) (e : Error) : Silent (found o e) := by
  unfold Orqalis.found
  cases o with
  | none => exact Silent.fail e
  | some a => exact Silent.pure a

theorem Silent.ask (f : Records → Except Error α) : Silent (ask f) := by
  intro r e h
  unfold Orqalis.ask query at h
  split at h <;> cases h
  rfl

theorem Silent.update (f : Records → Except Error (α × Records)) :
    Silent (Transaction.update .of f : RunTx α) := by
  intro r e h
  unfold Transaction.update at h
  split at h <;> cases h
  rfl

theorem Silent.stage (f : Records → Except Error Records) : Silent (stage f) := Silent.update _

theorem Silent.requireKey (key : String) : Silent (requireKey key) := Silent.failIf _ _

theorem Silent.emit (P : Primitives) (run : Run) (d : EventDraft) : Silent (emit P run d) :=
  Silent.update _

theorem Silent.note (P : Primitives) (run : Run) (d : EventDraft) : Silent (note P run d) :=
  Silent.bind (Silent.emit P run d) fun _ => Silent.pure ()

end Stored

/-! ## Transactions that only read -/

section Reads

variable {α β : Type} {m : RunTx α} {f : α → RunTx β} {r r' : Records} {b : β}

/-- A transaction that changes nothing and whose refusals store nothing. -/
structure Reads (m : RunTx α) : Prop where
  silent : Silent m
  same : ∀ r a r', m r = .ok (a, r') → r' = r

theorem Reads.bind_ok (hm : Reads m) (h : (m >>= f) r = .ok (b, r')) :
    ∃ a, m r = .ok (a, r) ∧ f a r = .ok (b, r') := by
  obtain ⟨a, s, hs, h⟩ := Transaction.bind_ok.mp h
  have heq := (hm.same r a s hs).symm
  subst heq
  exact ⟨a, hs, h⟩

theorem Reads.stored_bind (hm : Reads m) (h : stored (m >>= f) r = some r') :
    ∃ a, m r = .ok (a, r) ∧ stored (f a) r = some r' := by
  obtain ⟨a, s, hs, h⟩ := hm.silent.stored_bind h
  have heq := (hm.same r a s hs).symm
  subst heq
  exact ⟨a, hs, h⟩

theorem Reads.stored_eq (hm : Reads m) (h : stored m r = some r') : r' = r := by
  obtain ⟨a, h⟩ := hm.silent.stored_ok h
  exact hm.same r a r' h

theorem Reads.bind (hm : Reads m) (hf : ∀ a, Reads (f a)) : Reads (m >>= f) where
  silent := hm.silent.bind fun a => (hf a).silent
  same := by
    intro r b r' h
    obtain ⟨a, -, h⟩ := hm.bind_ok h
    exact (hf a).same r b r' h

theorem Reads.pure (a : α) : Reads (Pure.pure a : RunTx α) :=
  ⟨Silent.pure a, fun _ _ _ h => (pure_ok.mp h).2⟩

theorem Reads.ite {c : Prop} [Decidable c] {m m' : RunTx α} (h : Reads m) (h' : Reads m') :
    Reads (if c then m else m') := by
  split
  · exact h
  · exact h'

theorem Reads.read (f : Records → α) : Reads (Transaction.read f : RunTx α) :=
  ⟨Silent.read f, fun _ _ _ h => (read_ok.mp h).2⟩

theorem Reads.locked : Reads lockedRun := Reads.read _

theorem Reads.fail (e : Error) : Reads (fail e : RunTx α) :=
  ⟨Silent.fail e, fun _ _ _ h => (fail_ok.mp h).elim⟩

theorem Reads.failIf (c : Prop) [Decidable c] (e : Error) : Reads (failIf c e) :=
  ⟨Silent.failIf c e, fun _ _ _ h => (failIf_ok.mp h).2⟩

theorem Reads.found (o : Option α) (e : Error) : Reads (found o e) :=
  ⟨Silent.found o e, fun _ _ _ h => (found_ok.mp h).2⟩

theorem Reads.ask (f : Records → Except Error α) : Reads (ask f) :=
  ⟨Silent.ask f, fun _ _ _ h => (ask_ok.mp h).2⟩

theorem Reads.requireKey (key : String) : Reads (requireKey key) := Reads.failIf _ _

theorem Reads.lockedRunOf (runId : UUID) : Reads (lockedRunOf runId) :=
  Reads.bind Reads.locked fun _ => Reads.bind (Reads.failIf _ _) fun _ => Reads.pure _

theorem Reads.requireSamePlan (plan : TaskPlan) (e : Error) : Reads (requireSamePlan plan e) :=
  Reads.bind (Reads.ask _) fun _ => Reads.failIf _ _

theorem Reads.mapM {l : List α} (hf : ∀ a ∈ l, Reads (f a)) : Reads (l.mapM f) := by
  induction l with
  | nil => exact Reads.pure []
  | cons a l ih =>
    rw [List.mapM_cons]
    exact Reads.bind (hf a List.mem_cons_self) fun b =>
      Reads.bind (ih fun c hc => hf c (List.mem_cons_of_mem a hc)) fun bs => Reads.pure _

theorem Reads.forM {l : List α} {f : α → RunTx Unit} (hf : ∀ a ∈ l, Reads (f a)) :
    Reads (l.forM f) := by
  induction l with
  | nil => exact Reads.pure ()
  | cons a l ih =>
    rw [List.forM_eq_forM, List.forM_cons]
    exact Reads.bind (hf a List.mem_cons_self) fun _ =>
      ih fun b hb => hf b (List.mem_cons_of_mem a hb)

end Reads

/-! ## Transactions within a frame -/

section Within

variable {id : UUID} {S : List Part} {α β : Type}

/-- A transaction that changes some parts only, of the records of the run `id`. -/
def Within (id : UUID) (S : List Part) (m : RunTx α) : Prop :=
  ∀ r r', r.run.id = id → stored m r = some r' → Frame S r r'

theorem Within.stored {m : RunTx α} {r r' : Records} (h : Within r.run.id S m)
    (hr : stored m r = some r') : Frame S r r' :=
  h r r' rfl hr

theorem Within.frame {m : RunTx α} {r r' : Records} {a : α} (h : Within r.run.id S m)
    (hr : m r = .ok (a, r')) : Frame S r r' :=
  h r r' rfl (stored_of_ok hr)

theorem Within.intro {m : RunTx α} (hm : Silent m)
    (h : ∀ r a r', r.run.id = id → m r = .ok (a, r') → Frame S r r') : Within id S m := by
  intro r r' hid hr
  obtain ⟨a, hr⟩ := hm.stored_ok hr
  exact h r a r' hid hr

theorem Within.bind {m : RunTx α} {f : α → RunTx β} (hm : Within id S m)
    (hf : ∀ a, Within id S (f a)) : Within id S (m >>= f) := by
  intro r r' hid hr
  rcases stored_bind.mp hr with ⟨a, s, hs, hr⟩ | ⟨e, he, hcommitted⟩
  · have hframe := hm r s hid (stored_of_ok hs)
    exact hframe.trans (hf a s r' (hframe.id.trans hid) hr)
  · exact hm r r' hid (stored_of_error he hcommitted)

theorem Within.pure (a : α) : Within id S (Pure.pure a : RunTx α) := by
  intro r r' _ hr
  cases hr
  exact Frame.refl S r

theorem Within.forM {l : List α} {f : α → RunTx Unit} (hf : ∀ a ∈ l, Within id S (f a)) :
    Within id S (l.forM f) := by
  induction l with
  | nil => exact Within.pure ()
  | cons a l ih =>
    rw [List.forM_eq_forM, List.forM_cons]
    exact Within.bind (hf a List.mem_cons_self) fun _ =>
      ih fun b hb => hf b (List.mem_cons_of_mem a hb)

theorem Within.mapM {l : List α} {f : α → RunTx β} (hf : ∀ a ∈ l, Within id S (f a)) :
    Within id S (l.mapM f) := by
  induction l with
  | nil => exact Within.pure []
  | cons a l ih =>
    rw [List.mapM_cons]
    exact Within.bind (hf a List.mem_cons_self) fun b =>
      Within.bind (ih fun c hc => hf c (List.mem_cons_of_mem a hc)) fun bs => Within.pure _

theorem Within.mono {T : List Part} {m : RunTx α} (h : Within id S m) (hST : ∀ p ∈ S, p ∈ T) :
    Within id T m :=
  fun r r' hid hr => (h r r' hid hr).mono hST

/-- A transaction that changes nothing. -/
theorem Reads.within {m : RunTx α} (hm : Reads m) : Within id S m := by
  intro r r' _ hr
  rw [hm.stored_eq hr]
  exact Frame.refl S r

theorem Within.read (f : Records → α) : Within id S (Transaction.read f : RunTx α) :=
  (Reads.read f).within

/-- What follows the reading of the run is about that run. -/
theorem Within.locked {f : Run → RunTx α} (h : ∀ run, run.id = id → Within id S (f run)) :
    Within id S (lockedRun >>= f) := by
  intro r r' hid hr
  exact h r.run hid r r' hid hr

theorem lockedRunOf_ok {runId : UUID} {run : Run} {r r' : Records} :
    lockedRunOf runId r = .ok (run, r') ↔ run = r.run ∧ r' = r ∧ r.run.id = runId := by
  unfold lockedRunOf
  constructor
  · intro h
    obtain ⟨run', t, hrun', hrun⟩ := bind_ok.mp h
    obtain ⟨rfl, rfl⟩ := read_ok.mp hrun'
    obtain ⟨x, u, hu, hrun⟩ := bind_ok.mp hrun
    obtain ⟨hid, rfl⟩ := failIf_ok.mp hu
    obtain ⟨rfl, rfl⟩ := pure_ok.mp hrun
    exact ⟨rfl, rfl, not_not.mp hid⟩
  · rintro ⟨rfl, rfl, hid⟩
    exact bind_ok.mpr ⟨r'.run, r', read_ok.mpr ⟨rfl, rfl⟩,
      bind_ok.mpr ⟨(), r', failIf_ok.mpr ⟨not_not.mpr hid, rfl⟩, pure_ok.mpr ⟨rfl, rfl⟩⟩⟩

theorem Within.lockedOf {runId : UUID} {f : Run → RunTx α}
    (h : ∀ run, run.id = id → Within id S (f run)) : Within id S (lockedRunOf runId >>= f) := by
  intro r r' hid hr
  obtain ⟨run, hrun, hr⟩ := (Reads.lockedRunOf runId).stored_bind hr
  obtain ⟨rfl, -, -⟩ := lockedRunOf_ok.mp hrun
  exact h _ hid _ r' hid hr

theorem Within.fail (e : Error) : Within id S (fail e : RunTx α) := (Reads.fail e).within

/-- A refusal after a commit changes nothing more. -/
theorem Within.commitAndFail (e : Error) : Within id S (commitAndFail e : RunTx α) := by
  intro r r' _ hr
  cases hr
  exact Frame.refl S r

theorem Within.failIf {c : Prop} [Decidable c] (e : Error) : Within id S (failIf c e) :=
  (Reads.failIf c e).within

theorem Within.found (o : Option α) (e : Error) : Within id S (found o e) :=
  (Reads.found o e).within

theorem Within.ask (f : Records → Except Error α) : Within id S (ask f) :=
  (Reads.ask f).within

theorem Within.requireKey (key : String) : Within id S (requireKey key) := Within.failIf _

theorem Within.ite {c : Prop} [Decidable c] {m m' : RunTx α} (h : Within id S m)
    (h' : Within id S m') : Within id S (if c then m else m') := by
  split
  · exact h
  · exact h'

theorem Within.stage {f : Records → Except Error Records}
    (h : ∀ r r', r.run.id = id → f r = .ok r' → Frame S r r') : Within id S (stage f) :=
  Within.intro (Silent.stage f) fun r _ r' hid hr => h r r' hid (stage_ok.mp hr)

theorem Within.change {f : Records → Records} (h : ∀ r, r.run.id = id → Frame S r (f r)) :
    Within id S (change f) := by
  refine Within.intro (Silent.change f) fun r _ r' hid hr => ?_
  rw [change_ok.mp hr]
  exact h r hid

theorem Within.quietly {m : RunTx α} (h : Within id S m) : Within id S (quietly m) :=
  Within.bind h fun _ => Within.pure ()

end Within

/-! ## The log -/

theorem emit_ok {P : Primitives} {run : Run} {d : EventDraft} {r r' : Records} {e : Event} :
    emit P run d r = .ok (e, r') ↔
      r.append P.safe { d with phase := some run.uiPhase } = .ok (e, r') :=
  update_ok

theorem note_ok {P : Primitives} {run : Run} {d : EventDraft} {r r' : Records} {x : Unit} :
    note P run d r = .ok (x, r') ↔
      ∃ e, r.append P.safe { d with phase := some run.uiPhase } = .ok (e, r') := by
  unfold note
  constructor
  · intro h
    obtain ⟨e, s, he, h⟩ := bind_ok.mp h
    obtain ⟨-, rfl⟩ := pure_ok.mp h
    exact ⟨e, emit_ok.mp he⟩
  · rintro ⟨e, he⟩
    exact bind_ok.mpr ⟨e, r', emit_ok.mpr he, pure_ok.mpr ⟨rfl, rfl⟩⟩

/-- The event an append answers is the draft's, stored before or appended. -/
theorem append_events {safe : String → Bool} {r r' : Records} {d : EventDraft} {e : Event}
    (h : r.append safe d = .ok (e, r')) :
    e.idempotencyKey = d.idempotencyKey ∧ e.taskExecutionId = d.taskExecutionId ∧
      e.payload = d.payload ∧ e.eventType = d.eventType ∧
      (r' = r ∧ e ∈ r.events ∨ r'.events = r.events ++ [e]) := by
  unfold Records.append at h
  split at h
  · next existing hexisting =>
    split_ifs at h with hmatches
    cases h
    have hkey := List.find?_some hexisting
    unfold Event.matches at hmatches
    simp only [Bool.decide_and, Bool.and_eq_true, decide_eq_true_eq] at hmatches hkey
    exact ⟨hkey, hmatches.2.2.2.2.1, hmatches.2.1, hmatches.1,
      .inl ⟨rfl, List.mem_of_find?_eq_some hexisting⟩⟩
  · split_ifs at h
    cases h
    exact ⟨rfl, rfl, rfl, rfl, .inr rfl⟩

/-- An appended event changes the log and its cursor. -/
theorem frame_append {P : Primitives} {r r' : Records} {d : EventDraft} {e : Event}
    {S : List Part} (h : r.append P.safe d = .ok (e, r')) (hidle : Part.endings ∉ S → d.Idle)
    (hrepairs : Part.repairs ∉ S → d.eventType ≠ .repairStarted) : Frame S r r' := by
  unfold Records.append at h
  split at h
  · split_ifs at h
    cases h
    exact Frame.refl S r
  · split_ifs at h
    cases h
    refine ⟨⟨rfl, rfl, rfl⟩, Retained.of_eq rfl rfl, List.prefix_append _ _, fun hr => ?_,
      fun p hp => ?_⟩
    · exact List.pairwise_append.mpr ⟨hr, List.pairwise_singleton _ _, fun e he f hf =>
        List.mem_singleton.mp hf ▸ le_eventOf hr he d⟩
    cases p
    case endings =>
      exact ⟨[r.eventOf d], rfl, List.forall_mem_singleton.mpr (idle_eventOf (hidle hp))⟩
    case repairs => exact ⟨[r.eventOf d], rfl, List.forall_mem_singleton.mpr (hrepairs hp)⟩
    all_goals first
      | exact fun _ _ => rfl
      | exact ⟨rfl, rfl, rfl⟩
      | exact ⟨rfl, rfl⟩
      | rfl

section Emission

variable {id : UUID} {S : List Part} {P : Primitives} {run : Run} {d : EventDraft}

/-- An event that ends an attempt or starts a repair only where its part may change. -/
theorem Within.emitted (hidle : Part.endings ∉ S → d.Idle)
    (hrepairs : Part.repairs ∉ S → d.eventType ≠ .repairStarted) :
    Within id S (Orqalis.emit P run d) :=
  Within.intro (Silent.emit P run d) fun _ _ _ _ hr => frame_append (emit_ok.mp hr) hidle hrepairs

theorem Within.noted (hidle : Part.endings ∉ S → d.Idle)
    (hrepairs : Part.repairs ∉ S → d.eventType ≠ .repairStarted) :
    Within id S (Orqalis.note P run d) :=
  Within.bind (Within.emitted hidle hrepairs) fun _ => Within.pure ()

theorem Within.emit (h : d.Quiet) : Within id S (emit P run d) :=
  Within.emitted (fun _ => h.2) fun _ => h.1

theorem Within.note (h : d.Quiet) : Within id S (note P run d) :=
  Within.bind (Within.emit h) fun _ => Within.pure ()

/-- An event of no attempt. -/
theorem quiet_of_none (hexec : d.taskExecutionId = none) (htype : d.eventType ≠ .repairStarted) :
    d.Quiet :=
  ⟨htype, .inl hexec⟩

theorem quiet_of_apart (h : d.apart = true) : d.Quiet := by
  simp only [EventDraft.apart, Bool.and_eq_true, Option.isNone_iff_eq_none,
    bne_iff_ne] at h
  exact quiet_of_none h.1 h.2

/-- An event of an attempt with a status that ends none. -/
theorem quiet_of_status (hstatus : ∀ word ∈ settledWords, d.payload.status ≠ some word)
    (htype : d.eventType ≠ .repairStarted) : d.Quiet :=
  ⟨htype, .inr (.inl hstatus)⟩

/-- An event of an attempt under a key that ends otherwise than a task's. -/
theorem quiet_of_key (hkey : d.idempotencyKey.toList.getLast? ≠ some 'k')
    (htype : d.eventType ≠ .repairStarted) : d.Quiet :=
  ⟨htype, .inr (.inr (not_task_key hkey))⟩

end Emission

end Orqalis
