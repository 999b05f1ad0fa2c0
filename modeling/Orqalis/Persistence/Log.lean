import Orqalis.Persistence.NoLostUpdate

/-!
# The log of a run

The log of a run is sound whatever its sessions do: its events are the run's, numbered from
one on, in the order of their times, under keys of their own, and the cursor counts them. A
call that saves the run takes the cursor from the store and not from the caller, so a stale
copy of the run does no harm.
-/

namespace Orqalis

open Lib Lib.Crash Relation

/-! ## Sound logs -/

/-- The times of a log do not go back. -/
def Records.Chronological (r : Records) : Prop :=
  r.events.Pairwise fun a b => a.occurredAt ≤ b.occurredAt

/-- A log that every reader accepts. -/
structure Records.Logged (r : Records) : Prop extends r.Sequenced where
  chronological : r.Chronological
  keyed : (r.events.map Event.idempotencyKey).Nodup

section Logs

variable {safe : String → Bool} {r r' : Records}

/-- A new event is no earlier than the events before it. -/
theorem le_eventOf {r : Records} (h : r.Chronological) {e : Event} (he : e ∈ r.events)
    (d : EventDraft) : e.occurredAt ≤ (r.eventOf d).occurredAt := by
  obtain ⟨last, hlast⟩ : ∃ last, r.events.getLast? = some last :=
    ⟨_, List.getLast?_eq_some_getLast (List.ne_nil_of_mem he)⟩
  obtain ⟨l, hl⟩ := List.getLast?_eq_some_iff.mp hlast
  have hle : e.occurredAt ≤ last.occurredAt := by
    rw [hl] at he
    rcases List.mem_append.mp he with he | he
    · have hpairs := h
      unfold Records.Chronological at hpairs
      rw [hl] at hpairs
      exact (List.pairwise_append.mp hpairs).2.2 e he last List.mem_cons_self
    · rw [List.mem_singleton.mp he]
  simp only [Records.eventOf, hlast]
  exact hle.trans (le_max_left _ _)

/-- A new event is as late as its draft or as an event before it. -/
theorem eventOf_le {r : Records} {d : EventDraft} {t : Time} (hd : d.occurredAt ≤ t)
    (h : ∀ e ∈ r.events, e.occurredAt ≤ t) : (r.eventOf d).occurredAt ≤ t := by
  unfold Records.eventOf
  cases hlast : r.events.getLast? with
  | none => exact hd
  | some last => exact max_le (h last (List.mem_of_getLast? hlast)) hd

/-- The log and its cursor are all there is to it. -/
theorem Records.Logged.congr (h : r.Logged) (hrun : r'.run.id = r.run.id)
    (hcursor : r'.run.lastEventSequence = r.run.lastEventSequence)
    (hevents : r'.events = r.events) : r'.Logged where
  toSequenced := (Extends.of_eq hrun hcursor hevents).sequenced h.toSequenced
  chronological := by
    unfold Records.Chronological
    rw [hevents]
    exact h.chronological
  keyed := by
    rw [hevents]
    exact h.keyed

/-- A new event under a new key. -/
theorem Records.Logged.append {draft : EventDraft} {event : Event} (h : r.Logged)
    (happend : r.append safe draft = .ok (event, r')) : r'.Logged := by
  have hsequenced := (Extends.of_append happend).sequenced h.toSequenced
  unfold Records.append at happend
  cases hkey : r.byKey draft.idempotencyKey with
  | some existing =>
    simp only [hkey] at happend
    split_ifs at happend
    cases happend
    exact h
  | none =>
    simp only [hkey] at happend
    split_ifs at happend
    cases happend
    refine ⟨hsequenced, ?_, ?_⟩
    · exact List.pairwise_append.mpr ⟨h.chronological, List.pairwise_singleton _ _,
        fun e he f hf => List.mem_singleton.mp hf ▸ le_eventOf h.chronological he draft⟩
    · rw [List.map_append, List.nodup_append]
      refine ⟨h.keyed, List.nodup_singleton _, ?_⟩
      rintro key hold key' hnew rfl
      obtain ⟨e, he, hek⟩ := List.mem_map.mp hold
      rw [List.map_singleton, List.mem_singleton] at hnew
      have hne := List.find?_eq_none.mp hkey e he
      rw [decide_eq_true_eq] at hne
      exact hne (hek.trans hnew)

theorem log_saveCriterion (r : Records) (criterion : AcceptanceCriterion) :
    (r.saveCriterion criterion).events = r.events ∧
      (r.saveCriterion criterion).run.lastEventSequence = r.run.lastEventSequence := by
  unfold Records.saveCriterion
  split
  · exact ⟨rfl, rfl⟩
  · split <;> exact ⟨rfl, rfl⟩

/-- A call adds an event to the log or leaves the log and its cursor alone. -/
theorem Staging.log (h : Staging safe r r') :
    (∃ draft event, r.append safe draft = .ok (event, r')) ∨
      r'.events = r.events ∧ r'.run.lastEventSequence = r.run.lastEventSequence := by
  cases h with
  | append h => exact .inl ⟨_, _, h⟩
  | saveRun hid h =>
    unfold Records.saveRun at h
    split_ifs at h
    cases h
    exact .inr ⟨rfl, rfl⟩
  | saveCriterion criterion => exact .inr (log_saveCriterion r criterion)
  | @saveEvaluation _ criterion evidence h =>
    unfold Records.saveEvaluation at h
    split_ifs at h
    cases h
    exact .inr (log_saveCriterion { r with evidence := r.evidence.put evidence } criterion)
  | saveTask task =>
    refine .inr ?_
    unfold Records.saveTask
    split <;> exact ⟨rfl, rfl⟩
  | saveGoal h =>
    unfold Records.saveGoal at h
    split_ifs at h
    cases h
    exact .inr ⟨rfl, rfl⟩
  | setCurrentGoal h =>
    unfold Records.setCurrentGoal at h
    split_ifs at h
    cases h
    exact .inr ⟨rfl, rfl⟩
  | addTask h =>
    unfold Records.addTask at h
    split_ifs at h
    cases h
    exact .inr ⟨rfl, rfl⟩
  | savePlan h =>
    unfold Records.savePlan at h
    split_ifs at h
    cases h
    exact .inr ⟨rfl, rfl⟩
  | savePhase h =>
    unfold Records.savePhase at h
    split_ifs at h
    cases h
    exact .inr ⟨rfl, rfl⟩
  | addRequest h =>
    unfold Records.addRequest at h
    split_ifs at h
    cases h
    exact .inr ⟨rfl, rfl⟩
  | addDecision h =>
    unfold Records.addDecision at h
    split_ifs at h
    cases h
    exact .inr ⟨rfl, rfl⟩
  | saveActor | saveExecution | savePolicy | saveExtension => exact .inr ⟨rfl, rfl⟩

/-- Every call keeps a log sound. -/
theorem Staging.logged (h : Staging safe r r') (hr : r.Logged) : r'.Logged := by
  rcases h.log with ⟨draft, event, happend⟩ | ⟨hevents, hcursor⟩
  · exact hr.append happend
  · exact hr.congr h.extends.id hcursor hevents

/-- So does any sequence of calls. -/
theorem Records.Logged.calls (h : r.Logged) (hcalls : ReflTransGen (Staging safe) r r') :
    r'.Logged := by
  induction hcalls with
  | refl => exact h
  | tail _ hlast ih => exact hlast.logged ih

/-- A stored key answers its event, if the draft is that of the event, and is refused
otherwise. -/
theorem Records.Logged.append_stored {draft : EventDraft} {e : Event} (h : r.Logged)
    (he : e ∈ r.events) (hkey : e.idempotencyKey = draft.idempotencyKey) :
    r.append safe draft =
      if e.eventType = draft.eventType ∧ e.payload = draft.payload ∧ e.taskId = draft.taskId ∧
          e.actorSessionId = draft.actorSessionId ∧
          e.taskExecutionId = draft.taskExecutionId ∧ e.phase = draft.phase then
        .ok (e, r)
      else
        .error (.conflict "Idempotency key reused for a different event") := by
  have hstored : r.byKey draft.idempotencyKey = some e := by
    cases hfound : r.byKey draft.idempotencyKey with
    | none =>
      have hne := List.find?_eq_none.mp hfound e he
      rw [decide_eq_true_eq] at hne
      exact absurd hkey hne
    | some f =>
      have hf : f ∈ r.events := List.mem_of_find?_eq_some hfound
      have hfkey : f.idempotencyKey = draft.idempotencyKey := by
        simpa using List.find?_some hfound
      rw [List.inj_on_of_nodup_map h.keyed hf he (hfkey.trans hkey.symm)]
  unfold Records.append
  rw [hstored]
  simp only [Event.matches, decide_eq_true_eq]

end Logs

/-! ## The log of a history -/

section Histories

variable {safe : String → Bool} {id : String} {history : List Aggregate} {a x y base : Aggregate}

theorem logged_newAggregate {run : Run} (h : run.lastEventSequence = 0) :
    (newAggregate id run).records.Logged where
  toSequenced := (settled_newAggregate h).sequenced
  chronological := .nil
  keyed := .nil

theorem Aggregate.Same.logged (h : x.Same y) (hy : y.records.Logged) : x.records.Logged :=
  hy.congr (congrArg Run.id h.records.run) (congrArg Run.lastEventSequence h.records.run)
    h.records.events

theorem Derived.logged (h : Derived safe base a) (hbase : base.records.Logged) :
    a.records.Logged :=
  hbase.calls h.calls

/-- Every entry of a chain has a sound log. -/
theorem Chain.logged (h : Chain safe id history) : ∀ x ∈ history, x.records.Logged := by
  induction h with
  | nil => simp
  | @snoc history x h hx ih =>
    intro y hy
    rcases List.mem_append.mp hy with hold | hnew
    · exact ih y hold
    · rw [List.mem_singleton.mp hnew]
      obtain ⟨base, a, hbase, hstaged, rfl⟩ := hx
      unfold Base at hbase
      refine Records.Logged.calls ?_ hstaged.calls
      cases hlast : history.getLast? with
      | none =>
        rw [hlast] at hbase
        obtain ⟨run, hcursor, rfl⟩ := hbase
        exact logged_newAggregate hcursor
      | some y =>
        rw [hlast] at hbase
        exact Aggregate.Same.logged hbase (ih y (List.mem_of_getLast? hlast))

theorem Current.logged (h : Current safe history a) (hchain : Chain safe id history) :
    a.records.Logged := by
  obtain ⟨-, base, y, i, hy, hsame, hderived⟩ := h
  exact hderived.logged (hsame.logged (hchain.logged y (List.mem_of_getElem? hy)))

end Histories

/-! ## The log of a run -/

section Runs

variable {ι θ : Type} [DecidableEq ι] [DecidableEq θ] {thread : ι → θ} {safe : String → Bool}
  {secretSafe : StateDocument → Bool} {W : World ι θ}

/-- In every run of any sessions over one store the log of every aggregate is sound, of those
the sessions hold and of those that were committed, and what was committed last loads. A key
that is stored answers its event or is refused, and leaves the log alone. -/
theorem log_integrity
    (hrun : ReflTransGen (World.Step thread safe secretSafe) (World.initial ι θ) W) :
    (∀ i r a, W.held i r = some a → a.records.Logged) ∧
    (∀ id, ∀ x ∈ W.history id, x.records.Logged) ∧
    (∀ id x, (W.history id).getLast? = some x →
      ∃ y, ((loadCapsule id x.records.run.id).run (W.store.capsule id)).value = .ok y ∧
        y.Same x ∧ y.records.Logged) ∧
    (∀ i r a draft e, W.held i r = some a → e ∈ a.records.events →
      e.idempotencyKey = draft.idempotencyKey →
      a.records.append safe draft =
        if e.eventType = draft.eventType ∧ e.payload = draft.payload ∧
            e.taskId = draft.taskId ∧ e.actorSessionId = draft.actorSessionId ∧
            e.taskExecutionId = draft.taskExecutionId ∧ e.phase = draft.phase then
          .ok (e, a.records)
        else
          .error (.conflict "Idempotency key reused for a different event")) := by
  obtain ⟨hinv, -⟩ := World.inv_of_run hrun
  have hheld : ∀ i r a, W.held i r = some a → a.records.Logged := by
    intro i r a ha
    rcases hinv.held i r a ha with hcurrent | ⟨-, -, ⟨run, hcursor, hderived⟩, -⟩
    · exact hcurrent.logged (hinv.chain _)
    · exact hderived.logged (logged_newAggregate hcursor)
  refine ⟨hheld, fun id x hx => (hinv.chain id).logged x hx, fun id x hx => ?_,
    fun i r a draft e ha he hkey => (hheld i r a ha).append_stored he hkey⟩
  obtain ⟨-, hid, -, -⟩ := (hinv.chain id).last hx
  obtain ⟨y, hvalue, hsame⟩ := ((hinv.disk id).holds hx).loads
  rw [hid] at hvalue
  exact ⟨y, hvalue, hsame,
    hsame.logged ((hinv.chain id).logged x (List.mem_of_getLast? hx))⟩

/-- The log of the run one session commits. -/
theorem sampleNew_logged :
    ∃ W : World Nat Nat,
      ReflTransGen (World.Step id (fun _ => true) (fun _ => true)) (World.initial Nat Nat) W ∧
        W.history "ORQ-20260101-0001" = [sampleNew.committed] ∧
        sampleNew.committed.records.Logged := by
  obtain ⟨W, hrun, hhistory⟩ := sampleNew_committed
  exact ⟨W, hrun, hhistory, (log_integrity hrun).2.1 _ _ (hhistory ▸ List.mem_cons_self)⟩

end Runs

end Orqalis
