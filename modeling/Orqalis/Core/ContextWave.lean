import Orqalis.Core.Denial
import Orqalis.Core.Phases

/-!
# The wave before the work

Architects, planners and repairers work in a wave before the developers begin. A wave that ends
with an error suspends the run, by a transition under a key of its first task. The key is the
same each time: a wave that fails again with the same first task finds its transition made, and
leaves the run where it is (`suspended_again`). The first time it is made (`failed_wave`).
-/

namespace Orqalis

open Lib Lib.Transaction

namespace ContextWave

/-! ## Waves -/

/-- The roles that prepare the work. -/
def readRoles : List AgentRole := [.architect, .planner, .repair]

/-- The tasks of a wave: those under way, then those that can begin, as many as may run at
once. -/
def tasks (plan : TaskPlan) (maxParallel : Nat) : List Task :=
  let active := plan.tasks.filter fun t => t.preferredRole ∈ readRoles ∧ t.status = .running
  let ready := (readyTasks plan).filter fun t => t.preferredRole ∈ readRoles
  (active ++ ready).take maxParallel

/-- The next wave of a run; a run that does not execute has none. -/
def next (r : Records) (maxParallel : Nat) : Except Error (List Task) := do
  let plan ← r.getPlan r.run.planVersion
  match plan with
  | none => pure []
  | some plan => pure (if r.run.state ≠ .executing then [] else tasks plan maxParallel)

/-- Whether an error is a policy's. -/
def denied : Error → Bool
  | .policyDenied _ => true
  | _ => false

/-- The key under which a wave with this first task suspends its run. -/
def blockedKey (first : Task) : String := s!"context:blocked:{first.id.text}"

/-- Whether an attempt of a run is under way. -/
def working (r : Records) : Bool := r.executions.entries.any fun e => e.status = .running

/-- What becomes of a run whose wave has ended with these results: an error is raised again,
after the run is suspended where the error is no policy's and nothing is under way. -/
def finish (P : Primitives) (wave : List Task) (results : List (Option Error)) (now : Time)
    (phaseId : UUID) (r : Records) : Except Error Unit × Records :=
  match wave, results.filterMap id with
  | _, [] => (.ok (), r)
  | [], e :: _ => (.error e, r)
  | first :: _, e :: _ =>
    if denied e then
      (.error e, r)
    else if r.run.state = .executing ∧ working r = false then
      match Orchestrator.advance P .blocked (blockedKey first) now phaseId r with
      | .ok (_, r') => (.error e, r')
      | .error refusal => (.error refusal.error, refusal.committed.getD r)
    else
      (.error e, r)

/-! ## Keys -/

/-- The keys of the events of a suspension. -/
def eventKeys (key : String) : List String :=
  [s!"{key}:run", s!"{key}:orchestrator", s!"{key}:phase-status", s!"{key}:phase-start"]

/-- No event of a suspension under a key is stored. -/
def Unused (key : String) (r : Records) : Prop := ∀ k ∈ eventKeys key, r.byKey k = none

instance (key : String) (r : Records) : Decidable (Unused key r) := by
  unfold Unused
  infer_instance

theorem eventKeys_nodup (key : String) : (eventKeys key).Nodup := by
  simp [eventKeys, toString]

/-! ## Fresh events -/

section Fresh

variable {r r' : Records} (P : Primitives) (run : Run) (now : Time) {key : String}

theorem byKey_eq_none {key : String} :
    r.byKey key = none ↔ ∀ e ∈ r.events, e.idempotencyKey ≠ key := by
  simp [Records.byKey]

/-- No event of some keys is stored. -/
def Free (keys : List String) (r : Records) : Prop := ∀ k ∈ keys, r.byKey k = none

theorem Free.of_events {keys : List String} (h : Free keys r) (hevents : r'.events = r.events) :
    Free keys r' := by
  intro k hk
  unfold Records.byKey
  rw [hevents]
  exact h k hk

/-- An event of a new key, with no text from outside, is appended. -/
theorem emit_fresh (draft : EventDraft) {keys : List String}
    (hfree : Free (draft.idempotencyKey :: keys) r) (hnew : draft.idempotencyKey ∉ keys)
    (htexts : draft.payload.texts = []) :
    ∃ e r', emit P run draft r = .ok (e, r') ∧ Free keys r' ∧ r'.phases = r.phases := by
  have hkey := hfree draft.idempotencyKey List.mem_cons_self
  have happend : r.append P.safe { draft with phase := some run.uiPhase } =
      .ok (r.eventOf { draft with phase := some run.uiPhase }, { r with
        events := r.events ++ [r.eventOf { draft with phase := some run.uiPhase }]
        run := { r.run with lastEventSequence := r.run.lastEventSequence + 1 } }) := by
    unfold Records.append
    simp only [hkey, htexts, List.all_nil, if_true]
    rfl
  refine ⟨_, _, emit_ok.mpr happend, fun k hk => byKey_eq_none.mpr fun e he => ?_, rfl⟩
  rcases List.mem_append.mp he with he | he
  · exact byKey_eq_none.mp (hfree k (List.mem_cons_of_mem _ hk)) e he
  · rw [List.mem_singleton.mp he]
    intro heq
    have heq : draft.idempotencyKey = k := heq
    exact hnew (heq ▸ hk)

theorem note_fresh (draft : EventDraft) {keys : List String}
    (hfree : Free (draft.idempotencyKey :: keys) r) (hnew : draft.idempotencyKey ∉ keys)
    (htexts : draft.payload.texts = []) : ∃ r', note P run draft r = .ok ((), r') := by
  obtain ⟨e, r', he, -⟩ := emit_fresh P run draft hfree hnew htexts
  exact ⟨r', note_ok.mpr ⟨e, emit_ok.mp he⟩⟩

theorem setActorStatus_fresh (actor : ActorSession) (status : ActorStatus) {keys : List String}
    (hfree : Free (key :: keys) r) (hnew : key ∉ keys) :
    ∃ a r', setActorStatus P run actor status key now r = .ok (a, r') ∧ Free keys r' ∧
      r'.phases = r.phases := by
  obtain ⟨e, s, hs, hfree', hphases⟩ := emit_fresh P run
      { eventType := if status.terminal then .actorCompleted else .actorStatusChanged
        occurredAt := now
        idempotencyKey := key
        payload := { previousStatus := some actor.status.value, status := some status.value }
        actorSessionId := some actor.id } hfree hnew rfl
  unfold setActorStatus
  refine ⟨_, _, bind_ok.mpr ⟨e, s, hs, read_bind_ok.mpr (change_bind_ok.mpr
    (pure_ok.mpr ⟨rfl, rfl⟩))⟩, hfree'.of_events rfl, hphases⟩

/-- An entry that stays itself may be stored. -/
theorem savePhase_same {p q : PhaseExecution} (h : PhaseBook r.phases.entries)
    (hp : p ∈ r.phases) (hq : SamePhase p q) :
    ∃ r', r.savePhase q = .ok r' ∧ r'.events = r.events := by
  unfold Records.savePhase
  rw [if_neg]
  · exact ⟨_, rfl, rfl⟩
  · rw [List.any_eq_true]
    rintro ⟨item, hitem, hclash⟩
    simp only [decide_eq_true_eq, hq.id, hq.phase, hq.iteration] at hclash
    obtain ⟨hne, hphase, hiteration⟩ := hclash
    have hnodup : ((phasesOf r.phases.entries p.phase).map PhaseExecution.iteration).Nodup := by
      rw [h.numbered]
      exact List.nodup_range'
    have hmem (e : PhaseExecution) (he : e ∈ r.phases.entries) (heq : e.phase = p.phase) :
        e ∈ phasesOf r.phases.entries p.phase :=
      List.mem_filter.mpr ⟨he, decide_eq_true heq⟩
    refine hne (congrArg PhaseExecution.id (List.inj_on_of_nodup_map hnodup
      (hmem item hitem hphase) (hmem p hp rfl) hiteration))

/-- An entry of the next number may be stored. -/
theorem savePhase_next {n : PhaseExecution} (h : PhaseBook r.phases.entries)
    (hn : n.iteration = 1 + (phasesOf r.phases.entries n.phase).length) :
    ∃ r', r.savePhase n = .ok r' ∧ r'.events = r.events := by
  unfold Records.savePhase
  rw [if_neg]
  · exact ⟨_, rfl, rfl⟩
  · rw [List.any_eq_true]
    rintro ⟨item, hitem, hclash⟩
    simp only [decide_eq_true_eq] at hclash
    obtain ⟨-, hphase, hiteration⟩ := hclash
    have hnumber : item.iteration ∈ List.range' 1 (phasesOf r.phases.entries n.phase).length := by
      rw [← h.numbered]
      exact List.mem_map_of_mem (List.mem_filter.mpr ⟨hitem, decide_eq_true hphase⟩)
    have hbound := List.mem_range'_1.mp hnumber
    omega

/-- A phase the run shows goes on with another status. -/
theorem updatePhase_fresh (status : TaskStatus) (phaseId : UUID)
    (hbook : PhaseBook r.phases.entries)
    (hopen : ∀ p ∈ r.phases, p.completedAt = none → p.phase = run.uiPhase)
    (hfree : Free [s!"{key}:phase-status", s!"{key}:phase-start"] r) :
    ∃ r', updatePhase P run key now status false phaseId r = .ok ((), r') := by
  have hstatus : Free [s!"{key}:phase-status"] r :=
    fun k hk => hfree k (List.mem_cons.mpr (.inl (List.mem_singleton.mp hk)))
  have hstart : Free [s!"{key}:phase-start"] r := fun k hk => hfree k (List.mem_cons_of_mem _ hk)
  unfold updatePhase
  simp only [read_bind_ok, Bool.false_eq_true, or_false, if_false]
  rcases openPhase_cases hbook with ⟨p, before, hfound, hsplit, hnone, hended⟩ | ⟨hfound, hended⟩
  · have hp : p ∈ r.phases := Table.mem_def.mpr (hsplit ▸ by simp)
    rw [hfound]
    dsimp only
    have hphase := hopen p hp hnone
    by_cases hsame : p.status = status
    · refine ⟨r, ?_⟩
      rw [if_neg (not_not.mpr hphase), if_neg (not_not.mpr hsame)]
      rfl
    · obtain ⟨s, hs, hevents⟩ := savePhase_same (q := { p with status }) hbook hp
        ⟨rfl, rfl, rfl, rfl⟩
      obtain ⟨r', hr'⟩ := note_fresh P run
          { eventType := .phaseStatusChanged
            occurredAt := now
            idempotencyKey := s!"{key}:phase-status"
            payload :=
              { previousStatus := some p.status.value
                status := some status.value
                phaseExecutionId := some p.id } }
        (hstatus.of_events hevents) List.not_mem_nil rfl
      refine ⟨r', ?_⟩
      rw [if_neg (not_not.mpr hphase), if_pos hsame]
      exact stage_bind_ok.mpr ⟨s, hs, hr'⟩
  · rw [hfound]
    unfold startPhase
    obtain ⟨s, hs, hevents⟩ := savePhase_next (r := r)
      (n :=
        { id := phaseId
          createdAt := now
          runId := run.id
          phase := run.uiPhase
          startedAt := now
          iteration := 1 + r.phaseList.countP fun phase => phase.phase = run.uiPhase
          status }) hbook (by rw [countP_phaseList])
    obtain ⟨r', hr'⟩ := note_fresh P run
        { eventType := .phaseStarted
          occurredAt := now
          idempotencyKey := s!"{key}:phase-start"
          payload := { status := some status.value, phaseExecutionId := some phaseId } }
      (hstart.of_events hevents) List.not_mem_nil rfl
    exact ⟨r', stage_bind_ok.mpr ⟨s, hs, hr'⟩⟩

end Fresh

/-! ## Suspensions -/

section Suspensions

variable {r r' : Records} (P : Primitives) {project : Project} (now : Time) {key : String}
  (phaseId : UUID)

/-- The orchestrator's actor that is there is the one a transaction gets. -/
theorem orchestratorActor_there {actor : ActorSession}
    (h : r.actors.get? (orchestratorId r.run.id) = some actor) :
    orchestratorActor P r.run now r = .ok (actor, r) := by
  unfold orchestratorActor
  rw [read_bind_ok, h]
  rfl

/-- A run that executes can be blocked under a new key. -/
theorem enter_blocked (hstaffed : r.actors.has (orchestratorId r.run.id) = true)
    (hlog : PhaseLog r) (hunused : Unused key r) :
    ∃ r', Orchestrator.enter P r.run .blocked key now phaseId r = .ok ((), r') := by
  have hnodup := eventKeys_nodup key
  obtain ⟨actor, hactor⟩ := Option.isSome_iff_exists.mp hstaffed
  let blocked := Orchestrator.moved r.run .blocked now
  obtain ⟨s, hs⟩ : ∃ s, r.saveRun blocked = .ok s :=
    ⟨_, if_neg (not_or.mpr ⟨not_not.mpr rfl, not_not.mpr rfl⟩)⟩
  have hsaved := saveRun_ok hs
  have hfree : Free (eventKeys key) s := Free.of_events hunused (by rw [hsaved])
  obtain ⟨e, t, ht, hfree, hphases⟩ := emit_fresh P blocked
      { eventType := Orchestrator.transitionEvent r.run.state .blocked
        occurredAt := now
        idempotencyKey := s!"{key}:run"
        payload :=
          { previousStatus := some r.run.state.value, status := some RunState.blocked.value }
        actorSessionId := some actor.id } hfree (List.nodup_cons.mp hnodup).1 rfl
  have hnodup := (List.nodup_cons.mp hnodup).2
  obtain ⟨a, u, hu, hfree, hphases'⟩ := setActorStatus_fresh P blocked e.occurredAt actor
    (Orchestrator.coordinatorStatus .blocked) hfree (List.nodup_cons.mp hnodup).1
  have hsame : u.phases = r.phases := by rw [hphases', hphases, hsaved]
  obtain ⟨r', hr'⟩ := updatePhase_fresh P blocked e.occurredAt
    (Orchestrator.phaseStatus .blocked) phaseId
    (by rw [hsame]; exact hlog.kept.book)
    (fun p hp hopen => (hlog.shown p (hsame ▸ hp) hopen).1) hfree
  exact ⟨r', bind_ok.mpr ⟨actor, r, orchestratorActor_there P now hactor,
    stage_bind_ok.mpr ⟨s, hs, bind_ok.mpr ⟨e, t, ht, bind_ok.mpr ⟨a, u, hu,
      bind_ok.mpr ⟨(), r', hr', rfl⟩⟩⟩⟩⟩⟩

/-- The suspension of a run that executes, with nothing under way, under a new key. -/
theorem advance_blocked (hstaffed : r.actors.has (orchestratorId r.run.id) = true)
    (hlog : PhaseLog r) (hunused : Unused key r) (hkey : isBlank key = false)
    (hstate : r.run.state = .executing) (hidle : working r = false) :
    ∃ run r', Orchestrator.advance P .blocked key now phaseId r = .ok (run, r') ∧
      r'.run.state = .blocked := by
  obtain ⟨r', hr'⟩ := enter_blocked P now phaseId hstaffed hlog hunused
  have hrun : r.byKey s!"{key}:run" = none := hunused _ List.mem_cons_self
  obtain ⟨actor, hactor⟩ := Option.isSome_iff_exists.mp hstaffed
  have hvalid : validateTransition r.run.state .blocked r.run.resumeState = .ok () :=
    validateTransition_eq_ok.mpr (by rw [hstate]; exact ⟨rfl, .inl ⟨rfl, by decide⟩⟩)
  have hguard : Orchestrator.guard P r.run .blocked now r = .ok ((), r) :=
    bind_ok.mpr ⟨(), r, rfl, read_bind_ok.mpr (failIf_ok.mpr
      ⟨Bool.eq_false_iff.mp hidle, rfl⟩)⟩
  refine ⟨r'.run, r', ?_, (congrArg Run.state (Orchestrator.enter_lifecycle rfl hr') :)⟩
  unfold Orchestrator.advance
  refine bind_ok.mpr ⟨(), r, failIf_ok.mpr ⟨Bool.eq_false_iff.mp hkey, rfl⟩,
    locked_bind_ok.mpr (read_bind_ok.mpr ?_)⟩
  simp only [id_eq, hrun]
  exact ask_bind_ok.mpr ⟨(), hvalid, bind_ok.mpr ⟨(), r, hguard,
    bind_ok.mpr ⟨actor, r, orchestratorActor_there P now hactor, bind_ok.mpr ⟨(), r, rfl,
      bind_ok.mpr ⟨(), r', hr', rfl⟩⟩⟩⟩⟩

/-- Under a key whose transition is stored a suspension leaves the run alone. -/
theorem advance_stored_key (target : RunState) {e : Event}
    (h : r.byKey s!"{key}:run" = some e) :
    stored (Orchestrator.advance P target key now phaseId) r = some r ∨
      stored (Orchestrator.advance P target key now phaseId) r = none := by
  cases hr : stored (Orchestrator.advance P target key now phaseId) r with
  | none => exact .inr rfl
  | some r' =>
    obtain ⟨x, -, hr⟩ := (Reads.requireKey key).stored_bind hr
    obtain ⟨run, hrun, hr⟩ := Reads.locked.stored_bind hr
    obtain ⟨rfl, -⟩ := read_ok.mp hrun
    rw [stored_read_bind] at hr
    simp only [id_eq, h] at hr
    rw [(Reads.bind (Reads.failIf _ _) fun _ => Reads.pure _).stored_eq hr]
    exact .inl rfl

theorem blockedKey_not_blank (first : Task) : isBlank (blockedKey first) = false := by
  simp [isBlank, blockedKey, toString, String.toList_append, isSpace]

/-- A wave that was begun in one state of a run has ended in another, with an error that is no
policy's. -/
structure Failing (P : Primitives) (project : Project) (maxParallel : Nat) (wave : List Task)
    (results : List (Option Error)) (r s : Records) : Prop where
  begun : next r maxParallel = .ok wave
  run : Relation.ReflTransGen (Step P project) r s
  failed : ∃ e rest, results.filterMap id = e :: rest ∧ denied e = false

theorem finish_failing {results : List (Option Error)} {first : Task}
    {rest : List Task} {s : Records}
    (hfailed : ∃ e rest, results.filterMap id = e :: rest ∧ denied e = false)
    (hstate : s.run.state = .executing) (hidle : working s = false) :
    (finish P (first :: rest) results now phaseId s).2 =
      (stored (Orchestrator.advance P .blocked (blockedKey first) now phaseId) s).getD s := by
  obtain ⟨e, errors, herrors, hopen⟩ := hfailed
  unfold finish stored
  rw [herrors]
  simp only [hopen, Bool.false_eq_true, if_false, hstate, hidle, and_self, if_true]
  cases Orchestrator.advance P .blocked (blockedKey first) now phaseId s with
  | ok _ => rfl
  | error _ => rfl

/-- Where the suspension of a wave is stored, nothing comes of its end. -/
theorem finish_stored {results : List (Option Error)} {first : Task} {rest : List Task}
    {s : Records} (hfailed : ∃ e rest, results.filterMap id = e :: rest ∧ denied e = false)
    (hstate : s.run.state = .executing) (hidle : working s = false)
    (hstored : s.byKey s!"{blockedKey first}:run" ≠ none) :
    (finish P (first :: rest) results now phaseId s).2 = s := by
  obtain ⟨e, he⟩ := Option.ne_none_iff_exists'.mp hstored
  rw [finish_failing P now phaseId hfailed hstate hidle]
  rcases advance_stored_key P now phaseId .blocked he with h | h
  · rw [h]
    rfl
  · rw [h]
    rfl

end Suspensions

end ContextWave

/-! ## Rounds of a wave -/

namespace Sample

/-- An architect's task. -/
def sketch : Task := { task with preferredRole := .architect }

/-- A plan with the architect's task. -/
def sketching : TaskPlan := { plan with tasks := [sketch] }

/-- The commands until the wave of the architect's task begins. -/
def untilWave : List Command :=
  beginning.take 3 ++
    [.installPlan ⟨sketching, by decide +kernel⟩ "plan" 4,
      .advance .planned "planned" 5 (.uuid4 23), .advance .executing "execute" 6 (.uuid4 24)]

/-- The attempt of a round. -/
def attemptOf (key : String) : UUID := .uuid5 (.uuid4 1) s!"{key}:attempt"

/-- A round of the wave: the architect's attempt is blocked. -/
def round (key : String) (now : Time) : List Command :=
  [.startTask sketch.id key now, .transitionTask (attemptOf key) .blocked s!"{key}:blocked" now]

/-- The suspension of the run, the replacement of the attempt and the run's resumption. -/
def recovery (key : String) (now : Time) : List Command :=
  [.advance .blocked (ContextWave.blockedKey sketch) now (.uuid4 25),
    .retry (attemptOf key) "Inspected" "again" true now,
    .advance .executing "resume" now (.uuid4 26)]

/-- The run at its first wave. -/
def firstWave : Records := (history primitives project untilWave made).get (by decide +kernel)

/-- The run after its first wave has failed. -/
def firstFailure : Records :=
  (history primitives project (round "first" 7) firstWave).get (by decide +kernel)

/-- The run at its second wave. -/
def secondWave : Records :=
  (history primitives project (recovery "first" 8) firstFailure).get (by decide +kernel)

/-- The run after its second wave has failed. -/
def secondFailure : Records :=
  (history primitives project (round "second" 9) secondWave).get (by decide +kernel)

theorem firstWave_reachable : Reachable primitives project firstWave :=
  made_reachable.history (Option.some_get _).symm

theorem secondWave_reachable : Reachable primitives project secondWave :=
  (firstWave_reachable.history (Option.some_get _).symm).history
    (Option.some_get _).symm

/-- The architect's task as the first wave finds it. -/
def firstSketch : Task := { sketch with status := .ready, readyAt := some 4 }

/-- The architect's task as the second wave finds it. -/
def secondSketch : Task := { sketch with status := .ready, readyAt := some 8, attemptCount := 1 }

/-- What the waves of the run end with. -/
def results : List (Option Error) := [some (.conflict "Worker")]

theorem first_failing : ContextWave.Failing primitives project 4
    [firstSketch] results firstWave firstFailure where
  begun := by decide +kernel
  run := run_of_history (Option.some_get _).symm
  failed := ⟨_, _, rfl, rfl⟩

theorem second_failing : ContextWave.Failing primitives project 4
    [secondSketch] results secondWave secondFailure where
  begun := by decide +kernel
  run := run_of_history (Option.some_get _).symm
  failed := ⟨_, _, rfl, rfl⟩

theorem first_state : firstFailure.run.state = .executing ∧
    ContextWave.working firstFailure = false ∧
    ContextWave.Unused (ContextWave.blockedKey firstSketch) firstFailure := by
  decide +kernel

theorem second_state : secondFailure.run.state = .executing ∧
    ContextWave.working secondFailure = false ∧
    secondFailure.byKey s!"{ContextWave.blockedKey secondSketch}:run" ≠ none := by
  decide +kernel

end Sample

namespace ContextWave

/-- A wave that fails while its run executes, with nothing under way afterwards, blocks the run
where no suspension is stored under the key of its first task. Where one is, the run stays as
it is. -/
theorem failed_wave {P : Primitives} {project : Project} {maxParallel : Nat} {first : Task}
    {rest : List Task} {results : List (Option Error)} (now : Time) (phaseId : UUID)
    {r s : Records} (hr : Reachable P project r)
    (hwave : Failing P project maxParallel (first :: rest) results r s)
    (hstate : s.run.state = .executing) (hidle : working s = false) :
    (Unused (blockedKey first) s →
      (finish P (first :: rest) results now phaseId s).2.run.state = .blocked) ∧
    (s.byKey s!"{blockedKey first}:run" ≠ none →
      (finish P (first :: rest) results now phaseId s).2 = s) := by
  obtain ⟨r₀, h₀, hrun⟩ := hr
  have hs : Reachable P project s := ⟨r₀, h₀, hrun.trans hwave.run⟩
  refine ⟨fun hunused => ?_, finish_stored P now phaseId hwave.failed hstate hidle⟩
  obtain ⟨run, s', hs', hblocked⟩ := advance_blocked P now phaseId hs.attended.staffed
    hs.phaseLog hunused (blockedKey_not_blank first) hstate hidle
  rw [finish_failing P now phaseId hwave.failed hstate hidle, stored_of_ok hs']
  exact hblocked

/-- The first wave of the sample blocks the run. -/
theorem first_wave_blocks :
    (finish Sample.primitives [Sample.firstSketch] Sample.results 8 (.uuid4 25)
      Sample.firstFailure).2.run.state = .blocked :=
  (failed_wave 8 (.uuid4 25) Sample.firstWave_reachable Sample.first_failing Sample.first_state.1
    Sample.first_state.2.1).1 Sample.first_state.2.2

/-- A wave that fails again with the same first task leaves its run executing. -/
theorem suspended_again : ∃ (wave : List Task) (r s : Records),
    Reachable Sample.primitives Sample.project r ∧
    Failing Sample.primitives Sample.project 4 wave Sample.results r s ∧
    s.run.state = .executing ∧ working s = false ∧
    (finish Sample.primitives wave Sample.results 10 (.uuid4 27) s).2.run.state ≠ .blocked := by
  refine ⟨[Sample.secondSketch], Sample.secondWave, Sample.secondFailure,
    Sample.secondWave_reachable, Sample.second_failing, Sample.second_state.1,
    Sample.second_state.2.1, ?_⟩
  rw [finish_stored Sample.primitives 10 (.uuid4 27) Sample.second_failing.failed
    Sample.second_state.1 Sample.second_state.2.1 Sample.second_state.2.2, Sample.second_state.1]
  exact fun h => RunState.noConfusion h

end ContextWave

end Orqalis
