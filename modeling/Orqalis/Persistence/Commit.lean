import Orqalis.Persistence.Recovery

/-!
# A commit is all or nothing

A commit of a staged aggregate writes its marker in one step and is carried out from it.
A stop before the marker leaves the directory as it was; a stop after it leaves one that
every later load rolls forward to the same end.
-/

namespace Orqalis

open Lib Lib.Crash Lib.Outcome

/-- A capsule without a marker whose aggregate a load answers. -/
structure Loaded (id : String) (runId : UUID) (c : Capsule) (base : Aggregate) : Prop where
  marker : c.marker = none
  load : c.loadPath id = .ok base
  run : base.records.run.id = runId

/-! ## What a load answers -/

section Load

variable {id : String} {runId : UUID} {c : Capsule} {base a : Aggregate}

/-- A loaded aggregate is committed: its generation is positive and its log complete. -/
theorem loadPath_committed (h : c.loadPath id = .ok base) :
    1 ≤ base.generation ∧ base.capsuleId = id ∧ base.isNew = false ∧ base.dirty = false ∧
      base.records.Sequenced ∧ base.persistedEventCount = base.records.events.length ∧
      (∃ d, c.readState = .ok d ∧ d.generation = .value base.generation) ∧
      c.readJsonl = .ok (base.records.events.map eventRecord) := by
  unfold Capsule.loadPath at h
  obtain ⟨d, hstate, h⟩ := bind_eq_ok.mp h
  obtain ⟨lines, hlog, h⟩ := bind_eq_ok.mp h
  obtain ⟨-, h⟩ := ite_error_eq_ok.mp h
  obtain ⟨generation, hgeneration, h⟩ := bind_eq_ok.mp h
  obtain ⟨records, hrecords, h⟩ := bind_eq_ok.mp h
  cases h
  obtain ⟨hsequenced, rfl⟩ := StateDocument.sequenced_of_records hrecords
  have hread : c.readJsonl = .ok (records.events.map eventRecord) := by
    unfold Capsule.readLog at hlog
    split at hlog
    · next hlines => rw [hlines, Except.ok.inj hlog]
    · cases hlog
  unfold StateDocument.committedGeneration at hgeneration
  split at hgeneration
  · next g hg =>
    obtain ⟨hpos, h⟩ := ite_ok_eq_ok.mp hgeneration
    cases h
    have hnat : (g.toNat : Int) = g := Int.toNat_of_nonneg (by omega)
    refine ⟨?_, rfl, rfl, rfl, hsequenced, rfl, ⟨d, hstate, ?_⟩, hread⟩
    · show 1 ≤ g.toNat
      omega
    · rw [hg, hnat]
  · cases hgeneration

/-- A load answers what its recovery leaves. -/
theorem run_loadCapsule {t : Capsule} (hvalue : (recover.run c).value = .ok ())
    (hdisk : (recover.run c).disk = t) (hload : t.loadPath id = .ok a)
    (hrun : a.records.run.id = runId) :
    (loadCapsule id runId).run c = ⟨(recover.run c).stops, .ok a, t⟩ := by
  unfold loadCapsule
  rw [Prog.run_bind]
  cases hran : recover.run c with
  | mk stops value disk =>
    rw [hran] at hvalue hdisk
    simp only at hvalue hdisk
    subst hvalue hdisk
    simp [Prog.andThen, Prog.run_bind, Prog.read, Prog.lift, hload, hrun]

/-- A directory without a marker has nothing to recover. -/
theorem run_recover_of_marker (h : c.marker = none) : recover.run c = ⟨[], .ok (), c⟩ := by
  simp [recover, Prog.run_bind, Prog.andThen, Prog.read, h]

/-- A load of a directory without a marker leaves it alone. -/
theorem Loaded.run_load (h : Loaded id runId c base) :
    (loadCapsule id runId).run c = ⟨[], .ok base, c⟩ := by
  have hrecover := run_recover_of_marker h.marker
  rw [run_loadCapsule (by rw [hrecover]) (by rw [hrecover]) h.load h.run, hrecover]

/-- The stops of a load are those of its recovery. -/
theorem stops_loadCapsule {t : Capsule} :
    t ∈ ((loadCapsule id runId).run c).stops → t ∈ (recover.run c).stops := by
  unfold loadCapsule
  rw [Prog.run_bind]
  cases hran : recover.run c with
  | mk stops value disk =>
    cases value with
    | error e => exact fun h => h
    | ok u =>
      simp only [Prog.andThen, Prog.run_bind, Prog.read, List.nil_append]
      cases disk.loadPath id with
      | error e => simp [Prog.lift, Prog.fail]
      | ok a =>
        simp only [Prog.lift, Prog.run_pure, List.nil_append]
        split <;> simp [Prog.fail]

end Load

/-! ## The finished directory -/

section Finished

variable {secretSafe : StateDocument → Bool} {a : Aggregate} {documents : Documents}

/-- The lines of a finished commit are those of its events. -/
theorem committedLines_append_addedLines :
    committedLines a ++ addedLines a = a.records.events.map eventRecord := by
  unfold committedLines addedLines
  rw [← List.map_append, List.take_append_drop]

/-- A document of the commit is in the finished directory. -/
theorem files_finished {old : Capsule} {name : DocumentName} {content : Content}
    (h : documents.get? name = some (name, content)) :
    (finished old a documents).files (.document name) = some content :=
  replay_of_mem (writes_nodup documents) (mem_writes (Table.mem_of_get? h)) old.files

/-- THE FINISHED DIRECTORY HOLDS THE AGGREGATE: loading it answers what was staged, at the
next generation. -/
theorem loadPath_finished {old : Capsule}
    (hdocuments : a.documents secretSafe (a.generation + 1) = .ok documents)
    (hsequenced : a.records.Sequenced) :
    ∃ x, (finished old a documents).loadPath a.capsuleId = .ok x ∧ x.Same a.committed := by
  obtain ⟨r, hrecords, hsame⟩ :=
    StateDocument.records_of a (a.generation + 1) hsequenced
  have hstate : (finished old a documents).readState =
      .ok (a.stateDocument (a.generation + 1)) := by
    unfold Capsule.readState
    rw [files_finished (Aggregate.get?_state_documents hdocuments)]
  have hlog : (finished old a documents).readLog =
      .ok (a.records.events.map eventRecord) := by
    have hread : (finished old a documents).readJsonl =
        .ok (a.records.events.map eventRecord) := by
      simp only [Capsule.readJsonl, finished, committedLines_append_addedLines,
        Bool.false_eq_true, if_false]
      exact mapM_some _ _
    unfold Capsule.readLog
    rw [hread]
  have hgeneration : (a.stateDocument (a.generation + 1)).committedGeneration =
      .ok (a.generation + 1) := by
    have hpos : (1 : Int) ≤ ((a.generation + 1 : Nat) : Int) := by omega
    simp only [StateDocument.committedGeneration, Aggregate.stateDocument, if_pos hpos,
      Int.toNat_natCast]
  refine ⟨⟨a.capsuleId, a.generation + 1, r, false, false, r.events.length⟩, ?_, ?_⟩
  · have hversion : ¬ (a.stateDocument (a.generation + 1)).schemaVersion ≠
        .value taskSchemaVersion := not_not.mpr rfl
    unfold Capsule.loadPath
    rw [hstate, hlog]
    simp only [bind, Except.bind, if_neg hversion, hgeneration, hrecords]
  · exact
      { capsuleId := rfl
        generation := rfl
        records := hsame
        dirty := rfl
        isNew := rfl
        persisted := congrArg List.length hsame.events }

end Finished

/-! ## The commit -/

/-- A capsule no commit of which is under way, and the aggregate a session holds of it. -/
structure Settled (c : Capsule) (base : Aggregate) : Prop where
  marker : c.marker = none
  sequenced : base.records.Sequenced
  persisted : base.persistedEventCount = base.records.events.length
  log : (c.log = none ∧ base.records.events = []) ∨
    c.log = some ⟨(base.records.events.map eventRecord).map some, false⟩
  generation : base.isNew = true ∨ ∃ d, c.readState = .ok d ∧ d.generation = .value base.generation

/-- The aggregate of a load is settled. -/
theorem Loaded.settled {id : String} {runId : UUID} {c : Capsule} {base : Aggregate}
    (h : Loaded id runId c base) : Settled c base := by
  obtain ⟨-, -, -, -, hsequenced, hpersisted, hstate, hread⟩ := loadPath_committed h.load
  refine ⟨h.marker, hsequenced, hpersisted, ?_, .inr hstate⟩
  unfold Capsule.readJsonl at hread
  cases hlog : c.log with
  | none =>
    rw [hlog] at hread
    exact .inl ⟨rfl, List.map_eq_nil_iff.mp (Except.ok.inj hread).symm⟩
  | some log =>
    right
    rw [hlog] at hread
    obtain ⟨lines, torn⟩ := log
    cases torn with
    | true => cases hread
    | false =>
      have hlines : lines = (base.records.events.map eventRecord).map some :=
        eq_map_some_of_mapM hread
      rw [hlines]

section Commit

variable {id : String} {runId : UUID} {secretSafe : StateDocument → Bool}
  {safe : String → Bool} {cap : Capsule} {base a : Aggregate} {documents : Documents}

/-- What staging on a settled aggregate leaves as it was. -/
theorem Staged.of_settled (hstaged : Staged safe base a) (hsettled : Settled cap base) :
    a.records.Sequenced ∧ a.records.run.id = base.records.run.id ∧
      a.persistedEventCount ≤ a.records.events.length ∧
      committedLines a = base.records.events.map eventRecord ∧
      base.records.events <+: a.records.events := by
  have hextends := Extends.of_calls hstaged.calls
  have hcount : a.persistedEventCount = base.records.events.length :=
    hstaged.persisted.trans hsettled.persisted
  refine ⟨hextends.sequenced hsettled.sequenced, hextends.id, ?_, ?_, hextends.events⟩
  · rw [hcount]
    exact hextends.events.length_le
  · unfold committedLines
    rw [hcount, ← List.prefix_iff_eq_take.mp hextends.events]

/-- Once its marker is in place, a commit is interrupted. -/
theorem interrupted_putMarker (hsettled : Settled cap base) (hstaged : Staged safe base a) :
    Interrupted cap a documents
      (cap.putMarker (.transaction (a.transaction (a.generation + 1) documents))) := by
  obtain ⟨-, -, -, hlines, -⟩ := hstaged.of_settled hsettled
  refine ⟨rfl, rfl, fun _ => .inl rfl, ?_⟩
  rw [hlines]
  rcases hsettled.log with ⟨hlog, hevents⟩ | hlog
  · exact .inl ⟨hlog, by rw [hevents]; rfl⟩
  · exact .inr ⟨0, false, by simpa [Capsule.putMarker] using hlog⟩

/-- The generation an aggregate was staged on is still the one on disk. -/
theorem run_checkGeneration (hsettled : Settled cap base) (hstaged : Staged safe base a) :
    a.checkGeneration.run cap = ⟨[], .ok (), cap⟩ := by
  unfold Aggregate.checkGeneration
  rcases hsettled.generation with hnew | ⟨d, hstate, hgeneration⟩
  · rw [if_pos (hstaged.isNew.trans hnew)]
    rfl
  · have hrecover := run_recover_of_marker hsettled.marker
    split
    · rfl
    · simp [diskGeneration, Prog.run_bind, Prog.andThen, hrecover, Prog.read, hstate,
        hgeneration, hstaged.generation]

/-- A COMMIT IS CARRIED OUT OR HAS NOT BEGUN: every stop of it leaves what a recovery rolls
forward, and it is refused only before the first of them. -/
theorem commitCapsule_meets (hsettled : Settled cap base) (hstaged : Staged safe base a) :
    Meets (commitCapsule secretSafe a) cap
      (fun t => ∃ documents, a.documents secretSafe (a.generation + 1) = .ok documents ∧
        RolledForward cap a documents t)
      (fun v t => match a.documents secretSafe (a.generation + 1) with
        | .ok documents => v = .ok a.committed ∧ t = finished cap a documents
        | .error e => v = .error e ∧ t = cap) := by
  obtain ⟨-, -, hpersisted, -, -⟩ := hstaged.of_settled hsettled
  unfold commitCapsule
  rw [if_neg (by simp [hstaged.dirty])]
  have hcheck : Meets a.checkGeneration cap (fun _ => False)
      (fun v t => v = .ok () ∧ t = cap) := by
    unfold Meets
    rw [run_checkGeneration hsettled hstaged]
    exact ⟨by simp, rfl, rfl⟩
  refine meets_bind (hcheck.mono (fun _ h => h.elim) ?_)
  rintro v t ⟨rfl, rfl⟩
  refine meets_bind (meets_lift ?_)
  cases hdocuments : a.documents secretSafe (a.generation + 1) with
  | error e => exact ⟨rfl, rfl⟩
  | ok documents =>
    have hinterrupted : Interrupted t a documents _ :=
      interrupted_putMarker hsettled hstaged
    refine meets_bind (meets_write ⟨documents, rfl, .inl hinterrupted⟩ ?_)
    refine meets_bind ((recover_interrupted hpersisted hinterrupted).mono ?_ ?_)
    · exact fun u hu => ⟨documents, rfl, hu⟩
    · rintro v u ⟨rfl, rfl⟩
      exact meets_pure ⟨rfl, rfl⟩

/-- Any number of stopped loads of a rolled-forward directory leaves one. -/
theorem RolledForward.of_stopped {t u : Capsule}
    (hpersisted : a.persistedEventCount ≤ a.records.events.length)
    (h : RolledForward cap a documents t) (hstopped : Stopped (loadCapsule id runId) t u) :
    RolledForward cap a documents u :=
  hstopped.keeps (fun _ hs _ ht => (rolledForward_recover hpersisted hs).1 _
    (stops_loadCapsule ht)) h

/-- A load of a directory without a marker is never stopped in a new one. -/
theorem Loaded.of_stopped {u : Capsule} (h : Loaded id runId cap base)
    (hstopped : Stopped (loadCapsule id runId) cap u) : u = cap :=
  hstopped.keeps (C := fun s => s = cap) (fun s hs t ht => by
    subst hs
    rw [h.run_load] at ht
    simp at ht) rfl

/-- A load rolls a commit forward and answers what was staged. -/
theorem RolledForward.load {u : Capsule} (hsettled : Settled cap base)
    (hstaged : Staged safe base a)
    (hdocuments : a.documents secretSafe (a.generation + 1) = .ok documents)
    (h : RolledForward cap a documents u) :
    ∃ x, ((loadCapsule base.capsuleId base.records.run.id).run u).value = .ok x ∧
      ((loadCapsule base.capsuleId base.records.run.id).run u).disk =
        finished cap a documents ∧
      Loaded base.capsuleId base.records.run.id (finished cap a documents) x ∧
      x.Same a.committed := by
  obtain ⟨hsequenced, hrun, hpersisted, -, -⟩ := hstaged.of_settled hsettled
  obtain ⟨-, hvalue, hdisk⟩ := rolledForward_recover hpersisted h
  obtain ⟨x, hload, hsame⟩ := @loadPath_finished _ _ _ cap hdocuments hsequenced
  rw [hstaged.capsuleId] at hload
  have hxrun : x.records.run.id = base.records.run.id := by
    rw [hsame.records.run]
    exact hrun
  have hran := run_loadCapsule hvalue hdisk hload hxrun
  exact ⟨x, by rw [hran], by rw [hran], ⟨rfl, hload, hxrun⟩, hsame⟩

/-- CRASH ATOMICITY OF A COMMIT. Stopped before its marker, a commit leaves the directory
as it was, and every load answers the aggregate before it. Stopped anywhere after, and
again in any number of loads, the next load answers what was staged, at the next
generation, with the events of the old and of the new log once each and in sequence. -/
theorem commitCapsule_crash_atomic (hloaded : Loaded id runId cap base)
    (hstaged : Staged safe base a) :
    (∀ u, Stopped (loadCapsule id runId) cap u →
      u = cap ∧ (loadCapsule id runId).run u = ⟨[], .ok base, cap⟩) ∧
    ∀ t ∈ ((commitCapsule secretSafe a).run cap).stops,
      ∀ u, Stopped (loadCapsule id runId) t u →
        ∃ x, ((loadCapsule id runId).run u).value = .ok x ∧
          x.Same { a with
            generation := base.generation + 1
            dirty := false
            isNew := false
            persistedEventCount := a.records.events.length } ∧
          base.records.events <+: x.records.events ∧
          x.records.events.map Event.sequence = List.range' 1 x.records.events.length ∧
          ((loadCapsule id runId).run u).disk.log =
            some ⟨x.records.events.map fun e => some (eventRecord e), false⟩ := by
  refine ⟨fun u hu => ?_, fun t ht u hu => ?_⟩
  · have hcap := hloaded.of_stopped hu
    subst hcap
    exact ⟨rfl, hloaded.run_load⟩
  · have hsettled := hloaded.settled
    obtain ⟨hsequenced, -, hpersisted, -, hprefix⟩ := hstaged.of_settled hsettled
    obtain ⟨documents, hdocuments, hforward⟩ := (commitCapsule_meets hsettled hstaged).1 t ht
    obtain ⟨x, hvalue, hdisk, -, hsame⟩ :=
      (hforward.of_stopped hpersisted hu).load hsettled hstaged hdocuments
    obtain ⟨-, hid, -⟩ := loadPath_committed hloaded.load
    rw [hid, hloaded.run] at hvalue hdisk
    have hevents : x.records.events = a.records.events := hsame.records.events
    refine ⟨x, hvalue, ?_, ?_, ?_, ?_⟩
    · rw [← hstaged.generation]
      exact hsame
    · rw [hevents]
      exact hprefix
    · rw [hevents]
      exact hsequenced.numbered
    · rw [hdisk, hevents]
      simp only [finished, committedLines_append_addedLines, List.map_map]
      rfl

end Commit

/-! ## A run with one event -/

/-- A run that was just recorded. -/
def sampleRun : Run where
  id := .uuid4 1
  createdAt := 10
  projectId := .uuid4 0
  request := "Add a flag"
  targetBranch := "main"
  baseCommit := "b0"
  lastEventSequence := 1

/-- The event of its creation. -/
def sampleEvent : Event where
  projectId := .uuid4 0
  runId := .uuid4 1
  sequence := 1
  eventType := .runCreated
  occurredAt := 10
  idempotencyKey := "run:created"

/-- The run as a session loads it. -/
def sampleBase : Aggregate where
  capsuleId := "ORQ-20260101-0001"
  generation := 1
  records := { run := sampleRun, events := [sampleEvent] }
  persistedEventCount := 1

/-- Its capsule. -/
def sampleCapsule : Capsule where
  files := Function.update (fun _ => none) (.document .state)
    (some (.state (sampleBase.stateDocument 1)))
  log := some ⟨[some (eventRecord sampleEvent)], false⟩
  marker := none

/-- The draft of a second event. -/
def sampleDraft : EventDraft where
  eventType := .runStarted
  occurredAt := 20
  idempotencyKey := "run:started"

/-- The run with the second event staged. -/
def sampleStaged : Aggregate :=
  match sampleBase.records.append (fun _ => true) sampleDraft with
  | .ok (_, records) => { sampleBase with records, dirty := true }
  | .error _ => sampleBase

theorem sample_loaded : Loaded "ORQ-20260101-0001" (.uuid4 1) sampleCapsule sampleBase :=
  ⟨rfl, rfl, rfl⟩

theorem sample_staged : Staged (fun _ => true) sampleBase sampleStaged where
  calls := .single (@Staging.append _ _ _ sampleDraft (sampleBase.records.eventOf sampleDraft)
    (by rfl))
  capsuleId := rfl
  generation := rfl
  persisted := rfl
  isNew := rfl
  dirty := rfl

/-- The commit of the second event can be stopped in eight places after its marker, and each
leaves a directory that loads with both events. -/
theorem sample_crash_atomic :
    ((commitCapsule (fun _ => true) sampleStaged).run sampleCapsule).stops.length = 8 ∧
      ∀ t ∈ ((commitCapsule (fun _ => true) sampleStaged).run sampleCapsule).stops,
        ∃ x, ((loadCapsule "ORQ-20260101-0001" (.uuid4 1)).run t).value = .ok x ∧
          x.generation = 2 ∧ x.records.events.length = 2 := by
  refine ⟨by decide, fun t ht => ?_⟩
  obtain ⟨x, hvalue, hsame, -⟩ :=
    (@commitCapsule_crash_atomic _ _ (fun _ => true) _ _ _ _ sample_loaded sample_staged).2
      t ht t .none
  exact ⟨x, hvalue, hsame.generation, congrArg List.length hsame.records.events⟩

end Orqalis
