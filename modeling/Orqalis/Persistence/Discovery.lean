import Orqalis.Persistence.Commit
import Orqalis.Persistence.Store

/-!
# Finding a run

A run is found by the metadata its own capsule holds, whatever the index says. The commit
of a new capsule writes that metadata among its documents, so until it is in place nothing
leads to the marker that would bring the rest.
-/

namespace Orqalis

open Lib Lib.Crash Lib.Outcome

namespace Store

/-! ## Lookups -/

variable {s : Store} {expected id : String}

/-- A directory without metadata names no run. -/
theorem names_of_absent {name : String} {c : Capsule} (h : c.files (.document .task) = none) :
    names name c expected = .ok false := by
  simp [names, taskDocument, h, bind, Except.bind]

/-- The metadata of an aggregate's own capsule names its run and no other. -/
theorem names_of_task {c : Capsule} {a : Aggregate}
    (h : c.files (.document .task) = some (.task a.taskDocument)) :
    names a.capsuleId c expected = .ok (decide (a.records.run.id.text = expected)) := by
  simp [names, taskDocument, h, Aggregate.taskDocument, bind, Except.bind]

theorem scan_eq_ok {l : List (String × Capsule)}
    (h : ∀ d ∈ l, ∃ b, names d.1 d.2 expected = .ok b) : ∃ entries, scan l = .ok entries := by
  induction l with
  | nil => exact ⟨[], rfl⟩
  | cons d rest ih =>
    obtain ⟨b, hb⟩ := h d List.mem_cons_self
    obtain ⟨document, hdocument, -⟩ := bind_eq_ok.mp hb
    obtain ⟨entries, hentries⟩ := ih fun e he => h e (List.mem_cons_of_mem d he)
    rw [scan, hdocument, hentries]
    exact ⟨_, rfl⟩

/-- A search of directories that finds nothing read every one of them. -/
theorem searchDirectories_eq_none {l : List (String × Capsule)} :
    searchDirectories expected l = .ok none ↔ ∀ d ∈ l, names d.1 d.2 expected = .ok false := by
  induction l with
  | nil => simp [searchDirectories]
  | cons d rest ih =>
    rw [searchDirectories, bind_eq_ok, List.forall_mem_cons, ← ih]
    constructor
    · rintro ⟨found, hfound, h⟩
      cases found with
      | true => cases h
      | false => exact ⟨hfound, h⟩
    · intro ⟨hd, h⟩
      exact ⟨false, hd, h⟩

/-- A search of directories one of which names the run finds it. -/
theorem searchDirectories_eq_some {l : List (String × Capsule)}
    (h : ∀ d ∈ l, names d.1 d.2 expected = .ok (decide (d.1 = id)))
    (hid : ∃ d ∈ l, d.1 = id) : searchDirectories expected l = .ok (some id) := by
  induction l with
  | nil => simp at hid
  | cons d rest ih =>
    rw [searchDirectories, h d List.mem_cons_self]
    by_cases hd : d.1 = id
    · subst hd
      simp [bind, Except.bind]
    · obtain ⟨e, he, hid⟩ := hid
      rcases List.mem_cons.mp he with rfl | he
      · exact absurd hid hd
      · simp only [hd, decide_false]
        exact ih (fun e he => h e (List.mem_cons_of_mem d he)) ⟨e, he, hid⟩

/-- A search of index entries answers nothing or a capsule whose metadata names the run. -/
theorem searchEntries_eq {found : Bool}
    (h : ∀ name, names name (s.capsule name) expected = .ok (decide (name = id) && found))
    (entries : List IndexEntry) :
    s.searchEntries expected entries = .ok none ∨
      found = true ∧ s.searchEntries expected entries = .ok (some id) := by
  induction entries with
  | nil => exact .inl rfl
  | cons e rest ih =>
    rw [searchEntries]
    cases hid : e.id with
    | absent => exact ih
    | invalid => exact ih
    | value name =>
      by_cases hrun : e.runId = .value expected
      · simp only [if_pos hrun, h name]
        by_cases hname : name = id
        · subst hname
          cases found with
          | false => simpa [bind, Except.bind] using ih
          | true => exact .inr ⟨rfl, by simp [bind, Except.bind]⟩
        · simpa [hname, bind, Except.bind] using ih
      · simpa only [if_neg hrun] using ih

/-- What holds of every capsule directory holds of what a name leads to. -/
theorem names_capsule {found : Bool}
    (h : ∀ d ∈ s.capsules, names d.1 d.2 expected = .ok (decide (d.1 = id) && found))
    (hid : s.capsules.has id = true ∨ found = false) (name : String) :
    names name (s.capsule name) expected = .ok (decide (name = id) && found) := by
  unfold capsule
  cases hget : s.capsules.get? name with
  | some d =>
    have hname := Table.key_of_get? hget
    simpa [← hname] using h d (Table.mem_of_get? hget)
  | none =>
    rw [names_of_absent rfl]
    rcases hid with hid | hfound
    · have hne : name ≠ id := by
        rintro rfl
        simp [Table.has, hget] at hid
      simp [hne]
    · simp [hfound]

theorem mem_capsuleDirectories {d : String × Capsule} :
    d ∈ s.capsuleDirectories ↔ d ∈ s.capsules :=
  (List.perm_insertionSort _ _).mem_iff

/-- The entries a lookup goes through exist when the metadata reads. -/
theorem indexEntries_eq_ok (h : ∀ d ∈ s.capsules, ∃ b, names d.1 d.2 expected = .ok b) :
    ∃ entries, s.indexEntries = .ok entries := by
  unfold indexEntries
  split
  · exact ⟨_, rfl⟩
  · exact scan_eq_ok fun d hd => h d (mem_capsuleDirectories.mp hd)

/-- THE LOOKUP IS THE METADATA'S: a run whose capsule holds its metadata is found, and one
that no metadata names is not, whatever the index holds. -/
theorem capsuleId_eq {runId : UUID} {found : Bool}
    (h : ∀ d ∈ s.capsules, names d.1 d.2 runId.text = .ok (decide (d.1 = id) && found))
    (hid : s.capsules.has id = true ∨ found = false) :
    s.capsuleId runId = .ok (if found then some id else none) := by
  obtain ⟨entries, hentries⟩ := indexEntries_eq_ok fun d hd => ⟨_, h d hd⟩
  unfold capsuleId
  rw [hentries]
  simp only [bind, Except.bind]
  rcases searchEntries_eq (names_capsule h hid) entries with hsearch | ⟨rfl, hsearch⟩
  · rw [hsearch]
    cases found with
    | false =>
      simp only [Bool.false_eq_true, if_false]
      refine searchDirectories_eq_none.mpr fun d hd => ?_
      simpa using h d (mem_capsuleDirectories.mp hd)
    | true =>
      simp only [if_true]
      refine searchDirectories_eq_some (fun d hd => ?_) ?_
      · simpa using h d (mem_capsuleDirectories.mp hd)
      · rcases hid with hid | hfound
        · obtain ⟨d, hd⟩ := Option.isSome_iff_exists.mp hid
          exact ⟨d, mem_capsuleDirectories.mpr (Table.mem_of_get? hd), Table.key_of_get? hd⟩
        · cases hfound
  · rw [hsearch]
    rfl

/-- A lookup that finds nothing read the metadata of every capsule. -/
theorem names_of_capsuleId_eq_none {runId : UUID} (h : s.capsuleId runId = .ok none) :
    ∀ d ∈ s.capsules, names d.1 d.2 runId.text = .ok false := by
  unfold capsuleId at h
  obtain ⟨entries, -, h⟩ := bind_eq_ok.mp h
  obtain ⟨answer, -, h⟩ := bind_eq_ok.mp h
  cases answer with
  | some id => cases h
  | none =>
    intro d hd
    exact searchDirectories_eq_none.mp h d (mem_capsuleDirectories.mpr hd)

theorem names_of_searchDirectories {l : List (String × Capsule)}
    (h : searchDirectories expected l = .ok (some id)) :
    ∃ d ∈ l, d.1 = id ∧ names d.1 d.2 expected = .ok true := by
  induction l with
  | nil => cases h
  | cons d rest ih =>
    rw [searchDirectories] at h
    obtain ⟨found, hfound, h⟩ := bind_eq_ok.mp h
    cases found with
    | true =>
      cases h
      exact ⟨d, List.mem_cons_self, rfl, hfound⟩
    | false =>
      obtain ⟨e, he, hid, hnames⟩ := ih h
      exact ⟨e, List.mem_cons_of_mem d he, hid, hnames⟩

theorem names_of_searchEntries {entries : List IndexEntry}
    (h : s.searchEntries expected entries = .ok (some id)) :
    names id (s.capsule id) expected = .ok true := by
  induction entries with
  | nil => cases h
  | cons e rest ih =>
    rw [searchEntries] at h
    cases hid : e.id with
    | absent =>
      rw [hid] at h
      exact ih h
    | invalid =>
      rw [hid] at h
      exact ih h
    | value name =>
      rw [hid] at h
      dsimp only at h
      split at h
      · obtain ⟨found, hfound, h⟩ := bind_eq_ok.mp h
        cases found with
        | true =>
          cases h
          exact hfound
        | false => exact ih h
      · exact ih h

theorem capsule_of_mem {d : String × Capsule} (h : d ∈ s.capsules) : s.capsule d.1 = d.2 := by
  unfold capsule
  rw [Table.get?_of_mem h]

/-- A run that is found is named by the metadata of its capsule. -/
theorem names_of_capsuleId_eq_some {runId : UUID} (h : s.capsuleId runId = .ok (some id)) :
    names id (s.capsule id) runId.text = .ok true := by
  unfold capsuleId at h
  obtain ⟨entries, -, h⟩ := bind_eq_ok.mp h
  obtain ⟨answer, hanswer, h⟩ := bind_eq_ok.mp h
  cases answer with
  | some name =>
    cases h
    exact names_of_searchEntries hanswer
  | none =>
    obtain ⟨d, hd, rfl, hnames⟩ := names_of_searchDirectories h
    rw [capsule_of_mem (mem_capsuleDirectories.mp hd)]
    exact hnames


/-! ## Directories -/

@[simp] theorem capsule_putCapsule (s : Store) (name : String) (c : Capsule) :
    (s.putCapsule name c).capsule name = c := by
  have hget : (s.capsules.put (name, c)).get? name = some (name, c) := Table.get?_put_self ..
  simp [capsule, putCapsule, hget]

theorem capsule_putCapsule_ne (s : Store) {name other : String} (c : Capsule)
    (h : other ≠ name) : (s.putCapsule name c).capsule other = s.capsule other := by
  have hget := s.capsules.get?_put_ne (x := (name, c)) (k := other) h.symm
  simp only [capsule, putCapsule, hget]

theorem has_putCapsule {s : Store} {name other : String} {c : Capsule} :
    (s.putCapsule name c).capsules.has other = true ↔
      other = name ∨ s.capsules.has other = true := by
  have hget := s.capsules.get?_put (name, c) other
  simp only [putCapsule, Table.has, hget]
  by_cases hname : name = other
  · simp [hname]
  · have hne : other ≠ name := fun h => hname h.symm
    simp [hname, hne]

@[simp] theorem putCapsule_putCapsule (s : Store) (name : String) (c c' : Capsule) :
    (s.putCapsule name c).putCapsule name c' = s.putCapsule name c' := by
  simp only [putCapsule]
  rw [@Table.put_put _ _ (fun d : String × Capsule => d.1) _ _ (name, c) (name, c') rfl]

end Store

/-! ## The loads of a store -/

section LoadRun

variable {s : Store} {runId : UUID} {id : String}

theorem run_loadRun_found (h : s.capsuleId runId = .ok (some id)) :
    (loadRun runId).run s = (onCapsule id (loadCapsule id runId)).run s := by
  simp [loadRun, Prog.run_bind, Prog.andThen, Prog.read, Prog.lift, h, Bind.bindLeft]

theorem run_loadRun_none (h : s.capsuleId runId = .ok none) :
    (loadRun runId).run s = ⟨[], .error (.notFound "Run not found"), s⟩ := by
  simp [loadRun, Prog.run_bind, Prog.andThen, Prog.read, Prog.lift, Prog.fail, h,
    Bind.bindLeft]

end LoadRun

/-! ## The commit of a new capsule -/

/-- The aggregate of a run that has no capsule yet. -/
def newAggregate (capsuleId : String) (run : Run) : Aggregate where
  capsuleId := capsuleId
  generation := 0
  records := { run }
  dirty := true
  isNew := true

/-- A new aggregate is settled in an empty directory. -/
theorem settled_newAggregate {id : String} {run : Run} (h : run.lastEventSequence = 0) :
    Settled .empty (newAggregate id run) where
  marker := rfl
  sequenced := ⟨by simp [newAggregate], rfl, h⟩
  persisted := rfl
  log := .inl ⟨rfl, rfl⟩
  generation := .inl rfl

section NewCapsule

variable {a : Aggregate} {documents : Documents} {secretSafe : StateDocument → Bool}

/-- While a new capsule's commit is carried out its metadata is missing or in place. -/
theorem RolledForward.task {c : Capsule}
    (hdocuments : a.documents secretSafe (a.generation + 1) = .ok documents)
    (h : RolledForward .empty a documents c) :
    c.files (.document .task) = none ∨
      c.files (.document .task) = some (.task a.taskDocument) := by
  have hnew : (finished .empty a documents).files (.document .task) =
      some (.task a.taskDocument) := files_finished (Aggregate.get?_task_documents hdocuments)
  rcases h with h | rfl
  · rcases h.each (.document .task) with hold | hc
    · exact .inl hold
    · exact .inr (hc.trans hnew)
  · exact .inr hnew

/-- Metadata that is in place stays there while a recovery is stopped. -/
theorem RolledForward.task_of_stop {old c t : Capsule}
    (hpersisted : a.persistedEventCount ≤ a.records.events.length)
    (hdocuments : a.documents secretSafe (a.generation + 1) = .ok documents)
    (h : RolledForward old a documents c)
    (htask : c.files (.document .task) = some (.task a.taskDocument))
    (ht : t ∈ (recover.run c).stops) :
    t.files (.document .task) = some (.task a.taskDocument) := by
  have hnew : (finished c a documents).files (.document .task) = some (.task a.taskDocument) :=
    files_finished (Aggregate.get?_task_documents hdocuments)
  rcases h with h | rfl
  · -- From where it stands, what the recovery leaves is the file there or the committed one.
    have hself : Interrupted c a documents c := ⟨h.marker, rfl, fun _ => .inl rfl, h.log⟩
    rcases (recover_interrupted hpersisted hself).1 t ht with hstop | rfl
    · rcases hstop.each (.document .task) with hkeep | hc
      · exact hkeep.trans htask
      · exact hc.trans hnew
    · exact hnew
  · simp [recover_finished] at ht

/-- The store in which a session reserved a directory for a run that has no capsule, with
some index and some content of that directory. -/
def Store.reserved (s : Store) (id : String) (c : Capsule) (index : IndexFile) : Store :=
  { s.putCapsule id c with index }

theorem Store.capsule_reserved (s : Store) (id : String) (c : Capsule) (index : IndexFile) :
    (s.reserved id c index).capsule id = c := Store.capsule_putCapsule s id c

variable {s : Store} {run : Run} {id : String} {safe : String → Bool} {index : IndexFile}

/-- Among capsules of other runs, the new capsule is found by its own metadata. -/
theorem capsuleId_reserved {c : Capsule} (hnone : s.capsuleId run.id = .ok none)
    (hid : a.capsuleId = id) (hrun : a.records.run.id = run.id)
    (htask : c.files (.document .task) = none ∨
      c.files (.document .task) = some (.task a.taskDocument)) :
    (s.reserved id c index).capsuleId run.id =
      .ok (if (c.files (.document .task)).isSome then some id else none) := by
  apply Store.capsuleId_eq
  · intro d hd
    rcases Table.mem_put.mp hd with rfl | ⟨hd, hne⟩
    · rcases htask with htask | htask
      · simp [Store.names_of_absent htask, htask]
      · have hnames := @Store.names_of_task run.id.text _ _ htask
        rw [hid, hrun] at hnames
        simp [hnames, htask]
    · have hne : d.1 ≠ id := hne
      simp [Store.names_of_capsuleId_eq_none hnone d hd, hne]
  · left
    have hget : ((s.reserved id c index).capsules).get? id = some (id, c) :=
      s.capsules.get?_put_self (id, c)
    simp [Table.has, hget]

/-- A load of the run, with its metadata in place: the directory is loaded. -/
theorem run_loadRun_reserved {c : Capsule} (hnone : s.capsuleId run.id = .ok none)
    (hid : a.capsuleId = id) (hrun : a.records.run.id = run.id)
    (htask : c.files (.document .task) = some (.task a.taskDocument)) :
    (loadRun run.id).run (s.reserved id c index) =
      (onCapsule id (loadCapsule id run.id)).run (s.reserved id c index) := by
  apply run_loadRun_found
  rw [capsuleId_reserved hnone hid hrun (.inr htask), htask]
  rfl

/-- Any number of stopped loads leaves the new capsule rolled forward, and its metadata
where it was. -/
theorem reserved_of_stopped {c : Capsule} {u : Store}
    (hnone : s.capsuleId run.id = .ok none) (hid : a.capsuleId = id)
    (hrun : a.records.run.id = run.id)
    (hpersisted : a.persistedEventCount ≤ a.records.events.length)
    (hdocuments : a.documents secretSafe (a.generation + 1) = .ok documents)
    (h : RolledForward .empty a documents c)
    (hstopped : Stopped (loadRun run.id) (s.reserved id c index) u) :
    ∃ c', u = s.reserved id c' index ∧ RolledForward .empty a documents c' ∧
      c'.files (.document .task) = c.files (.document .task) := by
  refine hstopped.keeps (C := fun u => ∃ c', u = s.reserved id c' index ∧
    RolledForward .empty a documents c' ∧
      c'.files (.document .task) = c.files (.document .task)) ?_ ⟨c, rfl, h, rfl⟩
  rintro _ ⟨c', rfl, h', htask⟩ t ht
  rcases h'.task hdocuments with hmissing | hplace
  · rw [run_loadRun_none] at ht
    · simp at ht
    · rw [capsuleId_reserved hnone hid hrun (.inl hmissing), hmissing]
      rfl
  · rw [run_loadRun_reserved hnone hid hrun hplace] at ht
    obtain ⟨d, hd, rfl⟩ := List.mem_map.mp ht
    have hd : d ∈ ((loadCapsule id run.id).run ((s.reserved id c' index).capsule id)).stops := hd
    rw [Store.capsule_reserved] at hd
    have hstop := stops_loadCapsule hd
    refine ⟨d, ?_, (rolledForward_recover hpersisted h').1 d hstop, ?_⟩
    · simp only [Store.reserved, Store.putCapsule]
      rw [@Table.put_put _ _ (fun d : String × Capsule => d.1) _ _ (id, c') (id, d) rfl]
    · rw [h'.task_of_stop hpersisted hdocuments hplace hstop, ← htask, hplace]

/-- THE COMMIT OF A NEW CAPSULE IS FOUND WHEN ITS METADATA IS. Stopped anywhere after its
marker, and again in any number of loads, it is found, rolled forward and answered as it
was staged if and only if the stop came after `task.yaml` was put in place. -/
theorem new_capsule_loads_iff (hnone : s.capsuleId run.id = .ok none)
    (hcursor : run.lastEventSequence = 0) (hstaged : Staged safe (newAggregate id run) a) :
    ∀ c ∈ ((commitCapsule secretSafe a).run .empty).stops,
      ∀ u, Stopped (loadRun run.id) (s.reserved id c index) u →
        ((∃ x, ((loadRun run.id).run u).value = .ok x ∧
            x.Same { a with
              generation := 1
              dirty := false
              isNew := false
              persistedEventCount := a.records.events.length }) ↔
          c.files (.document .task) ≠ none) := by
  intro c hc u hu
  have hsettled : Settled .empty (newAggregate id run) := settled_newAggregate hcursor
  obtain ⟨-, hrun, hpersisted, -, -⟩ := hstaged.of_settled hsettled
  have hid : a.capsuleId = id := hstaged.capsuleId
  have hgeneration : a.generation = 0 := hstaged.generation
  obtain ⟨documents, hdocuments, hforward⟩ := (commitCapsule_meets hsettled hstaged).1 c hc
  obtain ⟨c', rfl, hforward', htask⟩ :=
    reserved_of_stopped hnone hid hrun hpersisted hdocuments hforward hu
  rw [← htask]
  rcases hforward'.task hdocuments with hmissing | hplace
  · -- Nothing names the run: the lookup answers that there is none.
    have hlookup : (s.reserved id c' index).capsuleId run.id = .ok none := by
      rw [capsuleId_reserved hnone hid hrun (.inl hmissing), hmissing]
      rfl
    rw [run_loadRun_none hlookup, hmissing]
    simp
  · obtain ⟨x, hvalue, -, -, hsame⟩ := hforward'.load hsettled hstaged hdocuments
    refine ⟨fun _ => by simp [hplace], fun _ => ⟨x, ?_, ?_⟩⟩
    · rw [run_loadRun_reserved hnone hid hrun hplace]
      show ((loadCapsule id run.id).run ((s.reserved id c' index).capsule id)).value = .ok x
      rw [Store.capsule_reserved]
      exact hvalue
    · unfold Aggregate.committed at hsame
      rwa [hgeneration] at hsame

end NewCapsule

/-- The run before its first event. -/
def sampleNewRun : Run := { sampleRun with lastEventSequence := 0 }

/-- The run as a session creates it, with its first event. -/
def sampleNew : Aggregate :=
  match (newAggregate "ORQ-20260101-0001" sampleNewRun).records.append (fun _ => true)
      sampleDraft with
  | .ok (_, records) => { newAggregate "ORQ-20260101-0001" sampleNewRun with records }
  | .error _ => newAggregate "ORQ-20260101-0001" sampleNewRun

theorem sampleNew_staged :
    Staged (fun _ => true) (newAggregate "ORQ-20260101-0001" sampleNewRun) sampleNew where
  calls := .single (@Staging.append _ _ _ sampleDraft
    ((newAggregate "ORQ-20260101-0001" sampleNewRun).records.eventOf sampleDraft) rfl)
  capsuleId := rfl
  generation := rfl
  persisted := rfl
  isNew := rfl
  dirty := rfl

/-- Every stop of the sample's commit is one the lookup answers by its metadata. -/
theorem sampleNew_loads_iff :
    ((commitCapsule (fun _ => true) sampleNew).run .empty).stops.length = 9 ∧
      ∀ c ∈ ((commitCapsule (fun _ => true) sampleNew).run .empty).stops,
        (∃ x, ((loadRun (.uuid4 1)).run
            (Store.reserved {} "ORQ-20260101-0001" c .absent)).value = .ok x ∧
            x.Same { sampleNew with
              generation := 1
              dirty := false
              isNew := false
              persistedEventCount := 1 }) ↔
          c.files (.document .task) ≠ none :=
  ⟨by decide, fun c hc => @new_capsule_loads_iff _ _ {} sampleNewRun _ _ _ rfl rfl
    sampleNew_staged c hc _ .none⟩

/-- Stopped right after its marker, the sample's commit leaves a run that is not found. -/
theorem sampleNew_lost :
    ∃ c ∈ ((commitCapsule (fun _ => true) sampleNew).run .empty).stops,
      c.marker.isSome ∧
        ((loadRun (.uuid4 1)).run
          (Store.reserved {} "ORQ-20260101-0001" c .absent)).value =
            .error (.notFound "Run not found") :=
  ⟨_, List.mem_cons_self, rfl, rfl⟩

end Orqalis
