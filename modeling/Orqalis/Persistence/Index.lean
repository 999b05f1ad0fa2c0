import Orqalis.Persistence.Discovery

/-!
# What the index can change

A lookup goes through the entries of the index where the index names exactly the capsules
that exist, and through their metadata otherwise. A single run is looked up in the metadata
a second time when no entry leads to it. An iteration over all runs is not: it loads the
runs its entries name, so an index with the right capsules and the wrong runs hides some.
-/

namespace Orqalis

open Lib Lib.Crash Lib.Outcome

/-! ## The iteration -/

/-- The run an entry is about; `uuid` parses its text. -/
def IndexEntry.run (uuid : String → Option UUID) (e : IndexEntry) : Option UUID :=
  match e.runId with
  | .value raw => uuid raw
  | _ => none

/-- Load the runs of index entries that are not seen yet. -/
def loadEntries (uuid : String → Option UUID) (seen : List UUID) :
    List IndexEntry → StoreProg (List Aggregate)
  | [] => pure []
  | e :: rest =>
    match e.run uuid with
    | none => loadEntries uuid seen rest
    | some runId =>
      if runId ∈ seen then
        loadEntries uuid seen rest
      else do
        match ← Prog.attempt (loadRun runId) with
        | .error (.notFound _) => loadEntries uuid seen rest
        | .error e => Prog.fail e
        | .ok a => do
          let others ← loadEntries uuid (runId :: seen) rest
          pure (a :: others)

/-- The aggregates of every run: those a session holds, then those of the entries. -/
def iterCapsules (uuid : String → Option UUID) (held : List Aggregate) :
    StoreProg (List Aggregate) := do
  let entries ← Prog.lift =<< Prog.read Store.indexEntries
  let others ← loadEntries uuid (held.map fun a => a.records.run.id) entries
  pure (held ++ others)

/-! ## Committed capsules -/

/-- The capsule of a run: its metadata names the run, and it loads, an interrupted commit
first rolled forward. -/
structure Carries (name : String) (c : Capsule) (runId : UUID) : Prop where
  named : Store.names name c runId.text = .ok true
  loads : ∃ stops t a, (loadCapsule name runId).run c = ⟨stops, .ok a, t⟩ ∧
    Loaded name runId t a ∧ Store.names name t runId.text = .ok true

namespace Store

/-- Every directory is reserved, without metadata yet, or the capsule of a run. -/
def Committed (s : Store) : Prop :=
  ∀ d ∈ s.capsules, d.2.files (.document .task) = none ∨ ∃ runId, Carries d.1 d.2 runId

/-- The store with its index deleted. -/
def unindexed (s : Store) : Store := { s with index := .absent }

/-- Some capsule's metadata names the run. -/
def Carried (s : Store) (runId : UUID) : Prop :=
  ∃ d ∈ s.capsules, names d.1 d.2 runId.text = .ok true

/-- The first capsule whose metadata names a run. -/
def bearer (s : Store) (expected : String) : Option String :=
  (s.capsuleDirectories.find? fun d => names d.1 d.2 expected = .ok true).map Prod.fst

/-- The capsule an entry leads to: it claims the run, and the metadata bears it out. -/
def leads (s : Store) (expected : String) (e : IndexEntry) : Option String :=
  match e.id with
  | .value id =>
    if e.runId = .value expected ∧ names id (s.capsule id) expected = .ok true then
      some id
    else
      none
  | _ => none

/-- An index that changes no answer: it is passed over, or its entries name every run that
is carried and not held, and lead to no other capsule of a run than the first. -/
def Faithful (uuid : String → Option UUID) (held : List Aggregate) (s : Store) : Prop :=
  ∀ entries, s.cachedEntries = some entries →
    (∀ runId, s.Carried runId → (∃ a ∈ held, a.records.run.id = runId) ∨
      ∃ e ∈ entries, e.run uuid = some runId) ∧
    ∀ runId : UUID, ∀ id, entries.findSome? (s.leads runId.text) = some id →
      s.bearer runId.text = some id

/-- Lookups and iterations answer as they do with the index deleted. -/
def SameAnswers (uuid : String → Option UUID) (held : List Aggregate) (s : Store) : Prop :=
  (∀ runId, s.capsuleId runId = s.unindexed.capsuleId runId) ∧
    ∃ l l', ((iterCapsules uuid held).run s).value = .ok l ∧
      ((iterCapsules uuid held).run s.unindexed).value = .ok l' ∧
      ∀ runId, runId ∈ l.map (fun a => a.records.run.id) ↔
        runId ∈ l'.map fun a => a.records.run.id

/-! ## Lookups among committed capsules -/

variable {s : Store} {uuid : String → Option UUID} {held : List Aggregate}

theorem names_of_named {name : String} {c : Capsule} {expected : String}
    (h : names name c expected = .ok true) (other : String) :
    names name c other = .ok (decide (expected = other)) := by
  obtain ⟨d, hd, hany⟩ := bind_eq_ok.mp h
  unfold names
  rw [hd]
  cases d with
  | none => cases hany
  | some d =>
    have hrun : d.runId = .value expected := by simpa using hany
    simp [bind, Except.bind, hrun]

/-- The metadata of a committed store reads, whatever run is asked for. -/
theorem Committed.names_ok (h : s.Committed) (expected : String) :
    ∀ d ∈ s.capsules, ∃ b, names d.1 d.2 expected = .ok b := by
  intro d hd
  rcases h d hd with hnone | ⟨runId, hcarries⟩
  · exact ⟨false, names_of_absent hnone⟩
  · exact ⟨_, names_of_named hcarries.named expected⟩

theorem names_capsule_ok {expected : String}
    (h : ∀ d ∈ s.capsules, ∃ b, names d.1 d.2 expected = .ok b) (name : String) :
    ∃ b, names name (s.capsule name) expected = .ok b := by
  unfold capsule
  cases hget : s.capsules.get? name with
  | none => exact ⟨false, names_of_absent rfl⟩
  | some d =>
    have hd := h d (Table.mem_of_get? hget)
    rwa [Table.key_of_get? hget] at hd

/-- Where the metadata reads, a search of entries answers what the first of them leads to. -/
theorem searchEntries_eq_findSome {expected : String}
    (h : ∀ d ∈ s.capsules, ∃ b, names d.1 d.2 expected = .ok b) (entries : List IndexEntry) :
    s.searchEntries expected entries = .ok (entries.findSome? (s.leads expected)) := by
  induction entries with
  | nil => rfl
  | cons e rest ih =>
    rw [searchEntries, List.findSome?_cons, leads]
    cases e.id with
    | absent => exact ih
    | invalid => exact ih
    | value name =>
      obtain ⟨b, hb⟩ := names_capsule_ok h name
      by_cases hrun : e.runId = .value expected
      · cases b with
        | true => simp [hrun, hb, bind, Except.bind]
        | false => simp [hrun, hb, bind, Except.bind, ih]
      · simp [hrun, ih]

/-- Where the metadata reads, a search of directories answers the first that names the run. -/
theorem searchDirectories_eq_find {expected : String} {l : List (String × Capsule)}
    (h : ∀ d ∈ l, ∃ b, names d.1 d.2 expected = .ok b) :
    searchDirectories expected l =
      .ok ((l.find? fun d => names d.1 d.2 expected = .ok true).map Prod.fst) := by
  induction l with
  | nil => rfl
  | cons d rest ih =>
    obtain ⟨b, hb⟩ := h d List.mem_cons_self
    have hrest := ih fun e he => h e (List.mem_cons_of_mem d he)
    rw [searchDirectories, List.find?_cons]
    cases b with
    | true => simp [hb, bind, Except.bind]
    | false => simp [hb, bind, Except.bind, hrest]

/-- The lookup where the metadata reads: what the entries lead to, else the first capsule
that names the run. -/
theorem capsuleId_eq_of_names {runId : UUID}
    (hnames : ∀ d ∈ s.capsules, ∃ b, names d.1 d.2 runId.text = .ok b)
    {entries : List IndexEntry} (hentries : s.indexEntries = .ok entries) :
    s.capsuleId runId =
      .ok ((entries.findSome? (s.leads runId.text)).or (s.bearer runId.text)) := by
  have hdirectories := searchDirectories_eq_find fun d hd =>
    hnames d (mem_capsuleDirectories.mp hd)
  unfold capsuleId
  rw [hentries]
  simp only [bind, Except.bind, searchEntries_eq_findSome hnames]
  cases entries.findSome? (s.leads runId.text) with
  | some id => rfl
  | none => exact hdirectories

theorem Committed.capsuleId_eq (h : s.Committed) {entries : List IndexEntry}
    (hentries : s.indexEntries = .ok entries) (runId : UUID) :
    s.capsuleId runId =
      .ok ((entries.findSome? (s.leads runId.text)).or (s.bearer runId.text)) :=
  capsuleId_eq_of_names (h.names_ok runId.text) hentries

/-! ## The entries of the metadata -/

/-- The entries of the metadata are those of the directories that have some. -/
theorem mem_scan {l : List (String × Capsule)} {entries : List IndexEntry}
    (h : scan l = .ok entries) {e : IndexEntry} :
    e ∈ entries ↔ ∃ d ∈ l, ∃ doc, taskDocument d.1 d.2 = .ok (some doc) ∧ indexEntry doc = e := by
  induction l generalizing entries with
  | nil =>
    cases h
    simp
  | cons d rest ih =>
    rw [scan] at h
    obtain ⟨doc, hdoc, h⟩ := bind_eq_ok.mp h
    obtain ⟨others, hothers, h⟩ := bind_eq_ok.mp h
    cases doc with
    | none =>
      cases h
      rw [ih hothers]
      simp [hdoc]
    | some doc =>
      cases h
      rw [List.mem_cons, ih hothers]
      simp [hdoc, eq_comm]

theorem id_of_taskDocument {name : String} {c : Capsule} {d : TaskDocument}
    (h : taskDocument name c = .ok (some d)) : d.id = .value name := by
  unfold taskDocument at h
  split at h
  · cases h
  · split at h
    · cases h
    · split at h
      · cases h
      · next hid =>
        split at h
        · cases h
          exact not_not.mp hid
        · cases h
  · cases h

/-- The entries of the metadata lead to the first capsule that names the run. -/
theorem findSome_leads_scan {l : List (String × Capsule)} {entries : List IndexEntry}
    (hl : ∀ d ∈ l, d ∈ s.capsules) (h : scan l = .ok entries) (expected : String) :
    entries.findSome? (s.leads expected) =
      (l.find? fun d => names d.1 d.2 expected = .ok true).map Prod.fst := by
  induction l generalizing entries with
  | nil =>
    cases h
    rfl
  | cons d rest ih =>
    rw [scan] at h
    obtain ⟨doc, hdoc, h⟩ := bind_eq_ok.mp h
    obtain ⟨others, hothers, h⟩ := bind_eq_ok.mp h
    have hrest := ih (fun e he => hl e (List.mem_cons_of_mem d he)) hothers
    rw [List.find?_cons]
    cases doc with
    | none =>
      cases h
      have hnames : names d.1 d.2 expected = .ok false := by
        simp [names, hdoc, bind, Except.bind]
      simpa [hnames] using hrest
    | some doc =>
      cases h
      have hid := id_of_taskDocument hdoc
      have hcapsule := capsule_of_mem (hl d List.mem_cons_self)
      have hnames : names d.1 d.2 expected = .ok (decide (doc.runId = .value expected)) := by
        simp [names, hdoc, bind, Except.bind]
      rw [List.findSome?_cons, leads]
      by_cases hrun : doc.runId = .value expected
      · simp [indexEntry, hid, hrun, hcapsule, hnames]
      · simpa [indexEntry, hid, hrun, hnames] using hrest

theorem Committed.scan_ok (h : s.Committed) : ∃ entries, scan s.capsuleDirectories = .ok entries :=
  scan_eq_ok fun d hd => h.names_ok "" d (mem_capsuleDirectories.mp hd)

theorem Committed.unindexed (h : s.Committed) : s.unindexed.Committed := h

/-- Without an index a run is looked up as the first capsule that names it. -/
theorem Committed.capsuleId_unindexed (h : s.Committed) (runId : UUID) :
    s.unindexed.capsuleId runId = .ok (s.bearer runId.text) := by
  obtain ⟨entries, hentries⟩ := h.scan_ok
  have hlead := @findSome_leads_scan s _ _ (fun d hd => mem_capsuleDirectories.mp hd) hentries
    runId.text
  rw [h.unindexed.capsuleId_eq hentries]
  have hsame : entries.findSome? (s.unindexed.leads runId.text) = s.bearer runId.text := hlead
  have hbearer : s.unindexed.bearer runId.text = s.bearer runId.text := rfl
  rw [hsame, hbearer, Option.or_self]

/-- A run that is looked up is the one its capsule carries. -/
theorem Committed.lookup (h : s.Committed) (runId : UUID) :
    (s.capsuleId runId = .ok none ∧ ¬ s.Carried runId) ∨
      ∃ d ∈ s.capsules, s.capsuleId runId = .ok (some d.1) ∧ Carries d.1 d.2 runId := by
  obtain ⟨entries, hentries⟩ := indexEntries_eq_ok (h.names_ok runId.text)
  have hlookup := h.capsuleId_eq hentries runId
  cases hid : (entries.findSome? (s.leads runId.text)).or (s.bearer runId.text) with
  | none =>
    rw [hid] at hlookup
    refine .inl ⟨hlookup, ?_⟩
    rintro ⟨d, hd, hnamed⟩
    have hfalse := names_of_capsuleId_eq_none hlookup d hd
    rw [hnamed] at hfalse
    cases hfalse
  | some id =>
    rw [hid] at hlookup
    have hnamed := names_of_capsuleId_eq_some hlookup
    have hmem : (id, s.capsule id) ∈ s.capsules := by
      unfold capsule at hnamed ⊢
      cases hget : s.capsules.get? id with
      | none =>
        rw [hget] at hnamed
        simp only [names_of_absent (c := .empty) rfl] at hnamed
        cases hnamed
      | some d =>
        have hd := Table.mem_of_get? hget
        rw [← Table.key_of_get? hget]
        exact hd
    refine .inr ⟨_, hmem, hlookup, ?_⟩
    rcases h _ hmem with hnone | ⟨other, hcarries⟩
    · rw [names_of_absent hnone] at hnamed
      cases hnamed
    · have hsame := names_of_named hcarries.named runId.text
      rw [hnamed] at hsame
      have hrun : other.text = runId.text := by simpa using hsame
      rw [UUID.text_injective hrun] at hcarries
      exact hcarries

/-! ## The runs an iteration loads -/

theorem carries_of_loaded {name : String} {t : Capsule} {runId : UUID} {a : Aggregate}
    (hloaded : Loaded name runId t a) (hnamed : names name t runId.text = .ok true) :
    Carries name t runId :=
  ⟨hnamed, [], t, a, hloaded.run_load, hloaded, hnamed⟩

/-- A load leaves a committed store that carries the same runs. -/
theorem Committed.load (h : s.Committed) {d : String × Capsule} (hd : d ∈ s.capsules)
    {runId : UUID} (hcarries : Carries d.1 d.2 runId)
    (hlookup : s.capsuleId runId = .ok (some d.1)) :
    ∃ stops a t, (loadRun runId).run s = ⟨stops, .ok a, t⟩ ∧ a.records.run.id = runId ∧
      t.Committed ∧ ∀ other, t.Carried other ↔ s.Carried other := by
  obtain ⟨stops, c, a, hrun, hloaded, hnamed⟩ := hcarries.loads
  refine ⟨stops.map fun t => s.putCapsule d.1 t, a, s.putCapsule d.1 c, ?_, hloaded.run, ?_, ?_⟩
  · rw [run_loadRun_found hlookup]
    simp only [onCapsule, Prog.focus, capsule_of_mem hd, hrun]
  · intro e he
    rcases Table.mem_put.mp he with rfl | ⟨he, -⟩
    · exact .inr ⟨runId, carries_of_loaded hloaded hnamed⟩
    · exact h e he
  · intro other
    have hsame : names d.1 c other.text = names d.1 d.2 other.text := by
      rw [names_of_named hnamed, names_of_named hcarries.named]
    constructor
    · rintro ⟨e, he, hname⟩
      rcases Table.mem_put.mp he with rfl | ⟨he, -⟩
      · exact ⟨d, hd, hsame ▸ hname⟩
      · exact ⟨e, he, hname⟩
    · rintro ⟨e, he, hname⟩
      by_cases hkey : e.1 = d.1
      · have heq : e = d := Table.eq_of_mem_key he hd hkey
        exact ⟨(d.1, c), Table.mem_put_self _ _, by rw [hsame, ← heq]; exact hname⟩
      · exact ⟨e, Table.mem_put.mpr (.inr ⟨he, hkey⟩), hname⟩

/-- An iteration loads the carried runs its entries name, each once, but for those seen. -/
theorem Committed.run_loadEntries (h : s.Committed) (seen : List UUID)
    (entries : List IndexEntry) :
    ∃ l, ((loadEntries uuid seen entries).run s).value = .ok l ∧
      ∀ runId, runId ∈ l.map (fun a => a.records.run.id) ↔
        runId ∉ seen ∧ s.Carried runId ∧ ∃ e ∈ entries, e.run uuid = some runId := by
  induction entries generalizing s seen with
  | nil => exact ⟨[], rfl, by simp⟩
  | cons e rest ih =>
    rw [loadEntries]
    cases hrun : e.run uuid with
    | none =>
      obtain ⟨l, hl, hmem⟩ := ih h seen
      exact ⟨l, hl, fun runId => by simp [hmem, hrun]⟩
    | some runId =>
      dsimp only
      by_cases hseen : runId ∈ seen
      · rw [if_pos hseen]
        obtain ⟨l, hl, hmem⟩ := ih h seen
        refine ⟨l, hl, fun other => ?_⟩
        rw [hmem]
        simp only [List.mem_cons, exists_eq_or_imp, hrun, Option.some.injEq]
        constructor
        · rintro ⟨hno, hcarried, hsome⟩
          exact ⟨hno, hcarried, .inr hsome⟩
        · rintro ⟨hno, hcarried, rfl | hsome⟩
          · exact absurd hseen hno
          · exact ⟨hno, hcarried, hsome⟩
      · rw [if_neg hseen]
        rcases h.lookup runId with ⟨hnone, hcarried⟩ | ⟨d, hd, hlookup, hcarries⟩
        · obtain ⟨l, hl, hmem⟩ := ih h seen
          refine ⟨l, ?_, fun other => ?_⟩
          · simp only [Prog.run_bind, Prog.attempt, run_loadRun_none hnone, Prog.andThen]
            exact hl
          · rw [hmem]
            simp only [List.mem_cons, exists_eq_or_imp, hrun, Option.some.injEq]
            constructor
            · rintro ⟨hno, hother, hsome⟩
              exact ⟨hno, hother, .inr hsome⟩
            · rintro ⟨hno, hother, rfl | hsome⟩
              · exact absurd hother hcarried
              · exact ⟨hno, hother, hsome⟩
        · obtain ⟨stops, a, t, hload, hid, ht, hsame⟩ := h.load hd hcarries hlookup
          obtain ⟨l, hl, hmem⟩ := ih ht (runId :: seen)
          refine ⟨a :: l, ?_, fun other => ?_⟩
          · simp only [Prog.run_bind, Prog.attempt, hload, Prog.andThen]
            cases hran : (loadEntries uuid (runId :: seen) rest).run t with
            | mk stops' value disk =>
              rw [hran] at hl
              simp only at hl
              subst hl
              rfl
          · rw [List.map_cons, List.mem_cons, hmem, hid, hsame]
            simp only [List.mem_cons, exists_eq_or_imp, hrun, Option.some.injEq, not_or]
            constructor
            · rintro (rfl | ⟨⟨-, hno⟩, hother, hsome⟩)
              · exact ⟨hseen, ⟨d, hd, hcarries.named⟩, .inl rfl⟩
              · exact ⟨hno, hother, .inr hsome⟩
            · rintro ⟨hno, hother, hsome⟩
              by_cases heq : other = runId
              · exact .inl heq
              · refine .inr ⟨⟨heq, hno⟩, hother, ?_⟩
                rcases hsome with hsome | hsome
                · exact absurd hsome.symm heq
                · exact hsome

/-- The runs of an iteration: those held, and the carried ones the entries name. -/
theorem Committed.run_iterCapsules (h : s.Committed) {entries : List IndexEntry}
    (hentries : s.indexEntries = .ok entries) :
    ∃ l, ((iterCapsules uuid held).run s).value = .ok l ∧
      ∀ runId, runId ∈ l.map (fun a => a.records.run.id) ↔
        (∃ a ∈ held, a.records.run.id = runId) ∨
          s.Carried runId ∧ ∃ e ∈ entries, e.run uuid = some runId := by
  obtain ⟨l, hl, hmem⟩ := @Committed.run_loadEntries s uuid h
    (held.map fun a => a.records.run.id) entries
  refine ⟨held ++ l, ?_, fun runId => ?_⟩
  · unfold iterCapsules
    simp only [Bind.bindLeft, Prog.run_bind, Prog.read, Prog.andThen, hentries, Prog.lift,
      Prog.run_pure]
    cases hran : (loadEntries uuid (held.map fun a => a.records.run.id) entries).run s with
    | mk stops value disk =>
      rw [hran] at hl
      simp only at hl
      subst hl
      rfl
  · rw [List.map_append, List.mem_append, hmem, List.mem_map]
    constructor
    · rintro (hheld | ⟨-, hnamed⟩)
      · exact .inl hheld
      · exact .inr hnamed
    · rintro (hheld | hnamed)
      · exact .inl hheld
      · by_cases hheld : ∃ a ∈ held, a.records.run.id = runId
        · exact .inl hheld
        · exact .inr ⟨hheld, hnamed⟩

/-- Every carried run is named by an entry of the metadata. -/
theorem entry_of_carried (huuid : ∀ u : UUID, uuid u.text = some u)
    {entries : List IndexEntry} (hentries : scan s.capsuleDirectories = .ok entries)
    {runId : UUID} (hcarried : s.Carried runId) : ∃ e ∈ entries, e.run uuid = some runId := by
  obtain ⟨d, hd, hnamed⟩ := hcarried
  obtain ⟨doc, hdoc, hany⟩ := bind_eq_ok.mp hnamed
  cases doc with
  | none => cases hany
  | some doc =>
    have hrun : doc.runId = .value runId.text := by simpa using hany
    refine ⟨indexEntry doc,
      (mem_scan hentries).mpr ⟨d, mem_capsuleDirectories.mpr hd, doc, hdoc, rfl⟩, ?_⟩
    simp [IndexEntry.run, indexEntry, hrun, huuid]

/-! ## The index -/

/-- THE INDEX CHANGES NO ANSWER exactly when it is faithful: lookups and iterations of a
committed store answer as they do with the index deleted. -/
theorem same_answers_iff (huuid : ∀ u : UUID, uuid u.text = some u) (h : s.Committed) :
    s.SameAnswers uuid held ↔ s.Faithful uuid held := by
  obtain ⟨scanned, hscan⟩ := h.scan_ok
  obtain ⟨l', hl', hmem'⟩ := @Committed.run_iterCapsules s.unindexed uuid held h.unindexed _ hscan
  have hwhole : ∀ runId, s.Carried runId → ∃ e ∈ scanned, e.run uuid = some runId :=
    fun _ hcarried => entry_of_carried huuid hscan hcarried
  constructor
  · rintro ⟨hlookup, l, m, hl, hm, hsame⟩ entries hcached
    have hentries : s.indexEntries = .ok entries := by simp [indexEntries, hcached]
    obtain ⟨l₁, hl₁, hmem₁⟩ := @Committed.run_iterCapsules s uuid held h _ hentries
    cases Except.ok.inj (hl.symm.trans hl₁)
    cases Except.ok.inj (hm.symm.trans hl')
    refine ⟨fun runId hcarried => ?_, fun runId id hlead => ?_⟩
    · have hrun := (hmem' runId).mpr (.inr ⟨hcarried, hwhole runId hcarried⟩)
      rcases (hmem₁ runId).mp ((hsame runId).mpr hrun) with hheld | ⟨-, hnamed⟩
      · exact .inl hheld
      · exact .inr hnamed
    · have hanswer := hlookup runId
      rw [h.capsuleId_eq hentries, h.capsuleId_unindexed, hlead] at hanswer
      exact (Except.ok.inj hanswer).symm
  · intro hfaithful
    cases hcached : s.cachedEntries with
    | none =>
      have hentries : s.indexEntries = .ok scanned := by simp [indexEntries, hcached, hscan]
      obtain ⟨l, hl, hmem⟩ := @Committed.run_iterCapsules s uuid held h _ hentries
      refine ⟨fun runId => ?_, l, l', hl, hl', fun runId => (hmem runId).trans (hmem' runId).symm⟩
      have hlead := @findSome_leads_scan s _ _ (fun d hd => mem_capsuleDirectories.mp hd) hscan
        runId.text
      have hbearer : scanned.findSome? (s.leads runId.text) = s.bearer runId.text := hlead
      rw [h.capsuleId_eq hentries, h.capsuleId_unindexed, hbearer, Option.or_self]
    | some entries =>
      obtain ⟨hnamed, hlead⟩ := hfaithful entries hcached
      have hentries : s.indexEntries = .ok entries := by simp [indexEntries, hcached]
      obtain ⟨l, hl, hmem⟩ := @Committed.run_iterCapsules s uuid held h _ hentries
      refine ⟨fun runId => ?_, l, l', hl, hl', fun runId => ?_⟩
      · rw [h.capsuleId_eq hentries, h.capsuleId_unindexed]
        cases hfound : entries.findSome? (s.leads runId.text) with
        | none => rfl
        | some id => rw [hlead runId id hfound, Option.some_or]
      · rw [hmem, hmem']
        constructor
        · rintro (hheld | ⟨hcarried, -⟩)
          · exact .inl hheld
          · exact .inr ⟨hcarried, hwhole runId hcarried⟩
        · rintro (hheld | ⟨hcarried, -⟩)
          · exact .inl hheld
          · rcases hnamed runId hcarried with hheld | hentry
            · exact .inl hheld
            · exact .inr ⟨hcarried, hentry⟩

end Store

/-! ## An index with a wrong run -/

/-- The sample's capsule after its first commit. -/
def sampleNewCapsule : Capsule := ((commitCapsule (fun _ => true) sampleNew).run .empty).disk

/-- The store of that capsule, with an index that names another run. -/
def sampleMisled : Store where
  capsules := Table.empty.put ("ORQ-20260101-0001", sampleNewCapsule)
  index := .document (.value taskSchemaVersion)
    (.of [{ indexEntry sampleNew.taskDocument with runId := .value (UUID.uuid4 2).text }])

theorem sampleNewCapsule_carries : Carries "ORQ-20260101-0001" sampleNewCapsule (.uuid4 1) where
  named := rfl
  loads := by
    have hload : Loaded "ORQ-20260101-0001" (.uuid4 1) sampleNewCapsule _ := ⟨rfl, rfl, rfl⟩
    exact ⟨_, _, _, hload.run_load, hload, rfl⟩

theorem sampleMisled_committed : sampleMisled.Committed := by
  intro d hd
  have hd : d = ("ORQ-20260101-0001", sampleNewCapsule) := by
    rcases Table.mem_put.mp hd with h | ⟨h, -⟩
    · exact h
    · cases h
  subst hd
  exact .inr ⟨.uuid4 1, sampleNewCapsule_carries⟩

/-- The sample's committed run, with an index that names another run. -/
theorem sampleMisled_same_answers_iff :
    sampleMisled.SameAnswers (Function.partialInv UUID.text) [] ↔
      sampleMisled.Faithful (Function.partialInv UUID.text) [] :=
  Store.same_answers_iff (Function.partialInv_left UUID.text_injective) sampleMisled_committed

/-- The index hides the committed run from an iteration. -/
theorem sampleMisled_hides :
    ¬ ∀ (uuid : String → Option UUID) (held : List Aggregate) (s : Store),
      (∀ u : UUID, uuid u.text = some u) → s.Committed → s.SameAnswers uuid held := by
  intro hclaim
  have huuid := Function.partialInv_left UUID.text_injective
  have hentries : sampleMisled.indexEntries =
      .ok [{ indexEntry sampleNew.taskDocument with runId := .value (UUID.uuid4 2).text }] := rfl
  have hcarried : sampleMisled.Carried (.uuid4 1) :=
    ⟨("ORQ-20260101-0001", sampleNewCapsule), Table.mem_put_self _ _,
      sampleNewCapsule_carries.named⟩
  obtain ⟨-, l, l', hl, hl', hsame⟩ := hclaim _ [] _ huuid sampleMisled_committed
  obtain ⟨scanned, hscan⟩ := sampleMisled_committed.scan_ok
  obtain ⟨m, hm, hmem⟩ :=
    @Store.Committed.run_iterCapsules _ _ [] sampleMisled_committed _ hentries
  obtain ⟨m', hm', hmem'⟩ :=
    @Store.Committed.run_iterCapsules _ _ [] sampleMisled_committed.unindexed _ hscan
  cases Except.ok.inj (hl.symm.trans hm)
  cases Except.ok.inj (hl'.symm.trans hm')
  have hrun := (hmem' (.uuid4 1)).mpr
    (.inr ⟨hcarried, Store.entry_of_carried huuid hscan hcarried⟩)
  rcases (hmem (.uuid4 1)).mp ((hsame _).mpr hrun) with ⟨a, ha, -⟩ | ⟨-, e, he, hrun⟩
  · cases ha
  · rw [List.mem_singleton.mp he] at hrun
    cases (huuid (.uuid4 2)).symm.trans hrun

end Orqalis
