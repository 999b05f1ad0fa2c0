import Orqalis.Persistence.Discovery
import Orqalis.Persistence.Session

/-!
# A rejected commit

A commit carries out its parts one after the other and stops at the first that raises. The
parts before it stay, those after it have not begun. What the rejected part leaves is at
most the work of a transaction that was durable already, or the start of a project.
-/

namespace Orqalis

open Lib Lib.Crash

/-! ## The marker of a failed recovery -/

theorem replaceDocument_marker (d : Target × StoredDocument) :
    Keeps Capsule.marker (replaceDocument d) :=
  keeps_bind (keeps_lift _) fun _ => keeps_bind (keeps_lift _) fun _ => keeps_step fun _ => rfl

theorem appendTail_marker (existing : List EventRecord) (position : Nat)
    (tail : List (Option EventRecord)) :
    Keeps Capsule.marker (appendTail existing position tail) := by
  induction tail generalizing existing position with
  | nil => exact keeps_pure _
  | cons value rest ih =>
    cases value with
    | none => exact keeps_fail _
    | some value =>
      rw [appendTail]
      split_ifs
      · exact keeps_fail _
      · exact ih _ _
      · exact keeps_fail _
      · exact keeps_bind (keeps_step fun _ => rfl) fun _ => ih _ _

theorem recoveredRecords_marker (base : Nat) : Keeps Capsule.marker (recoveredRecords base) := by
  refine keeps_bind (keeps_read _) fun read => ?_
  cases read with
  | ok existing => exact keeps_pure _
  | error e =>
    refine keeps_bind (keeps_read _) fun records => ?_
    cases records with
    | ok existing => exact keeps_bind (keeps_step fun _ => rfl) fun _ => keeps_pure _
    | error e => exact keeps_fail _

theorem recoverLog_marker (base : Nat) (tail : List (Option EventRecord)) :
    Keeps Capsule.marker (recoverLog base tail) := by
  have hrest : Keeps Capsule.marker (do
      let existing ← recoveredRecords base
      if existing.length < base then
        Prog.fail (.conflict "Task Capsule event log is missing committed history")
      else
        appendTail existing base tail) := by
    refine keeps_bind (recoveredRecords_marker base) fun existing => ?_
    split
    · exact keeps_fail _
    · exact appendTail_marker _ _ _
  refine keeps_bind (keeps_read _) fun log => ?_
  cases log with
  | none => exact keeps_bind (keeps_step fun _ => rfl) fun _ => hrest
  | some log => exact hrest

/-- Carrying out a transaction removes the marker as its last step. -/
theorem applyTransaction_marker (t : Transaction) (c : Capsule) :
    Meets (applyTransaction t) c (fun _ => True)
      (fun v d => ∀ e, v = .error e → d.marker = c.marker) := by
  unfold applyTransaction
  split_ifs
  · exact meets_fail fun _ _ => rfl
  cases t.documents with
  | absent => exact meets_fail fun _ _ => rfl
  | invalid => exact meets_fail fun _ _ => rfl
  | value documents =>
    have hreplace := keeps_forM (p := Capsule.marker) replaceDocument_marker
      (replacementOrder documents)
    refine meets_bind ((hreplace.meets c).mono (fun _ h => h) ?_)
    intro v d hd
    cases v with
    | error e => exact fun _ _ => hd
    | ok _ =>
      cases t.eventBaseSequence with
      | absent => exact meets_fail fun _ _ => hd
      | invalid => exact meets_fail fun _ _ => hd
      | value base =>
        cases t.events with
        | absent => exact meets_fail fun _ _ => hd
        | invalid => exact meets_fail fun _ _ => hd
        | value tail =>
          show Meets (if base < 0 then _ else _) d _ _
          split_ifs
          · exact meets_fail fun _ _ => hd
          · have hlog := recoverLog_marker base.toNat tail
            refine meets_bind ((hlog.meets d).mono (fun _ h => h) ?_)
            intro v d' hd'
            cases v with
            | error e => exact fun _ _ => hd'.trans hd
            | ok _ => exact meets_write trivial fun e h => by cases h

/-- A recovery that fails leaves the marker where it was. -/
theorem recover_marker (c : Capsule) :
    Meets recover c (fun _ => True) (fun v t => ∀ e, v = .error e → t.marker = c.marker) := by
  refine meets_bind (meets_read ?_)
  cases hmarker : c.marker with
  | none => exact meets_pure fun e h => by cases h
  | some marker =>
    cases marker with
    | malformed => exact meets_fail fun _ _ => hmarker
    | transaction t =>
      have happly := applyTransaction_marker t c
      rwa [hmarker] at happly

/-! ## The parts -/

/-- Reading the generation of a directory without a marker leaves it alone. -/
theorem diskGeneration_meets {c : Capsule} (h : c.marker = none) :
    Meets diskGeneration c (fun _ => True) (fun _ t => t = c) := by
  have hrecover : Meets recover c (fun _ => True) (fun v t => v = .ok () ∧ t = c) := by
    unfold Meets
    rw [run_recover_of_marker h]
    exact ⟨by simp, rfl, rfl⟩
  refine meets_bind (hrecover.mono (fun _ h => h) ?_)
  rintro v t ⟨rfl, rfl⟩
  refine meets_bind (meets_read ?_)
  cases t.readState with
  | error e => exact meets_fail rfl
  | ok d =>
    dsimp only
    split
    · exact meets_pure rfl
    · exact meets_fail rfl

/-- So does the check of a generation. -/
theorem checkGeneration_meets {c : Capsule} (a : Aggregate) (h : c.marker = none) :
    Meets a.checkGeneration c (fun _ => True) (fun _ t => t = c) := by
  unfold Aggregate.checkGeneration
  split
  · exact meets_pure rfl
  · refine meets_bind ((diskGeneration_meets h).mono (fun _ h => h) ?_)
    rintro v t rfl
    cases v with
    | error e => rfl
    | ok current =>
      show Meets (if current ≠ a.generation then _ else _) t _ _
      split_ifs
      · exact meets_fail rfl
      · exact meets_pure rfl

/-- A rejected commit of a capsule leaves its directory alone, unless a transaction was
durable there already or its own became so and does not fit the log. -/
theorem commitCapsule_rejected (secretSafe : StateDocument → Bool) (a : Aggregate)
    (c : Capsule) :
    Meets (commitCapsule secretSafe a) c (fun _ => True) (fun v t => ∀ e, v = .error e →
      t = c ∨ c.marker ≠ none ∨ ∃ documents, t.marker = some (commitMarker a documents)) := by
  by_cases hmarker : c.marker = none
  · unfold commitCapsule
    split
    · exact meets_pure fun e h => by cases h
    refine meets_bind ((checkGeneration_meets a hmarker).mono (fun _ h => h) ?_)
    rintro v t rfl
    cases v with
    | error e => exact fun _ _ => .inl rfl
    | ok _ =>
      refine meets_bind (meets_lift ?_)
      cases a.documents secretSafe (a.generation + 1) with
      | error e => exact fun _ _ => .inl rfl
      | ok documents =>
        refine meets_bind (meets_write trivial ?_)
        refine meets_bind ((recover_marker _).mono (fun _ h => h) ?_)
        intro v d hd
        cases v with
        | error e => exact fun _ _ => .inr (.inr ⟨documents, hd e rfl⟩)
        | ok _ => exact meets_pure fun e h => by cases h
  · exact ⟨fun _ _ => trivial, fun _ _ => .inr (.inl hmarker)⟩

theorem ensureConfig_identity : Keeps ProjectFiles.identity ensureConfig := by
  refine keeps_bind (keeps_read _) fun config => ?_
  split
  · exact keeps_step fun _ => rfl
  · exact keeps_pure _

theorem syncStoreGitignore_identity : Keeps ProjectFiles.identity syncStoreGitignore := by
  refine keeps_bind (keeps_read _) fun config => ?_
  cases config with
  | absent => exact keeps_fail _
  | invalid => exact keeps_fail _
  | valid => exact keeps_pure _

theorem ensureCurrentSchema_identity : Keeps ProjectFiles.identity ensureCurrentSchema := by
  refine keeps_bind (keeps_read _) fun manifest => ?_
  cases manifest with
  | absent => exact keeps_fail _
  | invalid => exact keeps_fail _
  | unsupported => exact keeps_fail _
  | current _ => exact keeps_pure _
  | legacy _ =>
    exact keeps_bind ensureConfig_identity fun _ =>
      keeps_bind syncStoreGitignore_identity fun _ => keeps_step fun _ => rfl

/-- A bootstrap leaves the identity alone. -/
theorem bootstrapProjectStore_identity (project : Project) :
    Keeps ProjectFiles.identity (bootstrapProjectStore project) := by
  have hend : Keeps ProjectFiles.identity (do
      ensureConfig
      syncStoreGitignore) :=
    keeps_bind ensureConfig_identity fun _ => syncStoreGitignore_identity
  refine keeps_bind (keeps_read _) fun manifest => ?_
  dsimp only
  split
  · exact keeps_bind ensureCurrentSchema_identity fun _ => hend
  · split
    · exact keeps_bind (keeps_fail _) fun _ => hend
    · refine keeps_bind ensureConfig_identity fun _ => ?_
      refine keeps_bind syncStoreGitignore_identity fun _ => ?_
      exact keeps_bind (keeps_step fun _ => rfl) fun _ => hend

/-- So does loading the project. -/
theorem loadProject_identity : Keeps ProjectFiles.identity loadProject := by
  refine keeps_bind (keeps_read _) fun identity => ?_
  cases identity with
  | absent => exact keeps_pure _
  | invalid => exact keeps_fail _
  | unsupported => exact keeps_fail _
  | foreignRoot => exact keeps_fail _
  | project project =>
    refine keeps_bind (keeps_read _) fun manifest =>
      keeps_before (bootstrapProjectStore_identity project) ?_
    refine keeps_bind (keeps_read _) fun manifest => ?_
    cases manifest with
    | absent => exact keeps_fail _
    | invalid => exact keeps_fail _
    | unsupported => exact keeps_fail _
    | legacy _ => exact keeps_fail _
    | current projectId =>
      dsimp only
      split
      · exact keeps_pure _
      · exact keeps_fail _

/-- What a rejected part leaves of the store it found. -/
def RejectedPart (u : UnitOfWork) (t : Store) : CommitPart → Prop
  | .identity =>
    t = { u.store with project := t.project } ∧
      (t.project.identity = u.store.project.identity ∨ u.store.project.identity = .absent)
  | .projectState | .index => t = u.store
  | .capsule runId =>
    t = { u.store with capsules := t.capsules } ∧
      ∀ name, t.capsule name = u.store.capsule name ∨
        (∃ a, u.session.capsules.get? runId = some a ∧ a.capsuleId = name ∧
          ((u.store.capsule name).marker ≠ none ∨
            ∃ documents, (t.capsule name).marker = some (commitMarker a documents)))

/-- A project that has an identity does not load as none. -/
theorem loadProject_ne_none {p : ProjectFiles} (h : p.identity ≠ .absent) :
    Meets loadProject p (fun _ => True) (fun v _ => v ≠ .ok none) := by
  refine meets_bind (meets_read ?_)
  cases hidentity : p.identity with
  | absent => exact absurd hidentity h
  | invalid => exact meets_fail (by simp)
  | unsupported => exact meets_fail (by simp)
  | foreignRoot => exact meets_fail (by simp)
  | project project =>
    refine meets_bind (meets_read (meets_before
      (((bootstrapProjectStore_identity project).meets p).mono (fun _ h => h)
        fun _ _ _ e _ => by simp) fun q => ?_))
    refine meets_bind (meets_read ?_)
    cases q.manifest with
    | absent => exact meets_fail (by simp)
    | invalid => exact meets_fail (by simp)
    | unsupported => exact meets_fail (by simp)
    | legacy _ => exact meets_fail (by simp)
    | current projectId =>
      dsimp only
      split
      · exact meets_pure (by simp)
      · exact meets_fail (by simp)

/-- What a commit of the project's identity does not touch. -/
def outsideProject (u : UnitOfWork) : Store := { u.store with project := {} }

theorem commitIdentity_outside : Keeps outsideProject commitIdentity := by
  have hproject : ∀ {α : Type} (m : ProjectProg α),
      Keeps outsideProject (onStore (onProject m)) :=
    fun m u => rfl
  refine keeps_bind (keeps_read _) fun pending => ?_
  cases pending with
  | none => exact keeps_pure _
  | some project =>
    refine keeps_bind (hproject _) fun existing => ?_
    dsimp only
    split
    · exact keeps_fail _
    · split
      · exact keeps_bind (hproject _) fun _ => keeps_bind (hproject _) fun _ =>
          keeps_step fun _ => rfl
      · exact keeps_step fun _ => rfl

/-- The identity of a project is written only where there is none. -/
theorem commitIdentity_rejected (u : UnitOfWork) :
    Meets commitIdentity u (fun _ => True)
      (fun _ v => RejectedPart u v.store .identity) := by
  have houtside := commitIdentity_outside u
  have hstore : ∀ v : UnitOfWork, outsideProject v = outsideProject u →
      v.store = { u.store with project := v.store.project } := by
    intro v hv
    simp only [outsideProject, Store.mk.injEq] at hv
    obtain ⟨-, hstate, hcapsules, hindex⟩ := hv
    cases hs : v.store
    rw [hs] at hstate hcapsules hindex
    simp only at hstate hcapsules hindex
    subst hstate hcapsules hindex
    rfl
  refine ⟨fun _ _ => trivial, hstore _ houtside, ?_⟩
  by_cases habsent : u.store.project.identity = .absent
  · exact .inr habsent
  left
  suffices h : Meets commitIdentity u (fun _ => True)
      (fun _ v => v.store.project.identity = u.store.project.identity) from h.2
  refine meets_bind (meets_read ?_)
  dsimp only
  split
  · exact meets_pure rfl
  · next project _ =>
    refine meets_bind (meets_focus (meets_focus ?_))
    have hload : Meets loadProject u.store.project (fun _ => True)
        (fun v t => t.identity = u.store.project.identity ∧ v ≠ .ok none) :=
      ⟨fun _ _ => trivial, loadProject_identity _, (loadProject_ne_none habsent).2⟩
    refine hload.mono (fun _ h => h) ?_
    rintro v t ⟨hidentity, hsome⟩
    cases v with
    | error e => exact hidentity
    | ok existing =>
      cases existing with
      | none => exact absurd rfl hsome
      | some p =>
        dsimp only
        split
        · exact meets_fail hidentity
        · exact meets_note hidentity

theorem commitProjectState_rejected (u : UnitOfWork) :
    Meets commitProjectState u (fun _ => True)
      (fun r v => ∀ e, r = .error e → RejectedPart u v.store .projectState) := by
  refine meets_bind (meets_read ?_)
  dsimp only
  split
  · exact meets_pure fun e h => by cases h
  refine meets_bind (meets_bind (meets_read (meets_lift ?_)))
  cases u.store.state.diskGeneration with
  | error e => exact fun _ _ => rfl
  | ok disk =>
    refine meets_bind (meets_read ?_)
    dsimp only
    split
    · exact meets_fail fun _ _ => rfl
    · refine meets_bind (meets_note ?_)
      refine meets_bind (meets_read ?_)
      refine meets_bind (meets_focus (meets_write trivial ?_))
      exact meets_note fun e h => by cases h

theorem rebuildIndex_rejected (u : UnitOfWork) :
    Meets (onStore rebuildIndex) u (fun _ => True)
      (fun r v => ∀ e, r = .error e → RejectedPart u v.store .index) := by
  refine meets_focus ?_
  refine meets_bind (meets_bind (meets_read (meets_lift ?_)))
  cases Store.scan u.store.capsuleDirectories with
  | error e => exact fun _ _ => rfl
  | ok entries =>
    refine meets_bind (meets_read ?_)
    dsimp only
    split
    · exact meets_pure fun e h => by cases h
    · exact meets_write trivial fun e h => by cases h

theorem commitStaged_rejected (secretSafe : StateDocument → Bool) (runId : UUID)
    (u : UnitOfWork) :
    Meets (commitStaged secretSafe runId) u (fun _ => True)
      (fun r v => ∀ e, r = .error e → RejectedPart u v.store (.capsule runId)) := by
  refine meets_bind (meets_read ?_)
  cases hget : u.session.capsules.get? runId with
  | none => exact meets_pure fun e h => by cases h
  | some a =>
    refine meets_bind (meets_focus (meets_focus ?_))
    refine (commitCapsule_rejected secretSafe a _).mono (fun _ _ => trivial) ?_
    intro v c hc
    cases v with
    | ok committed => exact meets_note fun e h => by cases h
    | error e =>
      rintro e' -
      refine ⟨rfl, fun name => ?_⟩
      by_cases hname : name = a.capsuleId
      · subst hname
        have hcapsule : (UnitOfWork.putStore
            (Store.putCapsule a.capsuleId c u.store) u).store.capsule a.capsuleId = c :=
          Store.capsule_putCapsule ..
        rw [hcapsule]
        rcases hc e rfl with hsame | hdurable
        · exact .inl hsame
        · exact .inr ⟨a, hget, rfl, hdurable⟩
      · exact .inl (Store.capsule_putCapsule_ne _ _ hname)

theorem commitPart_rejected (secretSafe : StateDocument → Bool) (part : CommitPart)
    (u : UnitOfWork) :
    Meets (commitPart secretSafe part) u (fun _ => True)
      (fun r v => ∀ e, r = .error e → RejectedPart u v.store part) := by
  cases part with
  | identity => exact (commitIdentity_rejected u).mono (fun _ h => h) fun _ _ h _ _ => h
  | projectState => exact commitProjectState_rejected u
  | capsule runId => exact commitStaged_rejected secretSafe runId u
  | index => exact rebuildIndex_rejected u

/-- A second run, at its second generation on disk. -/
def sampleOther : Aggregate :=
  { sampleBase with
    capsuleId := "ORQ-20260101-0002"
    generation := 2
    records := { run := { sampleRun with id := .uuid4 2 }
                 events := [{ sampleEvent with runId := .uuid4 2 }] } }

/-- The capsule of the second run. -/
def sampleOtherCapsule : Capsule where
  files := Function.update (fun _ => none) (.document .state)
    (some (.state (sampleOther.stateDocument 2)))
  log := some ⟨[some (eventRecord { sampleEvent with runId := .uuid4 2 })], false⟩
  marker := none

/-- A session that staged the first run on its capsule and the second on the generation
before the one on disk. -/
def sampleUnit : UnitOfWork where
  store :=
    { capsules := .ofList [("ORQ-20260101-0001", sampleCapsule),
        ("ORQ-20260101-0002", sampleOtherCapsule)] }
  session :=
    { capsules := .ofList [sampleStaged, { sampleOther with generation := 1, dirty := true }] }

end Orqalis
