import Orqalis.Persistence.Discovery
import Orqalis.Persistence.Session

/-!
# Sessions over one store

Any number of sessions, each used by one thread, work on one store. What a session does to a
capsule it does in a section: it takes the capsule's state lock, which no other thread may
hold then, and runs a program over the directory one write at a time. The threads' sections
interleave; a thread in a section does nothing else. A stop ends a thread between two writes.

A lock is reentrant, so two sessions of one thread may hold it together, and it is held until
the session lets go of it. The history of a capsule lists the aggregates whose markers became
durable, in that order; no step reads it.
-/

namespace Orqalis

open Lib Lib.Crash

/-! ## Sections -/

/-- A write of a section, with the aggregate whose marker it makes durable. -/
structure Write where
  disk : Capsule
  committed : Option Aggregate := none

/-- The writes of a run: what it leaves after each, to its end. -/
def writesOf {α : Type} (ran : Ran Capsule Error α) : List Write :=
  ran.stops.map (fun c => { disk := c }) ++ [{ disk := ran.disk }]

/-- The directory with the marker of a commit. -/
def marked (a : Aggregate) (documents : Documents) (c : Capsule) : Capsule :=
  c.putMarker (.transaction (a.transaction (a.generation + 1) documents))

/-- The writes of a commit: those of the check, the marker, and what carries it out. -/
def commitWrites (secretSafe : StateDocument → Bool) (a : Aggregate) (c : Capsule) :
    List Write :=
  let check := a.checkGeneration.run c
  match check.value, a.documents secretSafe (a.generation + 1) with
  | .ok _, .ok documents =>
    check.stops.map (fun d => { disk := d }) ++
      { disk := marked a documents check.disk, committed := some a.committed } ::
        writesOf (recover.run (marked a documents check.disk))
  | _, _ => writesOf check

/-- They are the writes of the program. -/
theorem commitWrites_disks {secretSafe : StateDocument → Bool} {a : Aggregate} {c : Capsule}
    (h : a.dirty = true) :
    (commitWrites secretSafe a c).map Write.disk =
      (writesOf ((commitCapsule secretSafe a).run c)).map Write.disk := by
  have hplain : ∀ l : List Capsule, (l.map fun d => ({ disk := d } : Write)).map Write.disk = l :=
    fun l => by rw [List.map_map]; exact List.map_id l
  unfold commitWrites commitCapsule
  rw [if_neg (by simp [h]), Prog.run_bind]
  cases hcheck : a.checkGeneration.run c with
  | mk stops value disk =>
    cases value with
    | error e => rfl
    | ok _ =>
      cases hdocuments : a.documents secretSafe (a.generation + 1) with
      | error e => simp [Prog.andThen, Prog.run_bind, Prog.lift, Prog.fail, writesOf, hplain]
      | ok documents =>
        simp only [Prog.andThen, Prog.run_bind, Prog.lift, Prog.run_pure, Prog.write, Prog.step,
          List.nil_append]
        cases hrecover : recover.run (marked a documents disk) with
        | mk stops' value' disk' =>
          have hrun : recover.run (Capsule.putMarker
              (.transaction (a.transaction (a.generation + 1) documents)) disk) =
              ⟨stops', value', disk'⟩ := hrecover
          rw [hrun]
          cases value' <;> simp [writesOf, hplain, marked]

/-- Compare a held aggregate with the disk, as a load for update does. -/
def checkCached (a : Aggregate) : CapsuleProg Aggregate := do
  let current ← diskGeneration
  if current ≠ a.generation then
    Prog.fail (.conflict "Task Capsule changed concurrently; retry")
  else
    pure a

/-- What a section is for. -/
inductive Purpose
  | load (runId : UUID) (forUpdate : Bool)
  | check
  | commit

/-- A program under way: the writes still to come and its answer. -/
structure Section (ι : Type) where
  owner : ι
  capsule : String
  purpose : Purpose
  pending : List Write
  value : Except Error Aggregate

/-! ## The world -/

/-- A session and the state locks it holds. -/
structure Member where
  session : Session := {}
  locks : List String := []

/-- A store, the sessions over it, and the sections of the threads. -/
structure World (ι θ : Type) where
  store : Store
  members : ι → Member
  sections : θ → Option (Section ι)
  projectLock : Option ι
  history : String → List Aggregate
  projectHistory : List ProjectExtensions

/-- An empty store without sessions. -/
def World.initial (ι θ : Type) : World ι θ where
  store := {}
  members := fun _ => {}
  sections := fun _ => none
  projectLock := none
  history := fun _ => []
  projectHistory := []

/-- One write of a namespace of the project's extensions. -/
def ProjectExtensions.put (extensions : ProjectExtensions) (name value : String) :
    ProjectExtensions :=
  (extensions.filter fun e => e.1 ≠ name) ++ [(name, value)]

/-- What a session reads of the project's state. -/
def ProjectStateFile.load : ProjectStateFile → Except Error (Int × ProjectExtensions)
  | .absent => .ok (0, [])
  | .unreadable => .error (.conflict "Project filesystem state is invalid")
  | .document schemaVersion generation extensions =>
    match schemaVersion, generation, extensions with
    | .value v, .value g, .value x =>
      if v = taskSchemaVersion ∧ 1 ≤ g then
        .ok (g, x)
      else
        .error (.conflict "Project filesystem state is invalid")
    | _, _, _ => .error (.conflict "Project filesystem state is invalid")

namespace World

variable {ι θ : Type} [DecidableEq ι] [DecidableEq θ]

/-- Change a member. -/
def setMember (W : World ι θ) (i : ι) (m : Member) : World ι θ :=
  { W with members := Function.update W.members i m }

/-- Change a member's session. -/
def setSession (W : World ι θ) (i : ι) (s : Session) : World ι θ :=
  W.setMember i { W.members i with session := s }

/-- Change a thread's section. -/
def setSection (W : World ι θ) (t : θ) (s : Option (Section ι)) : World ι θ :=
  { W with sections := Function.update W.sections t s }

/-- Take a lock and begin a section. -/
def enter (W : World ι θ) (thread : ι → θ) (s : Section ι) : World ι θ :=
  (W.setMember s.owner { W.members s.owner with
    locks := s.capsule :: (W.members s.owner).locks }).setSection (thread s.owner) (some s)

/-- Whether a thread can act: it is in no section and does not write the project's state. -/
def Idle (W : World ι θ) (thread : ι → θ) (i : ι) : Prop :=
  W.sections (thread i) = none ∧ ∀ j, W.projectLock = some j → thread j ≠ thread i

/-- Whether a session's thread may take a capsule's state lock. -/
def Free (W : World ι θ) (thread : ι → θ) (i : ι) (id : String) : Prop :=
  ∀ j, thread j ≠ thread i → id ∉ (W.members j).locks

/-- Carry out a write of a section. -/
def tick (W : World ι θ) (t : θ) (s : Section ι) (w : Write) (rest : List Write) : World ι θ :=
  { W with
    store := W.store.putCapsule s.capsule w.disk
    sections := Function.update W.sections t (some { s with pending := rest })
    history := match w.committed with
      | some a => Function.update W.history s.capsule (W.history s.capsule ++ [a])
      | none => W.history }

/-- What a session does with the answer of a section. -/
def finish (m : Member) (s : Section ι) : Member :=
  match s.purpose, s.value with
  | .load _ forUpdate, .ok a =>
    { session := { m.session with capsules := m.session.capsules.put a }
      locks := if forUpdate then m.locks else m.locks.erase s.capsule }
  | .commit, .ok a => { m with session := { m.session with capsules := m.session.capsules.put a } }
  | _, _ => m

/-- Whether a rollback of a session leaves a store: of the directories the session reserved,
those that are still empty may be gone. -/
def RolledBack (s s' : Store) (session : Session) : Prop :=
  s' = { s with capsules := s'.capsules } ∧
    ∀ name, s'.capsules.get? name = s.capsules.get? name ∨
      s'.capsules.get? name = none ∧ s.capsule name = .empty ∧
        ∃ r a, session.capsules.get? r = some a ∧ a.isNew = true ∧ a.capsuleId = name

end World

section Step

variable {ι θ : Type} [DecidableEq ι] [DecidableEq θ] (thread : ι → θ)
  (safe : String → Bool) (secretSafe : StateDocument → Bool)

/-- One step of one session, or of the section its thread is in. -/
inductive World.Step : World ι θ → World ι θ → Prop
  /-- Load a run the session does not hold. -/
  | load {W} (i : ι) (runId : UUID) (forUpdate : Bool) {id : String} (hidle : W.Idle thread i)
      (hcached : (W.members i).session.capsules.get? runId = none)
      (hfound : W.store.capsuleId runId = .ok (some id)) (hfree : W.Free thread i id) :
      Step W (W.enter thread
        { owner := i
          capsule := id
          purpose := .load runId forUpdate
          pending := writesOf ((loadCapsule id runId).run (W.store.capsule id))
          value := ((loadCapsule id runId).run (W.store.capsule id)).value })
  /-- Load for update a run the session holds. -/
  | check {W} (i : ι) {runId : UUID} {a : Aggregate} (hidle : W.Idle thread i)
      (hcached : (W.members i).session.capsules.get? runId = some a) (hold : a.isNew = false)
      (hfree : W.Free thread i a.capsuleId) :
      Step W (W.enter thread
        { owner := i
          capsule := a.capsuleId
          purpose := .check
          pending := writesOf ((checkCached a).run (W.store.capsule a.capsuleId))
          value := ((checkCached a).run (W.store.capsule a.capsuleId)).value })
  /-- Begin the commit of a capsule the session changed. -/
  | commit {W} (i : ι) {runId : UUID} {a : Aggregate} (hidle : W.Idle thread i)
      (hcached : (W.members i).session.capsules.get? runId = some a) (hdirty : a.dirty = true)
      (hfree : W.Free thread i a.capsuleId) :
      Step W (W.enter thread
        { owner := i
          capsule := a.capsuleId
          purpose := .commit
          pending := commitWrites secretSafe a (W.store.capsule a.capsuleId)
          value := ((commitCapsule secretSafe a).run (W.store.capsule a.capsuleId)).value })
  /-- The next write of a section. -/
  | tick {W} (t : θ) {s : Section ι} {w : Write} {rest : List Write}
      (hsection : W.sections t = some s) (hpending : s.pending = w :: rest) :
      Step W (W.tick t s w rest)
  /-- The end of a section. -/
  | leave {W} (t : θ) {s : Section ι} (hsection : W.sections t = some s)
      (hpending : s.pending = []) :
      Step W ((W.setMember s.owner (World.finish (W.members s.owner) s)).setSection t none)
  /-- Reserve a directory for a new run. -/
  | create {W} (i : ι) (run : Run) (id : String) (hidle : W.Idle thread i)
      (hcached : (W.members i).session.capsules.get? run.id = none)
      (hnone : W.store.capsuleId run.id = .ok none) (hfresh : W.store.capsules.has id = false)
      (hcursor : run.lastEventSequence = 0) (hfree : W.Free thread i id) :
      Step W { W.setMember i
          { session := { (W.members i).session with
              capsules := (W.members i).session.capsules.put (newAggregate id run) }
            locks := id :: (W.members i).locks } with
        store := W.store.putCapsule id .empty }
  /-- Change a held aggregate through a repository. -/
  | stage {W} (i : ι) {runId : UUID} {a : Aggregate} {records : Records}
      (hidle : W.Idle thread i)
      (hcached : (W.members i).session.capsules.get? runId = some a)
      (hcall : Staging safe a.records records) :
      Step W (W.setSession i { (W.members i).session with
        capsules := (W.members i).session.capsules.put { a with records, dirty := true } })
  /-- Let go of a state lock. -/
  | release {W} (i : ι) (id : String) (hidle : W.Idle thread i) :
      Step W (W.setMember i { W.members i with locks := (W.members i).locks.erase id })
  /-- Let go of an aggregate that was not changed. -/
  | forget {W} (i : ι) {runId : UUID} {a : Aggregate} (hidle : W.Idle thread i)
      (hcached : (W.members i).session.capsules.get? runId = some a) (hclean : a.dirty = false) :
      Step W (W.setSession i { (W.members i).session with
        capsules := (W.members i).session.capsules.filter fun b => b.records.run.id ≠ runId })
  /-- Roll back or close the session. -/
  | rollback {W} (i : ι) {store : Store} (hidle : W.Idle thread i)
      (hstore : World.RolledBack W.store store (W.members i).session) :
      Step W { W.setMember i {} with store }
  /-- Stop a thread wherever it is: its sessions are gone, and their locks with them. -/
  | stop {W} (t : θ) :
      Step W { W with
        members := fun i => if thread i = t then {} else W.members i
        sections := Function.update W.sections t none
        projectLock := W.projectLock.filter fun j => thread j ≠ t }
  /-- Rebuild the index, or start the project's files. -/
  | other {W} (index : IndexFile) (project : ProjectFiles) :
      Step W { W with store := { W.store with index, project } }
  /-- Load the project's state. -/
  | loadProject {W} (i : ι) {generation : Int} {extensions : ProjectExtensions}
      (hidle : W.Idle thread i) (hnone : (W.members i).session.projectExtensions = none)
      (hload : W.store.state.load = .ok (generation, extensions)) :
      Step W (W.setSession i { (W.members i).session with
        projectExtensions := some extensions, projectGeneration := generation })
  /-- Change the extensions of the project. -/
  | saveProject {W} (i : ι) {extensions : ProjectExtensions} (name value : String)
      (hidle : W.Idle thread i)
      (hloaded : (W.members i).session.projectExtensions = some extensions) :
      Step W (W.setSession i { (W.members i).session with
        projectExtensions := some (extensions.put name value), projectExtensionsDirty := true })
  /-- Take the lock of the project's state with the generation on disk still the session's. -/
  | checkProject {W} (i : ι) (hidle : W.Idle thread i) (hfree : W.projectLock = none)
      (hdirty : (W.members i).session.projectExtensionsDirty = true)
      (hdisk : W.store.state.diskGeneration = .ok (W.members i).session.projectGeneration) :
      Step W { W with projectLock := some i }
  /-- Write the project's state and let go of its lock. -/
  | writeProject {W} (i : ι) {extensions : ProjectExtensions} (hlock : W.projectLock = some i)
      (hloaded : (W.members i).session.projectExtensions = some extensions) :
      Step W { W.setSession i { (W.members i).session with
          projectGeneration := (W.members i).session.projectGeneration + 1
          projectExtensionsDirty := false } with
        store := { W.store with
          state := .document (.value taskSchemaVersion)
            (.value ((W.members i).session.projectGeneration + 1)) (.value extensions) }
        projectLock := none
        projectHistory := W.projectHistory ++ [extensions] }

end Step

end Orqalis
