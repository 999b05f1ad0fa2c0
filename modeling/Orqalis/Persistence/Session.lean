import Orqalis.Persistence.Store

/-!
# Units of work

A session holds the aggregates it loaded or created, and what it stages for the project. Its
commit carries out its parts one after the other: the project, each staged capsule in the
order of the run's identifier, the index. A program of a unit of work sees the store and the
session; what a stop leaves of it is the store.
-/

namespace Orqalis

open Lib Lib.Crash

/-- What a session holds. -/
structure Session where
  capsules : Table (fun a : Aggregate => a.records.run.id) := .empty
  pendingProject : Option Project := none
  projectExtensions : Option ProjectExtensions := none
  projectGeneration : Int := 0
  projectExtensionsDirty : Bool := false
deriving DecidableEq

/-- A store and a session over it. -/
structure UnitOfWork where
  store : Store
  session : Session

/-- Programs of a unit of work. -/
abbrev SessionProg := Prog UnitOfWork Error

namespace UnitOfWork

/-- Put a store in its place. -/
def putStore (s : Store) (u : UnitOfWork) : UnitOfWork := { u with store := s }

/-- Change the session. -/
def onSession (f : Session → Session) (u : UnitOfWork) : UnitOfWork :=
  { u with session := f u.session }

end UnitOfWork

/-- A program over the store. -/
def onStore {α : Type} (m : StoreProg α) : SessionProg α :=
  Prog.focus UnitOfWork.store UnitOfWork.putStore m

/-- A program over the project's files. -/
def onProject {α : Type} (m : ProjectProg α) : StoreProg α :=
  Prog.focus Store.project (fun p s => { s with project := p }) m

/-! ## The project -/

/-- Write the identity of a staged project and create its files. -/
def commitIdentity : SessionProg Unit := do
  match ← Prog.read fun u => u.session.pendingProject with
  | none => pure ()
  | some project => do
    let existing ← onStore (onProject loadProject)
    if existing.any fun p => p.id ≠ project.id then
      Prog.fail (.conflict "Project identity already exists")
    else do
      if existing.isNone then
        onStore (onProject (Prog.write fun p => { p with identity := .project project }))
        onStore (onProject (bootstrapProjectStore project))
      Prog.note (UnitOfWork.onSession fun s => { s with pendingProject := none })

/-- The generation of the project state on disk, as a commit reads it. -/
def ProjectStateFile.diskGeneration : ProjectStateFile → Except Error Int
  | .absent => .ok 0
  | .unreadable => .error (.format "Invalid JSON document")
  | .document _ (.value generation) _ => .ok generation
  | .document _ _ _ => .error (.conflict "Project filesystem state is invalid")

/-- Write the staged extensions of the project. -/
def commitProjectState : SessionProg Unit := do
  if ¬ (← Prog.read fun u => u.session.projectExtensionsDirty) then
    pure ()
  else do
    let disk ← Prog.lift =<< Prog.read fun u => u.store.state.diskGeneration
    let generation ← Prog.read fun u => u.session.projectGeneration
    if disk ≠ generation then
      Prog.fail (.conflict "Project filesystem state changed concurrently; retry")
    else do
      Prog.note (UnitOfWork.onSession fun s => { s with projectGeneration := generation + 1 })
      let extensions ← Prog.read fun u => u.session.projectExtensions
      onStore (Prog.write fun s => { s with
        state := .document (.value taskSchemaVersion) (.value (generation + 1))
          (.of extensions) })
      Prog.note (UnitOfWork.onSession fun s => { s with projectExtensionsDirty := false })

/-! ## The commit -/

/-- Commit the capsule of a run the session holds. -/
def commitStaged (secretSafe : StateDocument → Bool) (runId : UUID) : SessionProg Unit := do
  match ← Prog.read fun u => u.session.capsules.get? runId with
  | none => pure ()
  | some a => do
    let committed ← onStore (onCapsule a.capsuleId (commitCapsule secretSafe a))
    Prog.note (UnitOfWork.onSession fun s => { s with capsules := s.capsules.put committed })

/-- The runs a session holds, in the order their capsules are committed. -/
def Session.runs (s : Session) : List UUID :=
  (s.capsules.entries.map fun a => a.records.run.id).insertionSort fun x y => x.text ≤ y.text

/-- The parts of a commit. -/
inductive CommitPart
  | identity
  | projectState
  | capsule (runId : UUID)
  | index
deriving DecidableEq, Repr

/-- The parts of a session's commit, in order. -/
def Session.parts (s : Session) : List CommitPart :=
  [.identity, .projectState] ++ s.runs.map CommitPart.capsule ++
    (if s.capsules.entries.isEmpty then [] else [.index])

/-- Carry out one part. -/
def commitPart (secretSafe : StateDocument → Bool) : CommitPart → SessionProg Unit
  | .identity => commitIdentity
  | .projectState => commitProjectState
  | .capsule runId => commitStaged secretSafe runId
  | .index => onStore rebuildIndex

/-- Commit a session. -/
def commit (secretSafe : StateDocument → Bool) : SessionProg Unit := do
  let parts ← Prog.read fun u => u.session.parts
  forM parts (commitPart secretSafe)

end Orqalis
