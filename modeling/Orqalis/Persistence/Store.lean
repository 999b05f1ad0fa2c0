import Orqalis.Persistence.Capsule

/-!
# The store of a project

The capsules of a project with the index derived from them, and the project's own files:
its identity, the manifest and configuration a project starts with, and its state. A run is
looked up through the index where the index names exactly the capsules that exist, and
otherwise through the metadata documents; either way the metadata of the capsule found is
what counts.
-/

namespace Orqalis

open Lib Lib.Crash

/-! ## The project's files -/

/-- The file `project/identity.yaml`. -/
inductive IdentityFile
  | absent
  | invalid
  | unsupported
  | foreignRoot
  | project (project : Project)
deriving DecidableEq, Repr

/-- The project manifest: of the current schema or the one before, or neither. -/
inductive ManifestFile
  | absent
  | invalid
  | unsupported
  | legacy (projectId : String)
  | current (projectId : String)
deriving DecidableEq, Repr

/-- The project configuration. -/
inductive ConfigFile
  | absent
  | invalid
  | valid
deriving DecidableEq, Repr

/-- The files a project starts with. -/
structure ProjectFiles where
  identity : IdentityFile := .absent
  manifest : ManifestFile := .absent
  config : ConfigFile := .absent
deriving DecidableEq, Repr

/-- What the project keeps under its namespaces. -/
abbrev ProjectExtensions := List (String × String)

/-- The file `project/state.yaml`. -/
inductive ProjectStateFile
  | absent
  | unreadable
  | document (schemaVersion generation : Field Int) (extensions : Field ProjectExtensions)
deriving DecidableEq, Repr

/-! ## The index -/

/-- An entry of the index. -/
structure IndexEntry where
  id : Field String
  runId : Field String
  title : String
  status : String
  createdAt : Time
  completedAt : Option Time
  branch : String
  startingCommit : String
deriving DecidableEq, Repr

/-- The file `tasks/index.json`. -/
inductive IndexFile
  | absent
  | unreadable
  | document (schemaVersion : Field Int) (tasks : Listing IndexEntry)
deriving DecidableEq, Repr

/-- The entry of a metadata document. -/
def indexEntry (d : TaskDocument) : IndexEntry where
  id := d.id
  runId := d.runId
  title := d.title
  status := d.status
  createdAt := d.createdAt
  completedAt := d.completedAt
  branch := d.branch
  startingCommit := d.startingCommit

/-! ## The store -/

/-- A project store. -/
structure Store where
  project : ProjectFiles := {}
  state : ProjectStateFile := .absent
  capsules : Table (fun c : String × Capsule => c.1) := .empty
  index : IndexFile := .absent

namespace Store

/-- The capsule directories, by name. -/
def capsuleDirectories (s : Store) : List (String × Capsule) :=
  s.capsules.entries.insertionSort fun x y => x.1 ≤ y.1

/-- The directory of a capsule. -/
def capsule (s : Store) (name : String) : Capsule :=
  match s.capsules.get? name with
  | some c => c.2
  | none => .empty

/-- Put a directory in its place. -/
def putCapsule (name : String) (c : Capsule) (s : Store) : Store :=
  { s with capsules := s.capsules.put (name, c) }

/-- The metadata of a capsule, checked; a directory without any has none. -/
def taskDocument (name : String) (c : Capsule) : Except Error (Option TaskDocument) :=
  match c.files (.document .task) with
  | none => .ok none
  | some (.task d) =>
    if d.schemaVersion ≠ .value taskSchemaVersion then
      .error (.conflict "Unsupported Task Capsule schema")
    else if d.id ≠ .value name then
      .error (.conflict "Task Capsule identity is inconsistent")
    else
      match d.runId with
      | .value _ => .ok (some d)
      | _ => .error (.conflict "Task Capsule identity is inconsistent")
  | some _ => .error (.conflict "Task Capsule metadata is invalid")

/-- The entries of the metadata documents. -/
def scan : List (String × Capsule) → Except Error (List IndexEntry)
  | [] => .ok []
  | (name, c) :: rest => do
    let d ← taskDocument name c
    let entries ← scan rest
    .ok (match d with
      | some d => indexEntry d :: entries
      | none => entries)

/-- The identifiers of index entries that have one. -/
def indexedNames (entries : List IndexEntry) : List String :=
  entries.filterMap fun e => match e.id with
    | .value id => some id
    | _ => none

/-- The entries of the index file, when it is whole and names exactly the capsules. -/
def cachedEntries (s : Store) : Option (List IndexEntry) :=
  match s.index with
  | .document schemaVersion (.value tasks) =>
    if schemaVersion = .value taskSchemaVersion ∧ tasks.all Option.isSome ∧
        (indexedNames tasks.reduceOption).all (fun name => s.capsules.has name) ∧
        s.capsules.entries.all (fun c => c.1 ∈ indexedNames tasks.reduceOption) then
      some tasks.reduceOption
    else
      none
  | _ => none

/-- The entries a lookup goes through. -/
def indexEntries (s : Store) : Except Error (List IndexEntry) :=
  match s.cachedEntries with
  | some entries => .ok entries
  | none => scan s.capsuleDirectories

/-- Whether a capsule's metadata names a run. -/
def names (name : String) (c : Capsule) (expected : String) : Except Error Bool := do
  let d ← taskDocument name c
  .ok (d.any fun d => d.runId = .value expected)

/-- Search index entries for a run. -/
def searchEntries (s : Store) (expected : String) : List IndexEntry → Except Error (Option String)
  | [] => .ok none
  | e :: rest =>
    match e.id with
    | .value id =>
      if e.runId = .value expected then do
        let found ← names id (s.capsule id) expected
        if found then .ok (some id) else s.searchEntries expected rest
      else
        s.searchEntries expected rest
    | _ => s.searchEntries expected rest

/-- Search capsule directories for a run. -/
def searchDirectories (expected : String) :
    List (String × Capsule) → Except Error (Option String)
  | [] => .ok none
  | (name, c) :: rest => do
    let found ← names name c expected
    if found then .ok (some name) else searchDirectories expected rest

/-- The capsule of a run. -/
def capsuleId (s : Store) (runId : UUID) : Except Error (Option String) := do
  let entries ← s.indexEntries
  match ← s.searchEntries runId.text entries with
  | some id => .ok (some id)
  | none => searchDirectories runId.text s.capsuleDirectories

/-- Whether an index file holds exactly some entries. -/
def indexHolds (index : IndexFile) (entries : List IndexEntry) : Bool :=
  index = .document (.value taskSchemaVersion) (.of entries)

end Store

/-! ## Programs over the store -/

/-- Programs over the store. -/
abbrev StoreProg := Prog Store Error

/-- A program over one capsule. -/
def onCapsule {α : Type} (name : String) (m : CapsuleProg α) : StoreProg α :=
  Prog.focus (fun s => s.capsule name) (Store.putCapsule name) m

/-- Load a run: find its capsule, then recover and load it. -/
def loadRun (runId : UUID) : StoreProg Aggregate := do
  match ← Prog.lift =<< Prog.read (fun s => s.capsuleId runId) with
  | none => Prog.fail (.notFound "Run not found")
  | some id => onCapsule id (loadCapsule id runId)

/-- Read the canonical summaries and repair the index when it differs. -/
def rebuildIndex : StoreProg Unit := do
  let entries ← Prog.lift =<< Prog.read fun s => Store.scan s.capsuleDirectories
  if ← Prog.read fun s => Store.indexHolds s.index entries then
    pure ()
  else
    Prog.write fun s => { s with index := .document (.value taskSchemaVersion) (.of entries) }

/-! ## The project's start -/

/-- Programs over the project's files. -/
abbrev ProjectProg := Prog ProjectFiles Error

/-- Write the default configuration where there is none. -/
def ensureConfig : ProjectProg Unit := do
  if (← Prog.read ProjectFiles.config) = .absent then
    Prog.write fun p => { p with config := .valid }
  else
    pure ()

/-- Bring the ignore file in line with the configuration, which has to validate. -/
def syncStoreGitignore : ProjectProg Unit := do
  match ← Prog.read ProjectFiles.config with
  | .absent => Prog.fail (.input "Project config is not valid JSON/YAML")
  | .invalid => Prog.fail (.input "Project config is not valid JSON/YAML")
  | .valid => pure ()

/-- Migrate a manifest of the schema before; one of any other is refused. -/
def ensureCurrentSchema : ProjectProg Unit := do
  match ← Prog.read ProjectFiles.manifest with
  | .absent => Prog.fail (.notFound "Project is not initialized; run orqalis init")
  | .invalid => Prog.fail (.input "Project manifest is not valid JSON/YAML")
  | .unsupported => Prog.fail (.conflict "Unsupported project store schema")
  | .current _ => pure ()
  | .legacy projectId => do
    ensureConfig
    syncStoreGitignore
    Prog.write fun p => { p with manifest := .current projectId }

/-- Create the project's files, or bring those that exist up to date. The manifest is
written last: its presence marks a completed bootstrap. -/
def bootstrapProjectStore (project : Project) : ProjectProg Unit := do
  if (← Prog.read ProjectFiles.manifest) ≠ .absent then
    ensureCurrentSchema
  else if strip project.name.toList = [] then
    Prog.fail (.input "Project name must not be empty")
  else do
    ensureConfig
    syncStoreGitignore
    Prog.write fun p => { p with manifest := .current project.id.text }
  ensureConfig
  syncStoreGitignore

/-- The project of the store, checked against its manifest. -/
def loadProject : ProjectProg (Option Project) := do
  match ← Prog.read ProjectFiles.identity with
  | .absent => pure none
  | .invalid => Prog.fail (.conflict "Project identity is invalid")
  | .unsupported => Prog.fail (.conflict "Unsupported project identity schema")
  | .foreignRoot => Prog.fail (.conflict "Project identity contains a machine-specific root")
  | .project project => do
    if (← Prog.read ProjectFiles.manifest) = .absent then
      bootstrapProjectStore project
    match ← Prog.read ProjectFiles.manifest with
    | .absent => Prog.fail (.notFound "Project is not initialized; run orqalis init")
    | .invalid => Prog.fail (.input "Project manifest is not valid JSON/YAML")
    | .legacy _ =>
      Prog.fail (.conflict "Project store schema 1 requires migration to schema 2")
    | .unsupported => Prog.fail (.conflict "Unsupported project store schema")
    | .current projectId =>
      if projectId = project.id.text then
        pure (some project)
      else
        Prog.fail (.conflict "Project identity does not match the manifest")

end Orqalis
