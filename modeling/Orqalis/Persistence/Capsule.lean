import Orqalis.Lib.Crash
import Orqalis.Persistence.Projections

/-!
# One capsule on disk

A commit first makes a transaction marker durable, with every document and the tail of the
event log in it, and then carries the marker out: it replaces the documents one at a time,
the state last, appends the events one at a time and removes the marker. Whoever opens the
capsule carries out a marker it finds before reading anything else.

The replacement of a single file is all-or-nothing. An append is not: a stop inside it can
leave a part of the line.
-/

namespace Orqalis

open Lib Lib.Crash

/-! ## The disk -/

/-- Where a document of a marker goes: to one of the store's own documents, or to another
path, which a marker the store did not write can name. -/
inductive Target
  | document (name : DocumentName)
  | path (path : String)
deriving DecidableEq, Repr

/-- The path of a target. -/
def Target.text : Target → String
  | document name => name.path
  | path p => p

/-- A document inside a marker: its content and its checksum. A checksum is kept as the
content it is the checksum of. -/
inductive StoredDocument
  | invalid
  | undecodable
  | encoded (content : Content) (sha256 : Content)
deriving DecidableEq

/-- The documents of a marker, by target. -/
abbrev StoredDocuments := Table (fun d : Target × StoredDocument => d.1)

/-- A transaction marker. -/
structure Transaction where
  schemaVersion : Field Int
  generation : Field Int
  documents : Field StoredDocuments
  eventBaseSequence : Field Int
  events : Field (List (Option EventRecord))

/-- The file `execution/.transaction.json`. -/
inductive Marker
  | malformed
  | transaction (t : Transaction)

/-- The file `execution/events.jsonl`: its lines, those that are not records among them,
and whether it ends inside a line. -/
structure EventLog where
  lines : List (Option EventRecord) := []
  torn : Bool := false
deriving DecidableEq

/-- A capsule directory. -/
@[ext] structure Capsule where
  files : Target → Option Content
  log : Option EventLog
  marker : Option Marker

namespace Capsule

/-- The directory of a capsule that has nothing yet. -/
def empty : Capsule := ⟨fun _ => none, none, none⟩

/-- Put a content in a file. -/
def putFile (target : Target) (content : Content) (c : Capsule) : Capsule :=
  { c with files := Function.update c.files target (some content) }

/-- Put a log in the events file. -/
def putLog (log : EventLog) (c : Capsule) : Capsule := { c with log := some log }

/-- Put a marker in its file. -/
def putMarker (marker : Marker) (c : Capsule) : Capsule := { c with marker := some marker }

/-- Take the marker away. -/
def dropMarker (c : Capsule) : Capsule := { c with marker := none }

theorem putLog_self {c : Capsule} {log : EventLog} (h : c.log = some log) :
    c.putLog log = c := by
  cases c
  cases h
  rfl

@[simp] theorem putLog_putLog (c : Capsule) (log log' : EventLog) :
    (c.putLog log).putLog log' = c.putLog log' := rfl

@[simp] theorem log_putLog (c : Capsule) (log : EventLog) : (c.putLog log).log = some log := rfl

/-! ## The event log -/

/-- Read every record of the log; a missing log has none. -/
def readJsonl (c : Capsule) : Except Error (List EventRecord) :=
  match c.log with
  | none => .ok []
  | some log =>
    if log.torn then
      .error (.format "JSONL file ends with an incomplete record")
    else
      log.lines.mapM fun
        | some r => .ok r
        | none => .error (.format "Invalid JSON document")

/-- The records of a prefix of the log that a repair keeps. -/
def prefixRecords (c : Capsule) (count : Nat) : Except Error (List EventRecord) :=
  match c.log with
  | none =>
    if count = 0 then .ok [] else .error (.format "JSONL file has fewer committed records")
  | some log =>
    if log.lines.length < count then
      .error (.format "JSONL file has an incomplete committed prefix")
    else
      (log.lines.take count).mapM fun
        | some r => .ok r
        | none => .error (.format "Invalid JSON document")

/-- The log after an append: a record after a torn line completes a line that is none. -/
def appendRecord (record : EventRecord) (log : EventLog) : EventLog :=
  if log.torn then
    ⟨log.lines ++ [none], false⟩
  else
    ⟨log.lines ++ [some record], false⟩

/-- Append a record to the log, in place or in a new file. -/
def appendLog (record : EventRecord) (c : Capsule) : Capsule :=
  c.putLog (appendRecord record (c.log.getD {}))

/-- What a stop during an append can leave: nothing of the line, a part of it, all of it. -/
def appendCuts (record : EventRecord) (c : Capsule) : List Capsule :=
  [c, c.putLog { c.log.getD {} with torn := true }, c.appendLog record]

end Capsule

/-! ## Recovery -/

/-- Programs over one capsule. -/
abbrev CapsuleProg := Prog Capsule Error

/-- The content a marker stores, checked. -/
def decodeDocument : StoredDocument → Except Error Content
  | .invalid => .error (.conflict "Task transaction contains an invalid document")
  | .undecodable => .error (.conflict "Task transaction contains invalid encoded content")
  | .encoded content sha256 =>
    if content = sha256 then
      .ok content
    else
      .error (.conflict "Task transaction document checksum does not match")

/-- Whether a path of a marker stays inside the capsule (`validate_relative_path`, without
the names that only one platform reserves). -/
def safePath (path : String) : Bool :=
  let parts := path.toList.splitOn '/'
  path ≠ "" ∧ '\\' ∉ path.toList ∧ ':' ∉ path.toList ∧
    parts.all fun part =>
      part ≠ [] ∧ part.getLast? ≠ some '.' ∧ part.getLast? ≠ some ' ' ∧
        part.map Char.toLower ≠ ".git".toList ∧ part.all fun ch => 32 ≤ ch.toNat

/-- Check where a document goes. -/
def relativeTarget : Target → Except Error Target
  | .document name => .ok (.document name)
  | .path p =>
    if safePath p then
      .ok (.path p)
    else
      .error (.conflict "Task transaction contains an unsafe target")

/-- The order documents are replaced in: by path, the state last. -/
def replacedBefore (x y : Target × StoredDocument) : Prop :=
  (x.1 ≠ .document .state ∧ y.1 = .document .state) ∨
    ((x.1 = .document .state ↔ y.1 = .document .state) ∧ x.1.text ≤ y.1.text)

instance : DecidableRel replacedBefore := fun x y => by
  unfold replacedBefore
  infer_instance

/-- The documents of a marker in the order they are replaced. -/
def replacementOrder (documents : StoredDocuments) : List (Target × StoredDocument) :=
  documents.entries.insertionSort replacedBefore

/-- Replace one document. -/
def replaceDocument (d : Target × StoredDocument) : CapsuleProg Unit := do
  let target ← Prog.lift (relativeTarget d.1)
  let content ← Prog.lift (decodeDocument d.2)
  Prog.write (Capsule.putFile target content)

/-- The records of the log, of its committed prefix where the log is damaged. -/
def recoveredRecords (base : Nat) : CapsuleProg (List EventRecord) := do
  match ← Prog.read Capsule.readJsonl with
  | .ok existing => pure existing
  | .error _ =>
    match ← Prog.read (fun c => c.prefixRecords base) with
    | .ok existing =>
      Prog.write (Capsule.putLog ⟨existing.map some, false⟩)
      pure existing
    | .error _ => Prog.fail (.conflict "Task Capsule event log is invalid")

/-- Append the events of a marker from a position on, leaving those the log has. -/
def appendTail (existing : List EventRecord) (position : Nat) :
    List (Option EventRecord) → CapsuleProg Unit
  | [] => pure ()
  | none :: _ => Prog.fail (.conflict "Task Capsule transaction contains an invalid event")
  | some value :: rest =>
    if position < existing.length then
      if existing[position]? ≠ some value then
        Prog.fail (.conflict "Task Capsule event history diverged during recovery")
      else
        appendTail existing (position + 1) rest
    else if existing.length ≠ position then
      Prog.fail (.conflict "Task Capsule event sequence is not contiguous")
    else do
      Prog.step (Capsule.appendCuts value) (Capsule.appendLog value)
      appendTail (existing ++ [value]) (position + 1) rest

/-- Bring the log to what a marker says. -/
def recoverLog (base : Nat) (tail : List (Option EventRecord)) : CapsuleProg Unit := do
  if (← Prog.read Capsule.log).isNone then
    Prog.write (Capsule.putLog {})
  let existing ← recoveredRecords base
  if existing.length < base then
    Prog.fail (.conflict "Task Capsule event log is missing committed history")
  else
    appendTail existing base tail

/-- Carry out a transaction. -/
def applyTransaction (t : Transaction) : CapsuleProg Unit := do
  if t.schemaVersion ≠ .value taskSchemaVersion then
    Prog.fail (.conflict "Unsupported Task Capsule transaction schema")
  else
    match t.documents with
    | .absent | .invalid => Prog.fail (.conflict "Task Capsule transaction has no documents")
    | .value documents =>
      forM (replacementOrder documents) replaceDocument
      match t.eventBaseSequence, t.events with
      | .value base, .value tail =>
        if base < 0 then
          Prog.fail (.conflict "Task Capsule transaction has an invalid event tail")
        else do
          recoverLog base.toNat tail
          Prog.write Capsule.dropMarker
      | _, _ => Prog.fail (.conflict "Task Capsule transaction has an invalid event tail")

/-- Roll an interrupted transaction forward. -/
def recover : CapsuleProg Unit := do
  match ← Prog.read Capsule.marker with
  | none => pure ()
  | some .malformed => Prog.fail (.conflict "Task Capsule transaction marker is invalid")
  | some (.transaction t) => applyTransaction t

/-! ## Loading -/

/-- Read the state document; anything else in its place is not one. -/
def Capsule.readState (c : Capsule) : Except Error StateDocument :=
  match c.files (.document .state) with
  | some (.state d) => .ok d
  | _ => .error (.conflict "Task Capsule state is invalid")

/-- Read a field that has to validate. -/
def Field.validated {α : Type} : Field α → Except Error α
  | .value a => .ok a
  | _ => .error (.conflict "Task Capsule contains invalid domain state")

/-- Read a field that may be missing. -/
def Field.optional {α : Type} : Field α → Except Error (Option α)
  | .value a => .ok (some a)
  | .absent => .ok none
  | .invalid => .error (.conflict "Task Capsule contains invalid domain state")

/-- The generation of a state document, if it can have been committed. -/
def StateDocument.committedGeneration (d : StateDocument) : Except Error Nat :=
  match d.generation with
  | .value g =>
    if 1 ≤ g then
      .ok g.toNat
    else
      .error (.conflict "Task Capsule generation is invalid")
  | _ => .error (.conflict "Task Capsule generation is invalid")

/-- Check the events of a log against the run that owns them. -/
def checkEvents (run : Run) (events : List Event) : Except Error Unit :=
  if (events.any fun e => e.runId ≠ run.id) ∨
      events.map Event.sequence ≠ List.range' 1 events.length then
    .error (.conflict "Task Capsule event sequence is invalid")
  else if run.lastEventSequence ≠ events.length then
    .error (.conflict "Task Capsule state and event cursor disagree")
  else
    .ok ()

/-- Read the extensions. -/
def readExtensions : Field Extensions → Except Error Extensions
  | .value x => .ok x
  | .absent => .ok {}
  | .invalid => .error (.conflict "Task Capsule extensions are invalid")

/-- The records of a state document and the events of the log. -/
def StateDocument.records (d : StateDocument) (lines : List EventRecord) :
    Except Error Records := do
  let run ← d.run.validated
  let goals ← d.goals.read "goals"
  let evidence ← d.evidence.read "evidence"
  let plans ← d.plans.read "plans"
  let tasks ← d.tasks.read "tasks"
  let actors ← d.actors.read "actors"
  let executions ← d.executions.read "executions"
  let phases ← d.phases.read "phases"
  let controlPolicy ← d.controlPolicy.optional
  let approvalRequests ← d.approvalRequests.read "approval_requests"
  let approvalDecisions ← d.approvalDecisions.read "approval_decisions"
  let events ← lines.mapM parseEvent
  checkEvents run events
  let extensions ← readExtensions d.extensions
  .ok
    { run
      goals := .ofList goals
      evidence := .ofList evidence
      plans := .ofList plans
      tasks := .ofList tasks
      actors := .ofList actors
      executions := .ofList executions
      phases := .ofList phases
      controlPolicy
      approvalRequests := .ofList approvalRequests
      approvalDecisions := .ofList approvalDecisions
      events
      extensions }

/-- Read the log; a damaged one makes the state invalid. -/
def Capsule.readLog (c : Capsule) : Except Error (List EventRecord) :=
  match c.readJsonl with
  | .ok lines => .ok lines
  | .error _ => .error (.conflict "Task Capsule state is invalid")

/-- Load the aggregate of a capsule. -/
def Capsule.loadPath (capsuleId : String) (c : Capsule) : Except Error Aggregate := do
  let d ← c.readState
  let lines ← c.readLog
  if d.schemaVersion ≠ .value taskSchemaVersion then
    .error (.conflict "Unsupported Task Capsule state schema")
  else
    let generation ← d.committedGeneration
    let records ← d.records lines
    .ok { capsuleId, generation, records, persistedEventCount := records.events.length }

/-- Recover the capsule of a run and load its aggregate, as `load_capsule` does under the
state lock. -/
def loadCapsule (capsuleId : String) (runId : UUID) : CapsuleProg Aggregate := do
  recover
  let loaded ← Prog.read (Capsule.loadPath capsuleId)
  let a ← Prog.lift loaded
  if a.records.run.id ≠ runId then
    Prog.fail (.conflict "Task Capsule run identity is inconsistent")
  else
    pure a

/-- The generation on disk. -/
def diskGeneration : CapsuleProg Int := do
  recover
  let d ← Prog.read Capsule.readState
  match d with
  | .error e => Prog.fail e
  | .ok d =>
    match d.generation with
    | .value g => pure g
    | _ => Prog.fail (.conflict "Task Capsule generation is invalid")

/-! ## Committing -/

/-- The marker of a commit. -/
def Aggregate.transaction (a : Aggregate) (generation : Nat) (documents : Documents) :
    Transaction where
  schemaVersion := .value taskSchemaVersion
  generation := .value generation
  documents := .value (Table.ofList (documents.entries.map fun d =>
    (.document d.1, .encoded d.2 d.2)))
  eventBaseSequence := .value a.persistedEventCount
  events := .value ((a.records.events.drop a.persistedEventCount).map fun e =>
    some (eventRecord e))

/-- Check that the disk still has the generation the aggregate was loaded from. -/
def Aggregate.checkGeneration (a : Aggregate) : CapsuleProg Unit := do
  if a.isNew then
    pure ()
  else
    let current ← diskGeneration
    if current ≠ a.generation then
      Prog.fail (.conflict "Task Capsule changed concurrently; retry")
    else
      pure ()

/-- An aggregate after its commit. -/
def Aggregate.committed (a : Aggregate) : Aggregate :=
  { a with
    generation := a.generation + 1
    persistedEventCount := a.records.events.length
    dirty := false
    isNew := false }

/-- Commit an aggregate to its capsule. -/
def commitCapsule (secretSafe : StateDocument → Bool) (a : Aggregate) :
    CapsuleProg Aggregate := do
  if ¬ a.dirty then
    pure a
  else
    a.checkGeneration
    let documents ← Prog.lift (a.documents secretSafe (a.generation + 1))
    Prog.write (Capsule.putMarker
      (.transaction (a.transaction (a.generation + 1) documents)))
    recover
    pure a.committed

end Orqalis
