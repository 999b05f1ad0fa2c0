import Orqalis.Lib.Crash
import Orqalis.Lib.Walk
import Orqalis.Memory.Frontmatter

/-!
# The curated memory store

Durable memory is three kinds of files with no common transaction: a file for each record,
a directory for each proposal, staged or in the history, and the lifecycle document. Every
operation holds the memory lock, so operations follow one another; each is a program of
single file steps, and the process may stop after any of them.

The files an operation writes and nothing here reads are left out: the baseline category
files, a proposal's rendered texts, and the reserved identifiers. The approval that the
automatic policy adds to a proposal takes the lock again and is an operation of its own.
-/

namespace Orqalis

open Lib Lib.Crash

/-! ## Contracts -/

inductive DurableUpdatePolicy
  | auto
  | review
  | manual
deriving DecidableEq, Repr

inductive MemoryLifecycle
  | ACTIVE
  | SUPERSEDED
  | PENDING
deriving DecidableEq, Repr

inductive ProposalStatus
  | PENDING
  | APPROVED
  | REJECTED
deriving DecidableEq, Repr

/-- A SHA-256 digest in hexadecimal. -/
structure HexDigest where
  text : List Char
  hexadecimal : isHexDigest text
deriving DecidableEq

/-- The identity of a proposal: the day of its stamp and its number. -/
structure ProposalId where
  day : Nat
  number : Nat
deriving DecidableEq, Repr

structure MemoryProposal where
  id : ProposalId
  status : ProposalStatus
  policy : DurableUpdatePolicy
  record : DurableMemoryRecord
  rationale : List Char
  evidence : List (List Char)
  createdAt : Time
  reviewedAt : Option Time
  reviewReason : Option (List Char)
  predecessorDigest : Option HexDigest
deriving DecidableEq

structure MemorySupersession where
  predecessor : MemoryId
  successor : MemoryId
  predecessorDigest : HexDigest
  proposalId : ProposalId
  reviewedAt : Time
  reason : List Char
  evidence : List (List Char)
deriving DecidableEq

/-- The arrows of some transitions, from predecessors to successors. -/
def arrows (supersessions : List MemorySupersession) : List (MemoryId × MemoryId) :=
  supersessions.map fun e => (e.predecessor, e.successor)

/-- `valid_transitions`: no two transitions share an end, and no walk along them comes back
to a record. -/
def validTransitions (supersessions : List MemorySupersession) : Bool :=
  (supersessions.map MemorySupersession.predecessor).Nodup &&
    (supersessions.map MemorySupersession.successor).Nodup &&
    Walk.acyclic (arrows supersessions)

/-- The activation transitions. -/
structure MemoryLifecycleDocument where
  supersessions : List MemorySupersession
  valid : validTransitions supersessions
deriving DecidableEq

namespace MemoryLifecycleDocument

/-- The document without a transition, which a missing file stands for. -/
def empty : MemoryLifecycleDocument := ⟨[], rfl⟩

/-- The document of some transitions; the model library refuses those that compete. -/
def construct (supersessions : List MemorySupersession) :
    Except Error MemoryLifecycleDocument :=
  if h : validTransitions supersessions then .ok ⟨supersessions, h⟩
  else .error (.input "MemoryLifecycleDocument")

end MemoryLifecycleDocument

/-! ## Files -/

/-- The directory of a proposal; a stop may leave it without its document. -/
structure ProposalDirectory where
  id : ProposalId
  proposal : Option MemoryProposal
deriving DecidableEq

/-- The files of the memory store. -/
structure MemoryDisk where
  records : Table (Prod.fst : MemoryId × List Char → MemoryId) := .empty
  staging : Table ProposalDirectory.id := .empty
  history : Table ProposalDirectory.id := .empty
  lifecycle : MemoryLifecycleDocument := .empty

namespace MemoryDisk

/-- Write the file of a record. -/
def putRecord (i : MemoryId) (file : List Char) (s : MemoryDisk) : MemoryDisk :=
  { s with records := s.records.put (i, file) }

/-- Write a proposal's directory in the staging area. -/
def putStaged (d : ProposalDirectory) (s : MemoryDisk) : MemoryDisk :=
  { s with staging := s.staging.put d }

/-- Write the lifecycle document. -/
def putLifecycle (document : MemoryLifecycleDocument) (s : MemoryDisk) : MemoryDisk :=
  { s with lifecycle := document }

/-- Move a staged directory to the history. -/
def archive (d : ProposalDirectory) (s : MemoryDisk) : MemoryDisk :=
  { s with
    staging := s.staging.filter fun e => e.id ≠ d.id
    history := s.history.put d }

/-- The file of a record. -/
def file? (s : MemoryDisk) (i : MemoryId) : Option (List Char) :=
  (s.records.get? i).map Prod.snd

/-- The staged document of a proposal. -/
def staged? (s : MemoryDisk) (i : ProposalId) : Option MemoryProposal :=
  s.staging.get? i >>= ProposalDirectory.proposal

/-- The document of a proposal in the history. -/
def reviewed? (s : MemoryDisk) (i : ProposalId) : Option MemoryProposal :=
  s.history.get? i >>= ProposalDirectory.proposal

/-- Every proposal of the staging area and of the history. -/
def proposals (s : MemoryDisk) : List MemoryProposal :=
  (s.staging.entries ++ s.history.entries).filterMap ProposalDirectory.proposal

section Lemmas

variable {s : MemoryDisk} {i j : MemoryId} {d : ProposalDirectory} {p : MemoryProposal}

@[simp] theorem file?_putRecord_self (s : MemoryDisk) (i : MemoryId) (file : List Char) :
    (s.putRecord i file).file? i = some file := by
  have hget : (s.records.put (i, file)).get? i = some (i, file) :=
    s.records.get?_put_self (i, file)
  simp only [file?, putRecord, hget, Option.map_some]

theorem file?_putRecord_ne (s : MemoryDisk) {i j : MemoryId} (h : i ≠ j) (file : List Char) :
    (s.putRecord i file).file? j = s.file? j := by
  have hget : (s.records.put (i, file)).get? j = s.records.get? j :=
    s.records.get?_put_ne (x := (i, file)) h
  simp only [file?, putRecord, hget]

theorem staged?_putStaged_self (s : MemoryDisk) (d : ProposalDirectory) :
    (s.putStaged d).staged? d.id = d.proposal := by
  simp [staged?, putStaged]

theorem mem_proposals :
    p ∈ s.proposals ↔ ∃ d, (d ∈ s.staging ∨ d ∈ s.history) ∧ d.proposal = some p := by
  simp only [proposals, List.mem_filterMap, List.mem_append]
  rfl

theorem mem_of_staged? {id : ProposalId} (h : s.staged? id = some p) :
    ⟨id, some p⟩ ∈ s.staging := by
  obtain ⟨d, hd, hp⟩ := Option.bind_eq_some_iff.mp h
  have hkey := Table.key_of_get? hd
  have hmem := Table.mem_of_get? hd
  cases d
  cases hkey
  cases hp
  exact hmem

theorem mem_proposals_of_staged? {id : ProposalId} (h : s.staged? id = some p) :
    p ∈ s.proposals :=
  mem_proposals.mpr ⟨_, .inl (mem_of_staged? h), rfl⟩

/-- The proposals after a staged directory was written. -/
theorem mem_proposals_putStaged :
    p ∈ (s.putStaged d).proposals ↔ d.proposal = some p ∨
      ∃ e, (e ∈ s.staging ∧ e.id ≠ d.id ∨ e ∈ s.history) ∧ e.proposal = some p := by
  rw [mem_proposals]
  constructor
  · rintro ⟨e, he | he, hp⟩
    · rcases Table.mem_put.mp he with rfl | ⟨he, hne⟩
      · exact .inl hp
      · exact .inr ⟨e, .inl ⟨he, hne⟩, hp⟩
    · exact .inr ⟨e, .inr he, hp⟩
  · rintro (hp | ⟨e, ⟨he, hne⟩ | he, hp⟩)
    · exact ⟨d, .inl (Table.mem_put_self _ _), hp⟩
    · exact ⟨e, .inl (Table.mem_put.mpr (.inr ⟨he, hne⟩)), hp⟩
    · exact ⟨e, .inr he, hp⟩

end Lemmas

end MemoryDisk

/-- What the store takes from outside: which repository paths stay inside the project and
pass no link, which texts hold no secret, the text of a record's dump, and the digest. -/
structure CuratedMemoryStore where
  contained : List Char → Bool
  secretFree : List Char → Bool
  modelDumpJson : DurableMemoryRecord → List Char
  sha256 : List Char → HexDigest

/-- A program over the memory files. -/
abbrev MemoryProg := Prog MemoryDisk Error

namespace CuratedMemoryStore

variable (store : CuratedMemoryStore)

/-- `_ensure_secret_safe` -/
def ensureSecretSafe (values : List (List Char)) : Except Error Unit :=
  if values.all store.secretFree then .ok ()
  else .error (.policyDenied "Durable project memory cannot contain credentials or secrets")

/-- What is looked at for secrets before a record is written. -/
def ensureRecordSafe (r : DurableMemoryRecord) (others : List (List Char)) : Except Error Unit :=
  store.ensureSecretSafe ([r.title, r.content, store.modelDumpJson r] ++ others)

/-- `_validate_sources` -/
def validateSources (r : DurableMemoryRecord) : Except Error Unit :=
  if r.source.paths.all store.contained then .ok ()
  else .error (.policyDenied "Memory provenance path escapes the project root")

/-- The name of a record's file. -/
def fileName (i : MemoryId) : String := String.ofList (i.text ++ ".md".toList)

/-- The record in a file whose provenance is inside the project. -/
def parseValid (i : MemoryId) (file : List Char) : Except Error DurableMemoryRecord := do
  let record ← parseRecord (fileName i) file
  store.validateSources record
  return record

/-- `get` -/
def get (i : MemoryId) : MemoryProg DurableMemoryRecord := do
  match ← Prog.read (MemoryDisk.file? · i) with
  | none => Prog.fail (.notFound "Memory record not found")
  | some file => Prog.lift (store.parseValid i file)

/-- `_validate_references` -/
def validateReferences (r : DurableMemoryRecord) : MemoryProg Unit :=
  forM r.references fun i => do
    let _ ← store.get i

/-- The file of a record is written once: one that is there has to read as the record. -/
def keepFile (r : DurableMemoryRecord) : Option (List Char) → MemoryProg Unit
  | some file => do
    let stored ← Prog.lift (parseRecord (fileName r.id) file)
    if stored ≠ r then Prog.fail (.conflict "Memory identity already exists")
  | none => Prog.write (MemoryDisk.putRecord r.id (frontmatter r))

/-- `save` -/
def save (r : DurableMemoryRecord) : MemoryProg Unit := do
  Prog.lift (store.ensureRecordSafe r [])
  Prog.lift (store.validateSources r)
  store.validateReferences r
  keepFile r (← Prog.read (MemoryDisk.file? · r.id))

/-- `_lifecycle_state`: the state of a record, and its successor. -/
def lifecycleState (r : DurableMemoryRecord) (document : MemoryLifecycleDocument) :
    MemoryLifecycle × Option MemoryId :=
  match document.supersessions.find? (fun e => e.predecessor = r.id) with
  | some e => (.SUPERSEDED, some e.successor)
  | none =>
    match r.supersedes with
    | some p =>
      -- A stop between the record and its transition leaves the record hidden.
      if document.supersessions.any fun e => e.predecessor = p && e.successor = r.id then
        (.ACTIVE, none)
      else (.PENDING, none)
    | none => (.ACTIVE, none)

/-- The record files in the order of their names. -/
def sortedFiles (s : MemoryDisk) : List (MemoryId × List Char) :=
  s.records.entries.insertionSort fun a b => a.1.text ≤ b.1.text

/-- What `list` checks of one transition against the records. -/
def checkTransition (records : List DurableMemoryRecord) (e : MemorySupersession) :
    Except Error Unit :=
  match records.find? (fun r => r.id = e.predecessor),
      records.find? (fun r => r.id = e.successor) with
  | some _, some successor =>
    if successor.supersedes ≠ some e.predecessor then
      .error (.conflict "Memory lifecycle disagrees with successor provenance")
    else .ok ()
  | _, _ => .error (.conflict "Memory lifecycle references a missing record")

/-- `list` -/
def list (includeInactive : Bool) (s : MemoryDisk) : Except Error (List DurableMemoryRecord) := do
  let records ← (sortedFiles s).mapM fun f => parseRecord (fileName f.1) f.2
  if ¬ (records.map DurableMemoryRecord.id).Nodup then
    throw (.conflict "Duplicate canonical memory identity")
  records.forM store.validateSources
  s.lifecycle.supersessions.forM (checkTransition records)
  return records.filter fun r =>
    includeInactive || (lifecycleState r s.lifecycle).1 = .ACTIVE

/-! ## Revalidation -/

/-- The declared sources of a record whose digest is another one now. -/
def changedSources (r : DurableMemoryRecord) (currentCommit : List Char)
    (digest : List Char → Option HexDigest) : List (List Char) :=
  let changed := r.source.paths.filter fun path =>
    match r.source.contentHashes.entries.find? (fun e => e.1 = path) with
    | some e => (digest path).map HexDigest.text ≠ some e.2
    | none => false
  if changed = [] then
    match r.verifiedCommit with
    | some commit =>
      if commit ≠ [] ∧ currentCommit ≠ [] ∧ commit ≠ currentCommit ∧
          r.source.contentHashes.entries = [] then
        if r.source.paths = [] then ["<repository>".toList] else r.source.paths
      else []
    | none => []
  else changed

/-- A record with new provenance. Its identity and its content stay. -/
def reverified (r : DurableMemoryRecord) (currentCommit : List Char) (verifiedAt : AwareTime)
    (digest : List Char → Option HexDigest) (h : ∀ path ∈ r.source.paths, (digest path).isSome) :
    DurableMemoryRecord :=
  { r with
    source := { r.source with
      contentHashes :=
        Hashes.ofKeys r.source.paths fun path => ((digest path).map HexDigest.text).getD []
      declared := by
        intro e he
        obtain ⟨hmem, hvalue⟩ := Hashes.mem_ofKeys he
        obtain ⟨d, hd⟩ := Option.isSome_iff_exists.mp (h _ hmem)
        exact ⟨hmem, by rw [hvalue, hd]; exact d.hexadecimal⟩ }
    verifiedCommit := some currentCommit
    lastVerifiedAt := verifiedAt }

/-- What a revalidation makes of a record. -/
inductive Revalidation
  | unchanged
  | stale
  | revalidated
deriving DecidableEq, Repr

/-- One record of `revalidate`: the working tree gives the digests of the sources. -/
def revalidateRecord (currentCommit : List Char) (verifiedAt : AwareTime)
    (digest : List Char → Option HexDigest) (r : DurableMemoryRecord) :
    MemoryProg (MemoryId × Revalidation) := do
  Prog.lift (store.validateSources r)
  let document ← Prog.read MemoryDisk.lifecycle
  if (lifecycleState r document).1 ≠ .ACTIVE then
    Prog.fail (.conflict "Inactive memory cannot be revalidated")
  else if changedSources r currentCommit digest = [] then
    return (r.id, .unchanged)
  else if h : ∀ path ∈ r.source.paths, (digest path).isSome then
    let updated := reverified r currentCommit verifiedAt digest h
    Prog.lift (store.ensureRecordSafe updated [])
    Prog.lift (store.validateSources updated)
    match ← Prog.read (MemoryDisk.file? · r.id) with
    | none => Prog.fail (.conflict "Memory changed while it was being revalidated")
    | some file =>
      let stored ← Prog.lift (parseRecord (fileName r.id) file)
      if stored ≠ r then
        Prog.fail (.conflict "Memory changed while it was being revalidated")
      else
        Prog.write (MemoryDisk.putRecord r.id (frontmatter updated))
        return (r.id, .revalidated)
  else return (r.id, .stale)

/-- The records a revalidation is for: the requested ones, or every active one. -/
def selected (recordIds : List MemoryId) : MemoryProg (List DurableMemoryRecord) :=
  let requested := recordIds.eraseDups
  if requested ≠ [] then requested.mapM store.get
  else do Prog.lift (← Prog.read (store.list false))

/-- `revalidate` -/
def revalidate (currentCommit : List Char) (recordIds : List MemoryId) (verifiedAt : AwareTime)
    (digest : List Char → Option HexDigest) : MemoryProg (List (MemoryId × Revalidation)) := do
  if Text.blank currentCommit then
    Prog.fail (.conflict "Memory revalidation requires the current Git commit")
  else
    let records ← store.selected recordIds
    records.mapM (store.revalidateRecord currentCommit verifiedAt digest)

/-! ## Proposals -/

/-- `_next_id` of a proposal: the least number of the day that no directory has. -/
def nextProposalId (day : Nat) (s : MemoryDisk) : Option ProposalId :=
  ((List.range' 1 9999).map fun number => ProposalId.mk day number).find? fun i =>
    !s.staging.has i && !s.history.has i

/-- The record as it is proposed, and the digest of the active record it supersedes. -/
def superseding (r : DurableMemoryRecord) (supersedes : Option MemoryId) :
    MemoryProg (DurableMemoryRecord × Option HexDigest) := do
  match supersedes <|> r.supersedes with
  | none => return (r, none)
  | some p =>
    if p = r.id then Prog.fail (.conflict "Memory cannot supersede itself")
    else do
      let predecessor ← store.get p
      let document ← Prog.read MemoryDisk.lifecycle
      if (lifecycleState predecessor document).1 ≠ .ACTIVE then
        Prog.fail (.conflict "Only active memory can be superseded")
      else
        return ({ r with supersedes := some p }, some (store.sha256 (frontmatter predecessor)))

/-- `propose`, up to the document of the proposal. -/
def propose (r : DurableMemoryRecord) (rationale : List Char) (policy : DurableUpdatePolicy)
    (evidence : List (List Char)) (supersedes : Option MemoryId) (day : Nat) (now : Time) :
    MemoryProg MemoryProposal := do
  Prog.lift (store.ensureRecordSafe r (rationale :: evidence))
  Prog.lift (store.validateSources r)
  store.validateReferences r
  let (record, predecessorDigest) ← store.superseding r supersedes
  if (← Prog.read (MemoryDisk.file? · record.id)).isSome then
    Prog.fail (.conflict "Memory identity already exists")
  else if (← Prog.read MemoryDisk.proposals).any fun p => p.record.id = record.id then
    Prog.fail (.conflict "Memory identity already has a proposal")
  else
    match ← Prog.read (nextProposalId day) with
    | none => Prog.fail (.conflict "No MEM-PROP identifiers remain")
    | some id =>
      if rationale = [] then Prog.fail (.input "MemoryProposal")
      else
        let proposal : MemoryProposal :=
          ⟨id, .PENDING, policy, record, rationale, evidence, now, none, none, predecessorDigest⟩
        Prog.write (MemoryDisk.putStaged ⟨id, none⟩)
        Prog.write (MemoryDisk.putStaged ⟨id, some proposal⟩)
        return proposal

/-! ## Reviews -/

/-- The transition a proposal has published. -/
def published (document : MemoryLifecycleDocument) (id : ProposalId) :
    Option MemorySupersession :=
  document.supersessions.find? fun e => e.proposalId = id

/-- Whether a published transition is the one a proposal asks for. -/
def agrees (e : MemorySupersession) (p : MemoryProposal) : Bool :=
  e.successor = p.record.id && some e.predecessor = p.record.supersedes &&
    some e.predecessorDigest = p.predecessorDigest

/-- The predecessor of a proposal has to be active and as it was proposed. -/
def checkPredecessor (p : MemoryProposal) (i : MemoryId) : MemoryProg Unit := do
  let predecessor ← store.get i
  let document ← Prog.read MemoryDisk.lifecycle
  if p.predecessorDigest ≠ some (store.sha256 (frontmatter predecessor)) ∨
      (lifecycleState predecessor document).1 ≠ .ACTIVE then
    Prog.fail (.conflict "Superseded memory changed after proposal; stage a new proposal")

/-- Publish the transition of a proposal; the digest is asserted to be there. -/
def publish (p : MemoryProposal) (i : MemoryId) (reason : List Char) (now : Time) :
    MemoryProg Unit := do
  match p.predecessorDigest with
  | none => Prog.fail (.runtime "AssertionError")
  | some digest =>
    let document ← Prog.read MemoryDisk.lifecycle
    let document ← Prog.lift (MemoryLifecycleDocument.construct
      (document.supersessions ++ [⟨i, p.record.id, digest, p.id, now, reason, p.evidence⟩]))
    Prog.write (MemoryDisk.putLifecycle document)

/-- What an approval adds before the proposal is decided: the record, then its transition. -/
def activate (p : MemoryProposal) (transition : Option MemorySupersession) (reason : List Char)
    (now : Time) : MemoryProg Unit := do
  match p.record.supersedes, transition with
  | some i, none =>
    store.checkPredecessor p i
    store.save p.record
    publish p i reason now
  | _, _ => store.save p.record

/-- A proposal with its decision; a decided one stays as it is. -/
def decided (p : MemoryProposal) (expected : ProposalStatus)
    (transition : Option MemorySupersession) (reason : List Char) (now : Time) : MemoryProposal :=
  if p.status = expected then p
  else
    { p with
      status := expected
      reviewedAt := some ((transition.map MemorySupersession.reviewedAt).getD now)
      reviewReason := some ((transition.map MemorySupersession.reason).getD reason) }

/-- `_review` of a proposal that is staged. -/
def reviewStaged (p : MemoryProposal) (approved : Bool) (reason : List Char) (now : Time) :
    MemoryProg MemoryProposal := do
  let expected : ProposalStatus := if approved then .APPROVED else .REJECTED
  if p.status ≠ .PENDING ∧ p.status ≠ expected then
    Prog.fail (.conflict "Memory proposal is no longer pending")
  else do
    let document ← Prog.read MemoryDisk.lifecycle
    let transition := published document p.id
    if transition.any fun e => !approved || !agrees e p then
      Prog.fail (.conflict "Memory transition is already published")
    else do
      if approved then store.activate p transition reason now
      let reviewed := decided p expected transition reason now
      Prog.write (MemoryDisk.putStaged ⟨p.id, some reviewed⟩)
      Prog.write (MemoryDisk.archive ⟨p.id, some reviewed⟩)
      return reviewed

/-- `_review` -/
def review (id : ProposalId) (approved : Bool) (reason : List Char) (now : Time) :
    MemoryProg MemoryProposal := do
  if Text.blank reason then Prog.fail (.conflict "Memory review requires a reason")
  else do
    Prog.lift (store.ensureSecretSafe [reason])
    match ← Prog.read (MemoryDisk.staged? · id) with
    | some p => store.reviewStaged p approved reason now
    | none =>
      match ← Prog.read (MemoryDisk.reviewed? · id) with
      | none => Prog.fail (.notFound "Memory proposal not found")
      | some p =>
        if p.status = if approved then .APPROVED else .REJECTED then return p
        else Prog.fail (.conflict "Memory proposal is no longer pending")

/-- `approve` -/
def approve (id : ProposalId) (reason : List Char) (now : Time) : MemoryProg MemoryProposal :=
  store.review id true reason now

/-- `reject` -/
def reject (id : ProposalId) (reason : List Char) (now : Time) : MemoryProg MemoryProposal :=
  store.review id false reason now

end CuratedMemoryStore

/-- The record that is read from its file. -/
def MemoryDisk.Reads (s : MemoryDisk) (i : MemoryId) (r : DurableMemoryRecord) : Prop :=
  ∃ file, s.file? i = some file ∧ parseRecord (CuratedMemoryStore.fileName i) file = .ok r

/-! ## Runs -/

/-- An operation of the store and what it is given. -/
inductive MemoryOperation
  | save (r : DurableMemoryRecord)
  | propose (r : DurableMemoryRecord) (rationale : List Char) (policy : DurableUpdatePolicy)
    (evidence : List (List Char)) (supersedes : Option MemoryId) (day : Nat) (now : Time)
  | approve (id : ProposalId) (reason : List Char) (now : Time)
  | reject (id : ProposalId) (reason : List Char) (now : Time)
  | revalidate (currentCommit : List Char) (recordIds : List MemoryId) (verifiedAt : AwareTime)
    (digest : List Char → Option HexDigest)

/-- The program of an operation. -/
def MemoryOperation.program (store : CuratedMemoryStore) : MemoryOperation → MemoryProg Unit
  | save r => store.save r
  | propose r rationale policy evidence supersedes day now => do
    let _ ← store.propose r rationale policy evidence supersedes day now
  | approve id reason now => do
    let _ ← store.approve id reason now
  | reject id reason now => do
    let _ ← store.reject id reason now
  | revalidate currentCommit recordIds verifiedAt digest => do
    let _ ← store.revalidate currentCommit recordIds verifiedAt digest

/-- What an operation can leave: its end, or what a stop after one of its file steps
leaves. -/
def MemoryOperation.Leaves (store : CuratedMemoryStore) (op : MemoryOperation)
    (s t : MemoryDisk) : Prop :=
  t ∈ ((op.program store).run s).stops ∨ t = ((op.program store).run s).disk

end Orqalis
