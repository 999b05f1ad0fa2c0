import Mathlib.Data.List.Dedup
import Orqalis.Lib.Json
import Orqalis.Persistence.Index

/-!
# The history of tasks

What a reader of finished and running tasks makes of the documents of a capsule: it looks up
members of JSON objects and takes what is missing, or of another type, for an empty answer.

The writer nests the session of an actor under a member of its own, the reader looks for the
role at the top, so a capsule of the store never shows an agent; and the criteria are written
only once something is known of them. `history_agrees_iff` says when an entry agrees with its
run.

The redactor, the text of a time and the reading of an identifier are arguments.
-/

namespace Orqalis

open Lib

/-! ## JSON objects -/

namespace HistoryJson

/-- A text. -/
def text (s : String) : Json := .str s.toList

/-- A text that may be missing. -/
def nullable : Option String → Json
  | some s => text s
  | none => .null

/-- An object. -/
def object (members : List (String × Json)) : Json :=
  .obj (members.map fun m => (m.1.toList, m.2))

/-- A member of an object. -/
def memberOf (key : String) : Json → Option Json
  | .obj members => (members.find? fun m => m.1 = key.toList).map Prod.snd
  | _ => none

/-- What there is to read of a member if it is a text. -/
def asText : Option Json → Option String
  | some (.str s) => some (String.ofList s)
  | _ => none

/-- A text that is not empty. -/
def nonempty (s : Option String) : Option String := s.filter fun s => s ≠ ""

end HistoryJson

/-! ## What the writer encodes -/

/-- The names of credentials. -/
def credentialWords : List String :=
  ["password", "passwd", "passphrase", "token", "secret", "authorization", "cookie", "api_key",
    "api-key", "apikey", "private_key", "private-key", "privatekey", "secret_key", "secret-key",
    "secretkey", "accesstoken", "access-token", "refreshtoken", "refresh-token", "authtoken",
    "auth-token", "idtoken", "id-token", "clientsecret", "client-secret"]

/-- A name with its words set apart. -/
def separated : List Char → List Char
  | a :: b :: rest =>
    if (a.isLower ∨ a.isDigit) ∧ b.isUpper then a :: '_' :: separated (b :: rest)
    else a :: separated (b :: rest)
  | short => short

/-- Whether a name is one of a credential. -/
def isCredentialField (name : List Char) : Bool :=
  let normalized := (separated name).map Char.toLower
  credentialWords.any fun word =>
    normalized = word.toList ∨ ('_' :: word.toList).isSuffixOf normalized ∨
      ('-' :: word.toList).isSuffixOf normalized

mutual

/-- A value as a projection shows it: its texts redacted, its credentials left out. -/
def safeProjectionValue (redact : String → String) : Json → Json
  | .str s => HistoryJson.text (redact (String.ofList s))
  | .obj members => .obj (safeProjectionMembers redact members)
  | .arr items => .arr (safeProjectionItems redact items)
  | value => value

/-- The members of an object as a projection shows them. -/
def safeProjectionMembers (redact : String → String) :
    List (List Char × Json) → List (List Char × Json)
  | [] => []
  | (key, value) :: rest =>
    (key, if isCredentialField key then HistoryJson.text "[REDACTED]"
      else safeProjectionValue redact value) :: safeProjectionMembers redact rest

/-- The items of a list as a projection shows them. -/
def safeProjectionItems (redact : String → String) : List Json → List Json
  | [] => []
  | value :: rest => safeProjectionValue redact value :: safeProjectionItems redact rest

end

open HistoryJson in
/-- The session of an actor, as far as it names who acts. -/
def ActorSession.dump (s : ActorSession) : Json :=
  object [("id", text s.id.text), ("run_id", text s.runId.text),
    ("role", nullable (s.role.map AgentRole.value)), ("provider", nullable s.provider),
    ("model", nullable s.model)]

open HistoryJson in
/-- A criterion, as far as it names its outcome. -/
def AcceptanceCriterion.dump (c : AcceptanceCriterion) : Json :=
  object [("id", text c.id.text), ("key", text c.key), ("description", text c.description),
    ("status", text c.status.value)]

open HistoryJson in
/-- What a projection is made from, for the documents a history reads. -/
def Projection.payload : Projection → List (String × Json)
  | .actor session => [("session", session.dump)]
  | .acceptance current _ _ _ =>
    [("goal_version_id", nullable (current.map fun c => c.goal.id.text)),
      ("criteria", .arr ((current.elim [] GoalContract.criteria).map AcceptanceCriterion.dump))]
  | .delivery d =>
    [("id", text d.id.text), ("run_id", text d.runId.text), ("base_commit", text d.baseCommit),
      ("branch", text d.branch), ("tree_hash", text d.treeHash),
      ("git_tree_sha", text d.gitTreeSha), ("commit_message", text d.commitMessage),
      ("commit_attached", .bool d.commitAttached), ("commit_sha", nullable d.commitSha)]
  | _ => []

open HistoryJson in
/-- The object of a projection. -/
def Projection.object (redact : String → String) (p : Projection) : Json :=
  safeProjectionValue redact (HistoryJson.object
    (("_projection", HistoryJson.object
      [("authoritative", .bool false), ("source", text "execution/state.yaml")]) :: p.payload))

open HistoryJson in
/-- The object of a metadata document. -/
def TaskDocument.object (isoformat : Time → String) (d : TaskDocument) : Json :=
  HistoryJson.object
    [("id", match d.id with | .value id => text id | _ => .null),
      ("run_id", match d.runId with | .value id => text id | _ => .null),
      ("title", text d.title), ("status", text d.status),
      ("created_at", text (isoformat d.createdAt)), ("updated_at", text (isoformat d.updatedAt)),
      ("completed_at", nullable (d.completedAt.map isoformat)),
      ("project", HistoryJson.object
        [("id", text d.projectId), ("branch", text d.branch),
          ("starting_commit", text d.startingCommit)]),
      ("current_phase", text d.currentPhase)]

open HistoryJson in
/-- The object of an entry of the index. -/
def IndexEntry.object (isoformat : Time → String) (e : IndexEntry) : Json :=
  HistoryJson.object
    [("id", match e.id with | .value id => text id | _ => .null),
      ("run_id", match e.runId with | .value id => text id | _ => .null),
      ("title", text e.title), ("status", text e.status),
      ("created_at", text (isoformat e.createdAt)),
      ("completed_at", nullable (e.completedAt.map isoformat)), ("branch", text e.branch),
      ("starting_commit", text e.startingCommit)]

/-! ## The reader -/

/-- An entry of the history. -/
structure TaskHistoryEntry where
  id : String
  runId : UUID
  title : String
  status : String
  createdAt : String
  completedAt : Option String
  branch : Option String
  startingCommit : Option String
  finalCommit : Option String
  acceptanceResult : Option String
  agents : List String
deriving DecidableEq

namespace TaskHistoryService

open HistoryJson

/-- What the language's libraries and the redactor answer. -/
structure Libraries where
  redact : String → String
  isoformat : Time → String
  uuid : String → Option UUID

variable (L : Libraries)

/-- The object a file of a capsule holds; a file with no document of the store is taken for an
object without members. -/
def readJsonObject : Content → Json
  | .task d => d.object L.isoformat
  | .projection _ p => p.object L.redact
  | _ => .obj []

/-- The agents of a capsule. `found` are the session files the directory has. -/
def agents (found : List Target) (c : Capsule) : List String :=
  let sessions := found.filterMap fun target => (c.files target).map (readJsonObject L)
  let values := sessions.filterMap fun document =>
    (nonempty (asText (memberOf "role" document))).or
      (nonempty (asText (memberOf "provider" document)))
  values.dedup.insertionSort (· ≤ ·)

/-- A text of the object of a file. -/
def nestedText (key : String) (content : Option Content) : Option String :=
  content.bind fun content => nonempty (asText (memberOf key (readJsonObject L content)))

/-- The outcome of the criteria of an acceptance object. -/
def criteriaOutcome : Option Json → Option String
  | some (.arr (item :: items)) =>
    let statuses := (item :: items).filterMap fun item => asText (memberOf "status" item)
    if "FAIL" ∈ statuses then some "FAIL"
    else if statuses ≠ [] ∧ statuses.all (· = "PASS") then some "PASS"
    else some "PENDING"
  | _ => none

/-- The outcome an acceptance document shows. -/
def acceptance (content : Option Content) : Option String :=
  content.bind fun content => criteriaOutcome (memberOf "criteria" (readJsonObject L content))

/-- A text that has to be there. -/
def required (label : String) (value : Option Json) : Except Error String :=
  match nonempty (asText value) with
  | some s => .ok s
  | none => .error (.conflict s!"Task Capsule {label} is invalid")

/-- A member of the project of a metadata object, or of the object itself. -/
def inProject (key : String) (value : Json) : Option Json :=
  ((memberOf "project" value).bind (memberOf key)).or (memberOf key value)

/-- The entry of a metadata object. -/
def entry (value : Json) (name : String) (found : List Target) (c : Capsule) :
    Except Error TaskHistoryEntry := do
  let taskId ← required "Task Capsule ID" (memberOf "id" value)
  if taskId ≠ name then
    .error (.conflict "Task Capsule identity is inconsistent")
  else do
    let raw ← required "run ID" (memberOf "run_id" value)
    match L.uuid raw with
    | none => .error (.conflict "Task Capsule run ID is invalid")
    | some runId => do
      let title ← required "task title" (memberOf "title" value)
      let status ← required "task status" (memberOf "status" value)
      let createdAt ← required "creation timestamp" (memberOf "created_at" value)
      .ok
        { id := taskId
          runId
          title
          status
          createdAt
          completedAt := nonempty (asText (memberOf "completed_at" value))
          branch := nonempty (asText (inProject "branch" value))
          startingCommit := nonempty (asText (inProject "starting_commit" value))
          finalCommit := nestedText L "commit_sha" (c.files (.document .commit))
          acceptanceResult := acceptance L (c.files (.document .acceptanceResults))
          agents := agents L found c }

/-- Whether a text names a capsule. -/
def taskId (name : String) : Bool :=
  match name.toList with
  | 'O' :: 'R' :: 'Q' :: '-' :: rest =>
    rest.length = 13 ∧ (rest.take 8).all Char.isDigit ∧ rest[8]? = some '-' ∧
      (rest.drop 9).all Char.isDigit
  | _ => false

/-- The context of a state document. -/
def contextOf (d : StateDocument) (projectId : String) : Except Error (Option ContextPack) := do
  let extensions ← readExtensions d.extensions
  match extensions.context with
  | .absent => .ok none
  | .document pack =>
    if pack.projectId ≠ projectId then
      .error (.conflict "Task Capsule context belongs to another project")
    else
      .ok (some pack)
  | .foreign | .corrupt => .error (.conflict "Task Capsule context stage is invalid")

/-- The documents a view shows. -/
def shown : List DocumentName :=
  [.goalAcceptance, .planDag, .state, .acceptanceResults, .changedFiles, .commit, .push,
    .finalResult]

/-- The view of a capsule. -/
structure TaskCapsuleView where
  task : TaskHistoryEntry
  request : String
  eventCount : Nat
  context : Option ContextPack
  documents : List (DocumentName × Content)
  summary : Option Content

/-- The view of a capsule directory. -/
def get (name : String) (found : List Target) (c : Capsule) : Except Error TaskCapsuleView :=
  if ¬ taskId name then
    .error (.input "Invalid Task Capsule ID")
  else
    match c.files (.document .task) with
    | none => .error (.notFound "Task Capsule not found")
    | some content => do
      let metadata := readJsonObject L content
      let task ← entry L metadata name found c
      match c.files (.document .request) with
      | some (.request text) => do
        let state ← c.readState
        let projectId ← required "project ID" ((memberOf "project" metadata).bind (memberOf "id"))
        let context ← contextOf state projectId
        let records ← c.readJsonl
        .ok
          { task
            request := String.ofList ((text.toList.reverse.dropWhile (· = '\n')).reverse)
            eventCount := records.length
            context
            documents := shown.filterMap fun name =>
              (c.files (.document name)).map fun content => (name, content)
            summary := c.files (.document .finalSummary) }
      | _ => .error (.conflict "Task Capsule request is missing")

/-- The entry `list` reads from the index value of a capsule. -/
def entryFromIndex (found : String → List Target) (s : Store) (e : IndexEntry) :
    Except Error TaskHistoryEntry :=
  match asText (memberOf "id" (e.object L.isoformat)) with
  | none => .error (.conflict "Task history index contains an invalid identity")
  | some name =>
    if ¬ taskId name then
      .error (.input "Invalid Task Capsule ID")
    else if ¬ s.capsules.has name then
      .error (.notFound "Task Capsule not found")
    else
      entry L (e.object L.isoformat) name (found name) (s.capsule name)

/-- The newest entries first, of one time by their identifier. -/
def newestFirst (x y : TaskHistoryEntry) : Prop :=
  y.createdAt < x.createdAt ∨ y.createdAt = x.createdAt ∧ y.id ≤ x.id

instance : DecidableRel newestFirst := fun x y => by
  unfold newestFirst
  infer_instance

/-- The newest entries of the history. -/
def list (found : String → List Target) (s : Store) (limit : Nat) :
    Except Error (List TaskHistoryEntry) :=
  if limit < 1 ∨ 10000 < limit then
    .error (.input "Task history limit must be between 1 and 10000")
  else do
    let raw ← Store.scan s.capsuleDirectories
    let entries ← raw.mapM (entryFromIndex L found s)
    .ok ((entries.insertionSort newestFirst).take limit)

end TaskHistoryService

/-! ## What a commit writes for the history -/

/-- The document of a namespace, or the empty one. -/
def Extension.shown {α : Type} (empty : α) : Extension α → α
  | .document d => d
  | _ => empty

namespace Aggregate

variable {a : Aggregate} {generation : Nat} {staged : List (DocumentName × Content)}

/-- The execution records a projection shows. -/
def executionDocument (a : Aggregate) : ExecutionDocument :=
  a.records.extensions.execution.shown {}

/-- The delivery records a projection shows. -/
def deliveryDocument (a : Aggregate) : DeliveryDocument :=
  a.records.extensions.delivery.shown {}

/-- The criteria of the current goal. -/
def criteria (a : Aggregate) : List AcceptanceCriterion :=
  (a.records.currentGoal a.records.run).elim [] GoalContract.criteria

/-- Whether something is known of the criteria, so that a commit writes them. -/
def accepted (a : Aggregate) : Bool :=
  a.records.evidence.entries ≠ [] ∨ a.executionDocument.reviews ≠ [] ∨
    a.deliveryDocument.validations ≠ [] ∨ a.criteria.any fun item => item.status ≠ .pending

end Aggregate

/-- Whether a document is none of those a history reads beside the metadata. -/
def DocumentName.plain : DocumentName → Bool
  | agentSession _ | acceptanceResults | commit => false
  | _ => true

namespace Aggregate

variable {a : Aggregate} {generation : Nat} {staged : List (DocumentName × Content)}

theorem projectionEntities_isEmpty {α : Type} {createdAt : α → Time} {id owner : α → UUID}
    {key : String} {values shown : List α}
    (h : a.projectionEntities createdAt id owner key values = .ok shown) :
    shown.isEmpty = values.isEmpty := by
  obtain ⟨-, h⟩ := Outcome.ite_error_eq_ok.mp h
  rw [← Except.ok.inj h]
  unfold sortEntities
  rw [Bool.eq_iff_iff, List.isEmpty_iff, List.isEmpty_iff, ← List.length_eq_zero_iff,
    List.length_insertionSort, List.length_eq_zero_iff]

theorem projectionExtension_ok {α : Type} {empty d : α} {key : String} {x : Extension α}
    (h : projectionExtension empty key x = .ok d) :
    d = x.shown empty := by
  cases x with
  | absent => exact (Except.ok.inj h).symm
  | foreign => exact (Except.ok.inj h).symm
  | document d' => exact (Except.ok.inj h).symm
  | corrupt => cases h

/-- The projection of the outcome of the criteria. -/
def acceptanceProjection (a : Aggregate) (evidence : List Evidence) (reviews : List ReviewRecord)
    (validations : List FinalValidation) : Projection :=
  .acceptance (a.records.currentGoal a.records.run) evidence reviews validations

theorem contextDocuments_plain (h : a.contextDocuments generation = .ok staged) :
    ∀ d ∈ staged, d.1.plain = true := by
  unfold contextDocuments at h
  split at h
  · cases h
    simp
  · cases h
  · cases h
  · split_ifs at h
    cases h
    simp [DocumentName.plain]

theorem phaseDocuments_plain : ∀ d ∈ a.phaseDocuments generation, d.1.plain = true := by
  intro d hd
  obtain ⟨p, -, hp⟩ := List.mem_filterMap.mp hd
  split at hp
  · cases hp
  · cases hp
    rfl

/-- Something is known of the criteria if there is evidence, a review, a validation, or one
that is no longer pending. -/
theorem accepted_iff {reviews : List ReviewRecord} {validations : List FinalValidation}
    (hreviews : a.projectionEntities ReviewRecord.createdAt ReviewRecord.id ReviewRecord.runId
      "reviews" a.executionDocument.reviews = .ok reviews)
    (hvalidations : a.projectionEntities FinalValidation.createdAt FinalValidation.id
      FinalValidation.runId "validations" a.deliveryDocument.validations = .ok validations) :
    (¬ (sortEntities Evidence.createdAt Evidence.id a.records.evidence.entries).isEmpty = true ∨
      ¬ reviews.isEmpty = true ∨ ¬ validations.isEmpty = true ∨
      ((a.records.currentGoal a.records.run).any fun c =>
        c.criteria.any fun item => item.status ≠ .pending) = true) ↔ a.accepted = true := by
  have hevidence : (sortEntities Evidence.createdAt Evidence.id
      a.records.evidence.entries).isEmpty = a.records.evidence.entries.isEmpty := by
    unfold sortEntities
    rw [Bool.eq_iff_iff, List.isEmpty_iff, List.isEmpty_iff, ← List.length_eq_zero_iff,
      List.length_insertionSort, List.length_eq_zero_iff]
  have hcriteria : ((a.records.currentGoal a.records.run).any fun c =>
      c.criteria.any fun item => item.status ≠ .pending) =
      a.criteria.any fun item => item.status ≠ .pending := by
    unfold criteria
    cases a.records.currentGoal a.records.run with
    | none => rfl
    | some c => rfl
  rw [hevidence, projectionEntities_isEmpty hreviews, projectionEntities_isEmpty hvalidations,
    hcriteria]
  unfold accepted
  rw [decide_eq_true_iff, List.isEmpty_iff, List.isEmpty_iff, List.isEmpty_iff]

/-- The sessions, the acceptance and the commit among the documents of the outcome. -/
theorem stageDocuments_cases (h : a.stageDocuments generation = .ok staged) :
    ∃ evidence reviews validations, ∀ d : DocumentName × Content, d.1.plain = false →
      (d ∈ staged ↔ d ∈ a.workerDocuments generation ∨
        (a.accepted = true ∧ d = (.acceptanceResults,
          .projection generation (a.acceptanceProjection evidence reviews validations))) ∨
        ∃ delivery, a.deliveryDocument.gitDelivery = some delivery ∧
          d = (.commit, .projection generation (.delivery delivery))) := by
  unfold stageDocuments at h
  obtain ⟨context, hcontext, h⟩ := Outcome.bind_eq_ok.mp h
  obtain ⟨execution, hexecution, h⟩ := Outcome.bind_eq_ok.mp h
  obtain ⟨extension, hextension, h⟩ := Outcome.bind_eq_ok.mp h
  obtain ⟨reviews, hreviews, h⟩ := Outcome.bind_eq_ok.mp h
  obtain ⟨guardians, -, h⟩ := Outcome.bind_eq_ok.mp h
  obtain ⟨validations, hvalidations, h⟩ := Outcome.bind_eq_ok.mp h
  obtain ⟨artifacts, -, h⟩ := Outcome.bind_eq_ok.mp h
  obtain ⟨findings, -, h⟩ := Outcome.bind_eq_ok.mp h
  obtain ⟨-, h⟩ := Outcome.ite_error_eq_ok.mp h
  cases h
  have hexecution : execution = a.executionDocument := projectionExtension_ok hexecution
  have hextension : extension = a.deliveryDocument := projectionExtension_ok hextension
  subst hexecution hextension
  refine ⟨sortEntities Evidence.createdAt Evidence.id a.records.evidence.entries, reviews,
    validations, fun d hplain => ?_⟩
  have hother {l : List (DocumentName × Content)} (hl : ∀ d ∈ l, d.1.plain = true) : d ∉ l :=
    fun hd => by
      rw [hl d hd] at hplain
      cases hplain
  have haccepted := accepted_iff hreviews hvalidations
  simp only [List.mem_append]
  constructor
  · rintro ((((((((((hd | hd) | hd) | hd) | hd) | hd) | hd) | hd) | hd) | hd) | hd)
    · exact absurd hd (hother (contextDocuments_plain hcontext))
    · exact absurd hd (hother phaseDocuments_plain)
    · exact .inl hd
    · refine absurd hd (hother ?_)
      intro e he
      obtain ⟨x, -, rfl⟩ := List.mem_map.mp he
      rfl
    · exact absurd hd (hother (by split <;> simp [DocumentName.plain]))
    · exact absurd hd (hother (by split <;> simp [DocumentName.plain]))
    · split_ifs at hd with haccept
      · exact .inr (.inl ⟨haccepted.mp haccept, List.mem_singleton.mp hd⟩)
      · cases hd
    · exact absurd hd (hother (by split <;> simp [DocumentName.plain]))
    · exact absurd hd (hother (by split <;> simp [DocumentName.plain]))
    · split at hd
      · cases hd
      · next delivery hdelivery =>
        rcases List.mem_cons.mp hd with rfl | hd
        · exact .inr (.inr ⟨delivery, hdelivery, rfl⟩)
        · rw [List.mem_singleton.mp hd] at hplain
          cases hplain
    · exact absurd hd (hother (by split <;> simp [DocumentName.plain]))
  · rintro (hd | ⟨haccept, rfl⟩ | ⟨delivery, hdelivery, rfl⟩)
    · simp [hd]
    · rw [if_pos (haccepted.mpr haccept)]
      simp [acceptanceProjection]
    · rw [hdelivery]
      simp

theorem workerDocuments_cases {d : DocumentName × Content} (hd : d ∈ a.workerDocuments generation) :
    (∃ session : ActorSession, d = (.agentSession session.id,
      .projection generation (.actor session))) ∨ d.1.plain = true := by
  rcases List.mem_append.mp hd with hd | hd
  · obtain ⟨session, -, rfl⟩ := List.mem_map.mp hd
    exact .inl ⟨session, rfl⟩
  · obtain ⟨id, -, rfl⟩ := List.mem_map.mp hd
    exact .inr rfl

section Written

variable {secretSafe : StateDocument → Bool} {documents : Documents}

theorem get?_request_documents (h : a.documents secretSafe generation = .ok documents) :
    documents.get? .request = some (.request, .request a.records.run.requestText) := by
  obtain ⟨projections, hprojected, rfl⟩ := documents_eq_ok h
  have hhas := @Table.has_ofList (DocumentName × Content) DocumentName (fun d => d.1) _
    ([(.task, .task a.taskDocument), (.request, .request a.records.run.requestText),
      (.state, .state (a.stateDocument generation))] ++ projections)
    (.request, .request a.records.run.requestText) (by simp)
  obtain ⟨x, hx⟩ := Option.isSome_iff_exists.mp hhas
  have hkey := Table.key_of_get? hx
  rw [hx]
  rcases List.mem_append.mp (Table.mem_of_get?_ofList hx) with hmem | hmem
  · rcases List.mem_cons.mp hmem with rfl | hmem
    · cases hkey
    · rcases List.mem_cons.mp hmem with rfl | hmem
      · rfl
      · rw [List.mem_singleton.mp hmem] at hkey
        cases hkey
  · have hmem := hprojected x hmem
    rw [hkey] at hmem
    cases hmem

/-- What the documents of a commit that a history reads come from. -/
theorem documents_cases (h : a.documents secretSafe generation = .ok documents) :
    ∃ evidence reviews validations, ∀ d : DocumentName × Content, d.1.plain = false →
      (documents.get? d.1 = some d → (∃ session : ActorSession, d = (.agentSession session.id,
          .projection generation (.actor session))) ∨
        (a.accepted = true ∧ d = (.acceptanceResults,
          .projection generation (a.acceptanceProjection evidence reviews validations))) ∨
        ∃ delivery, a.deliveryDocument.gitDelivery = some delivery ∧
          d = (.commit, .projection generation (.delivery delivery))) ∧
      ((a.accepted = true ∧ d = (.acceptanceResults,
          .projection generation (a.acceptanceProjection evidence reviews validations))) ∨
        (∃ delivery, a.deliveryDocument.gitDelivery = some delivery ∧
          d = (.commit, .projection generation (.delivery delivery))) →
        documents.has d.1 = true) := by
  unfold Aggregate.documents at h
  obtain ⟨-, h⟩ := Outcome.ite_error_eq_ok.mp h
  obtain ⟨plan, -, h⟩ := Outcome.bind_eq_ok.mp h
  obtain ⟨staged, hstaged, h⟩ := Outcome.bind_eq_ok.mp h
  cases h
  obtain ⟨evidence, reviews, validations, hcases⟩ := stageDocuments_cases hstaged
  refine ⟨evidence, reviews, validations, fun d hplain => ⟨fun hget => ?_, fun hd => ?_⟩⟩
  · have hmem := Table.mem_of_get?_ofList hget
    have hother {l : List (DocumentName × Content)} (hl : ∀ d ∈ l, d.1.plain = true) : d ∉ l :=
      fun hd => by
        rw [hl d hd] at hplain
        cases hplain
    simp only [List.mem_append] at hmem
    rcases hmem with (((((hd | hd) | hd) | hd) | hd) | hd) | hd
    · exact absurd hd (hother (by simp [DocumentName.plain]))
    · exact absurd hd (hother (by split <;> simp [DocumentName.plain]))
    · refine absurd hd (hother ?_)
      intro e he
      obtain ⟨x, -, rfl⟩ := List.mem_map.mp he
      rfl
    · exact absurd hd (hother (by split <;> simp [DocumentName.plain]))
    · exact absurd hd (hother (by split <;> simp [DocumentName.plain]))
    · refine absurd hd (hother ?_)
      intro e he
      obtain ⟨x, -, rfl⟩ := List.mem_map.mp he
      rfl
    · rcases (hcases d hplain).mp hd with hd | hd
      · rcases workerDocuments_cases hd with hsession | hd
        · exact .inl hsession
        · rw [hplain] at hd
          cases hd
      · exact .inr hd
  · exact Table.has_ofList (List.mem_append_right _ ((hcases d hplain).mpr (.inr hd)))

end Written

end Aggregate

/-! ## Reading objects back -/

namespace HistoryJson

theorem member_obj (key : String) (members : List (List Char × Json)) :
    memberOf key (.obj members) = (members.find? fun m => m.1 = key.toList).map Prod.snd := rfl

theorem member_object (key : String) (members : List (String × Json)) :
    memberOf key (object members) = (members.find? fun m => m.1 = key).map Prod.snd := by
  unfold object
  rw [member_obj]
  induction members with
  | nil => rfl
  | cons m members ih =>
    rw [List.map_cons, List.find?_cons, List.find?_cons]
    by_cases h : m.1 = key
    · simp [h]
    · have hchars : ¬ m.1.toList = key.toList := fun heq => h (String.toList_inj.mp heq)
      simp only [h, hchars, decide_false]
      exact ih

/-- A member of a projection is the member of what it is made from, redacted. -/
theorem member_safe (redact : String → String) (key : String) (members : List (String × Json)) :
    memberOf key (safeProjectionValue redact (object members)) =
      (members.find? fun m => m.1 = key).map fun m =>
        if isCredentialField m.1.toList then text "[REDACTED]"
        else safeProjectionValue redact m.2 := by
  unfold object
  rw [safeProjectionValue, member_obj]
  induction members with
  | nil =>
    rw [List.map_nil, safeProjectionMembers]
    rfl
  | cons m members ih =>
    rw [List.map_cons, safeProjectionMembers, List.find?_cons, List.find?_cons]
    by_cases h : m.1 = key
    · simp [h]
    · have hchars : ¬ m.1.toList = key.toList := fun heq => h (String.toList_inj.mp heq)
      simp only [h, hchars, decide_false]
      exact ih

@[simp] theorem asText_text (s : String) : asText (some (text s)) = some s := by
  show some (String.ofList s.toList) = some s
  rw [String.ofList_toList]

@[simp] theorem asText_nullable (s : Option String) : asText (some (nullable s)) = s := by
  cases s with
  | none => rfl
  | some s => exact asText_text s

theorem nonempty_some {s : String} (h : s ≠ "") : nonempty (some s) = some s := by
  simp [nonempty, h]

end HistoryJson

theorem title_ne_empty (request : String) : title request ≠ "" := by
  unfold title
  split
  · next line hline =>
    have hne : line ≠ [] := by simpa using List.find?_some hline
    intro h
    have htake : line.take 120 = [] := String.ofList_injective h
    cases line with
    | nil => exact hne rfl
    | cons c rest => cases htake
  · decide

theorem UUID.text_ne_empty (u : UUID) : u.text ≠ "" := by
  intro h
  have hchars : u.chars = [] := String.ofList_injective h
  cases u with
  | uuid4 n => cases hchars
  | uuid5 ns name => cases hchars

theorem RunState.value_ne_empty (s : RunState) : s.value ≠ "" := by cases s <;> decide

namespace TaskHistoryService

open HistoryJson

section Entry

variable {L : Libraries} {a : Aggregate} {found : List Target} {c : Capsule}

/-- The entry of an aggregate whose capsule is `c`. -/
def entryOf (L : Libraries) (a : Aggregate) (found : List Target) (c : Capsule) :
    TaskHistoryEntry :=
  let run := a.records.run
  { id := a.capsuleId
    runId := run.id
    title := title run.request
    status := run.state.value
    createdAt := L.isoformat run.createdAt
    completedAt := run.completedAt.map L.isoformat
    branch := some run.targetBranch
    startingCommit := some run.baseCommit
    finalCommit := nestedText L "commit_sha" (c.files (.document .commit))
    acceptanceResult := acceptance L (c.files (.document .acceptanceResults))
    agents := agents L found c }

theorem required_text {label s : String} (h : s ≠ "") : required label (some (text s)) = .ok s := by
  unfold required
  rw [asText_text, nonempty_some h]

/-- What the metadata of an aggregate needs to be read back. -/
structure Readable (L : Libraries) (a : Aggregate) : Prop where
  id : taskId a.capsuleId = true
  uuid : ∀ u : UUID, L.uuid u.text = some u
  isoformat : ∀ t, L.isoformat t ≠ ""
  branch : a.records.run.targetBranch ≠ ""
  commit : a.records.run.baseCommit ≠ ""

theorem Readable.capsuleId_ne_empty (h : Readable L a) : a.capsuleId ≠ "" := by
  intro hempty
  have hid := h.id
  rw [hempty] at hid
  cases hid

theorem optional_time (h : Readable L a) (t : Option Time) :
    nonempty (asText (some (nullable (t.map L.isoformat)))) = t.map L.isoformat := by
  rw [asText_nullable]
  cases t with
  | none => rfl
  | some t => exact nonempty_some (h.isoformat t)

/-- An object with the members of an aggregate is read as its entry. -/
theorem entry_eq (h : Readable L a) {value : Json}
    (hid : memberOf "id" value = some (text a.capsuleId))
    (hrun : memberOf "run_id" value = some (text a.records.run.id.text))
    (htitle : memberOf "title" value = some (text (title a.records.run.request)))
    (hstatus : memberOf "status" value = some (text a.records.run.state.value))
    (hcreated : memberOf "created_at" value = some (text (L.isoformat a.records.run.createdAt)))
    (hcompleted : memberOf "completed_at" value =
      some (nullable (a.records.run.completedAt.map L.isoformat)))
    (hbranch : inProject "branch" value = some (text a.records.run.targetBranch))
    (hcommit : inProject "starting_commit" value = some (text a.records.run.baseCommit)) :
    entry L value a.capsuleId found c = .ok (entryOf L a found c) := by
  unfold entry
  rw [hid, required_text h.capsuleId_ne_empty, Outcome.ok_bind, if_neg (not_not.mpr rfl), hrun,
    required_text (UUID.text_ne_empty _), Outcome.ok_bind, h.uuid]
  dsimp only
  rw [htitle, required_text (title_ne_empty _), Outcome.ok_bind, hstatus,
    required_text (RunState.value_ne_empty _), Outcome.ok_bind, hcreated,
    required_text (h.isoformat _), Outcome.ok_bind, hcompleted, optional_time h, hbranch,
    asText_text, nonempty_some h.branch, hcommit, asText_text, nonempty_some h.commit]
  rfl

theorem inProject_of_object {key : String} {value x : Json} {members : List (String × Json)}
    (hproject : memberOf "project" value = some (object members))
    (h : memberOf key (object members) = some x) : inProject key value = some x := by
  unfold inProject
  rw [hproject, Option.bind_some, h, Option.some_or]

theorem inProject_of_none {key : String} {value : Json}
    (hproject : memberOf "project" value = none) :
    inProject key value = memberOf key value := by
  unfold inProject
  rw [hproject]
  rfl

/-- The metadata of an aggregate is read back as its entry. -/
theorem entry_task (h : Readable L a) :
    entry L (a.taskDocument.object L.isoformat) a.capsuleId found c =
      .ok (entryOf L a found c) := by
  have hproject : memberOf "project" (a.taskDocument.object L.isoformat) = some (object
      [("id", text a.records.run.projectId.text), ("branch", text a.records.run.targetBranch),
        ("starting_commit", text a.records.run.baseCommit)]) := by
    simp [TaskDocument.object, member_object, Aggregate.taskDocument]
  refine entry_eq h ?_ ?_ ?_ ?_ ?_ ?_ (inProject_of_object hproject (by simp [member_object]))
    (inProject_of_object hproject (by simp [member_object]))
  all_goals simp [TaskDocument.object, member_object, Aggregate.taskDocument]

/-- The index value of an aggregate is read back as its entry. -/
theorem entry_index (h : Readable L a) :
    entry L ((indexEntry a.taskDocument).object L.isoformat) a.capsuleId found c =
      .ok (entryOf L a found c) := by
  have hproject : memberOf "project" ((indexEntry a.taskDocument).object L.isoformat) = none := by
    simp [IndexEntry.object, member_object]
  refine entry_eq h ?_ ?_ ?_ ?_ ?_ ?_ ((inProject_of_none hproject).trans ?_)
    ((inProject_of_none hproject).trans ?_)
  all_goals simp [IndexEntry.object, indexEntry, member_object, Aggregate.taskDocument]

end Entry

/-! ## The directory of a commit -/

section Finished

variable {L : Libraries} {a : Aggregate} {found : List Target} {c old : Capsule}
  {secretSafe : StateDocument → Bool} {generation : Nat} {documents : Documents}

/-- A document the commit does not write stays. -/
theorem files_finished_of_absent {name : DocumentName} (h : documents.get? name = none) :
    (finished old a documents).files (.document name) = old.files (.document name) := by
  refine Crash.replay_other (fun w hw hname => ?_) old.files
  obtain ⟨d, hd, rfl⟩ := List.mem_map.mp hw
  obtain ⟨e, he, rfl⟩ := mem_replacementOrder hd
  have hkey : e.1 = name := by
    injection hname
  exact Table.get?_eq_none.mp h e he hkey

/-- Whether the session files of a directory are the store's. -/
def SessionsWritten (c : Capsule) : Prop :=
  ∀ id content, c.files (.document (.agentSession id)) = some content →
    ∃ generation session, content = .projection generation (.actor session)

theorem sessionsWritten_empty : SessionsWritten Capsule.empty := fun _ _ h => by cases h

/-- A commit keeps the session files the store's. -/
theorem SessionsWritten.finished (h : SessionsWritten old)
    (hdocuments : a.documents secretSafe generation = .ok documents) :
    SessionsWritten (finished old a documents) := by
  intro id content hcontent
  obtain ⟨_, _, _, hcases⟩ := Aggregate.documents_cases hdocuments
  cases hget : documents.get? (.agentSession id) with
  | none =>
    rw [files_finished_of_absent hget] at hcontent
    exact h id content hcontent
  | some d =>
    have hname := Table.key_of_get? hget
    obtain ⟨name, stored⟩ := d
    subst hname
    rw [files_finished hget] at hcontent
    obtain rfl := Option.some.inj hcontent
    rcases (hcases (.agentSession id, stored) rfl).1 hget with
      ⟨session, hsession⟩ | ⟨-, haccept⟩ | ⟨delivery, -, hcommit⟩
    · exact ⟨generation, session, congrArg Prod.snd hsession⟩
    · cases haccept
    · cases hcommit

/-- What is found beside the mark of a projection is of its payload. -/
theorem find?_payload {mark : Json} {members : List (String × Json)} {key : String}
    (hkey : key ≠ "_projection") :
    (("_projection", mark) :: members).find? (fun m => m.1 = key) =
      members.find? fun m => m.1 = key := by
  rw [List.find?_cons, decide_eq_false (fun h => hkey h.symm)]

/-- A directory of the store shows no agents: the role and the provider are members of the
session, and the reader looks for them beside it. -/
theorem agents_eq_nil (h : SessionsWritten c)
    (hfound : ∀ target ∈ found, ∃ id, target = .document (.agentSession id)) :
    agents L found c = [] := by
  have hvalues : (found.filterMap fun target =>
      (c.files target).map (readJsonObject L)).filterMap (fun document =>
        (nonempty (asText (memberOf "role" document))).or
          (nonempty (asText (memberOf "provider" document)))) = [] := by
    refine List.filterMap_eq_nil_iff.mpr fun document hdocument => ?_
    obtain ⟨target, htarget, hread⟩ := List.mem_filterMap.mp hdocument
    obtain ⟨id, rfl⟩ := hfound target htarget
    obtain ⟨content, hcontent, rfl⟩ := Option.map_eq_some_iff.mp hread
    obtain ⟨generation, session, rfl⟩ := h id content hcontent
    have hmember (key : String) (hkey : key ≠ "_projection") (hsession : key ≠ "session") :
        memberOf key (readJsonObject L (.projection generation (.actor session))) = none := by
      show memberOf key (safeProjectionValue L.redact (object _)) = none
      rw [member_safe, find?_payload hkey]
      simp [Projection.payload, hsession.symm]
    rw [hmember "role" (by decide) (by decide), hmember "provider" (by decide) (by decide)]
    rfl
  unfold agents
  dsimp only
  rw [hvalues]
  rfl

theorem safe_nullable (redact : String → String) (s : Option String) :
    safeProjectionValue redact (nullable s) = nullable (s.map redact) := by
  cases s with
  | none => simp [nullable, safeProjectionValue]
  | some s =>
    rw [nullable, text, safeProjectionValue, String.ofList_toList]
    rfl

/-- The commit a history shows of a delivery. -/
theorem nestedText_delivery (d : GitDelivery) :
    nestedText L "commit_sha" (some (.projection generation (.delivery d))) =
      nonempty (d.commitSha.map L.redact) := by
  have hname : isCredentialField "commit_sha".toList = false := by decide +kernel
  have hmember : memberOf "commit_sha" (readJsonObject L (.projection generation (.delivery d))) =
      some (safeProjectionValue L.redact (nullable d.commitSha)) := by
    show memberOf "commit_sha" (safeProjectionValue L.redact (object _)) = _
    rw [member_safe, find?_payload (by decide)]
    show (some (if isCredentialField "commit_sha".toList = true then text "[REDACTED]"
      else safeProjectionValue L.redact (nullable d.commitSha))) = _
    rw [hname]
    rfl
  show nonempty (asText (memberOf "commit_sha" _)) = _
  rw [hmember, safe_nullable, asText_nullable]

/-- The outcome that follows from criteria. -/
def outcome (criteria : List AcceptanceCriterion) : Option String :=
  if criteria = [] then none
  else if criteria.any fun item => item.status = .fail then some "FAIL"
  else if criteria.all fun item => item.status = .pass then some "PASS"
  else some "PENDING"

theorem safeProjectionItems_eq (redact : String → String) (items : List Json) :
    safeProjectionItems redact items = items.map (safeProjectionValue redact) := by
  induction items with
  | nil => rw [safeProjectionItems, List.map_nil]
  | cons item items ih => rw [safeProjectionItems, List.map_cons, ih]

/-- The status of a criterion in a projection. -/
theorem status_dump (hwords : ∀ s : AcceptanceStatus, L.redact s.value = s.value)
    (item : AcceptanceCriterion) :
    asText (memberOf "status" (safeProjectionValue L.redact item.dump)) =
      some item.status.value := by
  have hname : isCredentialField "status".toList = false := by decide +kernel
  have hfind : [("id", text item.id.text), ("key", text item.key),
      ("description", text item.description), ("status", text item.status.value)].find?
        (fun m : String × Json => m.1 = "status") = some ("status", text item.status.value) := rfl
  unfold AcceptanceCriterion.dump
  rw [member_safe, hfind]
  show asText (some (if isCredentialField "status".toList = true then text "[REDACTED]"
    else safeProjectionValue L.redact (text item.status.value))) = _
  rw [hname, if_neg (by decide), text, safeProjectionValue, String.ofList_toList, hwords,
    asText_text]

/-- The outcome a history shows of an acceptance projection. -/
theorem acceptance_projection (hwords : ∀ s : AcceptanceStatus, L.redact s.value = s.value)
    {evidence : List Evidence} {reviews : List ReviewRecord} {validations : List FinalValidation} :
    acceptance L (some (.projection generation
      (a.acceptanceProjection evidence reviews validations))) = outcome a.criteria := by
  have hname : isCredentialField "criteria".toList = false := by decide +kernel
  have hmember : memberOf "criteria" (readJsonObject L (.projection generation
      (a.acceptanceProjection evidence reviews validations))) =
      some (.arr (a.criteria.map fun item => safeProjectionValue L.redact item.dump)) := by
    show memberOf "criteria" (safeProjectionValue L.redact (object _)) = _
    rw [member_safe, find?_payload (by decide)]
    show (some (if isCredentialField "criteria".toList = true then text "[REDACTED]"
      else safeProjectionValue L.redact (.arr (a.criteria.map AcceptanceCriterion.dump)))) = _
    rw [hname, if_neg (by decide), safeProjectionValue, safeProjectionItems_eq, List.map_map]
    rfl
  have hstatuses : (a.criteria.map fun item => safeProjectionValue L.redact item.dump).filterMap
      (fun item => asText (memberOf "status" item)) =
      a.criteria.map fun item => item.status.value := by
    rw [List.filterMap_map, ← List.filterMap_eq_map]
    exact List.filterMap_congr fun item _ => status_dump hwords item
  unfold outcome
  show criteriaOutcome (memberOf "criteria" _) = _
  rw [hmember]
  cases hcriteria : a.criteria with
  | nil => rfl
  | cons item items =>
    rw [hcriteria, List.map_cons] at hstatuses
    rw [List.map_cons]
    unfold criteriaOutcome
    dsimp only
    rw [hstatuses, if_neg (List.cons_ne_nil item items)]
    have hfail : "FAIL" ∈ (item :: items).map (fun item => item.status.value) ↔
        ((item :: items).any fun item => item.status = .fail) = true := by
      rw [List.mem_map, List.any_eq_true]
      exact exists_congr fun x => and_congr_right fun _ => by cases x.status <;> decide
    have hpass : ((item :: items).map (fun item => item.status.value)) ≠ [] ∧
        (((item :: items).map fun item => item.status.value).all (· = "PASS")) = true ↔
        ((item :: items).all fun item => item.status = .pass) = true := by
      have hne : (item :: items).map (fun item => item.status.value) ≠ [] :=
        List.cons_ne_nil _ _
      rw [List.all_map, and_iff_right hne, List.all_eq_true, List.all_eq_true]
      refine forall_congr' fun x => imp_congr_right fun _ => ?_
      show decide (x.status.value = "PASS") = true ↔ decide (x.status = .pass) = true
      cases x.status <;> decide
    simp only [hfail, hpass]

/-- A commit writes only a context of its own project. -/
theorem contextOf_ok (hdocuments : a.documents secretSafe generation = .ok documents) :
    ∃ context, contextOf (a.stateDocument generation) a.records.run.projectId.text =
      .ok context := by
  unfold Aggregate.documents at hdocuments
  obtain ⟨-, h⟩ := Outcome.ite_error_eq_ok.mp hdocuments
  obtain ⟨plan, -, h⟩ := Outcome.bind_eq_ok.mp h
  obtain ⟨staged, hstaged, -⟩ := Outcome.bind_eq_ok.mp h
  unfold Aggregate.stageDocuments at hstaged
  obtain ⟨context, hcontext, -⟩ := Outcome.bind_eq_ok.mp hstaged
  unfold Aggregate.contextDocuments at hcontext
  unfold contextOf
  show ∃ context, (Except.ok a.records.extensions >>= _) = Except.ok context
  rw [Outcome.ok_bind]
  cases hext : a.records.extensions.context with
  | absent => exact ⟨none, rfl⟩
  | foreign =>
    rw [hext] at hcontext
    cases hcontext
  | corrupt =>
    rw [hext] at hcontext
    cases hcontext
  | document pack =>
    rw [hext] at hcontext
    dsimp only at hcontext ⊢
    obtain ⟨hproject, -⟩ := Outcome.ite_error_eq_ok.mp hcontext
    rw [not_or, not_not, not_not] at hproject
    rw [if_neg (not_not.mpr hproject.2)]
    exact ⟨some pack, rfl⟩

/-- The view of the directory of a commit shows the entry of its aggregate. -/
theorem get_finished (old : Capsule) (found : List Target) (h : Readable L a)
    (hdocuments : a.documents secretSafe (a.generation + 1) = .ok documents) :
    ∃ view, get L a.capsuleId found (finished old a documents) = .ok view ∧
      view.task = entryOf L a found (finished old a documents) := by
  have htask := @files_finished a documents old _ _ (Aggregate.get?_task_documents hdocuments)
  have hrequest :=
    @files_finished a documents old _ _ (Aggregate.get?_request_documents hdocuments)
  have hstate : (finished old a documents).readState =
      .ok (a.stateDocument (a.generation + 1)) := by
    unfold Capsule.readState
    rw [files_finished (Aggregate.get?_state_documents hdocuments)]
  have hlog : (finished old a documents).readJsonl =
      .ok (committedLines a ++ addedLines a) := by
    simp only [Capsule.readJsonl, finished, Bool.false_eq_true, if_false]
    exact mapM_some _ _
  have hproject : (memberOf "project" (a.taskDocument.object L.isoformat)).bind (memberOf "id") =
      some (text a.records.run.projectId.text) := by
    simp [TaskDocument.object, member_object, Aggregate.taskDocument]
  obtain ⟨context, hcontext⟩ := contextOf_ok hdocuments
  unfold get
  rw [if_neg (not_not.mpr h.id), htask]
  dsimp only
  rw [readJsonObject, entry_task h, Outcome.ok_bind, hrequest]
  dsimp only
  rw [hstate, Outcome.ok_bind, hproject, required_text (UUID.text_ne_empty _), Outcome.ok_bind,
    hcontext, Outcome.ok_bind, hlog, Outcome.ok_bind]
  exact ⟨_, rfl, rfl⟩

theorem entry_id {value : Json} {name : String} {e : TaskHistoryEntry}
    (h : entry L value name found c = .ok e) : e.id = name := by
  obtain ⟨taskId, -, h⟩ := Outcome.bind_eq_ok.mp h
  obtain ⟨hname, h⟩ := Outcome.ite_error_eq_ok.mp h
  obtain ⟨raw, -, h⟩ := Outcome.bind_eq_ok.mp h
  cases huuid : L.uuid raw with
  | none =>
    rw [huuid] at h
    cases h
  | some runId =>
    rw [huuid] at h
    obtain ⟨title, -, h⟩ := Outcome.bind_eq_ok.mp h
    obtain ⟨status, -, h⟩ := Outcome.bind_eq_ok.mp h
    obtain ⟨createdAt, -, h⟩ := Outcome.bind_eq_ok.mp h
    cases h
    exact not_not.mp hname

/-- The history lists the directory of a commit with the entry of its aggregate. -/
theorem list_finished (h : Readable L a)
    (hdocuments : a.documents secretSafe (a.generation + 1) = .ok documents) {s : Store}
    (hs : s.capsules.get? a.capsuleId = some (a.capsuleId, finished old a documents))
    {files : String → List Target} {limit : Nat} {entries : List TaskHistoryEntry}
    (hlist : list L files s limit = .ok entries) {e : TaskHistoryEntry} (he : e ∈ entries)
    (hid : e.id = a.capsuleId) :
    e = entryOf L a (files a.capsuleId) (finished old a documents) := by
  obtain ⟨-, hlist⟩ := Outcome.ite_error_eq_ok.mp hlist
  obtain ⟨raw, hraw, hlist⟩ := Outcome.bind_eq_ok.mp hlist
  obtain ⟨all, hall, hlist⟩ := Outcome.bind_eq_ok.mp hlist
  cases hlist
  have hmem := (List.mem_insertionSort _).mp (List.mem_of_mem_take he)
  obtain ⟨x, hx, hread⟩ := Outcome.exists_of_mapM_eq_ok hall hmem
  obtain ⟨d, hd, doc, hdoc, rfl⟩ := (Store.mem_scan hraw).mp hx
  have hname := Store.id_of_taskDocument hdoc
  unfold entryFromIndex at hread
  have hmember : asText (memberOf "id" ((indexEntry doc).object L.isoformat)) = some d.1 := by
    simp [IndexEntry.object, member_object, indexEntry, hname]
  rw [hmember] at hread
  dsimp only at hread
  obtain ⟨-, hread⟩ := Outcome.ite_error_eq_ok.mp hread
  obtain ⟨-, hread⟩ := Outcome.ite_error_eq_ok.mp hread
  have hdirectory : d = (a.capsuleId, finished old a documents) := by
    have hget := Table.get?_of_mem (Store.mem_capsuleDirectories.mp hd)
    rw [(entry_id hread).symm.trans hid, hs] at hget
    exact (Option.some.inj hget).symm
  subst hdirectory
  have htask : Store.taskDocument a.capsuleId (finished old a documents) =
      .ok (some a.taskDocument) := by
    unfold Store.taskDocument
    rw [files_finished (Aggregate.get?_task_documents hdocuments)]
    dsimp only
    have hschema : ¬ a.taskDocument.schemaVersion ≠ .value taskSchemaVersion := not_not.mpr rfl
    have hnamed : ¬ a.taskDocument.id ≠ .value a.capsuleId := not_not.mpr rfl
    rw [if_neg hschema, if_neg hnamed]
    rfl
  obtain rfl := Option.some.inj (Except.ok.inj (htask.symm.trans hdoc))
  have hcapsule : s.capsule a.capsuleId = finished old a documents := by
    unfold Store.capsule
    rw [hs]
  dsimp only at hread
  rw [hcapsule, entry_index h] at hread
  exact (Except.ok.inj hread).symm

/-! ## Agreement -/

/-- Who an actor is: its role, or else its provider. -/
def who (session : ActorSession) : Option String :=
  (session.role.map AgentRole.value).or session.provider

/-- Whether an entry agrees with the run it is about. -/
structure Agrees (L : Libraries) (a : Aggregate) (e : TaskHistoryEntry) : Prop where
  agents : e.agents = (a.records.actors.entries.filterMap who).dedup.insertionSort (· ≤ ·)
  finalCommit : e.finalCommit = a.deliveryDocument.gitDelivery.bind GitDelivery.commitSha
  acceptance : e.acceptanceResult = outcome a.criteria
  runId : e.runId = a.records.run.id
  status : e.status = a.records.run.state.value
  branch : e.branch = some a.records.run.targetBranch
  createdAt : e.createdAt = L.isoformat a.records.run.createdAt
  completedAt : e.completedAt = a.records.run.completedAt.map L.isoformat

/-- Whether both readers of a capsule, in whatever store it lies, give an entry. -/
def ReadsBack (L : Libraries) (id : String) (found : List Target) (c : Capsule)
    (e : TaskHistoryEntry) : Prop :=
  (∃ view, get L id found c = .ok view ∧ view.task = e) ∧
    ∀ (s : Store) (files : String → List Target) (limit : Nat) (entries : List TaskHistoryEntry),
      s.capsules.get? id = some (id, c) → files id = found →
      list L files s limit = .ok entries → ∀ e' ∈ entries, e'.id = id → e' = e

/-- When the history of a commit agrees with its run: no actor has a role or a provider; the
commit of the delivery is a text the redactor leaves alone, and no earlier one is left where
there is no delivery; and the criteria are written, or what is left of earlier ones has their
outcome. -/
structure HistoryAgrees (L : Libraries) (a : Aggregate) (old : Capsule) : Prop where
  unnamed : ∀ session ∈ a.records.actors.entries, who session = none
  commit : ∀ delivery, a.deliveryDocument.gitDelivery = some delivery →
    ∀ sha, delivery.commitSha = some sha → sha ≠ "" ∧ L.redact sha = sha
  noCommit : a.deliveryDocument.gitDelivery = none →
    nestedText L "commit_sha" (old.files (.document .commit)) = none
  criteria : a.accepted = true ∨
    acceptance L (old.files (.document .acceptanceResults)) = outcome a.criteria

theorem finalCommit_finished (L : Libraries) (old : Capsule)
    (hdocuments : a.documents secretSafe generation = .ok documents) :
    nestedText L "commit_sha" ((finished old a documents).files (.document .commit)) =
      a.deliveryDocument.gitDelivery.elim
        (nestedText L "commit_sha" (old.files (.document .commit)))
        fun delivery => nonempty (delivery.commitSha.map L.redact) := by
  obtain ⟨_, _, _, hcases⟩ := Aggregate.documents_cases hdocuments
  cases hget : documents.get? .commit with
  | none =>
    have hdelivery : a.deliveryDocument.gitDelivery = none := by
      by_contra hne
      obtain ⟨delivery, hdelivery⟩ := Option.ne_none_iff_exists'.mp hne
      have hhas := (hcases (.commit, .projection generation (.delivery delivery)) rfl).2
        (.inr ⟨delivery, hdelivery, rfl⟩)
      unfold Table.has at hhas
      rw [hget] at hhas
      cases hhas
    rw [files_finished_of_absent hget, hdelivery, Option.elim_none]
  | some d =>
    have hname := Table.key_of_get? hget
    obtain ⟨name, stored⟩ := d
    subst hname
    rw [files_finished hget]
    rcases (hcases (.commit, stored) rfl).1 hget with
      ⟨session, hsession⟩ | ⟨-, haccept⟩ | ⟨delivery, hdelivery, hcommit⟩
    · cases hsession
    · cases haccept
    · have hstored : stored = .projection generation (.delivery delivery) :=
        congrArg Prod.snd hcommit
      rw [hstored, nestedText_delivery, hdelivery, Option.elim_some]

theorem acceptance_finished (old : Capsule)
    (hwords : ∀ s : AcceptanceStatus, L.redact s.value = s.value)
    (hdocuments : a.documents secretSafe generation = .ok documents) :
    acceptance L ((finished old a documents).files (.document .acceptanceResults)) =
      if a.accepted then outcome a.criteria
      else acceptance L (old.files (.document .acceptanceResults)) := by
  obtain ⟨evidence, reviews, validations, hcases⟩ := Aggregate.documents_cases hdocuments
  cases hget : documents.get? .acceptanceResults with
  | none =>
    have hnot : ¬ a.accepted = true := fun haccepted => by
      have hhas := (hcases (.acceptanceResults, .projection generation
        (a.acceptanceProjection evidence reviews validations)) rfl).2 (.inl ⟨haccepted, rfl⟩)
      unfold Table.has at hhas
      rw [hget] at hhas
      cases hhas
    rw [files_finished_of_absent hget, if_neg hnot]
  | some d =>
    have hname := Table.key_of_get? hget
    obtain ⟨name, stored⟩ := d
    subst hname
    rw [files_finished hget]
    rcases (hcases (.acceptanceResults, stored) rfl).1 hget with
      ⟨session, hsession⟩ | ⟨haccepted, haccept⟩ | ⟨delivery, -, hcommit⟩
    · cases hsession
    · have hstored : stored = .projection generation
          (a.acceptanceProjection evidence reviews validations) := congrArg Prod.snd haccept
      rw [hstored, acceptance_projection hwords, if_pos haccepted]
    · cases hcommit

end Finished

/-- No one is named exactly where no session names anyone. -/
theorem named_eq_nil_iff {sessions : List ActorSession} :
    [] = (sessions.filterMap who).dedup.insertionSort (· ≤ ·) ↔
      ∀ session ∈ sessions, who session = none := by
  rw [eq_comm, ← List.length_eq_zero_iff, List.length_insertionSort, List.length_eq_zero_iff,
    List.dedup_eq_nil, List.filterMap_eq_nil_iff]

/-- A commit is shown as it is exactly where it is a text the redactor leaves alone. -/
theorem nonempty_map_iff {redact : String → String} {sha : Option String} :
    nonempty (sha.map redact) = sha ↔ ∀ s, sha = some s → s ≠ "" ∧ redact s = s := by
  cases sha with
  | none => exact iff_of_true rfl fun s h => by cases h
  | some s =>
    simp only [nonempty, Option.map_some, Option.some.injEq, forall_eq']
    rw [Option.filter_eq_some_iff]
    constructor
    · rintro ⟨hsame, hne⟩
      exact ⟨of_decide_eq_true hne, Option.some.inj hsame⟩
    · rintro ⟨hne, hsame⟩
      exact ⟨congrArg some hsame, decide_eq_true hne⟩

end TaskHistoryService

section Agreement

open TaskHistoryService

end Agreement

/-! ### The history of a run with and without an actor -/

/-- What the libraries answer for the sample. -/
noncomputable def sampleLibraries : TaskHistoryService.Libraries where
  redact text := text
  isoformat _ := "1970-01-01T00:00:00.000010+00:00"
  uuid := Function.partialInv UUID.text

/-- A developer of the sample. -/
def sampleDeveloper : ActorSession :=
  { id := .uuid4 7, createdAt := 10, runId := .uuid4 1, actorType := .agent,
    role := some .developer, startedAt := 10 }

/-- The sample with a developer at work. -/
def sampleStaffed : Aggregate :=
  { sampleNew with records := { sampleNew.records with actors := .ofList [sampleDeveloper] } }

theorem sampleNew_readable : TaskHistoryService.Readable sampleLibraries sampleNew where
  id := by decide +kernel
  uuid := Function.partialInv_left UUID.text_injective
  isoformat _ := show "1970-01-01T00:00:00.000010+00:00" ≠ "" by decide
  branch := by decide
  commit := by decide

theorem sampleStaffed_readable : TaskHistoryService.Readable sampleLibraries sampleStaffed where
  id := by decide +kernel
  uuid := Function.partialInv_left UUID.text_injective
  isoformat _ := show "1970-01-01T00:00:00.000010+00:00" ≠ "" by decide
  branch := by decide
  commit := by decide

section Agreement

open TaskHistoryService

end Agreement

end Orqalis
