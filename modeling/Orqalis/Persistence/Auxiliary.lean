import Orqalis.Persistence.Records

/-!
# Repositories over the extensions

The execution, provider and delivery repositories keep their entities in documents under
the run's extensions. A read checks the list it reads; a write reads, changes and stores
the whole document.
-/

namespace Orqalis.Records

/-! ## Execution -/

/-- The document of the execution repository. -/
def executionDocument (r : Records) : Except Error ExecutionDocument :=
  r.extensions.execution.read {} "execution"

/-- Store the document of the execution repository. -/
def saveExecutionDocument (r : Records) (d : ExecutionDocument) : Records :=
  { r with extensions := { r.extensions with execution := .document d } }

/-- The workspace bound to the run. -/
def workspace (r : Records) : Except Error (Option RunWorkspace) := do
  let d ← r.executionDocument
  match d.workspace with
  | none => .ok none
  | some w =>
    if w.runId = r.run.id then
      .ok (some w)
    else
      .error (.conflict "Task Capsule workspace belongs to another run")

/-- Bind a workspace to the run. -/
def saveWorkspace (r : Records) (workspace : RunWorkspace) : Except Error Records := do
  let d ← r.executionDocument
  .ok (r.saveExecutionDocument { d with workspace := some workspace })

/-- The reviews of the run in the order they are stored. -/
def storedReviews (r : Records) : Except Error (List ReviewRecord) := do
  let d ← r.executionDocument
  models ReviewRecord.id ReviewRecord.runId "reviews" r.run.id d.reviews

/-- The reviews of the run, listed. -/
def reviews (r : Records) : Except Error (List ReviewRecord) := do
  let values ← r.storedReviews
  .ok (sortEntities ReviewRecord.createdAt ReviewRecord.id values)

/-- Store a new review. -/
def saveReview (r : Records) (review : ReviewRecord) : Except Error Records := do
  let values ← r.storedReviews
  if values.any fun item => item.id = review.id then
    .error (.conflict "Review identity already exists")
  else
    let d ← r.executionDocument
    .ok (r.saveExecutionDocument { d with reviews := values ++ [review] })

/-- The tool invocations of the run in the order they are stored. -/
def storedTools (r : Records) : Except Error (List ToolInvocation) := do
  let d ← r.executionDocument
  models ToolInvocation.id ToolInvocation.runId "tools" r.run.id d.tools

/-- The tool invocations of the run, listed. -/
def tools (r : Records) : Except Error (List ToolInvocation) := do
  let values ← r.storedTools
  .ok (sortEntities ToolInvocation.startedAt ToolInvocation.id values)

/-- Store a tool invocation; a call of a provider is stored once. -/
def saveTool (r : Records) (invocation : ToolInvocation) : Except Error Records := do
  let values ← r.storedTools
  if values.any fun item =>
      item.id ≠ invocation.id ∧
        item.providerInvocationId = invocation.providerInvocationId ∧
        item.callId = invocation.callId then
    .error (.conflict "Provider tool call identity already exists")
  else
    let d ← r.executionDocument
    .ok (r.saveExecutionDocument
      { d with tools := replace ToolInvocation.id values invocation })

/-! ## Providers -/

/-- The document of the provider repository. -/
def providerDocument (r : Records) : Except Error ProviderDocument :=
  r.extensions.providers.read {} "providers"

/-- The provider invocations of the run in the order they are stored. -/
def storedProviders (r : Records) : Except Error (List ProviderExecution) := do
  let d ← r.providerDocument
  models ProviderExecution.id ProviderExecution.runId "invocations" r.run.id d.invocations

/-- The provider invocations of the run, listed. -/
def providers (r : Records) : Except Error (List ProviderExecution) := do
  let values ← r.storedProviders
  .ok (sortEntities ProviderExecution.startedAt ProviderExecution.id values)

/-- Store a provider invocation; a key is stored once. -/
def saveProvider (r : Records) (invocation : ProviderExecution) : Except Error Records := do
  let values ← r.storedProviders
  if values.any fun item =>
      item.id ≠ invocation.id ∧ item.idempotencyKey = invocation.idempotencyKey then
    .error (.conflict "Provider idempotency key already exists")
  else
    .ok { r with
      extensions := { r.extensions with
        providers := .document
          { invocations := replace ProviderExecution.id values invocation } } }

/-! ## Delivery -/

/-- The document of the delivery repository. -/
def deliveryDocument (r : Records) : Except Error DeliveryDocument :=
  r.extensions.delivery.read {} "delivery"

/-- Store the document of the delivery repository. -/
def saveDeliveryDocument (r : Records) (d : DeliveryDocument) : Records :=
  { r with extensions := { r.extensions with delivery := .document d } }

/-- The inspections of the run in the order they are stored. -/
def storedGuardians (r : Records) : Except Error (List ChangeReport) := do
  let d ← r.deliveryDocument
  models ChangeReport.id ChangeReport.runId "guardians" r.run.id d.guardians

/-- The inspections of the run, listed. -/
def guardians (r : Records) : Except Error (List ChangeReport) := do
  let values ← r.storedGuardians
  .ok (sortEntities ChangeReport.createdAt ChangeReport.id values)

/-- The findings of the run in the order they are stored. -/
def storedFindings (r : Records) : Except Error (List Finding) := do
  let d ← r.deliveryDocument
  models Finding.id Finding.runId "findings" r.run.id d.findings

/-- The findings of the run, listed by creation alone. -/
def findings (r : Records) : Except Error (List Finding) := do
  let values ← r.storedFindings
  .ok (values.insertionSort fun a b => a.createdAt ≤ b.createdAt)

/-- Store a new inspection with its findings. -/
def saveGuardian (r : Records) (report : ChangeReport) : Except Error Records := do
  let reports ← r.storedGuardians
  if reports.any fun item => item.id = report.id then
    .error (.conflict "Change report identity already exists")
  else
    let found ← r.storedFindings
    let d ← r.deliveryDocument
    .ok (r.saveDeliveryDocument { d with
      guardians := reports ++ [report]
      findings := report.findings.foldl (replace Finding.id) found })

/-- The final validations of the run in the order they are stored. -/
def storedValidations (r : Records) : Except Error (List FinalValidation) := do
  let d ← r.deliveryDocument
  models FinalValidation.id FinalValidation.runId "validations" r.run.id d.validations

/-- The final validations of the run, listed. -/
def validations (r : Records) : Except Error (List FinalValidation) := do
  let values ← r.storedValidations
  .ok (sortEntities FinalValidation.createdAt FinalValidation.id values)

/-- Store a new final validation. -/
def saveValidation (r : Records) (validation : FinalValidation) : Except Error Records := do
  let values ← r.storedValidations
  if values.any fun item => item.id = validation.id then
    .error (.conflict "Final validation identity already exists")
  else
    let d ← r.deliveryDocument
    .ok (r.saveDeliveryDocument { d with validations := values ++ [validation] })

/-- The Git delivery of the run. -/
def delivery (r : Records) : Except Error (Option GitDelivery) := do
  let d ← r.deliveryDocument
  match d.gitDelivery with
  | none => .ok none
  | some g =>
    if g.runId = r.run.id then
      .ok (some g)
    else
      .error (.conflict "Task Capsule Git delivery belongs to another run")

/-- Store the Git delivery of the run. -/
def saveDelivery (r : Records) (delivery : GitDelivery) : Except Error Records := do
  let d ← r.deliveryDocument
  let existing ← r.delivery
  if existing.any fun g => g.id ≠ delivery.id then
    .error (.conflict "Run already has a Git delivery identity")
  else
    .ok (r.saveDeliveryDocument { d with gitDelivery := some delivery })

/-- The artifacts of the run in the order they are stored. -/
def storedArtifacts (r : Records) : Except Error (List Artifact) := do
  let d ← r.deliveryDocument
  models Artifact.id Artifact.runId "artifacts" r.run.id d.artifacts

/-- The artifacts of the run, listed by creation alone. -/
def artifacts (r : Records) : Except Error (List Artifact) := do
  let values ← r.storedArtifacts
  .ok (values.insertionSort fun a b => a.createdAt ≤ b.createdAt)

/-- Store an artifact. -/
def saveArtifact (r : Records) (artifact : Artifact) : Except Error Records := do
  let values ← r.storedArtifacts
  let d ← r.deliveryDocument
  .ok (r.saveDeliveryDocument { d with artifacts := replace Artifact.id values artifact })

/-- Store a finding. -/
def saveFinding (r : Records) (finding : Finding) : Except Error Records := do
  let values ← r.storedFindings
  let d ← r.deliveryDocument
  .ok (r.saveDeliveryDocument { d with findings := replace Finding.id values finding })

end Orqalis.Records
