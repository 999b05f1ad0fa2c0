import Orqalis.Graph.Models
import Orqalis.Lib.Fields

/-!
# The stored graph and its manifest

How the two documents of a stored graph are read and written, field by field, with everything a
document can hold: numbers of any size, strings with surrogates, instants with their time zones.

What the validation library reads of a value is a parameter, one reader for each type a field is
declared with. Which fields there are, what they are checked for and what stands for a missing
one is not.
-/

namespace Orqalis

open Lib Lib.Fields

namespace GraphFile

/-- What the validation library reads of a value, for the types of the fields, and how it spells
an instant. -/
structure Validation (F Instant : Type) where
  int : Value F → Option Int
  float : Value F → Option F
  /-- Whether a number is from 0 to 1. -/
  unit : F → Bool
  str : Value F → Option Str
  /-- A string whose length or pattern is checked. -/
  constrained : Value F → Option Str
  instant : Value F → Option Instant
  isoformat : Instant → Str

variable {F Instant : Type} (V : Validation F Instant)

/-! ## Nodes -/

inductive GraphMetadataValue (F : Type) where
  | text (s : Str)
  | int (n : Int)
  | float (x : F)
  | flag (b : Bool)
  | null
  | texts (l : List Str)

/-- What is read of a metadata value: of the declared types, the one the value has. -/
def metadataValue : Value F → Option (GraphMetadataValue F)
  | .str s => (V.str (.str s)).map .text
  | .int n => some (.int n)
  | .float x => some (.float x)
  | .bool b => some (.flag b)
  | .null => some .null
  | .arr vs => (vs.mapM V.str).map .texts
  | .obj _ => none

/-- A metadata value as it is written. -/
def GraphMetadataValue.dump : GraphMetadataValue F → Value F
  | text s => .str s
  | int n => .int n
  | float x => .float x
  | flag b => .bool b
  | null => .null
  | texts l => .arr (l.map .str)

structure GraphNode (F : Type) where
  id : Str
  kind : Str
  name : Str
  filePath : Option Str
  lineStart : Option Int
  lineEnd : Option Int
  language : Option Str
  metadata : List (Str × GraphMetadataValue F)
  sourceHash : Option Str

/-- `valid_location` -/
def validLocation : Option Int → Option Int → Bool
  | none, none => true
  | some first, some last => first ≤ last
  | _, _ => false

/-- The fields of a node. -/
def nodeFields : List String :=
  ["id", "kind", "name", "file_path", "line_start", "line_end", "language", "metadata",
    "source_hash"]

/-- A string with a character. -/
def nonempty (v : Value F) : Option Str := checked (fun s => 1 ≤ s.length) V.constrained v

/-- A number from 1. -/
def positive (v : Value F) : Option Int := checked (fun n => 1 ≤ n) V.int v

/-- `GraphNode.model_validate` -/
def GraphNode.validate : Value F → Option (GraphNode F)
  | .obj ms => do
    guard (closed nodeFields ms)
    let id ← field ms "id" (nonempty V) none
    let kind ← field ms "kind" V.str none
    let name ← field ms "name" (nonempty V) none
    let filePath ← field ms "file_path" (Fields.optional V.str) (some none)
    let lineStart ← field ms "line_start" (Fields.optional (positive V)) (some none)
    let lineEnd ← field ms "line_end" (Fields.optional (positive V)) (some none)
    let language ← field ms "language" (Fields.optional V.str) (some none)
    let metadata ← field ms "metadata" (dict V.str (metadataValue V)) (some [])
    let sourceHash ← field ms "source_hash" (Fields.optional V.str) (some none)
    guard (validLocation lineStart lineEnd)
    return ⟨id, kind, name, filePath, lineStart, lineEnd, language, metadata, sourceHash⟩
  | _ => none

/-- The node as a document, with every field. -/
def GraphNode.dump (n : GraphNode F) : Value F :=
  .obj [(codes "id", .str n.id), (codes "kind", .str n.kind), (codes "name", .str n.name),
    (codes "file_path", orNull .str n.filePath), (codes "line_start", orNull .int n.lineStart),
    (codes "line_end", orNull .int n.lineEnd), (codes "language", orNull .str n.language),
    (codes "metadata", .obj (n.metadata.map fun m => (m.1, m.2.dump))),
    (codes "source_hash", orNull .str n.sourceHash)]

/-! ## Edges -/

structure GraphEdge (F : Type) where
  id : Str
  sourceId : Str
  targetId : Str
  relation : Str
  provenance : GraphProvenance
  confidence : F
  evidence : List Str
  resolutionBasis : List Str
  sourceExpressions : List Str

/-- What is read of a provenance. -/
def readProvenance : Value F → Option GraphProvenance
  | .str s =>
    if s = codes GraphProvenance.extracted.value then some .extracted
    else if s = codes GraphProvenance.inferred.value then some .inferred
    else none
  | _ => none

/-- The fields of an edge. -/
def edgeFields : List String :=
  ["id", "source_id", "target_id", "relation", "provenance", "confidence", "evidence",
    "resolution_basis", "source_expressions"]

/-- `GraphEdge.model_validate` -/
def GraphEdge.validate : Value F → Option (GraphEdge F)
  | .obj ms => do
    guard (closed edgeFields ms)
    let id ← field ms "id" (nonempty V) none
    let sourceId ← field ms "source_id" (nonempty V) none
    let targetId ← field ms "target_id" (nonempty V) none
    let relation ← field ms "relation" V.str none
    let provenance ← field ms "provenance" readProvenance none
    let confidence ← field ms "confidence" (checked V.unit V.float) none
    let evidence ← field ms "evidence" (tuple V.str) (some [])
    let resolutionBasis ← field ms "resolution_basis" (tuple V.str) (some [])
    let sourceExpressions ← field ms "source_expressions" (tuple V.str) (some [])
    return ⟨id, sourceId, targetId, relation, provenance, confidence, evidence, resolutionBasis,
      sourceExpressions⟩
  | _ => none

/-- The edge as a document, with every field. -/
def GraphEdge.dump (e : GraphEdge F) : Value F :=
  .obj [(codes "id", .str e.id), (codes "source_id", .str e.sourceId),
    (codes "target_id", .str e.targetId), (codes "relation", .str e.relation),
    (codes "provenance", .str (codes e.provenance.value)),
    (codes "confidence", .float e.confidence), (codes "evidence", .arr (e.evidence.map .str)),
    (codes "resolution_basis", .arr (e.resolutionBasis.map .str)),
    (codes "source_expressions", .arr (e.sourceExpressions.map .str))]

/-! ## The graph -/

structure ProjectGraph (F Instant : Type) where
  schemaVersion : Int
  parserVersion : Str
  generatedAt : Instant
  nodes : List (GraphNode F)
  edges : List (GraphEdge F)

/-- The fields of a graph. -/
def graphFields : List String :=
  ["schema_version", "parser_version", "generated_at", "nodes", "edges"]

/-- `ProjectGraph.model_validate`, where the clock reads `now`. -/
def ProjectGraph.validate (now : Instant) (ms : Members F) : Option (ProjectGraph F Instant) := do
  guard (closed graphFields ms)
  let schemaVersion ← field ms "schema_version" (positive V) (some 1)
  let parserVersion ← field ms "parser_version" (nonempty V) none
  let generatedAt ← field ms "generated_at" V.instant (some now)
  let nodes ← field ms "nodes" (tuple (GraphNode.validate V)) (some [])
  let edges ← field ms "edges" (tuple (GraphEdge.validate V)) (some [])
  return ⟨schemaVersion, parserVersion, generatedAt, nodes, edges⟩

/-- The graph as a document, with every field. -/
def ProjectGraph.dump (g : ProjectGraph F Instant) : Value F :=
  .obj [(codes "schema_version", .int g.schemaVersion),
    (codes "parser_version", .str g.parserVersion),
    (codes "generated_at", .str (V.isoformat g.generatedAt)),
    (codes "nodes", .arr (g.nodes.map GraphNode.dump)),
    (codes "edges", .arr (g.edges.map GraphEdge.dump))]

/-- A document that says when it was generated is read the same at any time. -/
theorem ProjectGraph.validate_of_generatedAt {ms : Members F}
    (h : (Fields.member ms "generated_at").isSome) (now now' : Instant) :
    ProjectGraph.validate V now ms = ProjectGraph.validate V now' ms := by
  unfold ProjectGraph.validate
  rw [field_of_member V.instant h (some now) (some now')]

/-! ## The manifest -/

structure GraphManifest (Instant : Type) where
  schemaVersion : Int
  parserVersion : Str
  indexedCommit : Option Str
  indexedHead : Option Str
  indexedBranch : Option Str
  dirtyPaths : List Str
  fileHashes : List (Str × Str)
  graphSha256 : Str
  lastIndexedAt : Instant

/-- The fields of a manifest. -/
def manifestFields : List String :=
  ["schema_version", "parser_version", "indexed_commit", "indexed_head", "indexed_branch",
    "dirty_paths", "file_hashes", "graph_sha256", "last_indexed_at"]

/-- Whether a string is 64 hexadecimal digits, the letters among them small. -/
def isSha256 (s : Str) : Bool :=
  s.length = 64 ∧ s.all fun n => (48 ≤ n ∧ n ≤ 57) ∨ (97 ≤ n ∧ n ≤ 102)

/-- `GraphManifest.model_validate`, where the clock reads `now`. -/
def GraphManifest.validate (now : Instant) (ms : Members F) : Option (GraphManifest Instant) := do
  guard (closed manifestFields ms)
  let schemaVersion ← field ms "schema_version" (positive V) (some 1)
  let parserVersion ← field ms "parser_version" (nonempty V) none
  let indexedCommit ← field ms "indexed_commit" (Fields.optional V.str) (some none)
  let indexedHead ← field ms "indexed_head" (Fields.optional V.str) (some none)
  let indexedBranch ← field ms "indexed_branch" (Fields.optional V.str) (some none)
  let dirtyPaths ← field ms "dirty_paths" (tuple V.str) (some [])
  let fileHashes ← field ms "file_hashes" (dict V.str V.str) (some [])
  let graphSha256 ← field ms "graph_sha256" (checked isSha256 V.constrained) none
  let lastIndexedAt ← field ms "last_indexed_at" V.instant (some now)
  return ⟨schemaVersion, parserVersion, indexedCommit, indexedHead, indexedBranch, dirtyPaths,
    fileHashes, graphSha256, lastIndexedAt⟩

end GraphFile

end Orqalis
