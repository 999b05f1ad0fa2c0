import Orqalis.Graph.Assemble
import Orqalis.Lib.Crash
import Orqalis.Lib.Outcome
import Orqalis.Lib.Utf8
import Orqalis.Memory.Records

/-!
# Refreshing the project graph

A refresh looks for the files of a repository, parses those whose parse is not kept, and
publishes a graph and a manifest that says which files it was made from. It takes two shorter
ways: a clean working tree at the commit of a clean manifest needs no look at the files, and
files with the hashes of the manifest need no new graph.

Neither way shows. After any refreshes, finished or stopped, and any loss of what they stored, a
refresh returns the graph and the hashes that one with nothing stored makes of the same files
(`refresh_exact`).
-/

namespace Orqalis

open Lib Lib.Crash RepositoryPath

namespace ProjectGraphEngine

/-! ## The repository -/

/-- Why a refresh fails. -/
inductive RefreshError
  | policyDenied (message : String)
  | os (message : String)
  | conflict (message : String)
  | runtime (message : String)
deriving DecidableEq, Repr

/-- What reading a file comes to. -/
abbrev Reading := Except RefreshError (List UInt8)

/-- The paths of each commit, and what reading a path comes to in a working tree that has not
changed it. -/
structure Repository where
  tracked : String → List String
  committed : String → String → Reading

/-- What one refresh sees of a repository: the status, and what reading each path comes to while
it looks for the files and while it parses them. The status names every path that reads
otherwise than at the commit. -/
structure Worktree (R : Repository) where
  branch : Option String
  head : String
  changedPaths : List String
  read : String → Reading
  again : String → Reading
  faithful : ∀ path ∈ R.tracked head, path ∉ changedPaths → read path = R.committed head path

variable {R : Repository}

/-- The same view of a repository that stands still. -/
def Worktree.still (w : Worktree R) : Worktree R := { w with again := w.read }

/-- The paths that may be files. -/
def Worktree.candidates (w : Worktree R) : List String := R.tracked w.head ++ w.changedPaths

/-- Everything that is read. -/
def Worktree.contents (w : Worktree R) : List (List UInt8) :=
  w.candidates.flatMap fun path => [w.read path, w.again path].filterMap Except.toOption

/-! ## The engine -/

/-- What a parser finds in a text. -/
structure Extraction where
  syntaxError : Bool := false
  diagnostics : List String := []
  symbols : List SymbolSpec := []
  imports : List ImportSpec := []
  moduleCalls : List CallSpec := []

/-- What an engine rests on: the digest of bytes, the canonical form of a graph, and the parsers.
The Python parser finds nothing in a text that is no program. -/
structure Engine where
  casefold : String → String
  sha256 : List UInt8 → String
  payload : ProjectGraph → List UInt8
  parserVersion : String
  maxFileBytes : Nat
  script : String → List UInt8 → Extraction
  python : List Char → Option Extraction

/-- `GRAPH_SCHEMA_VERSION` -/
def schemaVersion : Nat := 1

/-- `_SOURCE_EXTENSIONS` -/
def sourceExtensions : List String :=
  [".c", ".cc", ".cpp", ".cs", ".go", ".h", ".hpp", ".java", ".js", ".mjs", ".cjs", ".mts",
    ".cts", ".jsx", ".kt", ".kts", ".php", ".py", ".pyi", ".rb", ".rs", ".scala", ".sh",
    ".swift", ".ts", ".tsx"]

/-- `_BLOCKED_PARTS` -/
def blockedParts : List String :=
  [".git", ".orqalis", ".tools", ".venv", "__pycache__", "build", "dist", "node_modules",
    "secrets", "credentials"]

/-- The graph and the manifest on disk, and the parses that are kept by parser and content. -/
structure Stored where
  manifest : Option GraphManifest := none
  graph : Option ProjectGraph := none
  cache : String × String → Option ParsedSource := fun _ => none

/-- What a refresh did, but for the time it took. -/
structure GraphRefreshMetrics where
  processedFiles : Nat
  cacheHits : Nat
  cacheMisses : Nat
  deletedFiles : Nat
  totalFiles : Nat
  changedPaths : List String := []
deriving DecidableEq, Repr

structure GraphRefreshResult where
  graph : ProjectGraph
  manifest : GraphManifest
  metrics : GraphRefreshMetrics

/-- `validate_relative_path` -/
def checkRelativePath (path : String) : Except RefreshError PUnit :=
  if path = "" ∨ path.toList.head? = some '/' ∨ '\\' ∈ path.toList then
    .error (.policyDenied "Expected a repository-relative POSIX path")
  else if validateRelativePath path.toList = false then
    .error (.policyDenied "Unsafe repository path")
  else .ok ⟨⟩

/-- The number of lines of a text, however they end. -/
def lineCount (text : List Char) : Nat := (Text.newlines text).count '\n' + 1

/-- `_parser_kind` -/
def Engine.parserKind (E : Engine) (path : String) : String :=
  let suffix := E.casefold (suffix path)
  if suffix ∈ [".py", ".pyi"] then "python"
  else if suffix ∈ [".js", ".jsx", ".mjs", ".cjs"] then "javascript"
  else if suffix ∈ [".ts", ".mts", ".cts"] then "typescript"
  else if suffix = ".tsx" then "tsx"
  else "generic"

namespace Engine

variable (E : Engine)

/-- What the assembly takes of texts. -/
def texts : Texts where
  casefold := E.casefold
  hexdigest text := E.sha256 (Utf8.encodeText text.toList)

/-- `_graph_digest` -/
def digest (graph : ProjectGraph) : String := E.sha256 (E.payload graph)

/-- `_allows` -/
def allows (path : String) : Bool :=
  let name := E.casefold (name path)
  let suffix := E.casefold (suffix path)
  validateRelativePath path.toList &&
    ((parts path).map E.casefold).all (fun part => part ∉ blockedParts) &&
    !startsWith name ".env" &&
    ["credential", "secret", "private_key"].all (fun word => ¬ word.toList <:+: name.toList) &&
    [".lock", "-lock.json"].all (fun tail => !endsWith name tail) &&
    (sourceExtensions.contains suffix || documentExtensions.contains suffix ||
      configExtensions.contains suffix || configNames.contains name)

/-- `_read_source`, of what opening the file comes to. -/
def readSource (path : String) (file : Reading) : Except RefreshError (Option (List UInt8)) := do
  checkRelativePath path
  let content ← file
  return if E.maxFileBytes < content.length ∨ 0 ∈ content then none else some content

/-- What is found in a file of a repository, where it can be read. -/
def content (path : String) (file : Reading) : Option (List UInt8) :=
  (E.readSource path file).toOption.join

/-- `_discover` -/
def discover (w : Worktree R) : FileHashes :=
  FileHashes.collect w.candidates fun path =>
    if E.allows path then (E.content path (w.read path)).map E.sha256 else none

/-- The allowed paths that the status names. -/
def dirtyPaths (w : Worktree R) : List String :=
  (w.changedPaths.filter E.allows).insertionSort (· ≤ ·)

/-- `_load_state` -/
def loadState (s : Stored) : Option GraphManifest × Option ProjectGraph :=
  match s.manifest, s.graph with
  | some manifest, some graph =>
    if manifest.schemaVersion = schemaVersion ∧ graph.schemaVersion = schemaVersion ∧
        manifest.parserVersion = E.parserVersion ∧ graph.parserVersion = E.parserVersion ∧
        manifest.graphSha256 = E.digest graph then (some manifest, some graph)
    else (none, none)
  | _, _ => (none, none)

/-! ## Parsing -/

/-- What is parsed of a text. -/
def extracted (kind hash : String) (lines : Nat) (x : Extraction) : ParsedSource where
  parserVersion := E.parserVersion
  parserKind := kind
  contentHash := hash
  lineCount := lines
  syntaxError := x.syntaxError
  extractionTruncated := !x.diagnostics.isEmpty
  diagnostics := x.diagnostics
  symbols := x.symbols
  imports := x.imports
  moduleCalls := x.moduleCalls

/-- The parse of a content. -/
def parsed (kind hash : String) (content : List UInt8) : ParsedSource :=
  match Utf8.decode content with
  | none => E.extracted kind hash 1 { syntaxError := true }
  | some text =>
    if scriptParsers.contains kind then
      E.extracted kind hash (content.count 10 + 1) (E.script kind content)
    else if kind ≠ "python" then E.extracted kind hash (lineCount text) {}
    else E.extracted kind hash (lineCount text) ((E.python text).getD { syntaxError := true })

/-- `_parse` -/
def parse (w : Worktree R) (path hash kind : String) : Except RefreshError ParsedSource :=
  match E.readSource path (w.again path) with
  | .error e => .error e
  | .ok none =>
    .error (.os s!"Repository file became unavailable while parsing: {path}")
  | .ok (some content) =>
    if E.sha256 content ≠ hash then
      .error (.conflict "Repository source changed during graph parsing; refresh again")
    else .ok (E.parsed kind hash content)

/-- `_read_cache` -/
def readCache (s : Stored) (hash kind : String) : Option ParsedSource :=
  (s.cache (kind, hash)).filter fun p =>
    p.parserVersion = E.parserVersion ∧ p.parserKind = kind ∧ p.contentHash = hash

/-- `_write_cache` -/
def writeCache (p : ParsedSource) (s : Stored) : Stored :=
  { s with cache := Function.update s.cache (p.parserKind, p.contentHash) (some p) }

/-- The parse of a file, and whether it was kept. -/
def source (w : Worktree R) (file : String × String) :
    Prog Stored RefreshError (ParsedSource × Bool) := do
  let kind := E.parserKind file.1
  match ← Prog.read fun s => E.readCache s file.2 kind with
  | some p => return (p, true)
  | none =>
    let p ← Prog.lift (E.parse w file.1 file.2 kind)
    Prog.write (writeCache p)
    return (p, false)

/-! ## A refresh -/

/-- The stored graph, where neither the commit nor the working tree calls for a look at the
files. -/
def current (w : Worktree R) (force : Bool) :
    Option GraphManifest × Option ProjectGraph → Option (GraphManifest × ProjectGraph)
  | (some manifest, some graph) =>
    if force = false ∧ manifest.indexedCommit = some w.head ∧ manifest.indexedBranch = w.branch ∧
        manifest.dirtyPaths = [] ∧ E.dirtyPaths w = [] then some (manifest, graph)
    else none
  | _ => none

/-- A stored graph that is returned as it is. -/
def unchanged (graph : ProjectGraph) (manifest : GraphManifest) : GraphRefreshResult where
  graph
  manifest
  metrics := ⟨0, 0, 0, 0, manifest.fileHashes.entries.length, []⟩

/-- A manifest of another commit or branch, or of other changed paths, with the same files. -/
def restated (w : Worktree R) (later : Time) (manifest : GraphManifest) : GraphManifest :=
  { manifest with
    indexedCommit := some w.head
    indexedHead := some w.head
    indexedBranch := w.branch
    dirtyPaths := E.dirtyPaths w
    lastIndexedAt := later }

/-- The stored graph again, where the files have the hashes of its manifest. -/
def reuse (w : Worktree R) (later : Time) :
    Option GraphManifest × Option ProjectGraph → Prog Stored RefreshError GraphRefreshResult
  | (some manifest, some graph) =>
    if manifest.indexedCommit ≠ some w.head ∨ manifest.indexedBranch ≠ w.branch ∨
        manifest.dirtyPaths ≠ E.dirtyPaths w then do
      Prog.write fun s => { s with manifest := some (E.restated w later manifest) }
      return unchanged graph (E.restated w later manifest)
    else return unchanged graph manifest
  | _ => Prog.fail (.runtime "Graph state disappeared while refreshing")

end Engine

theorem paths_zipWith (files : List (String × String)) (parsed : List ParsedSource) :
    (List.zipWith (fun file p => SourceFile.mk file.1 file.2 p) files parsed).map SourceFile.path =
      (files.map Prod.fst).take parsed.length := by
  induction files generalizing parsed with
  | nil => simp
  | cons file files ih =>
    cases parsed with
    | nil => rfl
    | cons p parsed =>
      rw [List.zipWith_cons_cons, List.map_cons, ih parsed]
      rfl

/-- The files with what is parsed of them, in turn. -/
def sourcesOf (hashes : FileHashes) (parsed : List ParsedSource) : Sources where
  files := List.zipWith (fun file p => ⟨file.1, file.2, p⟩) hashes.entries parsed
  sorted := by
    rw [paths_zipWith]
    exact hashes.sorted.pairwise.sublist (List.take_sublist _ _)

/-- What differs from the files of a manifest. -/
structure Differences where
  full : Bool
  changed : List String
  deleted : List String

namespace Engine

variable (E : Engine)

/-- Whether a manifest is of other versions. -/
def incompatible (manifest : Option GraphManifest) : Bool :=
  manifest.any fun m => m.schemaVersion ≠ schemaVersion ∨ m.parserVersion ≠ E.parserVersion

/-- What differs between files and those of a manifest. -/
def differences (force : Bool) (manifest : Option GraphManifest) (graph : Option ProjectGraph)
    (hashes : FileHashes) : Differences :=
  let previous := manifest.elim FileHashes.empty GraphManifest.fileHashes
  { full := force || manifest.isNone || graph.isNone || E.incompatible manifest
    changed := hashes.paths.filter fun path => previous.get? path ≠ hashes.get? path
    deleted := previous.paths.filter fun path => hashes.get? path = none }

/-- The metrics of a new graph, of which files' parses were kept. -/
def measured (d : Differences) (hashes : FileHashes) (hits : List Bool) : GraphRefreshMetrics :=
  let requested := if d.full then hashes.paths else d.changed
  let missed := ((hashes.paths.zip hits).filter fun x => x.2 = false).map Prod.fst
  let processed := requested ++ missed.filter (· ∉ requested)
  { processedFiles := processed.length
    cacheHits := hits.count true
    cacheMisses := hits.count false
    deletedFiles := d.deleted.length
    totalFiles := hashes.entries.length
    changedPaths := (processed ++ d.deleted).insertionSort (· ≤ ·) }

/-- The manifest of a new graph. -/
def published (w : Worktree R) (hashes : FileHashes) (later : Time) (graph : ProjectGraph) :
    GraphManifest where
  schemaVersion := schemaVersion
  parserVersion := E.parserVersion
  indexedCommit := some w.head
  indexedHead := some w.head
  indexedBranch := w.branch
  dirtyPaths := E.dirtyPaths w
  fileHashes := hashes
  graphSha256 := E.digest graph
  lastIndexedAt := later

/-- A new graph: every file is parsed, unless its parse is kept, and the graph is stored before its
manifest. -/
def rebuild (w : Worktree R) (d : Differences) (hashes : FileHashes) (now later : Time) :
    Prog Stored RefreshError GraphRefreshResult := do
  let results ← hashes.entries.mapM (E.source w)
  let graph := assemble E.texts E.parserVersion now (sourcesOf hashes (results.map Prod.fst))
  let manifest := E.published w hashes later graph
  Prog.write fun s => { s with graph := some graph }
  Prog.write fun s => { s with manifest := some manifest }
  return ⟨graph, manifest, measured d hashes (results.map Prod.snd)⟩

/-- `_refresh_locked` -/
def refreshLocked (w : Worktree R) (force : Bool) (now later : Time) :
    Prog Stored RefreshError GraphRefreshResult := do
  let previous ← Prog.read E.loadState
  match E.current w force previous with
  | some (manifest, graph) => return unchanged graph manifest
  | none =>
    let hashes := E.discover w
    let d := E.differences force previous.1 previous.2 hashes
    if d.full = false ∧ d.changed = [] ∧ d.deleted = [] then E.reuse w later previous
    else E.rebuild w d hashes now later

end Engine

/-! ## Histories -/

/-- One refresh: what it sees, whether it rebuilds, and what the clock reads when it makes the
graph and the manifest. -/
structure Refresh (R : Repository) where
  worktree : Worktree R
  force : Bool
  now : Time
  later : Time

/-- A refresh as a program. -/
def Engine.refresh (E : Engine) (x : Refresh R) : Prog Stored RefreshError GraphRefreshResult :=
  E.refreshLocked x.worktree x.force x.now x.later

/-- Stored files get lost, or can no longer be read. -/
structure Lost (s t : Stored) : Prop where
  manifest : t.manifest = none ∨ t.manifest = s.manifest
  graph : t.graph = none ∨ t.graph = s.graph
  cache : ∀ k, t.cache k = none ∨ t.cache k = s.cache k

/-- What refreshes leave, the last one first: each is finished or stopped at any point, and files
get lost in between. -/
inductive LeftBy (E : Engine) : List (Refresh R) → Stored → Prop
  | start : LeftBy E [] {}
  | refresh {past s t} (x : Refresh R) : LeftBy E past s →
      t = ((E.refresh x).run s).disk ∨ t ∈ ((E.refresh x).run s).stops → LeftBy E (x :: past) t
  | lost {past s t} : LeftBy E past s → Lost s t → LeftBy E past t

namespace Engine

variable (E : Engine)

/-- The parse of a file that is read once. -/
def parsedOf (w : Worktree R) (file : String × String) : ParsedSource :=
  E.parsed (E.parserKind file.1) file.2 ((E.content file.1 (w.read file.1)).getD [])

/-- The graph of the files of a working tree. -/
def graphOf (w : Worktree R) (now : Time) : ProjectGraph :=
  assemble E.texts E.parserVersion now
    (sourcesOf (E.discover w) ((E.discover w).entries.map (E.parsedOf w)))

/-- The files of a clean working tree at a commit. -/
def committedHashes (R : Repository) (head : String) : FileHashes :=
  FileHashes.collect (R.tracked head) fun path =>
    if E.allows path then (E.content path (R.committed head path)).map E.sha256 else none

/-- No two contents, and no two graphs, of some refreshes have one digest. -/
structure CollisionFree (hist : List (Refresh R)) : Prop where
  contents : ∀ x ∈ hist, ∀ y ∈ hist, ∀ c ∈ x.worktree.contents, ∀ d ∈ y.worktree.contents,
    E.sha256 c = E.sha256 d → c = d
  graphs : ∀ x ∈ hist, ∀ y ∈ hist,
    E.digest (E.graphOf x.worktree x.now) = E.digest (E.graphOf y.worktree y.now) →
      E.graphOf x.worktree x.now = E.graphOf y.worktree y.now

/-- What is stored was made by some of the refreshes: each parse from a content that was read, the
graph by a refresh, and the manifest by one whose graph and files it describes. A manifest without
changed paths has the files of its commit. -/
structure Consistent (hist : List (Refresh R)) (s : Stored) : Prop where
  cache : ∀ kind hash p, s.cache (kind, hash) = some p → ∃ x ∈ hist, ∃ c ∈ x.worktree.contents,
    E.sha256 c = hash ∧ p = E.parsed kind hash c
  graph : ∀ g, s.graph = some g → ∃ x ∈ hist, g = E.graphOf x.worktree x.now
  manifest : ∀ m, s.manifest = some m → ∃ x ∈ hist,
    m.graphSha256 = E.digest (E.graphOf x.worktree x.now) ∧ m.fileHashes = E.discover x.worktree
  clean : ∀ m, s.manifest = some m → m.dirtyPaths = [] → ∀ head, m.indexedCommit = some head →
    m.fileHashes = E.committedHashes R head

variable {E} {past hist : List (Refresh R)} {x y : Refresh R} {s t : Stored}

/-! ## Files -/

theorem content_eq_some {path : String} {file : Reading} {c : List UInt8} :
    E.content path file = some c ↔ E.readSource path file = .ok (some c) := by
  unfold content
  cases h : E.readSource path file with
  | error e => simp [Except.toOption]
  | ok o => simp [Except.toOption]

/-- What is found in a file is what reading it comes to. -/
theorem readSource_eq_ok {path : String} {file : Reading} {c : List UInt8}
    (h : E.readSource path file = .ok (some c)) : file = .ok c := by
  unfold readSource at h
  obtain ⟨-, -, h⟩ := Outcome.bind_eq_ok.mp h
  obtain ⟨content, hfile, h⟩ := Outcome.bind_eq_ok.mp h
  split_ifs at h with hlarge
  · cases h
  · cases h
    exact hfile

theorem mem_contents {w : Worktree R} {path : String} {c : List UInt8} (hpath : path ∈ w.candidates)
    (h : w.read path = .ok c ∨ w.again path = .ok c) : c ∈ w.contents := by
  refine List.mem_flatMap.mpr ⟨path, hpath, ?_⟩
  rcases h with h | h <;> simp [h, Except.toOption]

/-- A file that is found has a content, and the digest of it. -/
theorem mem_discover {w : Worktree R} {file : String × String}
    (h : file ∈ (E.discover w).entries) : file.1 ∈ w.candidates ∧
      ∃ c, E.content file.1 (w.read file.1) = some c ∧ c ∈ w.contents ∧ E.sha256 c = file.2 := by
  have hget : (E.discover w).get? file.1 = some file.2 := FileHashes.get?_eq_some.mpr h
  unfold discover at hget
  rw [FileHashes.get?_collect] at hget
  split_ifs at hget with hpath hallows
  obtain ⟨c, hc, hdigest⟩ := Option.map_eq_some_iff.mp hget
  have hread := readSource_eq_ok (content_eq_some.mp hc)
  exact ⟨hpath, c, hc, mem_contents hpath (.inl hread), hdigest⟩

/-- A clean working tree has the files of its commit. -/
theorem discover_of_clean {w : Worktree R} (h : E.dirtyPaths w = []) :
    E.discover w = E.committedHashes R w.head := by
  refine FileHashes.eq_of_get? fun path => ?_
  unfold discover committedHashes
  rw [FileHashes.get?_collect, FileHashes.get?_collect]
  have hclean : path ∈ w.changedPaths → E.allows path = false := by
    intro hmem
    by_contra hallows
    have hdirty : path ∈ E.dirtyPaths w := by
      unfold dirtyPaths
      rw [List.mem_insertionSort]
      exact List.mem_filter.mpr ⟨hmem, by simpa using hallows⟩
    rw [h] at hdirty
    cases hdirty
  by_cases hchanged : path ∈ w.changedPaths
  · simp [hclean hchanged]
  · by_cases htracked : path ∈ R.tracked w.head
    · have hcandidate : path ∈ w.candidates := List.mem_append_left _ htracked
      rw [if_pos hcandidate, if_pos htracked, w.faithful path htracked hchanged]
    · rw [if_neg htracked, if_neg]
      exact fun hmem => (List.mem_append.mp hmem).elim htracked hchanged

/-- The graph of a working tree rests on the paths and the digests of its files alone. -/
theorem graphOf_congr (hfree : E.CollisionFree hist) (hx : x ∈ hist) (hy : y ∈ hist)
    (h : E.discover x.worktree = E.discover y.worktree) (now : Time) :
    E.graphOf x.worktree now = E.graphOf y.worktree now := by
  have hparsed : (E.discover y.worktree).entries.map (E.parsedOf x.worktree) =
      (E.discover y.worktree).entries.map (E.parsedOf y.worktree) := by
    refine List.map_congr_left fun file hfile => ?_
    obtain ⟨-, d, hd, hmem', hdigest'⟩ := mem_discover hfile
    rw [← h] at hfile
    obtain ⟨-, c, hc, hmem, hdigest⟩ := mem_discover hfile
    have hsame : c = d := hfree.contents x hx y hy c hmem d hmem' (hdigest.trans hdigest'.symm)
    unfold parsedOf
    rw [hc, hd, hsame]
  unfold graphOf
  rw [h, hparsed]

/-! ## Parsing -/

/-- A parse that is kept is the parse of the file. -/
theorem readCache_eq (hfree : E.CollisionFree hist) (hx : x ∈ hist) (h : E.Consistent hist s)
    {file : String × String} (hfile : file ∈ (E.discover x.worktree).entries) {p : ParsedSource}
    (hp : E.readCache s file.2 (E.parserKind file.1) = some p) :
    p = E.parsedOf x.worktree file := by
  obtain ⟨hp, -⟩ := Option.filter_eq_some_iff.mp hp
  obtain ⟨y, hy, d, hmem', hdigest', rfl⟩ := h.cache _ _ p hp
  obtain ⟨-, c, hc, hmem, hdigest⟩ := mem_discover hfile
  have hsame : d = c := hfree.contents y hy x hx d hmem' c hmem (hdigest'.trans hdigest.symm)
  unfold parsedOf
  rw [hc, hsame]
  rfl

/-- A parse that is made is the parse of the file, and of a content that was read. -/
theorem parse_eq (hfree : E.CollisionFree hist) (hx : x ∈ hist) {file : String × String}
    (hfile : file ∈ (E.discover x.worktree).entries) {p : ParsedSource}
    (hp : E.parse x.worktree file.1 file.2 (E.parserKind file.1) = .ok p) :
    p = E.parsedOf x.worktree file ∧ ∃ c ∈ x.worktree.contents, E.sha256 c = file.2 ∧
      p = E.parsed (E.parserKind file.1) file.2 c := by
  obtain ⟨hpath, c, hc, hmem, hdigest⟩ := mem_discover hfile
  unfold parse at hp
  cases hread : E.readSource file.1 (x.worktree.again file.1) with
  | error e =>
    rw [hread] at hp
    cases hp
  | ok o =>
    rw [hread] at hp
    cases o with
    | none => cases hp
    | some d =>
      dsimp only at hp
      split_ifs at hp with hsame
      have hagain := mem_contents hpath (.inr (readSource_eq_ok hread))
      have heq : d = c := hfree.contents x hx x hx d hagain c hmem
        ((not_not.mp hsame).trans hdigest.symm)
      cases hp
      refine ⟨?_, d, hagain, not_not.mp hsame, rfl⟩
      unfold parsedOf
      rw [hc, heq]
      rfl

/-- A file that stands still can be parsed. -/
theorem parse_still {w : Worktree R} (hstill : w.again = w.read) {file : String × String}
    (hfile : file ∈ (E.discover w).entries) (kind : String) :
    ∃ p, E.parse w file.1 file.2 kind = .ok p := by
  obtain ⟨-, c, hc, -, hdigest⟩ := mem_discover hfile
  unfold parse
  rw [hstill, content_eq_some.mp hc]
  exact ⟨_, if_neg (not_not.mpr hdigest)⟩

/-! ## Storing -/

theorem Consistent.mono (h : E.Consistent past s) (hsub : past ⊆ hist) : E.Consistent hist s where
  cache kind hash p hp := by
    obtain ⟨x, hx, hrest⟩ := h.cache kind hash p hp
    exact ⟨x, hsub hx, hrest⟩
  graph g hg := by
    obtain ⟨x, hx, hrest⟩ := h.graph g hg
    exact ⟨x, hsub hx, hrest⟩
  manifest m hm := by
    obtain ⟨x, hx, hrest⟩ := h.manifest m hm
    exact ⟨x, hsub hx, hrest⟩
  clean := h.clean

theorem Consistent.lost (h : E.Consistent past s) (hlost : Lost s t) : E.Consistent past t where
  cache kind hash p hp := by
    rcases hlost.cache (kind, hash) with hnone | hsame
    · rw [hnone] at hp
      cases hp
    · exact h.cache kind hash p (hsame.symm.trans hp)
  graph g hg := by
    rcases hlost.graph with hnone | hsame
    · rw [hnone] at hg
      cases hg
    · exact h.graph g (hsame.symm.trans hg)
  manifest m hm := by
    rcases hlost.manifest with hnone | hsame
    · rw [hnone] at hm
      cases hm
    · exact h.manifest m (hsame.symm.trans hm)
  clean m hm := by
    rcases hlost.manifest with hnone | hsame
    · rw [hnone] at hm
      cases hm
    · exact h.clean m (hsame.symm.trans hm)

theorem Consistent.writeCache (h : E.Consistent hist s) (hx : x ∈ hist) {p : ParsedSource}
    {c : List UInt8} (hmem : c ∈ x.worktree.contents)
    (hp : p = E.parsed p.parserKind p.contentHash c) (hdigest : E.sha256 c = p.contentHash) :
    E.Consistent hist (writeCache p s) where
  cache kind hash q hq := by
    by_cases hkey : (kind, hash) = (p.parserKind, p.contentHash)
    · cases hkey
      have hput : (Engine.writeCache p s).cache (p.parserKind, p.contentHash) = some p :=
        Function.update_self _ _ _
      cases hput.symm.trans hq
      exact ⟨x, hx, c, hmem, hdigest, hp⟩
    · have hput : (Engine.writeCache p s).cache (kind, hash) = s.cache (kind, hash) :=
        Function.update_of_ne hkey _ _
      exact h.cache kind hash q (hput.symm.trans hq)
  graph := h.graph
  manifest := h.manifest
  clean := h.clean

theorem parsed_eq (kind hash : String) (c : List UInt8) :
    ∃ lines x, E.parsed kind hash c = E.extracted kind hash lines x := by
  unfold parsed
  cases Utf8.decode c with
  | none => exact ⟨_, _, rfl⟩
  | some text =>
    dsimp only
    split_ifs <;> exact ⟨_, _, rfl⟩

@[simp] theorem parserKind_parsed (kind hash : String) (c : List UInt8) :
    (E.parsed kind hash c).parserKind = kind := by
  obtain ⟨lines, x, h⟩ := parsed_eq (E := E) kind hash c
  rw [h]
  rfl

@[simp] theorem contentHash_parsed (kind hash : String) (c : List UInt8) :
    (E.parsed kind hash c).contentHash = hash := by
  obtain ⟨lines, x, h⟩ := parsed_eq (E := E) kind hash c
  rw [h]
  rfl

/-- Each file gets its parse, whether it is kept or not. -/
theorem source_meets (hfree : E.CollisionFree hist) (hx : x ∈ hist) (h : E.Consistent hist s)
    {file : String × String} (hfile : file ∈ (E.discover x.worktree).entries) :
    Meets (E.source x.worktree file) s (E.Consistent hist) fun v t => E.Consistent hist t ∧
      (∀ r, v = .ok r → r.1 = E.parsedOf x.worktree file) ∧
        (x.worktree.again = x.worktree.read → ∀ e, v ≠ .error e) := by
  unfold source
  refine meets_bind (meets_read ?_)
  dsimp only
  cases hcache : E.readCache s file.2 (E.parserKind file.1) with
  | some p =>
    refine meets_pure ⟨h, ?_, by simp⟩
    rintro r hr
    cases hr
    exact readCache_eq hfree hx h hfile hcache
  | none =>
    refine meets_bind (meets_lift ?_)
    cases hparse : E.parse x.worktree file.1 file.2 (E.parserKind file.1) with
    | error e =>
      refine ⟨h, by simp, fun hstill => ?_⟩
      obtain ⟨p, hp⟩ := parse_still hstill hfile (E.parserKind file.1)
      rw [hp] at hparse
      cases hparse
    | ok p =>
      obtain ⟨hsame, c, hmem, hdigest, hp⟩ := parse_eq hfree hx hfile hparse
      have hwritten : E.Consistent hist (writeCache p s) := by
        refine h.writeCache hx hmem ?_ ?_
        · rw [hp]
          simp
        · rw [hp, contentHash_parsed]
          exact hdigest
      refine meets_bind (meets_write hwritten (meets_pure ⟨hwritten, ?_, by simp⟩))
      rintro r hr
      cases hr
      exact hsame

theorem eq_of_results {w : Worktree R} {files : List (String × String)}
    {results : List (ParsedSource × Bool)}
    (h : List.Forall₂ (fun file r => r.1 = E.parsedOf w file) files results) :
    results.map Prod.fst = files.map (E.parsedOf w) := by
  induction h with
  | nil => rfl
  | cons hfirst _ ih => rw [List.map_cons, List.map_cons, hfirst, ih]

/-! ## Refreshes -/

/-- A result that is that of the files of a working tree, and is what a load returns. -/
structure Exact (E : Engine) (w : Worktree R) (t : Stored) (ans : GraphRefreshResult) : Prop where
  graph : ∀ now, ans.graph.dated now = E.graphOf w now
  fileHashes : ans.manifest.fileHashes = E.discover w
  load : E.loadState t = (some ans.manifest, some ans.graph)

theorem loadState_cases (s : Stored) : E.loadState s = (none, none) ∨
    ∃ m g, E.loadState s = (some m, some g) ∧ s.manifest = some m ∧ s.graph = some g ∧
      m.graphSha256 = E.digest g := by
  unfold loadState
  cases hm : s.manifest with
  | none => exact .inl rfl
  | some m =>
    cases hg : s.graph with
    | none => exact .inl rfl
    | some g =>
      dsimp only
      split_ifs with hcurrent
      · exact .inr ⟨m, g, rfl, rfl, rfl, hcurrent.2.2.2.2⟩
      · exact .inl rfl

/-- A stored graph whose manifest has the files of a working tree is the graph of them. -/
theorem graph_of_load (hfree : E.CollisionFree hist) (hx : x ∈ hist) (h : E.Consistent hist s)
    {m : GraphManifest} {g : ProjectGraph} (hload : E.loadState s = (some m, some g))
    (hfiles : m.fileHashes = E.discover x.worktree) (now : Time) :
    g.dated now = E.graphOf x.worktree now := by
  rcases E.loadState_cases s with hnone | ⟨m', g', hsome, hm, hg, hdigest⟩
  · rw [hnone] at hload
    cases hload
  · rw [hsome] at hload
    cases hload
    obtain ⟨y, hy, rfl⟩ := h.graph g hg
    obtain ⟨z, hz, hsha, hdiscover⟩ := h.manifest m hm
    have hsame := hfree.graphs y hy z hz (hdigest.symm.trans hsha)
    have hgraph := graphOf_congr hfree hz hx (hdiscover.symm.trans hfiles) now
    calc (E.graphOf y.worktree y.now).dated now = (E.graphOf z.worktree z.now).dated now := by
          rw [hsame]
      _ = E.graphOf z.worktree now := rfl
      _ = E.graphOf x.worktree now := hgraph

/-- The shortest way: a clean working tree at the commit of a clean manifest. -/
theorem exact_of_current (hfree : E.CollisionFree hist) (hx : x ∈ hist) (h : E.Consistent hist s)
    {force : Bool} {m : GraphManifest} {g : ProjectGraph}
    (hcurrent : E.current x.worktree force (E.loadState s) = some (m, g)) :
    Exact E x.worktree s (unchanged g m) := by
  rcases E.loadState_cases s with hnone | ⟨m', g', hload, hm, hg, -⟩
  · rw [hnone] at hcurrent
    cases hcurrent
  · rw [hload] at hcurrent
    simp only [current] at hcurrent
    split_ifs at hcurrent with hclean
    obtain ⟨-, hcommit, -, hdirty, hnow⟩ := hclean
    cases hcurrent
    have hfiles : m.fileHashes = E.discover x.worktree :=
      (h.clean m hm hdirty _ hcommit).trans (discover_of_clean hnow).symm
    exact ⟨graph_of_load hfree hx h hload hfiles, hfiles, hload⟩

/-- Nothing changed and nothing deleted: the files are those of the manifest. -/
theorem files_of_differences {force : Bool} {m : GraphManifest} {g : Option ProjectGraph}
    {hashes : FileHashes} (hchanged : (E.differences force (some m) g hashes).changed = [])
    (hdeleted : (E.differences force (some m) g hashes).deleted = []) : m.fileHashes = hashes := by
  refine FileHashes.eq_of_get? fun path => ?_
  have hkept : path ∈ hashes.paths → m.fileHashes.get? path = hashes.get? path := by
    intro hmem
    have hnot := List.filter_eq_nil_iff.mp hchanged path hmem
    exact not_not.mp fun hne => hnot (decide_eq_true hne)
  have hgone : path ∈ m.fileHashes.paths → hashes.get? path ≠ none := by
    intro hmem
    simpa using List.filter_eq_nil_iff.mp hdeleted path hmem
  have hpaths : ∀ k : FileHashes, k.get? path ≠ none → path ∈ k.paths := by
    intro k hk
    obtain ⟨v, hv⟩ := Option.ne_none_iff_exists'.mp hk
    exact List.mem_map_of_mem (FileHashes.get?_eq_some.mp hv)
  by_cases hnone : hashes.get? path = none
  · by_contra hne
    exact hgone (hpaths _ fun h => hne (h.trans hnone.symm)) hnone
  · exact hkept (hpaths _ hnone)

/-- The second way: files with the hashes of the manifest. -/
theorem reuse_meets (hfree : E.CollisionFree hist) (hx : x ∈ hist) (h : E.Consistent hist s)
    {m : GraphManifest} {g : ProjectGraph} (hload : E.loadState s = (some m, some g))
    (hfiles : m.fileHashes = E.discover x.worktree) (later : Time) :
    Meets (E.reuse x.worktree later (some m, some g)) s (E.Consistent hist) fun v t =>
      E.Consistent hist t ∧ ∃ ans, v = .ok ans ∧ Exact E x.worktree t ans := by
  have hgraph := graph_of_load hfree hx h hload hfiles
  unfold reuse
  dsimp only
  split_ifs with hrestated
  · rcases E.loadState_cases s with hnone | ⟨m', g', hsome, hm, hg, hdigest⟩
    · rw [hnone] at hload
      cases hload
    · cases hsome.symm.trans hload
      have hwritten : E.Consistent hist
          { s with manifest := some (E.restated x.worktree later m) } := by
        refine ⟨h.cache, h.graph, ?_, ?_⟩
        · rintro m' hm'
          cases hm'
          exact h.manifest m hm
        · rintro m' hm' hclean head hhead
          cases hm'
          cases hhead
          exact hfiles.trans (discover_of_clean hclean)
      refine meets_bind (meets_write hwritten (meets_pure ⟨hwritten, _, rfl, hgraph, hfiles, ?_⟩))
      unfold loadState at hload ⊢
      rw [hm, hg] at hload
      rw [hg]
      dsimp only at hload ⊢
      split_ifs at hload with hcurrent
      · exact if_pos hcurrent
      · cases hload
  · exact meets_pure ⟨h, _, rfl, hgraph, hfiles, hload⟩

/-- The long way: every file is parsed, and the graph is stored before its manifest. -/
theorem rebuild_meets (hfree : E.CollisionFree hist) (hx : x ∈ hist) (h : E.Consistent hist s)
    (d : Differences) (later : Time) :
    Meets (E.rebuild x.worktree d (E.discover x.worktree) x.now later) s (E.Consistent hist)
      fun v t => E.Consistent hist t ∧ (∀ ans, v = .ok ans → Exact E x.worktree t ans) ∧
        (x.worktree.again = x.worktree.read → ∃ ans, v = .ok ans) := by
  unfold rebuild
  refine meets_bind ((meets_mapM_each h fun file hfile t ht =>
    source_meets hfree hx ht hfile).mono (fun _ ht => ht) ?_)
  intro v t ht
  obtain ⟨ht, hall, herror⟩ := ht
  cases v with
  | error e =>
    refine ⟨ht, by simp, fun hstill => ?_⟩
    obtain ⟨file, -, -, hnot⟩ := herror e rfl
    exact absurd rfl (hnot hstill e)
  | ok results =>
    have hresults := eq_of_results ((hall results rfl).imp fun _ _ hr => hr.1 _ rfl)
    dsimp only
    rw [hresults]
    set graph := E.graphOf x.worktree x.now with hgraph
    have hstored : E.Consistent hist { t with graph := some graph } := by
      refine ⟨ht.cache, ?_, ht.manifest, ht.clean⟩
      rintro g hg
      cases hg
      exact ⟨x, hx, rfl⟩
    have hpublished : E.Consistent hist
        { t with
          graph := some graph
          manifest := some (E.published x.worktree (E.discover x.worktree) later graph) } := by
      refine ⟨ht.cache, hstored.graph, ?_, ?_⟩
      · rintro m hm
        cases hm
        exact ⟨x, hx, rfl, rfl⟩
      · rintro m hm hclean head hhead
        cases hm
        cases hhead
        exact discover_of_clean hclean
    refine meets_bind (meets_write hstored (meets_bind (meets_write hpublished
      (meets_pure ⟨hpublished, ?_, fun _ => ⟨_, rfl⟩⟩))))
    rintro ans hans
    cases hans
    refine ⟨fun _ => rfl, rfl, ?_⟩
    unfold loadState
    exact if_pos ⟨rfl, rfl, rfl, rfl, rfl⟩

/-- A refresh, whichever way it takes. -/
theorem refresh_meets (hfree : E.CollisionFree hist) (hx : x ∈ hist) (h : E.Consistent hist s) :
    Meets (E.refresh x) s (E.Consistent hist) fun v t => E.Consistent hist t ∧
      (∀ ans, v = .ok ans → Exact E x.worktree t ans) ∧
        (x.worktree.again = x.worktree.read → ∃ ans, v = .ok ans) := by
  unfold refresh refreshLocked
  refine meets_bind (meets_read ?_)
  dsimp only
  cases hcurrent : E.current x.worktree x.force (E.loadState s) with
  | some found =>
    refine meets_pure ⟨h, ?_, fun _ => ⟨_, rfl⟩⟩
    rintro ans hans
    cases hans
    exact exact_of_current hfree hx h hcurrent
  | none =>
    dsimp only
    split_ifs with hunchanged
    · obtain ⟨hfull, hchanged, hdeleted⟩ := hunchanged
      rcases E.loadState_cases s with hnone | ⟨m, g, hload, -⟩
      · rw [hnone] at hfull
        simp [differences] at hfull
      · rw [hload] at hchanged hdeleted ⊢
        refine (reuse_meets hfree hx h hload (files_of_differences hchanged hdeleted)
          x.later).mono (fun _ ht => ht) ?_
        rintro v t ⟨ht, ans, rfl, hexact⟩
        refine ⟨ht, ?_, fun _ => ⟨ans, rfl⟩⟩
        rintro ans' hans
        cases hans
        exact hexact
    · exact rebuild_meets hfree hx h _ x.later

end Engine

/-! ## Whole histories -/

theorem Engine.CollisionFree.tail {E : Engine} {past : List (Refresh R)} {x : Refresh R}
    (h : E.CollisionFree (x :: past)) : E.CollisionFree past where
  contents y hy z hz := h.contents y (List.mem_cons_of_mem x hy) z (List.mem_cons_of_mem x hz)
  graphs y hy z hz := h.graphs y (List.mem_cons_of_mem x hy) z (List.mem_cons_of_mem x hz)

/-- A repository that stands still has no more contents. -/
theorem Engine.CollisionFree.still {E : Engine} {hist : List (Refresh R)} {x y : Refresh R}
    (h : E.CollisionFree hist) (hx : x ∈ hist) (hy : y.worktree = x.worktree.still) :
    E.CollisionFree [y] := by
  have hcontents : ∀ c ∈ y.worktree.contents, c ∈ x.worktree.contents := by
    intro c hc
    rw [hy] at hc
    obtain ⟨path, hpath, hmem⟩ := List.mem_flatMap.mp hc
    obtain ⟨reading, hreading, hok⟩ := List.mem_filterMap.mp hmem
    refine List.mem_flatMap.mpr ⟨path, hpath, List.mem_filterMap.mpr ⟨reading, ?_, hok⟩⟩
    rcases List.mem_pair.mp hreading with rfl | rfl <;> exact List.mem_cons_self
  refine ⟨?_, ?_⟩
  · intro a ha b hb c hc d hd
    cases List.mem_singleton.mp ha
    cases List.mem_singleton.mp hb
    exact h.contents x hx x hx c (hcontents c hc) d (hcontents d hd)
  · intro a ha b hb _
    cases List.mem_singleton.mp ha
    cases List.mem_singleton.mp hb
    rfl

/-- Whatever refreshes left, finished or stopped, was made by them. -/
theorem LeftBy.consistent {E : Engine} {past : List (Refresh R)} {s : Stored}
    (h : LeftBy E past s) (hfree : E.CollisionFree past) : E.Consistent past s := by
  induction h with
  | start => exact ⟨by simp, by simp, by simp, by simp⟩
  | @refresh past s t x _ hend ih =>
    have hbefore : E.Consistent (x :: past) s := (ih hfree.tail).mono (List.subset_cons_self x past)
    obtain ⟨hstops, hdone, -⟩ := Engine.refresh_meets hfree List.mem_cons_self hbefore
    rcases hend with rfl | hstop
    · exact hdone
    · exact hstops t hstop
  | lost _ hlost ih => exact (ih hfree).lost hlost

/-- A refresh returns what one with nothing stored returns for the same files. Whatever refreshes
came before, finished or stopped, and whatever they stored was lost since: if the refresh returns,
so does a fresh one of the repository standing still, with the same graph but for the time it was
made, and the same hashes; and what is stored then loads as the graph and the manifest that were
returned. A refresh of a repository that stands still returns. -/
theorem refresh_exact {E : Engine} {past : List (Refresh R)} {s : Stored}
    (h : LeftBy E past s) (x : Refresh R) (hfree : E.CollisionFree (x :: past)) :
    (∀ ans, ((E.refresh x).run s).value = .ok ans →
      (∀ y : Refresh R, y.worktree = x.worktree.still → ∃ fresh,
        ((E.refresh y).run {}).value = .ok fresh ∧
          (∀ now, ans.graph.dated now = fresh.graph.dated now) ∧
            ans.manifest.fileHashes = fresh.manifest.fileHashes) ∧
      E.loadState ((E.refresh x).run s).disk = (some ans.manifest, some ans.graph)) ∧
    (x.worktree.again = x.worktree.read → ∃ ans, ((E.refresh x).run s).value = .ok ans) := by
  have hconsistent := (h.consistent hfree.tail).mono (List.subset_cons_self x past)
  obtain ⟨-, -, hexact, hreturns⟩ := Engine.refresh_meets hfree List.mem_cons_self hconsistent
  refine ⟨fun ans hans => ⟨fun y hy => ?_, (hexact ans hans).load⟩, hreturns⟩
  have hstart : E.Consistent [y] {} := (LeftBy.start.consistent ⟨by simp, by simp⟩).mono (by simp)
  obtain ⟨-, -, hfresh, hanswers⟩ := Engine.refresh_meets (hfree.still List.mem_cons_self hy)
    List.mem_cons_self hstart
  obtain ⟨fresh, hreturned⟩ := hanswers (by rw [hy]; rfl)
  refine ⟨fresh, hreturned, fun now => ?_, ?_⟩
  · calc ans.graph.dated now = E.graphOf x.worktree now := (hexact ans hans).graph now
      _ = E.graphOf y.worktree now := by rw [hy]; rfl
      _ = fresh.graph.dated now := ((hfresh fresh hreturned).graph now).symm
  · rw [(hexact ans hans).fileHashes, (hfresh fresh hreturned).fileHashes, hy]
    rfl

/-! ### Two commits -/

namespace Sample

/-- Two hexadecimal digits. -/
def hexPair (b : UInt8) : List Char :=
  [Nat.digitChar (b.toNat / 16), Nat.digitChar (b.toNat % 16)]

/-- An engine whose digest of short contents is their hexadecimal form, filled up to 64 digits. -/
def engine : Engine where
  casefold text := String.ofList (text.toList.map Char.toLower)
  sha256 bytes := String.ofList ((bytes.flatMap hexPair).leftpad 64 '0')
  payload graph := Utf8.encodeText (Nat.toDigits 10 graph.generatedAt)
  parserVersion := "source-ast-v5"
  maxFileBytes := 1000000
  script _ _ := {}
  python _ := some {}

/-- Two commits of one file. -/
def guides : Repository where
  tracked _ := ["GUIDE.md"]
  committed head _ := .ok (if head = "a1" then [35, 49] else [35, 50])

/-- The first commit, with nothing changed. -/
def first : Refresh guides where
  worktree :=
    { branch := some "main"
      head := "a1"
      changedPaths := []
      read := guides.committed "a1"
      again := guides.committed "a1"
      faithful := fun _ _ _ => rfl }
  force := false
  now := 1
  later := 2

/-- What reading comes to at the second commit, with a note beside the guide. -/
def readNoted (path : String) : Reading :=
  if path = "NOTE.md" then .ok [33] else guides.committed "b2" path

theorem readNoted_faithful : ∀ path ∈ guides.tracked "b2", path ∉ ["NOTE.md"] →
    readNoted path = guides.committed "b2" path :=
  fun _ _ hpath => if_neg fun heq => hpath (List.mem_singleton.mpr heq)

/-- The second commit, with a note that is not committed. -/
def second : Refresh guides where
  worktree :=
    { branch := some "main"
      head := "b2"
      changedPaths := ["NOTE.md"]
      read := readNoted
      again := readNoted
      faithful := readNoted_faithful }
  force := false
  now := 3
  later := 4

/-- What the first refresh leaves. -/
def left : Stored := ((engine.refresh first).run {}).disk

/-- The parses are lost. -/
def forgotten : Stored := { left with cache := fun _ => none }

theorem forgotten_reached : LeftBy engine [first] forgotten :=
  .lost (.refresh first .start (.inl rfl)) ⟨.inr rfl, .inr rfl, fun _ => .inl rfl⟩

theorem contents_free : ∀ x ∈ [second, first], ∀ y ∈ [second, first],
    ∀ c ∈ x.worktree.contents, ∀ d ∈ y.worktree.contents,
      engine.sha256 c = engine.sha256 d → c = d := by
  decide

theorem digest_first : engine.digest (engine.graphOf first.worktree first.now) =
    engine.sha256 [49] := rfl

theorem digest_second : engine.digest (engine.graphOf second.worktree second.now) =
    engine.sha256 [51] := rfl

theorem free : engine.CollisionFree [second, first] := by
  refine ⟨contents_free, fun x hx y hy hdigest => ?_⟩
  rcases List.mem_pair.mp hx with rfl | rfl <;> rcases List.mem_pair.mp hy with rfl | rfl
  · rfl
  · rw [digest_first, digest_second] at hdigest
    exact absurd hdigest (by decide)
  · rw [digest_first, digest_second] at hdigest
    exact absurd hdigest (by decide)
  · rfl

end Sample

theorem sample_refresh_exact :
    (∀ ans, ((Sample.engine.refresh Sample.second).run Sample.forgotten).value = .ok ans →
      (∀ y : Refresh Sample.guides, y.worktree = Sample.second.worktree.still → ∃ fresh,
        ((Sample.engine.refresh y).run {}).value = .ok fresh ∧
          (∀ now, ans.graph.dated now = fresh.graph.dated now) ∧
            ans.manifest.fileHashes = fresh.manifest.fileHashes) ∧
      Sample.engine.loadState ((Sample.engine.refresh Sample.second).run Sample.forgotten).disk =
        (some ans.manifest, some ans.graph)) ∧
    (Sample.second.worktree.again = Sample.second.worktree.read →
      ∃ ans, ((Sample.engine.refresh Sample.second).run Sample.forgotten).value = .ok ans) :=
  refresh_exact Sample.forgotten_reached Sample.second Sample.free

end ProjectGraphEngine

end Orqalis
