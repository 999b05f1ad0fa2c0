import Orqalis.Lib.Outcome
import Orqalis.Lib.System
import Orqalis.Lib.Table
import Orqalis.Memory.Records

/-!
# The projection of the sources

A refresh of the memory brings a cache up to date with the current commit: an inventory of the
files it has indexed, a record for each of them, and a snapshot for each refresh. It works by the
difference from the commit of the latest snapshot, from scratch where there is none, and again
over everything where that commit is gone.

Any part of the cache may be deleted between two refreshes. A refresh leaves the projection as a
scan from scratch would, if the latest snapshot is of the commit refreshed last, if every file it
trusts has its record, and if, where there is no snapshot, nothing is left of a path that is no
longer tracked (`refresh_equals_scan`). Where only the records were deleted, the inventory and
the snapshots still vouch for them and nothing brings them back (`records_stay_lost`).

The project is one; embeddings and the compatibility graph, which decide nothing here, and the
order of the records are left out.
-/

namespace Orqalis

open Lib

namespace SourceProjection

/-! ## Records -/

/-- A path of the repository. -/
abbrev Path := List Char

inductive MemoryStatus where
  | active
  | stale
  | superseded
  | invalidated
deriving DecidableEq

inductive MemoryType where
  | repositoryMap
  | architecture
  | convention
  | decision
  | domain
  | knownIssue
  | previousRun
deriving DecidableEq

/-- What the indexer makes of a file. -/
structure Indexed where
  contentHash : String
  language : Option String
  role : String
  memoryType : MemoryType
  summary : List Char
deriving DecidableEq

/-- A file of the inventory. -/
structure RepositoryFile where
  id : UUID
  path : Path
  language : Option String
  role : String
  contentHash : String
  lastSeenCommit : String
deriving DecidableEq

/-- A record of the projection, with its one source. -/
structure StoredMemory where
  id : UUID
  createdAt : Time
  type : MemoryType
  title : List Char
  content : List Char
  status : MemoryStatus := .active
  sourceCommit : String
  introducedByRun : Option UUID := none
  supersededBy : Option UUID := none
  sourceType : String := "file"
  sourceRef : Path
  contentHash : String
deriving DecidableEq

/-- What a refresh leaves of itself. -/
structure Snapshot where
  createdAt : Time
  indexedCommitSha : String
  repoFingerprint : String
  filesScanned : Nat
  invalidations : Nat
deriving DecidableEq

/-- The inventory, by path. -/
abbrev Files := Table RepositoryFile.path

/-- What the reader makes of the content that the writer wrote under a title. -/
def reread (title content : List Char) : List Char :=
  let body := Text.strip (Text.newlines
    ("\n# ".toList ++ title ++ "\n\n".toList ++ (Text.rstrip content ++ ['\n'])))
  let heading := "# ".toList ++ title
  if heading <+: body then Text.strip (body.drop heading.length) else body

/-- The cache: the records, the snapshots, and the inventory if there is one. -/
structure Store where
  records : List StoredMemory := []
  snapshots : List Snapshot := []
  inventory : Option Files := none

/-- The inventory, empty where there is none. -/
def Store.files (s : Store) : Files := s.inventory.getD .empty

/-- The snapshots that are loaded: none where the inventory is gone. -/
def Store.loadedSnapshots (s : Store) : List Snapshot :=
  if s.inventory.isSome then s.snapshots else []

/-- The first of the snapshots with the greatest time. -/
def latestSnapshot : List Snapshot → Option Snapshot
  | [] => none
  | s :: rest =>
    some ((latestSnapshot rest).elim s fun t => if s.createdAt < t.createdAt then t else s)

/-! ## The repository and the indexer -/

/-- The commits of the repository: the tracked paths of each, what it has at a path as a regular
file that is not too long, and the paths that two of them differ at. -/
structure GitService where
  trackedFiles : String → List Path
  readFileIfPresent : String → Path → Option (List UInt8)
  changedFiles : String → String → List Path
  tracked : ∀ commit path, readFileIfPresent commit path ≠ none → path ∈ trackedFiles commit
  changed : ∀ base head path, path ∉ changedFiles base head →
    readFileIfPresent base path = readFileIfPresent head path

/-- An indexer. The digest of a content stands for the content, and a summary is never blank. -/
structure MemoryIndexer where
  allows : Path → Bool
  index : Path → List UInt8 → Option Indexed
  faithful : ∀ path a b x y, index path a = some x → index path b = some y →
    x.contentHash = y.contentHash → x = y
  summarised : ∀ path a x, index path a = some x → Text.blank x.summary = false

/-- What a service is made of: the repository, the indexer, the project, the fingerprint of a
commit, its digest, and whether the redactor leaves a record alone. -/
structure MemoryService where
  git : GitService
  indexer : MemoryIndexer
  projectId : UUID
  projectName : List Char
  fingerprint : String → String
  digest : String → String
  safe : StoredMemory → Bool

/-- Why a refresh fails. -/
inductive Refusal where
  | unsafePath
  | credentials
  | identity
deriving DecidableEq

/-! ## A refresh -/

/-- A refresh under way. -/
structure Scan where
  records : List StoredMemory
  files : Files
  scanned : List Path := []
  invalidations : Nat := 0
  used : Nat := 0

/-- Whether a path's new record takes the place of a record. -/
def replaces (path : Path) (replacement : Option UUID) (m : StoredMemory) : Bool :=
  m.status = .active ∧ replacement ≠ some m.id ∧ m.sourceRef = path

/-- End the records of a path, all but the one that replaces them. -/
def invalidatePath (path : Path) (replacement : Option UUID) (records : List StoredMemory) :
    List StoredMemory :=
  records.map fun m =>
    if replaces path replacement m then
      { m with
        status := if replacement.isSome then .superseded else .invalidated
        supersededBy := replacement }
    else m

/-- How many records that ends. -/
def invalidated (path : Path) (replacement : Option UUID) (records : List StoredMemory) : Nat :=
  (records.filter (replaces path replacement)).length

/-- Add a record. -/
def addItem (safe : StoredMemory → Bool) (records : List StoredMemory) (m : StoredMemory) :
    Except Refusal (List StoredMemory) :=
  if safe m = false then .error .credentials
  else
    match records.find? fun x => x.id = m.id with
    | some existing => if existing = m then .ok records else .error .identity
    | none => .ok (records ++ [m])

/-- A path that has nothing to index any more. -/
def Scan.forget (scan : Scan) (path : Path) : Scan :=
  { scan with
    records := invalidatePath path none scan.records
    invalidations := scan.invalidations + invalidated path none scan.records
    files := scan.files.filter fun f => f.path ≠ path }

section Refresh

variable (E : MemoryService) (ids : Nat → UUID) (now : Time) (origin : Option UUID)

/-- What there is to index of a path at a commit. -/
def expected (commit : String) (path : Path) : Option Indexed :=
  if E.indexer.allows path ∧ validateRelativePath path then
    (E.git.readFileIfPresent commit path).bind (E.indexer.index path)
  else none

/-- The record of a path. -/
def record (head : String) (id : UUID) (path : Path) (indexed : Indexed) : StoredMemory where
  id
  createdAt := now
  type := indexed.memoryType
  title := path
  content := indexed.summary
  sourceCommit := head
  introducedByRun := origin
  sourceRef := path
  contentHash := indexed.contentHash

/-- The entry of a path in the inventory. -/
def fileOf (head : String) (old : Option RepositoryFile) (path : Path) (indexed : Indexed) :
    RepositoryFile where
  id := old.elim (.uuid5 E.projectId (String.ofList path)) RepositoryFile.id
  path
  language := indexed.language
  role := indexed.role
  contentHash := indexed.contentHash
  lastSeenCommit := head

/-- Take up what a path has to index. -/
def Scan.take (head : String) (scan : Scan) (path : Path) (indexed : Indexed) :
    Except Refusal Scan := do
  let m := record now origin head (ids scan.used) path indexed
  let records ← addItem E.safe scan.records m
  return { scan with
    records := invalidatePath path (some m.id) records
    invalidations := scan.invalidations + invalidated path (some m.id) records
    files := scan.files.put (fileOf E head (scan.files.get? path) path indexed)
    used := scan.used + 1 }

/-- Bring one path up to date. -/
def refreshPath (head : String) (rebuild : Bool) (scan : Scan) (path : Path) :
    Except Refusal Scan :=
  if E.indexer.allows path = false then .ok (scan.forget path)
  else if validateRelativePath path = false then .error .unsafePath
  else
    let scan := { scan with scanned := scan.scanned ++ [path] }
    match (E.git.readFileIfPresent head path).bind (E.indexer.index path) with
    | none => .ok (scan.forget path)
    | some indexed =>
      if (scan.files.get? path).any (fun f => f.contentHash = indexed.contentHash) ∧
          rebuild = false then
        .ok scan
      else scan.take E ids now origin head path indexed

/-- The languages of the inventory, in order. -/
def languages (files : Files) : List String :=
  (files.entries.filterMap fun f => f.language.filter (· ≠ "")).dedup.insertionSort (· ≤ ·)

/-- The overview of the project. -/
def overview (head : String) (id : UUID) (files : Files) : StoredMemory where
  id
  createdAt := now
  type := .architecture
  title := "Project overview".toList
  content := "Project ".toList ++ E.projectName ++ ": ".toList ++
    (toString files.entries.length).toList ++ " indexed files. Languages: ".toList ++
    (", ".intercalate (languages files)).toList ++ ". Test files: ".toList ++
    (toString (files.entries.filter fun f => f.role = "test").length).toList ++ ".".toList
  sourceCommit := head
  introducedByRun := origin
  sourceType := "git_tree"
  sourceRef := ".".toList
  contentHash := E.digest head

/-- The latest snapshot was made under another fingerprint. -/
def changedIndexer (previous : Option Snapshot) : Bool :=
  previous.any fun p => p.repoFingerprint ≠ E.fingerprint p.indexedCommitSha

/-- Everything is looked at again: the indexer changed, or the commit is gone. -/
def rebuilds (has : String → Bool) (previous : Option Snapshot) : Bool :=
  previous.any fun p => changedIndexer E previous || !has p.indexedCommitSha

/-- The paths a refresh looks at. -/
def refreshedPaths (has : String → Bool) (head : String) (previous : Option Snapshot)
    (files : Files) : List Path :=
  match previous with
  | none => E.git.trackedFiles head
  | some p =>
    if rebuilds E has previous then
      (E.git.trackedFiles head ++ files.entries.map RepositoryFile.path).dedup.insertionSort
        (· ≤ ·)
    else E.git.changedFiles p.indexedCommitSha head

/-- The record a reader finds of one that was written. -/
def StoredMemory.reread (m : StoredMemory) : StoredMemory :=
  { m with content := SourceProjection.reread m.title m.content }

/-- Write the overview and the snapshot, and commit. -/
def Scan.finish (head : String) (snapshots : List Snapshot) (scan : Scan) :
    Except Refusal Store := do
  let m := overview E now origin head (ids scan.used) scan.files
  let records ← addItem E.safe scan.records m
  let snapshot : Snapshot := {
    createdAt := now
    indexedCommitSha := head
    repoFingerprint := E.fingerprint head
    filesScanned := scan.scanned.length
    invalidations := scan.invalidations + invalidated ".".toList (some m.id) records }
  return {
    records := (invalidatePath ".".toList (some m.id) records).map StoredMemory.reread
    snapshots := snapshots ++ [snapshot]
    inventory := some scan.files }

/-- The latest snapshot is of the commit, and stands. -/
def reuses (head : String) (previous : Option Snapshot) : Bool :=
  previous.any (fun p => p.indexedCommitSha = head) && !changedIndexer E previous

/-- A refresh at a commit. -/
def refresh (has : String → Bool) (head : String) (s : Store) : Except Refusal Store :=
  let previous := latestSnapshot s.loadedSnapshots
  if reuses E head previous then .ok s
  else do
    let scan ← (refreshedPaths E has head previous s.files).foldlM
      (refreshPath E ids now origin head (rebuilds E has previous))
      { records := s.records, files := s.files }
    scan.finish E ids now origin head s.loadedSnapshots

end Refresh

/-! ## What a reader finds -/

/-- Under a title of one line a text that is not blank is read as it is, trimmed. -/
theorem reread_eq {title content : List Char} (htitle : '\r' ∉ title)
    (hcontent : Text.blank content = false) :
    reread title content = Text.strip (Text.newlines (Text.rstrip content ++ ['\n'])) := by
  have hline : '\r' ∉ "\n# ".toList ++ title ++ "\n\n".toList := by
    simp [htitle]
  have hblank : Text.blank (Text.newlines (Text.rstrip content ++ ['\n'])) = false := by
    rw [Text.blank_newlines, Text.blank_append, Text.blank_rstrip, hcontent]
    rfl
  have hbody : Text.strip (Text.newlines ("\n# ".toList ++ title ++ "\n\n".toList ++
      (Text.rstrip content ++ ['\n']))) = ("# ".toList ++ title) ++ ("\n\n".toList ++
        Text.rstrip (Text.newlines (Text.rstrip content ++ ['\n']))) := by
    rw [Text.newlines_append hline]
    have hfirst : "\n# ".toList ++ title ++ "\n\n".toList ++
        Text.newlines (Text.rstrip content ++ ['\n']) =
        ['\n'] ++ ('#' :: ((' ' :: title ++ "\n\n".toList) ++
          Text.newlines (Text.rstrip content ++ ['\n']))) := by
      simp
    rw [hfirst, Text.strip_blank_append (by decide), Text.strip_cons (by decide),
      Text.rstrip_append _ hblank]
    simp
  unfold reread
  dsimp only
  rw [hbody, if_pos (List.prefix_append _ _), List.drop_left, Text.strip_blank_append (by decide),
    Text.strip_rstrip]

/-- What was read once is read again as it is. -/
theorem reread_reread {title content : List Char} (htitle : '\r' ∉ title)
    (hcontent : Text.blank content = false) :
    reread title (reread title content) = reread title content := by
  have hfirst := reread_eq htitle hcontent
  have hnone : '\r' ∉ reread title content := by
    rw [hfirst]
    exact fun h => Text.notMem_newlines _ (Text.strip_subset _ h)
  have hstrip : Text.strip (reread title content) = reread title content := by
    rw [hfirst]
    exact Text.strip_strip _
  have hsome : reread title content ≠ [] := by
    rw [hfirst]
    intro h
    have hblank := Text.strip_eq_nil.mp h
    rw [Text.blank_newlines, Text.blank_append, Text.blank_rstrip, hcontent] at hblank
    cases hblank
  have hblank : Text.blank (reread title content) = false := by
    rw [← hstrip]
    exact Text.blank_strip (by rwa [hstrip])
  have hline : '\r' ∉ reread title content ++ ['\n'] := by simp [hnone]
  rw [reread_eq htitle hblank, Text.rstrip_of_strip hstrip, Text.newlines_eq_self hline,
    Text.strip_append_blank _ (by decide), hstrip]

theorem notMem_of_validRelativePath {path : Path} (h : validateRelativePath path = true) :
    '\r' ∉ path := by
  intro hmem
  unfold validateRelativePath at h
  simp only [Bool.and_eq_true, List.all_eq_true] at h
  exact absurd (h.1.2 _ hmem) (by decide)

/-! ## What the projection has of a path -/

/-- The active records of a file. -/
def activeAt (path : Path) (records : List StoredMemory) : List StoredMemory :=
  records.filter fun m => m.status = .active ∧ m.sourceType = "file" ∧ m.sourceRef = path

section Paths

variable {path q : Path} {records records' : List StoredMemory}

theorem activeAt_append (records records' : List StoredMemory) :
    activeAt path (records ++ records') = activeAt path records ++ activeAt path records' :=
  List.filter_append _ _

/-- Ending the records of a path leaves the others alone. -/
theorem activeAt_invalidatePath_ne (h : q ≠ path) (replacement : Option UUID) :
    activeAt q (invalidatePath path replacement records) = activeAt q records := by
  unfold activeAt invalidatePath
  induction records with
  | nil => rfl
  | cons m rest ih =>
    rw [List.map_cons, List.filter_cons, List.filter_cons, ih]
    by_cases hm : replaces path replacement m = true
    · have href : m.sourceRef ≠ q := by
        unfold replaces at hm
        rw [decide_eq_true_iff] at hm
        exact fun heq => h (heq.symm.trans hm.2.2)
      rw [if_pos hm, if_neg (by simp [href]), if_neg (by simp [href])]
    · rw [if_neg hm]

/-- What is left of a path is what replaces its records. -/
theorem activeAt_invalidatePath (replacement : Option UUID) :
    activeAt path (invalidatePath path replacement records) =
      (activeAt path records).filter fun m => replacement = some m.id := by
  unfold activeAt invalidatePath
  induction records with
  | nil => rfl
  | cons m rest ih =>
    rw [List.map_cons, List.filter_cons, List.filter_cons, ih]
    by_cases hm : replaces path replacement m = true
    · have hended : replacement ≠ some m.id := by
        unfold replaces at hm
        rw [decide_eq_true_iff] at hm
        exact hm.2.1
      rw [if_pos hm, if_neg (by cases replacement <;> simp)]
      split_ifs with hactive
      · rw [List.filter_cons_of_neg (by simpa using hended)]
      · rfl
    · rw [if_neg hm]
      split_ifs with hactive
      · have hkept : replacement = some m.id := by
          by_contra hne
          rw [decide_eq_true_iff] at hactive
          refine hm ?_
          unfold replaces
          exact decide_eq_true ⟨hactive.1, hne, hactive.2.2⟩
        rw [List.filter_cons_of_pos (by simpa using hkept)]
      · rfl

theorem activeAt_map_reread :
    activeAt path (records.map StoredMemory.reread) =
      (activeAt path records).map StoredMemory.reread := by
  unfold activeAt
  rw [List.filter_map]
  rfl

/-- A record that is added is new, or the one that was there. -/
theorem addItem_eq_ok {safe : StoredMemory → Bool} {m : StoredMemory}
    (h : addItem safe records m = .ok records') :
    (records' = records ∧ m ∈ records) ∨
      records' = records ++ [m] ∧ ∀ x ∈ records, x.id ≠ m.id := by
  unfold addItem at h
  split_ifs at h
  cases hfind : records.find? fun x => x.id = m.id with
  | some existing =>
    rw [hfind] at h
    dsimp only at h
    split_ifs at h with heq
    obtain rfl := Except.ok.inj h
    exact Or.inl ⟨rfl, heq ▸ List.mem_of_find?_eq_some hfind⟩
  | none =>
    rw [hfind] at h
    obtain rfl := Except.ok.inj h
    refine Or.inr ⟨rfl, fun x hx => ?_⟩
    simpa using List.find?_eq_none.mp hfind x hx

/-- No two records have the same identity. -/
def Distinct (records : List StoredMemory) : Prop := (records.map StoredMemory.id).Nodup

theorem Distinct.invalidatePath (h : Distinct records) (replacement : Option UUID) :
    Distinct (invalidatePath path replacement records) := by
  have hids : (SourceProjection.invalidatePath path replacement records).map StoredMemory.id =
      records.map StoredMemory.id := by
    unfold SourceProjection.invalidatePath
    rw [List.map_map]
    refine List.map_congr_left fun m _ => ?_
    rw [Function.comp_apply]
    split_ifs <;> rfl
  unfold Distinct
  rwa [hids]

theorem Distinct.addItem {safe : StoredMemory → Bool} {m : StoredMemory} (hd : Distinct records)
    (h : addItem safe records m = .ok records') : Distinct records' := by
  rcases addItem_eq_ok h with ⟨rfl, _⟩ | ⟨rfl, hnew⟩
  · exact hd
  · unfold Distinct
    rw [List.map_append, List.nodup_append]
    refine ⟨hd, List.nodup_singleton _, ?_⟩
    rintro id hold id' hid rfl
    obtain ⟨x, hx, rfl⟩ := List.mem_map.mp hold
    exact hnew x hx (List.mem_singleton.mp hid)

/-- An added record of a path is what is left once it replaces the others. -/
theorem activeAt_addItem {safe : StoredMemory → Bool} {m : StoredMemory} (hd : Distinct records)
    (h : addItem safe records m = .ok records') (hactive : m.status = .active)
    (hfile : m.sourceType = "file") :
    activeAt m.sourceRef (invalidatePath m.sourceRef (some m.id) records') = [m] := by
  rw [activeAt_invalidatePath]
  have hm : activeAt m.sourceRef [m] = [m] :=
    List.filter_eq_self.mpr fun x hx => by
      rw [List.mem_singleton.mp hx]
      exact decide_eq_true ⟨hactive, hfile, rfl⟩
  have hself : [m].filter (fun x => some m.id = some x.id) = [m] :=
    List.filter_eq_self.mpr fun x hx => by
      rw [List.mem_singleton.mp hx]
      exact decide_eq_true rfl
  rcases addItem_eq_ok h with ⟨rfl, hmem⟩ | ⟨rfl, hnew⟩
  · obtain ⟨before, after, rfl⟩ := List.append_of_mem hmem
    unfold Distinct at hd
    rw [List.map_append, List.map_cons, List.nodup_append, List.nodup_cons] at hd
    have hbefore : ∀ x ∈ before, x.id ≠ m.id := fun x hx heq =>
      hd.2.2 x.id (List.mem_map_of_mem hx) m.id List.mem_cons_self heq
    have hafter : ∀ x ∈ after, x.id ≠ m.id := fun x hx heq =>
      hd.2.1.1 (heq ▸ List.mem_map_of_mem hx)
    have hnone : ∀ l : List StoredMemory, (∀ x ∈ l, x.id ≠ m.id) →
        (activeAt m.sourceRef l).filter (fun x => some m.id = some x.id) = [] :=
      fun l hl => List.filter_eq_nil_iff.mpr fun x hx => by
        have hne := hl x (List.mem_of_mem_filter hx)
        simpa using fun heq : m.id = x.id => hne heq.symm
    rw [← List.singleton_append, activeAt_append, activeAt_append, hm, List.filter_append,
      List.filter_append, hnone before hbefore, hnone after hafter, hself]
    rfl
  · have hnone : (activeAt m.sourceRef records).filter (fun x => some m.id = some x.id) = [] :=
      List.filter_eq_nil_iff.mpr fun x hx => by
        have hne := hnew x (List.mem_of_mem_filter hx)
        simpa using fun heq : m.id = x.id => hne heq.symm
    rw [activeAt_append, List.filter_append, hnone, hm, hself]
    rfl

theorem activeAt_addItem_ne {safe : StoredMemory → Bool} {m : StoredMemory}
    (h : addItem safe records m = .ok records')
    (hne : ¬ (m.sourceType = "file" ∧ m.sourceRef = q)) :
    activeAt q records' = activeAt q records := by
  rcases addItem_eq_ok h with ⟨rfl, _⟩ | ⟨rfl, _⟩
  · rfl
  · have hm : activeAt q [m] = [] :=
      List.filter_eq_nil_iff.mpr fun x hx => by
        rw [List.mem_singleton.mp hx, decide_eq_true_iff]
        exact fun hactive => hne hactive.2
    rw [activeAt_append, hm, List.append_nil]

end Paths

/-! ## A path that is brought up to date -/

/-- An entry of the inventory is of what there is to index. -/
def Describes (f : RepositoryFile) (x : Indexed) : Prop :=
  f.language = x.language ∧ f.role = x.role ∧ f.contentHash = x.contentHash

/-- A record of a path is of what there is to index. -/
def Tells (path : Path) (m : StoredMemory) (x : Indexed) : Prop :=
  m.type = x.memoryType ∧ m.title = path ∧ m.contentHash = x.contentHash ∧
    reread path m.content = reread path x.summary

/-- The inventory and the records have of a path what a commit has. -/
structure Right (E : MemoryService) (commit : String) (files : Files)
    (records : List StoredMemory) (path : Path) : Prop where
  gone : expected E commit path = none →
    files.get? path = none ∧ activeAt path records = []
  here : ∀ x, expected E commit path = some x →
    (∃ f, files.get? path = some f ∧ Describes f x) ∧
      ∃ m, activeAt path records = [m] ∧ Tells path m x

theorem Right.congr {E : MemoryService} {commit : String} {files files' : Files}
    {records records' : List StoredMemory} {path : Path} (h : Right E commit files records path)
    (hfiles : files'.get? path = files.get? path)
    (hactive : activeAt path records' = activeAt path records) :
    Right E commit files' records' path where
  gone hx := by
    rw [hfiles, hactive]
    exact h.gone hx
  here x hx := by
    rw [hfiles, hactive]
    exact h.here x hx

/-- A refresh trusts what it has of a path. -/
def Kept (E : MemoryService) (head : String) (rebuild : Bool) (files : Files) (path : Path) :
    Prop :=
  rebuild = false ∧ ∃ x f, expected E head path = some x ∧ files.get? path = some f ∧
    f.contentHash = x.contentHash

section Refreshed

variable {E : MemoryService} {ids : Nat → UUID} {now : Time} {origin : Option UUID}
  {head : String} {rebuild : Bool} {scan scan' : Scan} {path : Path}

/-- What looking at a path does: it leaves the other paths alone and makes the path right,
unless it trusts what it has. -/
structure Refreshed (E : MemoryService) (head : String) (rebuild : Bool) (scan scan' : Scan)
    (path : Path) : Prop where
  distinct : Distinct scan'.records
  others : ∀ q, q ≠ path → scan'.files.get? q = scan.files.get? q ∧
    activeAt q scan'.records = activeAt q scan.records
  right : (Kept E head rebuild scan.files path → Right E head scan.files scan.records path) →
    Right E head scan'.files scan'.records path

theorem Scan.refreshed_forget (hd : Distinct scan.records)
    (h : expected E head path = none) :
    Refreshed E head rebuild scan (scan.forget path) path where
  distinct := hd.invalidatePath none
  others := by
    intro q hq
    refine ⟨Option.ext fun f => ?_, activeAt_invalidatePath_ne hq none⟩
    unfold Scan.forget
    dsimp only
    rw [Table.get?_filter]
    refine ⟨And.left, fun hf => ⟨hf, decide_eq_true fun heq => hq ?_⟩⟩
    exact (Table.key_of_get? hf).symm.trans heq
  right := by
    intro _
    refine ⟨fun _ => ⟨?_, ?_⟩, fun x hx => by rw [h] at hx; cases hx⟩
    · refine Option.eq_none_iff_forall_not_mem.mpr fun f hf => ?_
      obtain ⟨hget, hne⟩ := Table.get?_filter.mp hf
      exact of_decide_eq_true hne (Table.key_of_get? hget)
    · unfold Scan.forget
      dsimp only
      rw [activeAt_invalidatePath]
      simp

theorem Scan.refreshed_take {indexed : Indexed} (hd : Distinct scan.records)
    (hx : expected E head path = some indexed)
    (h : scan.take E ids now origin head path indexed = .ok scan') :
    Refreshed E head rebuild scan scan' path := by
  unfold Scan.take at h
  obtain ⟨records, hadd, h⟩ := Outcome.bind_eq_ok.mp h
  obtain rfl := Except.ok.inj h
  refine ⟨(hd.addItem hadd).invalidatePath _, fun q hq => ⟨?_, ?_⟩, fun _ => ⟨?_, ?_⟩⟩
  · exact Table.get?_put_ne _ (Ne.symm hq)
  · dsimp only
    rw [activeAt_invalidatePath_ne hq]
    exact activeAt_addItem_ne hadd fun heq => hq heq.2.symm
  · intro hnone
    rw [hx] at hnone
    cases hnone
  · intro x hx'
    obtain rfl := Option.some.inj (hx.symm.trans hx')
    refine ⟨⟨fileOf E head (scan.files.get? path) path indexed, ?_, rfl, rfl, rfl⟩, _,
      activeAt_addItem hd hadd rfl rfl, rfl, rfl, rfl, rfl⟩
    dsimp only
    rw [Table.get?_put]
    exact if_pos rfl

/-- Looking at a path. -/
theorem refreshPath_refreshed (hd : Distinct scan.records)
    (h : refreshPath E ids now origin head rebuild scan path = .ok scan') :
    Refreshed E head rebuild scan scan' path := by
  unfold refreshPath at h
  by_cases hallows : E.indexer.allows path = false
  · rw [if_pos hallows] at h
    obtain rfl := Except.ok.inj h
    refine Scan.refreshed_forget hd ?_
    unfold expected
    rw [if_neg (by simp [hallows])]
  by_cases hvalid : validateRelativePath path = false
  · rw [if_neg hallows, if_pos hvalid] at h
    cases h
  rw [if_neg hallows, if_neg hvalid] at h
  have hexpected : expected E head path =
      (E.git.readFileIfPresent head path).bind (E.indexer.index path) := by
    unfold expected
    rw [if_pos ⟨by simpa using hallows, by simpa using hvalid⟩]
  dsimp only at h
  rw [← hexpected] at h
  cases hx : expected E head path with
  | none =>
    rw [hx] at h
    obtain rfl := Except.ok.inj h
    obtain ⟨hdistinct, hothers, hright⟩ :=
      @Scan.refreshed_forget E head rebuild { scan with scanned := scan.scanned ++ [path] } path
        hd hx
    exact ⟨hdistinct, hothers, hright⟩
  | some indexed =>
    rw [hx] at h
    dsimp only at h
    split_ifs at h with hkept
    · obtain rfl := Except.ok.inj h
      refine ⟨hd, fun q _ => ⟨rfl, rfl⟩, fun hright => hright ?_⟩
      obtain ⟨hany, hrebuild⟩ := hkept
      cases hf : scan.files.get? path with
      | none =>
        rw [hf] at hany
        cases hany
      | some f =>
        rw [hf] at hany
        exact ⟨hrebuild, indexed, f, hx, hf, of_decide_eq_true hany⟩
    · obtain ⟨hdistinct, hothers, hright⟩ :=
        @Scan.refreshed_take E ids now origin head rebuild
          { scan with scanned := scan.scanned ++ [path] } scan' path indexed hd hx h
      exact ⟨hdistinct, hothers, hright⟩

/-- Looking at some paths. -/
theorem foldlM_refreshPath {paths : List Path} (hd : Distinct scan.records)
    (h : paths.foldlM (refreshPath E ids now origin head rebuild) scan = .ok scan') :
    Distinct scan'.records ∧
    (∀ q, q ∉ paths → scan'.files.get? q = scan.files.get? q ∧
      activeAt q scan'.records = activeAt q scan.records) ∧
    ∀ q ∈ paths, (Kept E head rebuild scan.files q →
      Right E head scan.files scan.records q) → Right E head scan'.files scan'.records q := by
  induction paths generalizing scan with
  | nil =>
    obtain rfl := Except.ok.inj h
    exact ⟨hd, fun q _ => ⟨rfl, rfl⟩, fun q hq => by cases hq⟩
  | cons path paths ih =>
    rw [List.foldlM_cons] at h
    obtain ⟨middle, hpath, hrest⟩ := Outcome.bind_eq_ok.mp h
    obtain ⟨hmiddle, hothers, hright⟩ := refreshPath_refreshed hd hpath
    obtain ⟨hd', hothers', hright'⟩ := ih hmiddle hrest
    refine ⟨hd', fun q hq => ?_, fun q hq hkept => ?_⟩
    · obtain ⟨hne, hnot⟩ := not_or.mp (List.mem_cons.not.mp hq)
      obtain ⟨hfiles, hactive⟩ := hothers q hne
      obtain ⟨hfiles', hactive'⟩ := hothers' q hnot
      exact ⟨hfiles'.trans hfiles, hactive'.trans hactive⟩
    · have hmiddle : Kept E head rebuild middle.files q →
          Right E head middle.files middle.records q := by
        by_cases hne : q = path
        · subst hne
          exact fun _ => hright hkept
        · obtain ⟨hfiles, hactive⟩ := hothers q hne
          rintro ⟨hrebuild, x, f, hx, hf, hhash⟩
          rw [hfiles] at hf
          exact (hkept ⟨hrebuild, x, f, hx, hf, hhash⟩).congr hfiles hactive
      by_cases hmem : q ∈ paths
      · exact hright' q hmem hmiddle
      · have hq' : q = path := (List.mem_cons.mp hq).resolve_right hmem
        subst hq'
        obtain ⟨hfiles', hactive'⟩ := hothers' q hmem
        exact (hright hkept).congr hfiles' hactive'

end Refreshed

/-! ## What a refresh records -/

/-- A stored record of a path is what a reader finds of what there is to index. -/
def Rereads (path : Path) (m : StoredMemory) (x : Indexed) : Prop :=
  m.type = x.memoryType ∧ m.title = path ∧ m.contentHash = x.contentHash ∧
    m.content = reread path x.summary

/-- A cache has of a path what a commit has. -/
structure Recorded (E : MemoryService) (commit : String) (s : Store) (path : Path) : Prop where
  gone : expected E commit path = none →
    s.files.get? path = none ∧ activeAt path s.records = []
  here : ∀ x, expected E commit path = some x →
    (∃ f, s.files.get? path = some f ∧ Describes f x) ∧
      ∃ m, activeAt path s.records = [m] ∧ Rereads path m x

section Recording

variable {E : MemoryService} {ids : Nat → UUID} {now : Time} {origin : Option UUID}
  {has : String → Bool} {commit head : String} {path : Path} {x : Indexed}

theorem valid_of_expected (h : expected E commit path = some x) :
    validateRelativePath path = true := by
  unfold expected at h
  split_ifs at h with hpath
  exact hpath.2

theorem index_of_expected (h : expected E commit path = some x) :
    ∃ content, E.indexer.index path content = some x := by
  unfold expected at h
  split_ifs at h
  obtain ⟨content, _, hindex⟩ := Option.bind_eq_some_iff.mp h
  exact ⟨content, hindex⟩

/-- Two commits have the same of a path where it has the same digest. -/
theorem eq_of_contentHash {y : Indexed} (hx : expected E commit path = some x)
    (hy : expected E head path = some y) (h : x.contentHash = y.contentHash) : x = y := by
  obtain ⟨a, ha⟩ := index_of_expected hx
  obtain ⟨b, hb⟩ := index_of_expected hy
  exact E.indexer.faithful path a b x y ha hb h

theorem expected_of_untracked (h : path ∉ E.git.trackedFiles head) :
    expected E head path = none := by
  unfold expected
  split_ifs
  · have hnone : E.git.readFileIfPresent head path = none := by
      by_contra hsome
      exact h (E.git.tracked head path hsome)
    rw [hnone]
    rfl
  · rfl

theorem expected_of_unchanged (h : path ∉ E.git.changedFiles commit head) :
    expected E commit path = expected E head path := by
  unfold expected
  rw [E.git.changed commit head path h]

theorem Rereads.tells {m : StoredMemory} (h : Rereads path m x)
    (hx : expected E commit path = some x) : Tells path m x := by
  obtain ⟨htype, htitle, hhash, hcontent⟩ := h
  obtain ⟨content, hindex⟩ := index_of_expected hx
  refine ⟨htype, htitle, hhash, ?_⟩
  rw [hcontent]
  exact reread_reread (notMem_of_validRelativePath (valid_of_expected hx))
    (E.indexer.summarised path content x hindex)

theorem Tells.rereads {m : StoredMemory} (h : Tells path m x) : Rereads path m.reread x := by
  obtain ⟨htype, htitle, hhash, hcontent⟩ := h
  refine ⟨htype, htitle, hhash, ?_⟩
  unfold StoredMemory.reread
  dsimp only
  rw [htitle]
  exact hcontent

/-- What the commit of a refresh leaves. -/
theorem Scan.finish_recorded {scan : Scan} {snapshots : List Snapshot} {s : Store}
    (hd : Distinct scan.records) (h : scan.finish E ids now origin head snapshots = .ok s)
    (hright : ∀ path, Right E head scan.files scan.records path) :
    Distinct s.records ∧ s.inventory = some scan.files ∧
      (∃ p, s.snapshots = snapshots ++ [p] ∧ p.indexedCommitSha = head ∧
        p.repoFingerprint = E.fingerprint head) ∧
      ∀ path, Recorded E head s path := by
  unfold Scan.finish at h
  obtain ⟨records, hadd, h⟩ := Outcome.bind_eq_ok.mp h
  obtain rfl := Except.ok.inj h
  have hdot : expected E head ".".toList = none := by
    unfold expected
    rw [if_neg]
    exact fun hvalid => absurd hvalid.2 (by decide)
  have hactive : ∀ path, activeAt path (invalidatePath ".".toList
      (some (overview E now origin head (ids scan.used) scan.files).id) records) =
      activeAt path scan.records := by
    intro path
    have hadded : activeAt path records = activeAt path scan.records :=
      activeAt_addItem_ne hadd fun heq => absurd heq.1 (by decide : ¬ "git_tree" = "file")
    by_cases hpath : path = ".".toList
    · subst hpath
      rw [activeAt_invalidatePath, hadded, ((hright _).gone hdot).2]
      rfl
    · rw [activeAt_invalidatePath_ne hpath, hadded]
  have hreread : ∀ path, activeAt path ((invalidatePath ".".toList
      (some (overview E now origin head (ids scan.used) scan.files).id) records).map
        StoredMemory.reread) = (activeAt path scan.records).map StoredMemory.reread := by
    intro path
    rw [activeAt_map_reread, hactive]
  have hdistinct : Distinct (invalidatePath ".".toList
      (some (overview E now origin head (ids scan.used) scan.files).id) records) :=
    (hd.addItem hadd).invalidatePath _
  refine ⟨?_, rfl, ⟨_, rfl, rfl, rfl⟩, fun path => ⟨fun hnone => ?_, fun x hx => ?_⟩⟩
  · unfold Distinct
    rw [List.map_map]
    exact hdistinct
  · obtain ⟨hfile, hitem⟩ := (hright path).gone hnone
    refine ⟨hfile, ?_⟩
    dsimp only
    rw [hreread, hitem]
    rfl
  · obtain ⟨hfile, m, hitem, htells⟩ := (hright path).here x hx
    refine ⟨hfile, m.reread, ?_, htells.rereads⟩
    dsimp only
    rw [hreread, hitem]
    rfl

end Recording

/-! ## Runs -/

/-- What holds of a cache between refreshes: what is left of it is of the commit refreshed last,
and where there are snapshots, the inventory is whole. -/
structure Coherent (E : MemoryService) (commit : String) (s : Store) : Prop where
  distinct : Distinct s.records
  files : ∀ path f, s.files.get? path = some f →
    ∃ x, expected E commit path = some x ∧ Describes f x
  items : ∀ path, activeAt path s.records = [] ∨ ∃ x m, expected E commit path = some x ∧
    activeAt path s.records = [m] ∧ Rereads path m x
  fingerprints : ∀ p ∈ s.snapshots, p.repoFingerprint = E.fingerprint p.indexedCommitSha
  last : ∀ p, s.loadedSnapshots.getLast? = some p → p.indexedCommitSha = commit ∧
    ∀ path, expected E commit path ≠ none → s.files.get? path ≠ none

/-- A refresh may trust the cache: the latest snapshot is of the commit refreshed last; unless it
looks at everything again, every file of the inventory that the commit has as it was has its
record; and where there is no snapshot, nothing is left of a path that is not tracked. -/
structure Trusted (E : MemoryService) (has : String → Bool) (head : String) (s : Store) :
    Prop where
  latest : ∀ p l, latestSnapshot s.loadedSnapshots = some p →
    s.loadedSnapshots.getLast? = some l → l.indexedCommitSha = p.indexedCommitSha
  stored : reuses E head (latestSnapshot s.loadedSnapshots) = true ∨
      rebuilds E has (latestSnapshot s.loadedSnapshots) = false →
    ∀ path f x, s.files.get? path = some f → expected E head path = some x →
      f.contentHash = x.contentHash → activeAt path s.records ≠ []
  tracked : latestSnapshot s.loadedSnapshots = none → ∀ path, path ∉ E.git.trackedFiles head →
    s.files.get? path = none ∧ activeAt path s.records = []

/-- Delete some of the records, the snapshots or not, the inventory or not. -/
def Store.delete (s : Store) (keep : UUID → Bool) (snapshots inventory : Bool) : Store where
  records := s.records.filter fun m => keep m.id
  snapshots := if snapshots then [] else s.snapshots
  inventory := if inventory then none else s.inventory

/-- The repository, with the commits it has, and the cache. -/
structure World where
  head : String
  has : String → Bool
  store : Store

/-- What happens: the repository moves on, parts of the cache are deleted, a refresh succeeds.
A refresh that fails leaves the cache alone. -/
inductive Step (E : MemoryService) (ok : World → Prop) : World → World → Prop
  | moves {w : World} (head : String) (has : String → Bool) :
    Step E ok w { w with head, has }
  | deletes {w : World} (keep : UUID → Bool) (snapshots inventory : Bool) :
    Step E ok w { w with store := w.store.delete keep snapshots inventory }
  | refreshes {w : World} {ids : Nat → UUID} {now : Time} {origin : Option UUID} {s : Store}
    (hok : ok w) (h : refresh E ids now origin w.has w.head w.store = .ok s) :
    Step E ok w { w with store := s }

section Runs

variable {E : MemoryService} {ids : Nat → UUID} {now : Time} {origin : Option UUID}
  {has : String → Bool} {commit head : String} {s s' : Store}

/-- There is a last snapshot where there is a latest one. -/
theorem getLast?_of_latest {l : List Snapshot} {p : Snapshot} (h : latestSnapshot l = some p) :
    ∃ last, l.getLast? = some last := by
  cases l with
  | nil => cases h
  | cons q rest => exact ⟨_, List.getLast?_eq_some_getLast (List.cons_ne_nil q rest)⟩

namespace Coherent

variable (hs : Coherent E commit s)

include hs

/-- What is trusted is right, where it has its record. -/
theorem right_of_kept
    (hstored : ∀ path f x, s.files.get? path = some f → expected E head path = some x →
      f.contentHash = x.contentHash → activeAt path s.records ≠ []) {path : Path}
    {rebuild : Bool} (h : Kept E head rebuild s.files path) :
    Right E head s.files s.records path := by
  obtain ⟨-, x, f, hx, hf, hhash⟩ := h
  obtain ⟨y, hy, hdescribes⟩ := hs.files path f hf
  obtain rfl : y = x := eq_of_contentHash hy hx (hdescribes.2.2.symm.trans hhash)
  refine ⟨fun hnone => ?_, fun z hz => ?_⟩
  · rw [hx] at hnone
    cases hnone
  · obtain rfl := Option.some.inj (hx.symm.trans hz)
    refine ⟨⟨f, hf, hdescribes⟩, ?_⟩
    rcases hs.items path with hnone | ⟨z, m, hz', hactive, hrereads⟩
    · exact absurd hnone (hstored path f y hf hx hhash)
    · obtain rfl := Option.some.inj (hy.symm.trans hz')
      exact ⟨m, hactive, hrereads.tells hz'⟩

/-- What both commits have alike is recorded, where the inventory is whole and it has its
record. -/
theorem recorded_of_same {path : Path} (hsame : expected E commit path = expected E head path)
    (hwhole : expected E commit path ≠ none → s.files.get? path ≠ none)
    (hstored : ∀ path f x, s.files.get? path = some f → expected E head path = some x →
      f.contentHash = x.contentHash → activeAt path s.records ≠ []) :
    Recorded E head s path := by
  refine ⟨fun hnone => ⟨?_, ?_⟩, fun x hx => ?_⟩
  · refine Option.eq_none_iff_forall_not_mem.mpr fun f hf => ?_
    obtain ⟨x, hx, _⟩ := hs.files path f hf
    rw [hsame, hnone] at hx
    cases hx
  · rcases hs.items path with hactive | ⟨x, _, hx, _⟩
    · exact hactive
    · rw [hsame, hnone] at hx
      cases hx
  · have hx' := hsame.trans hx
    obtain ⟨f, hf⟩ := Option.ne_none_iff_exists'.mp
      (hwhole (by rw [hx']; exact Option.some_ne_none x))
    obtain ⟨y, hy, hdescribes⟩ := hs.files path f hf
    obtain rfl := Option.some.inj (hx'.symm.trans hy)
    refine ⟨⟨f, hf, hdescribes⟩, ?_⟩
    rcases hs.items path with hnone | ⟨z, m, hz, hactive, hrereads⟩
    · exact absurd hnone (hstored path f x hf hx hdescribes.2.2)
    · obtain rfl := Option.some.inj (hx'.symm.trans hz)
      exact ⟨m, hactive, hrereads⟩

/-- A deletion leaves what is left coherent. -/
theorem delete (keep : UUID → Bool) (snapshots inventory : Bool) :
    Coherent E commit (s.delete keep snapshots inventory) := by
  have hactive : ∀ path, activeAt path (s.delete keep snapshots inventory).records =
      (activeAt path s.records).filter fun m => keep m.id := by
    intro path
    unfold activeAt Store.delete
    dsimp only
    rw [List.filter_filter, List.filter_filter]
    exact List.filter_congr fun m _ => Bool.and_comm _ _
  have hloaded : (s.delete keep snapshots inventory).loadedSnapshots = [] ∨
      (s.delete keep snapshots inventory).loadedSnapshots = s.loadedSnapshots ∧
        (s.delete keep snapshots inventory).files = s.files := by
    unfold Store.loadedSnapshots Store.files Store.delete
    cases snapshots <;> cases inventory
    · exact Or.inr ⟨rfl, rfl⟩
    · exact Or.inl rfl
    · exact Or.inl (ite_self _)
    · exact Or.inl rfl
  refine ⟨?_, fun path f hf => ?_, fun path => ?_, fun p hp => ?_, fun p hp => ?_⟩
  · exact List.Nodup.sublist (List.Sublist.map _ List.filter_sublist) hs.distinct
  · refine hs.files path f ?_
    unfold Store.files Store.delete at hf
    cases inventory
    · exact hf
    · cases hf
  · rw [hactive]
    rcases hs.items path with hnone | ⟨x, m, hx, hone, hrereads⟩
    · rw [hnone]
      exact Or.inl rfl
    · rw [hone]
      by_cases hkeep : keep m.id = true
      · exact Or.inr ⟨x, m, hx, List.filter_cons_of_pos hkeep, hrereads⟩
      · exact Or.inl (List.filter_cons_of_neg hkeep)
  · refine hs.fingerprints p ?_
    unfold Store.delete at hp
    cases snapshots
    · exact hp
    · cases hp
  · rcases hloaded with hnone | ⟨hsame, hfiles⟩
    · rw [hnone] at hp
      cases hp
    · rw [hfiles]
      exact hs.last p (hsame ▸ hp)

end Coherent

/-- A cache that has of every path what a commit has is coherent. -/
theorem coherent_of_recorded {snapshots : List Snapshot} {p : Snapshot}
    (hd : Distinct s.records) (hrecorded : ∀ path, Recorded E head s path)
    (hsnapshots : s.snapshots = snapshots ++ [p])
    (hprints : ∀ q ∈ s.snapshots, q.repoFingerprint = E.fingerprint q.indexedCommitSha)
    (hp : p.indexedCommitSha = head) : Coherent E head s := by
  have hfile : ∀ path f, s.files.get? path = some f →
      ∃ x, expected E head path = some x ∧ Describes f x := by
    intro path f hf
    cases hx : expected E head path with
    | none =>
      rw [((hrecorded path).gone hx).1] at hf
      cases hf
    | some x =>
      obtain ⟨⟨g, hg, hdescribes⟩, _⟩ := (hrecorded path).here x hx
      obtain rfl := Option.some.inj (hf.symm.trans hg)
      exact ⟨x, rfl, hdescribes⟩
  refine ⟨hd, hfile, fun path => ?_, hprints, fun q hq => ?_⟩
  · cases hx : expected E head path with
    | none => exact Or.inl ((hrecorded path).gone hx).2
    | some x =>
      obtain ⟨_, m, hactive, hrereads⟩ := (hrecorded path).here x hx
      exact Or.inr ⟨x, m, rfl, hactive, hrereads⟩
  · unfold Store.loadedSnapshots at hq
    split_ifs at hq
    · rw [hsnapshots, List.getLast?_concat] at hq
      obtain rfl := Option.some.inj hq
      refine ⟨hp, fun path hsome => ?_⟩
      obtain ⟨x, hx⟩ := Option.ne_none_iff_exists'.mp hsome
      obtain ⟨⟨f, hf, _⟩, _⟩ := (hrecorded path).here x hx
      rw [hf]
      exact Option.some_ne_none f
    · cases hq

/-- What a refresh looked at is right, and so is what it left alone. -/
theorem Coherent.right_of_paths (hs : Coherent E commit s) (ht : Trusted E has head s)
    {scan : Scan}
    (hothers : ∀ q, q ∉ refreshedPaths E has head (latestSnapshot s.loadedSnapshots) s.files →
      scan.files.get? q = s.files.get? q ∧ activeAt q scan.records = activeAt q s.records)
    (hrefreshed : ∀ q ∈ refreshedPaths E has head (latestSnapshot s.loadedSnapshots) s.files,
      (Kept E head (rebuilds E has (latestSnapshot s.loadedSnapshots)) s.files q →
        Right E head s.files s.records q) → Right E head scan.files scan.records q)
    (path : Path) : Right E head scan.files scan.records path := by
  have hkept : Kept E head (rebuilds E has (latestSnapshot s.loadedSnapshots)) s.files path →
      Right E head s.files s.records path :=
    fun h => hs.right_of_kept (ht.stored (Or.inr h.1)) h
  by_cases hpath : path ∈ refreshedPaths E has head (latestSnapshot s.loadedSnapshots) s.files
  · exact hrefreshed path hpath hkept
  obtain ⟨hfile, hactive⟩ := hothers path hpath
  suffices h : Right E head s.files s.records path from h.congr hfile hactive
  cases hlatest : latestSnapshot s.loadedSnapshots with
  | none =>
    -- a path that is not tracked
    rw [hlatest] at hpath
    refine ⟨fun _ => ht.tracked hlatest path hpath, fun x hx => ?_⟩
    rw [expected_of_untracked hpath] at hx
    cases hx
  | some p =>
    obtain ⟨l, hl⟩ := getLast?_of_latest hlatest
    obtain ⟨hcommit, hwhole⟩ := hs.last l hl
    have hprevious : p.indexedCommitSha = commit := (ht.latest p l hlatest hl).symm.trans hcommit
    unfold refreshedPaths at hpath
    rw [hlatest] at hpath
    dsimp only at hpath
    by_cases hrebuild : rebuilds E has (some p) = true
    · -- a path that is neither tracked nor in the inventory
      rw [if_pos hrebuild, List.mem_insertionSort, List.mem_dedup, List.mem_append, not_or]
        at hpath
      have hnone : s.files.get? path = none := by
        by_contra hsome
        obtain ⟨f, hf⟩ := Option.ne_none_iff_exists'.mp hsome
        exact hpath.2 (List.mem_map.mpr ⟨f, Table.mem_of_get? hf, Table.key_of_get? hf⟩)
      have hgone : expected E commit path = none := by
        by_contra hsome
        exact hwhole path hsome hnone
      refine ⟨fun _ => ⟨hnone, ?_⟩, fun x hx => ?_⟩
      · rcases hs.items path with hactive | ⟨x, _, hx, _⟩
        · exact hactive
        · rw [hgone] at hx
          cases hx
      · rw [expected_of_untracked hpath.1] at hx
        cases hx
    · -- a path that both commits have alike
      rw [if_neg hrebuild, hprevious] at hpath
      have hstored := ht.stored (Or.inr (by rw [hlatest]; simpa using hrebuild))
      obtain ⟨hgone, hhere⟩ :=
        hs.recorded_of_same (expected_of_unchanged hpath) (hwhole path) hstored
      refine ⟨hgone, fun x hx => ?_⟩
      obtain ⟨hfile, m, hactive, hrereads⟩ := hhere x hx
      exact ⟨hfile, m, hactive, hrereads.tells hx⟩

/-- A refresh that may trust the cache records the commit. -/
theorem Coherent.refresh (hs : Coherent E commit s) (ht : Trusted E has head s)
    (h : refresh E ids now origin has head s = .ok s') :
    Coherent E head s' ∧ ∀ path, Recorded E head s' path := by
  unfold SourceProjection.refresh at h
  dsimp only at h
  by_cases hreuses : reuses E head (latestSnapshot s.loadedSnapshots) = true
  · -- the snapshot is of the commit, and so is the cache
    rw [if_pos hreuses] at h
    obtain rfl := Except.ok.inj h
    cases hlatest : latestSnapshot s.loadedSnapshots with
    | none =>
      rw [hlatest] at hreuses
      cases hreuses
    | some p =>
      obtain ⟨l, hl⟩ := getLast?_of_latest hlatest
      obtain ⟨hcommit, hwhole⟩ := hs.last l hl
      have hhead : p.indexedCommitSha = head := by
        rw [hlatest] at hreuses
        exact of_decide_eq_true (Bool.and_eq_true_iff.mp hreuses).1
      obtain rfl : commit = head :=
        hcommit.symm.trans ((ht.latest p l hlatest hl).trans hhead)
      exact ⟨hs, fun path =>
        hs.recorded_of_same rfl (hwhole path) (ht.stored (Or.inl hreuses))⟩
  rw [if_neg hreuses] at h
  obtain ⟨scan, hscan, hfinish⟩ := Outcome.bind_eq_ok.mp h
  obtain ⟨hdistinct, hothers, hrefreshed⟩ := foldlM_refreshPath hs.distinct hscan
  have hright := hs.right_of_paths ht hothers hrefreshed
  obtain ⟨hd, hinventory, ⟨p, hsnapshots, hp, hprint⟩, hrecorded⟩ :=
    Scan.finish_recorded hdistinct hfinish hright
  refine ⟨coherent_of_recorded hd hrecorded hsnapshots (fun q hq => ?_) hp, hrecorded⟩
  rw [hsnapshots] at hq
  rcases List.mem_append.mp hq with hold | hnew
  · refine hs.fingerprints q ?_
    unfold Store.loadedSnapshots at hold
    split_ifs at hold
    · exact hold
    · cases hold
  · rw [List.mem_singleton.mp hnew, hprint, hp]

theorem coherent_empty (commit : String) : Coherent E commit {} where
  distinct := List.nodup_nil
  files path f hf := by cases hf
  items path := Or.inl rfl
  fingerprints p hp := by cases hp
  last p hp := by cases hp

/-- An empty cache may be trusted. -/
theorem trusted_empty (has : String → Bool) (head : String) : Trusted E has head {} where
  latest p l hp := by cases hp
  stored _ path f x hf := by cases hf
  tracked _ path _ := ⟨rfl, rfl⟩

/-- Every run whose refreshes may trust the cache leaves it coherent. -/
theorem coherent_of_run {w₀ w : World} (hempty : w₀.store = {})
    (hrun : Relation.ReflTransGen
      (Step E fun w => Trusted E w.has w.head w.store) w₀ w) :
    ∃ commit, Coherent E commit w.store := by
  have hstart : ∃ commit, Coherent E commit w₀.store := by
    rw [hempty]
    exact ⟨"", coherent_empty ""⟩
  have hstep : System.Preserved (Step E fun w => Trusted E w.has w.head w.store)
      fun w => ∃ commit, Coherent E commit w.store := by
    rintro w w' ⟨commit, hs⟩ hstep
    cases hstep with
    | moves head has => exact ⟨commit, hs⟩
    | deletes keep snapshots inventory => exact ⟨commit, hs.delete keep snapshots inventory⟩
    | refreshes hok h => exact ⟨w.head, (hs.refresh hok h).1⟩
  exact hstep.run hrun hstart

end Runs

/-! ## A refresh and a scan from scratch -/

/-- What the inventory has of a path: the digest, the language, the role. -/
def Store.fileAt (s : Store) (path : Path) : Option (String × Option String × String) :=
  (s.files.get? path).map fun f => (f.contentHash, f.language, f.role)

/-- What the active records of a file are: the digest, the type, the content. -/
def Store.itemsAt (s : Store) (path : Path) : List (String × MemoryType × List Char) :=
  (activeAt path s.records).map fun m => (m.contentHash, m.type, m.content)

/-- What a commit has of a path is all there is to see of it. -/
theorem Recorded.view {E : MemoryService} {commit : String} {s : Store} {path : Path}
    (h : Recorded E commit s path) :
    s.fileAt path = (expected E commit path).map (fun x => (x.contentHash, x.language, x.role)) ∧
    s.itemsAt path = (expected E commit path).toList.map
      (fun x => (x.contentHash, x.memoryType, reread path x.summary)) ∧
    ((s.files.get? path).isSome = true → (activeAt path s.records).length = 1) := by
  unfold Store.fileAt Store.itemsAt
  cases hx : expected E commit path with
  | none =>
    obtain ⟨hfile, hitems⟩ := h.gone hx
    rw [hfile, hitems]
    exact ⟨rfl, rfl, fun hsome => by cases hsome⟩
  | some x =>
    obtain ⟨⟨f, hf, hlanguage, hrole, hhash⟩, m, hm, htype, _, hdigest, hcontent⟩ := h.here x hx
    rw [hf, hm]
    refine ⟨?_, ?_, fun _ => rfl⟩
    · rw [Option.map_some, Option.map_some, hlanguage, hrole, hhash]
    · rw [Option.toList_some, List.map_singleton, List.map_singleton, htype, hdigest, hcontent]

/-- In every run of refreshes, moves of the repository and deletions whose refreshes may trust
the cache, each refresh leaves what a first refresh of an empty cache records for the commit, and
one active record for each file of the inventory. -/
theorem refresh_equals_scan {E : MemoryService} {w₀ w : World} {ids ids' : Nat → UUID}
    {now now' : Time} {origin origin' : Option UUID} {s s' : Store}
    (hempty : w₀.store = {})
    (hrun : Relation.ReflTransGen (Step E fun w => Trusted E w.has w.head w.store) w₀ w)
    (htrusted : Trusted E w.has w.head w.store)
    (hrefresh : refresh E ids now origin w.has w.head w.store = .ok s)
    (hscan : refresh E ids' now' origin' w.has w.head {} = .ok s') (path : Path) :
    s.fileAt path = s'.fileAt path ∧ s.itemsAt path = s'.itemsAt path ∧
      ((s.files.get? path).isSome = true → (activeAt path s.records).length = 1) := by
  obtain ⟨commit, hs⟩ := coherent_of_run hempty hrun
  obtain ⟨hfile, hitems, hone⟩ := ((hs.refresh htrusted hrefresh).2 path).view
  obtain ⟨hfile', hitems', _⟩ :=
    (((coherent_empty "").refresh (trusted_empty w.has w.head) hscan).2 path).view
  exact ⟨hfile.trans hfile'.symm, hitems.trans hitems'.symm, hone⟩

/-! ## The records alone are deleted -/

/-- The one file of the sample. -/
def samplePath : Path := "a.py".toList

/-- What there is to index of it. -/
def sampleIndexed : Indexed where
  contentHash := "d0"
  language := some "Python"
  role := "source"
  memoryType := .repositoryMap
  summary := "source: a.py.".toList

/-- A service over a repository that has one file at every commit. -/
def sampleService : MemoryService where
  git :=
    { trackedFiles := fun _ => [samplePath]
      readFileIfPresent := fun _ path => if path = samplePath then some [] else none
      changedFiles := fun _ _ => []
      tracked := by
        intro _ path h
        by_contra hne
        exact h (if_neg fun heq => hne (List.mem_singleton.mpr heq))
      changed := fun _ _ _ _ => rfl }
  indexer :=
    { allows := fun _ => true
      index := fun _ _ => some sampleIndexed
      faithful := fun _ _ _ _ _ hx hy _ => Option.some.inj (hx.symm.trans hy)
      summarised := by
        intro _ _ x hx
        obtain rfl := Option.some.inj hx
        decide }
  projectId := .uuid4 0
  projectName := "Orqalis".toList
  fingerprint := id
  digest := id
  safe := fun _ => true

/-- The first refresh of the sample. -/
def sampleRefreshed : Store :=
  match refresh sampleService .uuid4 1 none (fun _ => true) "c1" {} with
  | .ok s => s
  | .error _ => {}

theorem refresh_sample :
    refresh sampleService .uuid4 1 none (fun _ => true) "c1" {} = .ok sampleRefreshed := rfl

/-- The repository of the sample at its first commit, with an empty cache. -/
def sampleWorld : World where
  head := "c1"
  has := fun _ => true
  store := {}

/-- The sample without its records and its inventory is scanned again. -/
theorem sample_scanned_again : ∃ s,
    refresh sampleService .uuid4 2 none (fun _ => true) "c1"
      (sampleRefreshed.delete (fun _ => false) false true) = .ok s ∧
    s.itemsAt samplePath = sampleRefreshed.itemsAt samplePath := by
  obtain ⟨s, hs⟩ : ∃ s, refresh sampleService .uuid4 2 none (fun _ => true) "c1"
      (sampleRefreshed.delete (fun _ => false) false true) = .ok s := ⟨_, rfl⟩
  refine ⟨s, hs, ?_⟩
  have hrun : Relation.ReflTransGen
      (Step sampleService fun w => Trusted sampleService w.has w.head w.store) sampleWorld
      { sampleWorld with store := sampleRefreshed.delete (fun _ => false) false true } :=
    (Relation.ReflTransGen.single
      (Step.refreshes (w := sampleWorld) (trusted_empty _ _) refresh_sample)).tail
      (.deletes (fun _ => false) false true)
  have htrusted : Trusted sampleService (fun _ => true) "c1"
      (sampleRefreshed.delete (fun _ => false) false true) :=
    ⟨fun p l hp => by (cases hp), fun _ path f x hf => by (cases hf), fun _ path _ => ⟨rfl, rfl⟩⟩
  exact (refresh_equals_scan rfl hrun htrusted hs refresh_sample samplePath).2.1

/-- Where only the records were deleted, a refresh does not bring them back. -/
theorem records_stay_lost : ¬ ∀ (E : MemoryService) (w₀ w : World) (ids ids' : Nat → UUID)
    (now now' : Time) (s s' : Store), w₀.store = {} →
    Relation.ReflTransGen (Step E fun _ => True) w₀ w →
    refresh E ids now none w.has w.head w.store = .ok s →
    refresh E ids' now' none w.has w.head {} = .ok s' →
    ∀ path, s.itemsAt path = s'.itemsAt path := by
  intro hall
  have hrun : Relation.ReflTransGen (Step sampleService fun _ => True) sampleWorld
      { sampleWorld with store := sampleRefreshed.delete (fun _ => false) false false } :=
    (Relation.ReflTransGen.single
      (Step.refreshes (w := sampleWorld) True.intro refresh_sample)).tail
      (.deletes (fun _ => false) false false)
  have hreuses : reuses sampleService "c1" (latestSnapshot
      (sampleRefreshed.delete (fun _ => false) false false).loadedSnapshots) = true := by
    decide
  have hreused : refresh sampleService .uuid4 2 none (fun _ => true) "c1"
      (sampleRefreshed.delete (fun _ => false) false false) =
      .ok (sampleRefreshed.delete (fun _ => false) false false) := by
    unfold refresh
    dsimp only
    rw [if_pos hreuses]
  have hsame := hall sampleService sampleWorld _ .uuid4 .uuid4 2 1 _ _ rfl hrun hreused
    refresh_sample samplePath
  have hone := (((coherent_empty "").refresh (trusted_empty _ _) refresh_sample).2
    samplePath).view.2.1
  rw [← hsame] at hone
  exact absurd hone (by decide)

end SourceProjection

end Orqalis
